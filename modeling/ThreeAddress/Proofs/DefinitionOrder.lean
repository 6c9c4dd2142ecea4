import ThreeAddress.Proofs.RenumberedRuns
import ThreeAddress.Proofs.Safety

/-
  This file shows that the order of definitions in a program
  does not matter, neither that of the functions nor that of
  the local variables of a type: the verifier accepts all
  orders or none, and all executables behave the same.

  The executables differ in the numbers of their routines and
  slots, and their runs in where the arrays lie. Neither can
  be seen, since a fault of a verified program names no number.

  Main statements:
    * `Executable.Renumbers.evaluate_eq`
    * `definition_order_does_not_matter`
-/

namespace ThreeAddress

/- A run of a well-typed executable fails as can be expected. -/
theorem Executable.WellTyped.isExpected_of_runEntry
    {exe : Executable}
    {cfg : Config}
    {rounds : Nat}
    {input : Input}
    {e : Fault}
    {m : Machine Buffer}
    (hExe : exe.WellTyped)
    (h : Machine.runEntry exe cfg rounds (.initial input Buffer.empty) =
      some (.error e, m)) :
    e.cause.isExpected = true := by
  have hStart :
      (Run.initial input Buffer.empty).start exe cfg rounds =
        some (.error (.fault e), ⟨.failed, m⟩) := by
    simp only [Run.initial, Run.start, h]
    rfl
  rcases isExpected_of_start hExe hStart with hOk | ⟨e', hError, hExpected⟩
  · cases hOk
  · cases hError
    exact hExpected

/- Executables that are the same up to numbers behave the same. -/
theorem Executable.Renumbers.evaluate_eq
    {exe exe' : Executable}
    {T : Nat → Nat → Prop}
    (h : exe.Renumbers exe' T)
    (hExe : exe.WellTyped)
    (input : String)
    (cfg : Config)
    (rounds : Nat) :
    evaluate exe input cfg rounds = evaluate exe' input cfg rounds := by
  have hRuns := h.runEntry cfg rounds (Input.ofString input) Buffer.empty
  rw [evaluate_eq_map_runEntry, evaluate_eq_map_runEntry]
  generalize hRun : Machine.runEntry exe cfg rounds
    (.initial (Input.ofString input) Buffer.empty) = ended at hRuns ⊢
  generalize Machine.runEntry exe' cfg rounds
    (.initial (Input.ofString input) Buffer.empty) = ended' at hRuns ⊢
  cases hRuns with
  | none => rfl
  | @some outcome outcome' hAlike =>
      rcases outcome with ⟨result, m⟩
      rcases outcome' with ⟨result', m'⟩
      rcases hAlike with ⟨hResults, hConsole⟩
      have hResult : result = result' := by
        cases hResults with
        | ok _ => rfl
        | @error e e' hFaults =>
            have hCause := hFaults.2 (hExe.isExpected_of_runEntry hRun)
            rcases e with ⟨site, cause⟩
            rcases e' with ⟨site', cause'⟩
            rw [show site = site' from hFaults.1,
              show cause = cause' from hCause]
      have hOutput : m.output = m'.output := hConsole.output
      have hSteps : m.steps = m'.steps := hConsole.steps
      simp only [Option.map_some, Report.ofOutcome, hResult, hOutput,
        hSteps]

/-
  The order of definitions does not matter. Either all orders
  are accepted or none is, and the runs of two of them on the
  same input and within the same limits either both go on, or
  both end with the same output, steps and result.
-/
theorem definition_order_does_not_matter
    (p p' : Program)
    (h : p.Reordered p') :
    ((∃ exe, verify p = .ok exe) ↔ ∃ exe', verify p' = .ok exe') ∧
      ∀ exe exe',
        verify p = .ok exe →
        verify p' = .ok exe' →
        ∀ input cfg rounds,
          evaluate exe input cfg rounds =
            evaluate exe' input cfg rounds := by
  refine ⟨⟨?_, ?_⟩, ?_⟩
  · rintro ⟨exe, hVerify⟩
    exact h.exists_verify hVerify
  · rintro ⟨exe', hVerify'⟩
    exact h.symm.exists_verify hVerify'
  · intro exe exe' hVerify hVerify'
    exact (h.renumbers hVerify hVerify').evaluate_eq
      (Executable.wellTyped_of_verify hVerify)

/- A program that fills arrays of its own and of its caller. -/
def sharing : Program :=
  { functions :=
      [{ name := "main"
         returns := .void
         params := []
         ints :=
           [⟨"a", .int, some 3, 3⟩, ⟨"i", .int, none, 3⟩,
            ⟨"b", .int, some 2, 3⟩]
         floats := []
         code :=
           [⟨.callr, [.element "b" (.const 1), .function "fill",
              .var "a", .int 2], 4⟩,
            ⟨.call, [.function "puti", .element "b" (.const 1)], 5⟩,
            ⟨.load, [.var "i", .var "a", .element "b" (.const 1)], 6⟩]
         labels := []
         line := 2 },
       { name := "fill"
         returns := .value .int
         params := [⟨"v", .array .int 3⟩, ⟨"n", .scalar .int⟩]
         ints := [⟨"own", .int, some 4, 10⟩, ⟨"x", .int, none, 10⟩]
         floats := []
         code :=
           [⟨.store, [.int 7, .var "v", .var "n"], 11⟩,
            ⟨.load, [.var "x", .var "v", .int 2], 12⟩,
            ⟨.assign, [.element "own" (.const 3), .var "x"], 13⟩,
            ⟨.ret, [.element "own" (.const 3)], 14⟩]
         labels := []
         line := 9 }] }

/- The same program with its definitions in another order. -/
def sharingShuffled : Program :=
  { functions :=
      [{ name := "fill"
         returns := .value .int
         params := [⟨"v", .array .int 3⟩, ⟨"n", .scalar .int⟩]
         ints := [⟨"x", .int, none, 10⟩, ⟨"own", .int, some 4, 10⟩]
         floats := []
         code :=
           [⟨.store, [.int 7, .var "v", .var "n"], 11⟩,
            ⟨.load, [.var "x", .var "v", .int 2], 12⟩,
            ⟨.assign, [.element "own" (.const 3), .var "x"], 13⟩,
            ⟨.ret, [.element "own" (.const 3)], 14⟩]
         labels := []
         line := 9 },
       { name := "main"
         returns := .void
         params := []
         ints :=
           [⟨"b", .int, some 2, 3⟩, ⟨"a", .int, some 3, 3⟩,
            ⟨"i", .int, none, 3⟩]
         floats := []
         code :=
           [⟨.callr, [.element "b" (.const 1), .function "fill",
              .var "a", .int 2], 4⟩,
            ⟨.call, [.function "puti", .element "b" (.const 1)], 5⟩,
            ⟨.load, [.var "i", .var "a", .element "b" (.const 1)], 6⟩]
         labels := []
         line := 2 }] }

theorem sharing_order_does_not_matter :
    sharing.Reordered sharingShuffled ∧
      ∃ exe exe',
        verify sharing = .ok exe ∧
          verify sharingShuffled = .ok exe' ∧
          exe.entry ≠ exe'.entry ∧
          ∀ input cfg rounds,
            evaluate exe input cfg rounds =
              evaluate exe' input cfg rounds := by
  have hReordered : sharing.Reordered sharingShuffled := by
    refine ⟨sharingShuffled.functions.reverse, ?_, ?_⟩
    · refine .cons ⟨?_, ?_, rfl⟩ (.cons ⟨?_, ?_, rfl⟩ .nil)
      · decide
      · decide
      · decide
      · decide
    · exact List.reverse_perm _
  have hEntry : (verify sharing).toOption.map Executable.entry =
      some 0 := by
    decide
  have hEntry' : (verify sharingShuffled).toOption.map Executable.entry =
      some 1 := by
    decide
  cases hVerify : verify sharing with
  | error r =>
      rw [hVerify] at hEntry
      cases hEntry
  | ok exe =>
      cases hVerify' : verify sharingShuffled with
      | error r =>
          rw [hVerify'] at hEntry'
          cases hEntry'
      | ok exe' =>
          rw [hVerify] at hEntry
          rw [hVerify'] at hEntry'
          have hDiffer : exe.entry ≠ exe'.entry := by
            rw [Option.some.inj hEntry, Option.some.inj hEntry']
            decide
          exact ⟨hReordered, exe, exe', rfl, rfl, hDiffer,
            (definition_order_does_not_matter _ _ hReordered).2 exe exe'
              hVerify hVerify'⟩

end ThreeAddress
