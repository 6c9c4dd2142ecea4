import ThreeAddress.Proofs.StoredTexts
import ThreeAddress.Session

/-
  This file shows that a session runs the latest program on
  the latest input, whatever it was asked before: what a run
  gives can be read off the history of the session.

  A session keeps a handle and a store, and neither the text
  that was compiled last nor the results of its compilations.
  They are tied together by the map of texts that the store
  stands for, which holds the texts that were compiled.

  Key definitions include:
    * `Session.Request`, `Session.Exchange`
    * `Session.serve`, `Session.exchanges`
    * `Session.latestCompile?`, `Session.latestInput`
    * `Session.Follows`

  Main statements:
    * `Session.Follows.serve`
    * `Session.Follows.exists_of_exchanges`
    * `session_runs_latest_program_on_latest_input`
-/

namespace ThreeAddress

namespace Session

variable {digest : String → Digest}

------------------------------------------------------------
-- Histories
------------------------------------------------------------

/- What can be asked of a session. -/
inductive Request where
| compile (text : String)
| stage (input : String)
| run (rounds : Nat)
deriving DecidableEq

/- A request that was served, with what it gave. -/
inductive Exchange where
| compiled (text : String) (result : CompileResult)
| staged (input : String)
| ran (rounds : Nat) (result : Except StoreError (Option Report))
deriving DecidableEq

/- Serve a request. -/
def serve (s : Session digest) : Request → Exchange × Session digest
| .compile text => (.compiled text (s.compile text).1, (s.compile text).2)
| .stage input => (.staged input, s.stage input)
| .run rounds => (.ran rounds (s.run rounds), s)

/- Serve one request after the other. -/
def exchanges (s : Session digest) : List Request → List Exchange
| [] => []
| request :: rest =>
    (s.serve request).1 :: (s.serve request).2.exchanges rest

/- The text and the result of a compilation. -/
def Exchange.compilation? : Exchange → Option (String × CompileResult)
| .compiled text result => some (text, result)
| _ => none

/- The input that was staged. -/
def Exchange.input? : Exchange → Option String
| .staged input => some input
| _ => none

/- The most recent compilation of a history. -/
def latestCompile? (history : List Exchange) :
    Option (String × CompileResult) :=
  (history.filterMap Exchange.compilation?).getLast?

/- The most recently staged input, empty if there is none. -/
def latestInput (history : List Exchange) : String :=
  (history.filterMap Exchange.input?).getLast?.getD ""

/-
  There is no program to run: no text was compiled, or the
  most recent one was refused.
-/
def NothingToRun (history : List Exchange) : Prop :=
  latestCompile? history = none ∨
    (∃ text d, latestCompile? history = some (text, .rejected d)) ∨
    ∃ text handle, latestCompile? history = some (text, .collision handle)

/- The program of the text was compiled to the handle. -/
def Accepted
    (history : List Exchange)
    (text : String)
    (handle : Handle) : Prop :=
  ∃ functions, .compiled text (.compiled handle functions) ∈ history

theorem latestCompile?_concat
    (history : List Exchange)
    (e : Exchange) :
    latestCompile? (history ++ [e]) =
      e.compilation?.or (latestCompile? history) := by
  cases e <;> simp [latestCompile?, Exchange.compilation?]

theorem latestInput_concat
    (history : List Exchange)
    (e : Exchange) :
    latestInput (history ++ [e]) =
      e.input?.getD (latestInput history) := by
  cases e <;> simp [latestInput, Exchange.input?]

/- The most recent compilation is one of the history. -/
theorem mem_of_latestCompile?
    {history : List Exchange}
    {text : String}
    {result : CompileResult}
    (h : latestCompile? history = some (text, result)) :
    .compiled text result ∈ history := by
  have hMem := List.mem_of_getLast? h
  rcases List.mem_filterMap.mp hMem with ⟨e, he, hText⟩
  cases e with
  | compiled text' result' =>
      cases hText
      exact he
  | staged input => cases hText
  | ran rounds result' => cases hText

theorem nothingToRun_or_compiled
    (history : List Exchange) :
    NothingToRun history ∨
      ∃ text handle functions,
        latestCompile? history =
          some (text, .compiled handle functions) := by
  cases hLatest : latestCompile? history with
  | none => exact .inl (.inl hLatest)
  | some compilation =>
      rcases compilation with ⟨text, result⟩
      cases result with
      | compiled handle functions =>
          exact .inr ⟨text, handle, functions, rfl⟩
      | rejected d => exact .inl (.inr (.inl ⟨text, d, hLatest⟩))
      | collision handle =>
          exact .inl (.inr (.inr ⟨text, handle, hLatest⟩))

theorem accepted_concat_iff
    {history : List Exchange}
    {e : Exchange}
    {text : String}
    {handle : Handle} :
    Accepted (history ++ [e]) text handle ↔
      Accepted history text handle ∨
        ∃ functions, e = .compiled text (.compiled handle functions) := by
  simp only [Accepted, List.mem_append, List.mem_singleton, exists_or,
    eq_comm]

------------------------------------------------------------
-- Sessions That Follow a History
------------------------------------------------------------

/-
  A session is where a history leads to. Its store stands for
  the map of the texts that were compiled, and its program is
  that of the most recent compilation, if this went through.
-/
structure Follows
    (config : Config)
    (texts : Set String)
    (s : Session digest)
    (history : List Exchange)
    (m : Texts) : Prop where
  store : s.store.Represents config texts m
  stored :
    ∀ handle text,
      m.lookup handle = some text ↔ Accepted history text handle
  current :
    s.current =
      (latestCompile? history).bind fun (_, result) => handle? result
  input : s.input = latestInput history

namespace Follows

variable {config : Config} {texts : Set String}
variable {s : Session digest} {history : List Exchange} {m : Texts}

theorem empty
    (digest : String → Digest)
    (config : Config)
    (texts : Set String) :
    (Session.empty digest config).Follows config texts [] ∅ where
  store := .empty digest config texts
  stored := by
    intro handle text
    simp [Accepted]
  current := rfl
  input := rfl

/- A request that compiles nothing leaves the store as it was. -/
theorem stored_concat
    (h : s.Follows config texts history m)
    {e : Exchange}
    (hNothing : ∀ text handle functions,
      e ≠ .compiled text (.compiled handle functions)) :
    ∀ handle text,
      m.lookup handle = some text ↔
        Accepted (history ++ [e]) text handle := by
  intro handle text
  rw [accepted_concat_iff, h.stored]
  constructor
  · exact .inl
  · rintro (hBefore | ⟨functions, hText⟩)
    · exact hBefore
    · exact absurd hText (hNothing text handle functions)

/- A text that is compiled is stored under its handle. -/
theorem stored_insert
    (h : s.Follows config texts history m)
    {text : String}
    (functions : Nat)
    (hFree : ∀ other,
      m.lookup (.ofText digest text) = some other → other = text) :
    ∀ handle other,
      (m.insert (.ofText digest text) text).lookup handle = some other ↔
        Accepted
          (history ++
            [.compiled text (.compiled (.ofText digest text) functions)])
          other handle := by
  intro handle other
  rw [accepted_concat_iff, ← h.stored]
  by_cases hHandle : handle = .ofText digest text
  · subst hHandle
    rw [Finmap.lookup_insert]
    constructor
    · intro hSame
      cases hSame
      exact .inr ⟨functions, rfl⟩
    · rintro (hBefore | ⟨_, hText⟩)
      · rw [hFree other hBefore]
      · cases hText
        rfl
  · rw [Finmap.lookup_insert_of_ne m hHandle]
    constructor
    · exact .inl
    · rintro (hBefore | ⟨_, hText⟩)
      · exact hBefore
      · cases hText
        exact absurd rfl hHandle

/- The answer to a compilation is that of the map of texts. -/
theorem exists_answers
    (h : s.Follows config texts history m)
    (hDigests : Set.InjOn digest texts)
    {text : String}
    (hGiven : text ∈ texts) :
    ∃ m',
      m.Answers digest config (.compile text)
          (.compiled (s.compile text).1) m' ∧
        (s.compile text).2.store.Represents config texts m' := by
  have hTexts : ∀ other,
      ThreeAddress.Request.compile text = .compile other →
        other ∈ texts := by
    rintro other hSame
    cases hSame
    exact hGiven
  rcases h.store.answers_respond hDigests hTexts with ⟨m', hAnswer⟩
  exact ⟨m', hAnswer,
    (h.store.respond_of_answers hDigests hTexts hAnswer).2⟩

theorem compile
    (h : s.Follows config texts history m)
    (hDigests : Set.InjOn digest texts)
    {text : String}
    (hGiven : text ∈ texts) :
    ∃ m',
      (s.compile text).2.Follows config texts
        (history ++ [.compiled text (s.compile text).1]) m' := by
  rcases h.exists_answers hDigests hGiven with ⟨m', hAnswer, hStore⟩
  refine ⟨m', hStore, ?_, ?_, ?_⟩
  · generalize (s.compile text).1 = result at hAnswer
    cases hAnswer with
    | syntaxError _ => exact h.stored_concat nofun
    | rejection _ _ => exact h.stored_concat nofun
    | collision _ _ _ _ => exact h.stored_concat nofun
    | compiled _ _ hFree => exact h.stored_insert _ hFree
  · rw [latestCompile?_concat]
    rfl
  · rw [latestInput_concat]
    exact h.input

/- Whatever is asked of it, a session follows its history. -/
theorem serve
    (h : s.Follows config texts history m)
    (hDigests : Set.InjOn digest texts)
    {request : Request}
    (hGiven : ∀ text, request = .compile text → text ∈ texts) :
    ∃ m',
      (s.serve request).2.Follows config texts
        (history ++ [(s.serve request).1]) m' := by
  cases request with
  | compile text => exact h.compile hDigests (hGiven text rfl)
  | stage input =>
      refine ⟨m, h.store, h.stored_concat nofun, ?_, ?_⟩
      · rw [latestCompile?_concat]
        exact h.current
      · rw [latestInput_concat]
        rfl
  | run rounds =>
      refine ⟨m, h.store, h.stored_concat nofun, ?_, ?_⟩
      · rw [latestCompile?_concat]
        exact h.current
      · rw [latestInput_concat]
        exact h.input

/-
  Each exchange of a session is that of a session which
  follows the history before it.
-/
theorem exists_of_exchanges
    (h : s.Follows config texts history m)
    (hDigests : Set.InjOn digest texts)
    {requests : List Request}
    (hGiven : ∀ text, .compile text ∈ requests → text ∈ texts)
    {before after : List Exchange}
    {e : Exchange}
    (hSplit : s.exchanges requests = before ++ e :: after) :
    ∃ (s' : Session digest) (m' : Texts) (request : Request),
      s'.Follows config texts (history ++ before) m' ∧
        request ∈ requests ∧
        (s'.serve request).1 = e := by
  induction before generalizing s history m requests with
  | nil =>
      cases requests with
      | nil => cases hSplit
      | cons request requests =>
          cases hSplit
          rw [List.append_nil]
          exact ⟨s, m, request, h, List.mem_cons_self, rfl⟩
  | cons first before ih =>
      cases requests with
      | nil => cases hSplit
      | cons request requests =>
          have hHead : ∀ text, request = .compile text → text ∈ texts := by
            rintro text rfl
            exact hGiven text List.mem_cons_self
          have hTail : ∀ text, .compile text ∈ requests → text ∈ texts := by
            intro text hText
            exact hGiven text (List.mem_cons_of_mem request hText)
          rw [exchanges, List.cons_append, List.cons.injEq] at hSplit
          rcases h.serve hDigests hHead with ⟨m₁, hNext⟩
          rcases ih hNext hTail hSplit.2 with
            ⟨s', m', request', hFollows, hMem, hServed⟩
          rw [hSplit.1, List.append_assoc] at hFollows
          exact ⟨s', m', request', hFollows,
            List.mem_cons_of_mem request hMem, hServed⟩

------------------------------------------------------------
-- What Requests Give
------------------------------------------------------------

/- Without a program that was compiled, nothing is run. -/
theorem run_of_nothingToRun
    (h : s.Follows config texts history m)
    (hNothing : NothingToRun history)
    (rounds : Nat) :
    s.run rounds = .error .nothingCompiled := by
  have hCurrent := h.current
  rcases hNothing with hNone | ⟨text, d, hLatest⟩ | ⟨text, handle, hLatest⟩
  · rw [hNone] at hCurrent
    rw [Session.run, hCurrent]
    rfl
  · rw [hLatest] at hCurrent
    rw [Session.run, hCurrent]
    rfl
  · rw [hLatest] at hCurrent
    rw [Session.run, hCurrent]
    rfl

/- The program that was compiled last is run, on the latest input. -/
theorem run_of_compiled
    (h : s.Follows config texts history m)
    {text : String}
    {handle : Handle}
    {functions : Nat}
    (hLatest : latestCompile? history =
      some (text, .compiled handle functions))
    (rounds : Nat) :
    ∃ p exe,
      assemble text = .ok p ∧
        verify p = .ok exe ∧
        s.run rounds =
          .ok (evaluate exe (latestInput history) config rounds) := by
  have hStored : m.lookup handle = some text :=
    (h.stored handle text).mpr ⟨functions, mem_of_latestCompile? hLatest⟩
  rcases h.store.compiles handle text hStored with
    ⟨p, exe, hAssembled, hVerified⟩
  have hCurrent : s.current = some handle := by
    rw [h.current, hLatest]
    rfl
  refine ⟨p, exe, hAssembled, hVerified, ?_⟩
  simp only [Session.run, hCurrent, Store.execute,
    h.store.executable_eq hStored hAssembled hVerified, h.store.config,
    h.input]

/- A run is refused just when there is nothing to run. -/
theorem run_eq_nothingCompiled_iff
    (h : s.Follows config texts history m)
    (rounds : Nat) :
    s.run rounds = .error .nothingCompiled ↔ NothingToRun history := by
  constructor
  · intro hRun
    rcases nothingToRun_or_compiled history with
      hNothing | ⟨text, handle, functions, hLatest⟩
    · exact hNothing
    · rcases h.run_of_compiled hLatest rounds with ⟨p, exe, _, _, hOk⟩
      rw [hRun] at hOk
      cases hOk
  · intro hNothing
    exact h.run_of_nothingToRun hNothing rounds

/- The handle of the program is always a known one. -/
theorem run_ne_unknownHandle
    (h : s.Follows config texts history m)
    (rounds : Nat)
    (handle : Handle) :
    s.run rounds ≠ .error (.unknownHandle handle) := by
  intro hRun
  rcases nothingToRun_or_compiled history with
    hNothing | ⟨text, handle', functions, hLatest⟩
  · rw [h.run_of_nothingToRun hNothing] at hRun
    cases hRun
  · rcases h.run_of_compiled hLatest rounds with ⟨p, exe, _, _, hOk⟩
    rw [hRun] at hOk
    cases hOk

/- A text is rejected just when it cannot be compiled. -/
theorem compile_eq_rejected_iff
    (h : s.Follows config texts history m)
    (hDigests : Set.InjOn digest texts)
    {text : String}
    (hGiven : text ∈ texts) :
    (∃ d, (s.compile text).1 = .rejected d) ↔
      ¬ ∃ p exe, assemble text = .ok p ∧ verify p = .ok exe := by
  rcases h.exists_answers hDigests hGiven with ⟨m', hAnswer, _⟩
  generalize (s.compile text).1 = result at hAnswer
  cases hAnswer with
  | syntaxError hError => simp [hError]
  | rejection hAssembled hError => simp [hAssembled, hError]
  | collision hAssembled hVerified _ _ => simp [hAssembled, hVerified]
  | compiled hAssembled hVerified _ => simp [hAssembled, hVerified]

/- A text collides just when another has its handle. -/
theorem compile_eq_collision_iff
    (h : s.Follows config texts history m)
    (hDigests : Set.InjOn digest texts)
    {text : String}
    (hGiven : text ∈ texts)
    {handle : Handle} :
    (s.compile text).1 = .collision handle ↔
      handle = .ofText digest text ∧
        (∃ p exe, assemble text = .ok p ∧ verify p = .ok exe) ∧
        ∃ other, other ≠ text ∧ Accepted history other handle := by
  rcases h.exists_answers hDigests hGiven with ⟨m', hAnswer, _⟩
  simp only [← h.stored]
  generalize (s.compile text).1 = result at hAnswer
  cases hAnswer with
  | syntaxError hError => simp [hError]
  | rejection hAssembled hError => simp [hAssembled, hError]
  | @collision _ other _ _ hAssembled hVerified hTaken hOther =>
      constructor
      · intro hSame
        cases hSame
        exact ⟨rfl, ⟨_, _, hAssembled, hVerified⟩, other, hOther, hTaken⟩
      · rintro ⟨rfl, _, _⟩
        rfl
  | compiled hAssembled hVerified hFree =>
      constructor
      · intro hSame
        cases hSame
      · rintro ⟨rfl, _, other, hOther, hTaken⟩
        exact absurd (hFree other hTaken) hOther

end Follows

end Session

/-
  A session runs the latest program on the latest input. At
  each place of its history, a run gives what the text that
  was compiled last gives on the input that was staged last;
  it refuses just when no text was compiled, or when the last
  one was rejected or collided. A text is rejected when it
  cannot be compiled, and collides with an earlier one of its
  handle. Runs and inputs change neither the program nor the
  store. This holds however texts are digested.
-/
theorem session_runs_latest_program_on_latest_input
    (digest : String → Digest)
    (config : Config)
    (requests : List Session.Request)
    (hDigests :
      ∀ text other,
        .compile text ∈ requests →
        .compile other ∈ requests →
        digest text = digest other →
        text = other) :
    (∀ before rounds result after,
      (Session.empty digest config).exchanges requests =
          before ++ .ran rounds result :: after →
        (result = .error .nothingCompiled ↔
          Session.NothingToRun before) ∧
        (∀ text handle functions,
          Session.latestCompile? before =
              some (text, .compiled handle functions) →
            ∃ p exe,
              assemble text = .ok p ∧
                verify p = .ok exe ∧
                result = .ok (evaluate exe
                  (Session.latestInput before) config rounds)) ∧
        ∀ handle, result ≠ .error (.unknownHandle handle)) ∧
      (∀ before text result after,
        (Session.empty digest config).exchanges requests =
            before ++ .compiled text result :: after →
          ((∃ d, result = .rejected d) ↔
            ¬ ∃ p exe, assemble text = .ok p ∧ verify p = .ok exe) ∧
          ∀ handle, result = .collision handle ↔
            handle = .ofText digest text ∧
              (∃ p exe, assemble text = .ok p ∧ verify p = .ok exe) ∧
              ∃ other, other ≠ text ∧
                Session.Accepted before other handle) ∧
      ∀ (s : Session digest) (request : Session.Request),
        (∀ text, request ≠ .compile text) →
          (s.serve request).2.current = s.current ∧
            (s.serve request).2.store = s.store := by
  have hInjective :
      Set.InjOn digest
        {text | Session.Request.compile text ∈ requests} := by
    intro text hText other hOther hSame
    exact hDigests text other hText hOther hSame
  have hEmpty := Session.Follows.empty digest config
    {text | Session.Request.compile text ∈ requests}
  refine ⟨?_, ?_, ?_⟩
  · intro before rounds result after hSplit
    rcases hEmpty.exists_of_exchanges hInjective (fun _ h => h) hSplit with
      ⟨s, m, request, hFollows, _, hServed⟩
    cases request with
    | compile text => cases hServed
    | stage input => cases hServed
    | run rounds =>
        cases hServed
        exact ⟨hFollows.run_eq_nothingCompiled_iff rounds,
          fun _ _ _ hLatest => hFollows.run_of_compiled hLatest rounds,
          hFollows.run_ne_unknownHandle rounds⟩
  · intro before text result after hSplit
    rcases hEmpty.exists_of_exchanges hInjective (fun _ h => h) hSplit with
      ⟨s, m, request, hFollows, hMem, hServed⟩
    cases request with
    | compile text =>
        cases hServed
        exact ⟨hFollows.compile_eq_rejected_iff hInjective hMem,
          fun _ => hFollows.compile_eq_collision_iff hInjective hMem⟩
    | stage input => cases hServed
    | run rounds => cases hServed
  · intro s request hRequest
    cases request with
    | compile text => exact absurd rfl (hRequest text)
    | stage input => exact ⟨rfl, rfl⟩
    | run rounds => exact ⟨rfl, rfl⟩

/- The text of a program that prints the number it reads. -/
def echoing : String :=
  "#start_function\nvoid main():\nint-list: n\n" ++
    "callr, n, geti\ncall, puti, n\n#end_function\n"

/-
  Programs change: one is compiled, another one collides with
  it, and a third one is run.
-/
def changingPrograms : List Session.Request :=
  [ .compile (printing "9777082")
  , .compile (printing "20843693")
  , .run 3
  , .compile echoing
  , .stage "5"
  , .stage "7"
  , .run 9 ]

/- What came of it, up to the last run. -/
def changingHistory : List Session.Exchange :=
  [ .compiled (printing "9777082") (.compiled sharedHandle 1)
  , .compiled (printing "20843693") (.collision sharedHandle)
  , .ran 3 (.error .nothingCompiled)
  , .compiled echoing (.compiled ⟨"71f8c47dae4c"⟩ 1)
  , .staged "5"
  , .staged "7" ]

theorem changingPrograms_run_latest :
    (∃ p exe,
      assemble echoing = .ok p ∧
        verify p = .ok exe ∧
        evaluate exe "7" {} 9 = some ⟨"7", 2, .ok ()⟩) ∧
      Session.NothingToRun (changingHistory.take 2) ∧
      ∃ other, other ≠ printing "20843693" ∧
        Session.Accepted (changingHistory.take 1) other sharedHandle := by
  have hTexts :
      ∀ text, .compile text ∈ changingPrograms →
        text ∈ [printing "9777082", printing "20843693", echoing] := by
    intro text hText
    simpa [changingPrograms] using hText
  have hDifferent :
      ([printing "9777082", printing "20843693", echoing].map
        Digest.ofString).Nodup := by
    decide +kernel
  have hDigests :
      ∀ text other,
        .compile text ∈ changingPrograms →
        .compile other ∈ changingPrograms →
        Digest.ofString text = Digest.ofString other →
        text = other := by
    intro text other hText hOther hSame
    exact List.inj_on_of_nodup_map hDifferent (hTexts text hText)
      (hTexts other hOther) hSame
  have hHistory :
      (Session.empty Digest.ofString {}).exchanges changingPrograms =
        changingHistory ++
          [.ran 9 (.ok (some ⟨"7", 2, .ok ()⟩))] := by
    decide +kernel
  rcases session_runs_latest_program_on_latest_input Digest.ofString {}
    changingPrograms hDigests with ⟨hRun, hCompile, _⟩
  refine ⟨?_, ?_, ?_⟩
  · rcases (hRun changingHistory _ _ _ hHistory).2.1 _ _ _ rfl with
      ⟨p, exe, hAssembled, hVerified, hResult⟩
    exact ⟨p, exe, hAssembled, hVerified, (Except.ok.inj hResult).symm⟩
  · exact (hRun (changingHistory.take 2) _ _ _ hHistory).1.mp rfl
  · exact (((hCompile (changingHistory.take 1) _ _ _ hHistory).2
      sharedHandle).mp rfl).2.2

end ThreeAddress
