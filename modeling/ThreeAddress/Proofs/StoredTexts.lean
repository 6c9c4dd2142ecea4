import Mathlib.Data.Finmap
import Mathlib.Data.Set.Function
import ThreeAddress.Proofs.Verified
import ThreeAddress.Store

/-
  This file shows that a store is a finite map from handles to
  texts: whatever is asked of it, in any order, it answers as
  the map does, although it keeps digests and executables and
  none of the texts.

  Two texts may have one handle. The answers are those of the
  map as long as no two of the compiled texts have one digest.

  Key definitions include:
    * `Request`, `Response`
    * `Store.respond`, `Store.responses`
    * `Texts`, `Texts.Answers`, `Texts.Behaves`
    * `Store.Represents`

  Main statements:
    * `Texts.Compiles.exists_answers`
    * `Store.Represents.respond_of_answers`
    * `store_behaves_as_map_of_texts`
-/

namespace ThreeAddress

variable {digest : String → Digest}

------------------------------------------------------------
-- Requests
------------------------------------------------------------

/- What can be asked of a store. -/
inductive Request where
| compile (text : String)
| release (handle : Handle)
| executable (handle : Handle)
| execute (handle : Handle) (input : String) (rounds : Nat)
| size

deriving instance DecidableEq for Report

/- What a store answers. -/
inductive Response where
| compiled (result : CompileResult)
| released (found : Bool)
| executable (result : Except StoreError Executable)
| executed (result : Except StoreError (Option Report))
| size (count : Nat)
deriving DecidableEq

namespace Store

/- The answer of a store, and the store after it. -/
def respond (s : Store digest) : Request → Response × Store digest
| .compile text => (.compiled (s.compile text).1, (s.compile text).2)
| .release handle => (.released (s.release handle).1, (s.release handle).2)
| .executable handle => (.executable (s.executable handle), s)
| .execute handle input rounds =>
    (.executed (s.execute handle input rounds), s)
| .size => (.size s.size, s)

/- The answers of a store to one request after the other. -/
def responses (s : Store digest) : List Request → List Response
| [] => []
| request :: rest =>
    (s.respond request).1 :: (s.respond request).2.responses rest

end Store

------------------------------------------------------------
-- Maps of Texts
------------------------------------------------------------

/- A finite map from handles to texts. -/
abbrev Texts : Type :=
  Finmap fun _ : Handle => String

namespace Texts

/-
  The answer of a map to a request, and the map after it. The
  executables are those of the texts.
-/
inductive Answers
    (digest : String → Digest)
    (config : Config)
    (m : Texts) : Request → Response → Texts → Prop where
| syntaxError
    {text : String}
    {e : SyntaxError}
    (assembled : assemble text = .error e) :
    Answers digest config m (.compile text)
      (.compiled (.rejected (.ofSyntaxError e))) m
| rejection
    {text : String}
    {p : Program}
    {r : Rejection}
    (assembled : assemble text = .ok p)
    (verified : verify p = .error r) :
    Answers digest config m (.compile text)
      (.compiled (.rejected (.ofRejection r))) m
| collision
    {text other : String}
    {p : Program}
    {exe : Executable}
    (assembled : assemble text = .ok p)
    (verified : verify p = .ok exe)
    (taken : m.lookup (.ofText digest text) = some other)
    (different : other ≠ text) :
    Answers digest config m (.compile text)
      (.compiled (.collision (.ofText digest text))) m
| compiled
    {text : String}
    {p : Program}
    {exe : Executable}
    (assembled : assemble text = .ok p)
    (verified : verify p = .ok exe)
    (free : ∀ other,
      m.lookup (.ofText digest text) = some other → other = text) :
    Answers digest config m (.compile text)
      (.compiled (.compiled (.ofText digest text) p.functions.length))
      (m.insert (.ofText digest text) text)
| release
    (handle : Handle) :
    Answers digest config m (.release handle)
      (.released (decide (handle ∈ m))) (m.erase handle)
| noExecutable
    {handle : Handle}
    (unknown : handle ∉ m) :
    Answers digest config m (.executable handle)
      (.executable (.error (.unknownHandle handle))) m
| executable
    {handle : Handle}
    {text : String}
    {p : Program}
    {exe : Executable}
    (known : m.lookup handle = some text)
    (assembled : assemble text = .ok p)
    (verified : verify p = .ok exe) :
    Answers digest config m (.executable handle) (.executable (.ok exe)) m
| noExecution
    {handle : Handle}
    {input : String}
    {rounds : Nat}
    (unknown : handle ∉ m) :
    Answers digest config m (.execute handle input rounds)
      (.executed (.error (.unknownHandle handle))) m
| executed
    {handle : Handle}
    {text input : String}
    {rounds : Nat}
    {p : Program}
    {exe : Executable}
    (known : m.lookup handle = some text)
    (assembled : assemble text = .ok p)
    (verified : verify p = .ok exe) :
    Answers digest config m (.execute handle input rounds)
      (.executed (.ok (evaluate exe input config rounds))) m
| size :
    Answers digest config m .size (.size m.keys.card) m

/- The answers of a map to one request after the other. -/
inductive Behaves
    (digest : String → Digest)
    (config : Config) : Texts → List Request → List Response → Prop where
| nil
    (m : Texts) :
    Behaves digest config m [] []
| cons
    {m m' : Texts}
    {request : Request}
    {response : Response}
    {requests : List Request}
    {responses : List Response}
    (head : m.Answers digest config request response m')
    (tail : Behaves digest config m' requests responses) :
    Behaves digest config m (request :: requests) (response :: responses)

/- Every text of the map can be compiled. -/
def Compiles (m : Texts) : Prop :=
  ∀ handle text, m.lookup handle = some text →
    ∃ p exe, assemble text = .ok p ∧ verify p = .ok exe

/- A map of texts that can be compiled answers every request. -/
theorem Compiles.exists_answers
    {m : Texts}
    (h : m.Compiles)
    (digest : String → Digest)
    (config : Config)
    (request : Request) :
    ∃ response m', m.Answers digest config request response m' := by
  cases request with
  | compile text =>
      cases hText : assemble text with
      | error e => exact ⟨_, _, .syntaxError hText⟩
      | ok p =>
          cases hProgram : verify p with
          | error r => exact ⟨_, _, .rejection hText hProgram⟩
          | ok exe =>
              by_cases hFree : ∀ other,
                  m.lookup (.ofText digest text) = some other → other = text
              · exact ⟨_, _, .compiled hText hProgram hFree⟩
              · push Not at hFree
                rcases hFree with ⟨other, hTaken, hOther⟩
                exact ⟨_, _, .collision hText hProgram hTaken hOther⟩
  | release handle => exact ⟨_, _, .release handle⟩
  | executable handle =>
      cases hHandle : m.lookup handle with
      | none =>
          exact ⟨_, _, .noExecutable (Finmap.lookup_eq_none.mp hHandle)⟩
      | some text =>
          rcases h handle text hHandle with ⟨p, exe, hText, hProgram⟩
          exact ⟨_, _, .executable hHandle hText hProgram⟩
  | execute handle input rounds =>
      cases hHandle : m.lookup handle with
      | none =>
          exact ⟨_, _, .noExecution (Finmap.lookup_eq_none.mp hHandle)⟩
      | some text =>
          rcases h handle text hHandle with ⟨p, exe, hText, hProgram⟩
          exact ⟨_, _, .executed hHandle hText hProgram⟩
  | size => exact ⟨_, _, .size⟩

end Texts

------------------------------------------------------------
-- Stores That Stand for Maps
------------------------------------------------------------

/- An artifact is made of a text. -/
structure Artifact.IsOf
    (digest : String → Digest)
    (a : Artifact)
    (text : String) : Prop where
  digest : a.digest = digest text
  compiled : compile text = .ok a.exe

/-
  A store stands for a map: under each handle it has the
  artifact of the map's text, or none. The texts are among
  those given.
-/
structure Store.Represents
    (config : Config)
    (texts : Set String)
    (s : Store digest)
    (m : Texts) : Prop where
  config : s.config = config
  handles : (s.artifacts.map Prod.fst).Nodup
  found :
    ∀ handle text, m.lookup handle = some text →
      ∃ a, s.find? handle = some a ∧ a.IsOf digest text
  absent : ∀ handle, m.lookup handle = none → s.find? handle = none
  given : ∀ handle text, m.lookup handle = some text → text ∈ texts

theorem compile_eq_ok_iff
    {text : String}
    {exe : Executable} :
    compile text = .ok exe ↔
      ∃ p, assemble text = .ok p ∧ verify p = .ok exe := by
  unfold compile
  cases assemble text with
  | error e => simp
  | ok p => cases hVerify : verify p <;> simp [hVerify]

/- An executable has a routine for each function. -/
theorem size_routines_of_verify
    {p : Program}
    {exe : Executable}
    (h : verify p = .ok exe) :
    exe.routines.size = p.functions.length := by
  rcases verify_eq_ok_iff.mp h with ⟨_, _, hRoutines⟩
  rw [← Array.length_toList, hRoutines.length_eq]

namespace Store

theorem compile_of_error
    (s : Store digest)
    {text : String}
    {d : Diagnostic}
    (h : ThreeAddress.compile text = .error d) :
    s.compile text = (.rejected d, s) := by
  simp only [Store.compile, h]

/- Only the released handle is no longer found. -/
theorem find?_release
    (s : Store digest)
    (handle k : Handle) :
    (s.release handle).2.find? k =
      if k = handle then none else s.find? k := by
  rcases s with ⟨artifacts, config⟩
  induction artifacts with
  | nil => simp [release, find?]
  | cons entry artifacts ih =>
      simp only [release, find?] at ih ⊢
      by_cases hHandle : entry.1 = handle
      · rw [List.filter_cons_of_neg (by simp [hHandle]), ih,
          List.lookup_cons]
        by_cases hKey : k = handle
        · simp [hKey]
        · have hOther : k ≠ entry.1 := by
            rw [hHandle]
            exact hKey
          simp [hKey, beq_false_of_ne hOther]
      · rw [List.filter_cons_of_pos (by simp [hHandle]),
          List.lookup_cons, List.lookup_cons, ih]
        by_cases hKey : k = entry.1
        · simp [hKey, hHandle]
        · simp [beq_false_of_ne hKey]

namespace Represents

variable {config : Config} {texts : Set String}
variable {s : Store digest} {m : Texts}

theorem empty
    (digest : String → Digest)
    (config : Config)
    (texts : Set String) :
    (Store.empty digest config).Represents config texts ∅ where
  config := rfl
  handles := List.nodup_nil
  found := by
    intro handle text hText
    rw [Finmap.lookup_empty] at hText
    cases hText
  absent := by
    intro handle _
    rfl
  given := by
    intro handle text hText
    rw [Finmap.lookup_empty] at hText
    cases hText

theorem isSome_find?_iff
    (h : s.Represents config texts m)
    (handle : Handle) :
    (s.find? handle).isSome = true ↔ handle ∈ m := by
  rw [← Finmap.lookup_isSome]
  cases hText : m.lookup handle with
  | none => simp [h.absent handle hText]
  | some text =>
      rcases h.found handle text hText with ⟨a, ha, _⟩
      simp [ha]

/- The texts of the map can be compiled. -/
theorem compiles
    (h : s.Represents config texts m) :
    m.Compiles := by
  intro handle text hText
  rcases h.found handle text hText with ⟨a, _, hArtifact⟩
  rcases compile_eq_ok_iff.mp hArtifact.compiled with ⟨p, hp⟩
  exact ⟨p, a.exe, hp⟩

/- The store has as many artifacts as the map has handles. -/
theorem size_eq
    (h : s.Represents config texts m) :
    s.size = m.keys.card := by
  have hKeys : m.keys = (s.artifacts.map Prod.fst).toFinset := by
    ext handle
    rw [Finmap.mem_keys, ← h.isSome_find?_iff, List.mem_toFinset,
      find?, ← Option.ne_none_iff_isSome, Ne, List.lookup_eq_none_iff]
    simp [@eq_comm _ handle]
  rw [hKeys, List.toFinset_card_of_nodup h.handles, List.length_map, size]

/- The artifact of a handle is that of the map's text. -/
theorem executable_eq
    (h : s.Represents config texts m)
    {handle : Handle}
    {text : String}
    {p : Program}
    {exe : Executable}
    (hText : m.lookup handle = some text)
    (hAssembled : assemble text = .ok p)
    (hVerified : verify p = .ok exe) :
    s.executable handle = .ok exe := by
  rcases h.found handle text hText with ⟨a, ha, hArtifact⟩
  have hSame := hArtifact.compiled
  rw [compile_eq_ok_iff.mpr ⟨p, hAssembled, hVerified⟩] at hSame
  rw [executable, ha, Except.ok.inj hSame]

theorem executable_eq_error
    (h : s.Represents config texts m)
    {handle : Handle}
    (hUnknown : handle ∉ m) :
    s.executable handle = .error (.unknownHandle handle) := by
  rw [executable, h.absent handle (Finmap.lookup_eq_none.mpr hUnknown)]

------------------------------------------------------------
-- Changes of a Store
------------------------------------------------------------

/- A new text is stored under its handle. -/
theorem insert
    (h : s.Represents config texts m)
    {text : String}
    {exe : Executable}
    (hGiven : text ∈ texts)
    (hFree : m.lookup (.ofText digest text) = none)
    (hCompiled : ThreeAddress.compile text = .ok exe) :
    Represents config texts
      ({ s with
        artifacts :=
          (.ofText digest text, ⟨digest text, exe⟩) :: s.artifacts } :
        Store digest)
      (m.insert (.ofText digest text) text) := by
  constructor
  case config => exact h.config
  case handles =>
    have hNew := List.lookup_eq_none_iff.mp (h.absent _ hFree)
    rw [List.map_cons, List.nodup_cons]
    refine ⟨?_, h.handles⟩
    intro hMem
    rcases List.mem_map.mp hMem with ⟨entry, hEntry, hKey⟩
    simpa [hKey] using hNew entry hEntry
  case found =>
    intro k other hOther
    by_cases hKey : k = .ofText digest text
    · subst hKey
      rw [Finmap.lookup_insert] at hOther
      cases hOther
      exact ⟨_, List.lookup_cons_self, rfl, hCompiled⟩
    · rw [Finmap.lookup_insert_of_ne m hKey] at hOther
      rcases h.found k other hOther with ⟨a, ha, hArtifact⟩
      refine ⟨a, ?_, hArtifact⟩
      rw [find?, List.lookup_cons, beq_false_of_ne hKey]
      exact ha
  case absent =>
    intro k hNone
    by_cases hKey : k = .ofText digest text
    · subst hKey
      rw [Finmap.lookup_insert] at hNone
      cases hNone
    · rw [Finmap.lookup_insert_of_ne m hKey] at hNone
      rw [find?, List.lookup_cons, beq_false_of_ne hKey]
      exact h.absent k hNone
  case given =>
    intro k other hOther
    by_cases hKey : k = .ofText digest text
    · subst hKey
      rw [Finmap.lookup_insert] at hOther
      cases hOther
      exact hGiven
    · rw [Finmap.lookup_insert_of_ne m hKey] at hOther
      exact h.given k other hOther

/- A text that is stored may be stored again. -/
theorem insert_same
    (h : s.Represents config texts m)
    {handle : Handle}
    {text : String}
    (hText : m.lookup handle = some text) :
    s.Represents config texts (m.insert handle text) := by
  have hSame : m.insert handle text = m := by
    apply Finmap.ext_lookup
    intro k
    by_cases hKey : k = handle
    · rw [hKey, Finmap.lookup_insert, hText]
    · rw [Finmap.lookup_insert_of_ne m hKey]
  rw [hSame]
  exact h

/- A handle is released together with its text. -/
theorem erase
    (h : s.Represents config texts m)
    (handle : Handle) :
    (s.release handle).2.Represents config texts (m.erase handle) := by
  have hLookup :
      ∀ k text, (m.erase handle).lookup k = some text →
        k ≠ handle ∧ m.lookup k = some text := by
    intro k text hText
    have hKey : k ≠ handle := by
      rintro rfl
      rw [Finmap.lookup_erase] at hText
      cases hText
    rw [Finmap.lookup_erase_ne hKey] at hText
    exact ⟨hKey, hText⟩
  constructor
  case config => exact h.config
  case handles =>
    apply List.Sublist.nodup _ h.handles
    exact List.Sublist.map Prod.fst List.filter_sublist
  case found =>
    intro k text hText
    rcases hLookup k text hText with ⟨hKey, hBefore⟩
    rw [find?_release, if_neg hKey]
    exact h.found k text hBefore
  case absent =>
    intro k hNone
    rw [find?_release]
    by_cases hKey : k = handle
    · rw [if_pos hKey]
    · rw [Finmap.lookup_erase_ne hKey] at hNone
      rw [if_neg hKey]
      exact h.absent k hNone
  case given =>
    intro k text hText
    exact h.given k text (hLookup k text hText).2

------------------------------------------------------------
-- Answers of a Store
------------------------------------------------------------

/-
  A text is refused just when its handle has another text.
  Only this needs the digests to tell the texts apart.
-/
theorem compile_of_lookup
    (h : s.Represents config texts m)
    (hDigests : Set.InjOn digest texts)
    {text other : String}
    {exe : Executable}
    (hGiven : text ∈ texts)
    (hCompiled : ThreeAddress.compile text = .ok exe)
    (hOther : m.lookup (.ofText digest text) = some other) :
    s.compile text =
      if other = text then
        (.compiled (.ofText digest text) exe.routines.size, s)
      else
        (.collision (.ofText digest text), s) := by
  rcases h.found _ other hOther with ⟨a, ha, hArtifact⟩
  have hDigest : a.digest = digest text ↔ other = text := by
    rw [hArtifact.digest]
    exact hDigests.eq_iff (h.given _ other hOther) hGiven
  rw [Handle.ofText] at ha
  simp only [Store.compile, hCompiled, ha, hDigest]
  rfl

/- The store answers as the map that it stands for. -/
theorem respond_of_answers
    (h : s.Represents config texts m)
    (hDigests : Set.InjOn digest texts)
    {request : Request}
    {response : Response}
    {m' : Texts}
    (hGiven : ∀ text, request = .compile text → text ∈ texts)
    (hAnswer : m.Answers digest config request response m') :
    (s.respond request).1 = response ∧
      (s.respond request).2.Represents config texts m' := by
  cases hAnswer with
  | @syntaxError text e assembled =>
      have hError : ThreeAddress.compile text = .error (.ofSyntaxError e) := by
        simp only [ThreeAddress.compile, assembled]
      rw [respond, compile_of_error s hError]
      exact ⟨rfl, h⟩
  | @rejection text p r assembled verified =>
      have hError : ThreeAddress.compile text = .error (.ofRejection r) := by
        simp only [ThreeAddress.compile, assembled, verified]
      rw [respond, compile_of_error s hError]
      exact ⟨rfl, h⟩
  | @collision text other p exe assembled verified taken different =>
      have hCompiled := compile_eq_ok_iff.mpr ⟨p, assembled, verified⟩
      rw [respond, h.compile_of_lookup hDigests (hGiven text rfl)
        hCompiled taken, if_neg different]
      exact ⟨rfl, h⟩
  | @compiled text p exe assembled verified free =>
      have hCompiled := compile_eq_ok_iff.mpr ⟨p, assembled, verified⟩
      rw [← size_routines_of_verify verified]
      cases hTaken : m.lookup (.ofText digest text) with
      | none =>
          have hNew := h.absent _ hTaken
          rw [Handle.ofText] at hNew
          simp only [respond, Store.compile, hCompiled, hNew]
          exact ⟨rfl, h.insert (hGiven text rfl) hTaken hCompiled⟩
      | some other =>
          rw [respond, h.compile_of_lookup hDigests (hGiven text rfl)
            hCompiled hTaken, if_pos (free other hTaken)]
          rw [free other hTaken] at hTaken
          exact ⟨rfl, h.insert_same hTaken⟩
  | release handle =>
      have hFound : (s.find? handle).isSome = decide (handle ∈ m) := by
        rw [Bool.eq_iff_iff, h.isSome_find?_iff, decide_eq_true_iff]
      rw [respond, ← hFound]
      exact ⟨rfl, h.erase handle⟩
  | noExecutable unknown =>
      rw [respond, h.executable_eq_error unknown]
      exact ⟨rfl, h⟩
  | executable known assembled verified =>
      rw [respond, h.executable_eq known assembled verified]
      exact ⟨rfl, h⟩
  | noExecution unknown =>
      rw [respond, execute, h.executable_eq_error unknown]
      exact ⟨rfl, h⟩
  | executed known assembled verified =>
      rw [respond, execute, h.executable_eq known assembled verified,
        h.config]
      exact ⟨rfl, h⟩
  | size =>
      rw [respond, h.size_eq]
      exact ⟨rfl, h⟩

/- Each request is answered, as the map answers it. -/
theorem answers_respond
    (h : s.Represents config texts m)
    (hDigests : Set.InjOn digest texts)
    {request : Request}
    (hGiven : ∀ text, request = .compile text → text ∈ texts) :
    ∃ m', m.Answers digest config request (s.respond request).1 m' := by
  rcases h.compiles.exists_answers digest config request with
    ⟨response, m', hAnswer⟩
  rw [(h.respond_of_answers hDigests hGiven hAnswer).1]
  exact ⟨m', hAnswer⟩

/- From there on, the answers are those of the map. -/
theorem responses_eq_iff
    (h : s.Represents config texts m)
    (hDigests : Set.InjOn digest texts)
    {requests : List Request}
    (hGiven : ∀ text, .compile text ∈ requests → text ∈ texts)
    {responses : List Response} :
    s.responses requests = responses ↔
      m.Behaves digest config requests responses := by
  induction requests generalizing s m responses with
  | nil =>
      constructor
      · rintro rfl
        exact .nil m
      · intro hBehaves
        cases hBehaves
        rfl
  | cons request requests ih =>
      have hHead : ∀ text, request = .compile text → text ∈ texts := by
        rintro text rfl
        exact hGiven text List.mem_cons_self
      have hTail : ∀ text, .compile text ∈ requests → text ∈ texts := by
        intro text hMem
        exact hGiven text (List.mem_cons_of_mem request hMem)
      constructor
      · rintro rfl
        rcases h.answers_respond hDigests hHead with ⟨m', hAnswer⟩
        have hNext := (h.respond_of_answers hDigests hHead hAnswer).2
        exact .cons hAnswer ((ih hNext hTail).mp rfl)
      · intro hBehaves
        cases hBehaves with
        | cons hAnswer hRest =>
            rcases h.respond_of_answers hDigests hHead hAnswer with
              ⟨hResponse, hNext⟩
            rw [responses, hResponse, (ih hNext hTail).mpr hRest]

end Represents

end Store

/-
  A store behaves as a map of texts that is empty at first:
  its answers to any requests are those of the map, and no
  others, if no two of the texts to compile have one digest.
  This holds however texts are digested.
-/
theorem store_behaves_as_map_of_texts
    (digest : String → Digest)
    (config : Config)
    (requests : List Request)
    (hDigests :
      ∀ text other,
        .compile text ∈ requests →
        .compile other ∈ requests →
        digest text = digest other →
        text = other)
    (responses : List Response) :
    (Store.empty digest config).responses requests = responses ↔
      Texts.Behaves digest config ∅ requests responses := by
  have hInjective :
      Set.InjOn digest {text | Request.compile text ∈ requests} := by
    intro text hText other hOther hSame
    exact hDigests text other hText hOther hSame
  exact (Store.Represents.empty digest config _).responses_eq_iff hInjective
    (fun text hText => hText)

/- The text of a program that prints a number. -/
def printing (digits : String) : String :=
  "#start_function\nvoid main():\ncall, puti, " ++ digits ++
    "\n#end_function\n"

/- The handle that two texts have in common. -/
def sharedHandle : Handle :=
  ⟨"16ba800d9875"⟩

/- Two texts of one handle take turns. -/
def takingTurns : List Request :=
  [ .compile (printing "9777082")
  , .compile (printing "20843693")
  , .release sharedHandle
  , .executable sharedHandle
  , .compile (printing "20843693")
  , .execute sharedHandle "" 3
  , .size ]

theorem takingTurns_behaves :
    Texts.Behaves Digest.ofString {} ∅ takingTurns
      [ .compiled (.compiled sharedHandle 1)
      , .compiled (.collision sharedHandle)
      , .released true
      , .executable (.error (.unknownHandle sharedHandle))
      , .compiled (.compiled sharedHandle 1)
      , .executed (.ok (some ⟨"20843693", 1, .ok ()⟩))
      , .size 1 ] := by
  have hTexts :
      ∀ text, .compile text ∈ takingTurns →
        text = printing "9777082" ∨ text = printing "20843693" := by
    intro text hText
    simp only [takingTurns, List.mem_cons, Request.compile.injEq,
      reduceCtorEq, List.not_mem_nil] at hText
    tauto
  have hDifferent :
      Digest.ofString (printing "9777082") ≠
        Digest.ofString (printing "20843693") := by
    decide +kernel
  have hDigests :
      ∀ text other,
        .compile text ∈ takingTurns →
        .compile other ∈ takingTurns →
        Digest.ofString text = Digest.ofString other →
        text = other := by
    intro text other hText hOther hSame
    rcases hTexts text hText with rfl | rfl
    · rcases hTexts other hOther with rfl | rfl
      · rfl
      · exact absurd hSame hDifferent
    · rcases hTexts other hOther with rfl | rfl
      · exact absurd hSame.symm hDifferent
      · rfl
  apply (store_behaves_as_map_of_texts Digest.ofString {} takingTurns
    hDigests _).mp
  decide +kernel

end ThreeAddress
