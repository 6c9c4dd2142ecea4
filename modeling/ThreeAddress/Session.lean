import ThreeAddress.Store

/-
  This file defines sessions, which compile a text, take an
  input, and run the latest program on the latest input. A
  text that is not compiled leaves no program to run, so that
  no earlier one is run in its place.

  Key definitions include:
    * `Session`
    * `Session.compile`
    * `Session.stage`
    * `Session.run`
-/

namespace ThreeAddress

/- A store, the program to run, and the input to run it on. -/
structure Session (digest : String → Digest) where
  store : Store digest
  current : Option Handle
  input : String

namespace Session

variable {digest : String → Digest}

/- A session without a program. -/
def empty
    (digest : String → Digest)
    (config : Config) : Session digest :=
  { store := .empty digest config, current := none, input := "" }

/- The handle of a text that was compiled. -/
def handle? : CompileResult → Option Handle
| .compiled handle _ => some handle
| .rejected _ => none
| .collision _ => none

/- Compile a text and make it the program to run. -/
def compile
    (s : Session digest)
    (text : String) : CompileResult × Session digest :=
  let (result, store) := s.store.compile text
  (result, { s with store, current := handle? result })

/- Replace the input. -/
def stage (s : Session digest) (input : String) : Session digest :=
  { s with input }

/- Run the program on the input. -/
def run
    (s : Session digest)
    (rounds : Nat) : Except StoreError (Option Report) :=
  match s.current with
  | none => .error .nothingCompiled
  | some h => s.store.execute h s.input rounds

end Session

end ThreeAddress
