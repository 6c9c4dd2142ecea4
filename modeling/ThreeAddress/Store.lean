import ThreeAddress.Digest
import ThreeAddress.Diagnostic
import ThreeAddress.Machine.Run

/-
  This file stores executables under handles that come from
  their texts: a text is compiled once, and its executable is
  run any number of times.

  A handle is the beginning of a text's digest, so two texts
  may have one handle. The store tells them apart by their
  whole digests, and refuses the second of them until the
  first is released. The digest is a parameter of the store;
  `Digest.ofString` is the one in use.

  Key definitions include:
    * `Handle`
    * `CompileResult`
    * `Store`
    * `Store.compile`
    * `Store.release`
    * `Store.executable`, `Store.execute`
-/

namespace ThreeAddress

------------------------------------------------------------
-- Handles
------------------------------------------------------------

/- The name of a stored executable. -/
structure Handle where
  text : String
deriving DecidableEq, Repr

namespace Handle

/- The count of hexadecimal digits of a handle. -/
def length : Nat :=
  12

/- The handle of a digest. -/
def ofDigest (d : Digest) : Handle :=
  ⟨String.ofList (d.hex.take length)⟩

/- The handle of a text. -/
def ofText (digest : String → Digest) (text : String) : Handle :=
  ofDigest (digest text)

end Handle

------------------------------------------------------------
-- Results
------------------------------------------------------------

/- What becomes of a text that is handed to a store. -/
inductive CompileResult where
| compiled (handle : Handle) (functions : Nat)
| rejected (d : Diagnostic)
| collision (handle : Handle)
deriving DecidableEq, Repr

/- A request that names nothing that can be run. -/
inductive StoreError where
| unknownHandle (handle : Handle)
| nothingCompiled
deriving DecidableEq, Repr

/- The wording of an error. -/
def StoreError.message : StoreError → String
| .unknownHandle handle => s!"no artifact with handle {handle.text}"
| .nothingCompiled => "no program has been compiled"

------------------------------------------------------------
-- Stores
------------------------------------------------------------

/- An executable and the digest of its text. -/
structure Artifact where
  digest : Digest
  exe : Executable
deriving DecidableEq

/-
  Artifacts by their handles, which come from the digests of
  their texts, and the limits of their runs.
-/
structure Store (digest : String → Digest) where
  artifacts : List (Handle × Artifact)
  config : Config

namespace Store

variable {digest : String → Digest}

/- A store without artifacts. -/
def empty
    (digest : String → Digest)
    (config : Config) : Store digest :=
  { artifacts := [], config }

/- The artifact of a handle. -/
def find? (s : Store digest) (h : Handle) : Option Artifact :=
  s.artifacts.lookup h

/- The count of artifacts. -/
def size (s : Store digest) : Nat :=
  s.artifacts.length

/-
  Compile a text, and store its executable unless it is
  stored or another text's executable has its handle.
-/
def compile
    (s : Store digest)
    (text : String) : CompileResult × Store digest :=
  match ThreeAddress.compile text with
  | .error d => (.rejected d, s)
  | .ok exe =>
      let own := digest text
      let handle := Handle.ofDigest own
      let done := CompileResult.compiled handle exe.routines.size
      match s.find? handle with
      | none =>
          ( done
          , { s with
              artifacts := (handle, ⟨own, exe⟩) :: s.artifacts } )
      | some artifact =>
          if artifact.digest = own then
            (done, s)
          else
            (.collision handle, s)

/- Drop the artifact of a handle; tells if there was one. -/
def release (s : Store digest) (h : Handle) : Bool × Store digest :=
  ( (s.find? h).isSome
  , { s with
      artifacts := s.artifacts.filter fun (k, _) => k ≠ h } )

/- The executable of a handle. -/
def executable
    (s : Store digest)
    (h : Handle) : Except StoreError Executable :=
  match s.find? h with
  | none => .error (.unknownHandle h)
  | some artifact => .ok artifact.exe

/- Run the executable of a handle on a text. -/
def execute
    (s : Store digest)
    (h : Handle)
    (input : String)
    (rounds : Nat) : Except StoreError (Option Report) :=
  match s.executable h with
  | .error e => .error e
  | .ok exe => .ok (evaluate exe input s.config rounds)

end Store

end ThreeAddress
