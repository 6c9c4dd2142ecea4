import ThreeAddress.Assembly
import ThreeAddress.Verification

/-
  This file turns a text into an executable, or into one
  diagnostic that says why it has none.

  Key definitions include:
    * `DiagnosticKind`
    * `Diagnostic`, `Diagnostic.text`
    * `compile`
-/

namespace ThreeAddress

/- The stage that rejects a text. -/
inductive DiagnosticKind where
| syntaxError
| declarationError
| typeError
deriving DecidableEq, Repr

/- The stage in words. -/
def DiagnosticKind.text : DiagnosticKind → String
| .syntaxError => "syntax error"
| .declarationError => "declaration error"
| .typeError => "type error"

/- Why a text is rejected, and where. -/
structure Diagnostic where
  kind : DiagnosticKind
  location : Location
  message : String
deriving DecidableEq, Repr

namespace Diagnostic

/- The diagnostic of a text that is no program. -/
def ofSyntaxError (e : SyntaxError) : Diagnostic :=
  { kind := .syntaxError
    location := { function := none, line := some e.line }
    message := e.cause.message }

/- The diagnostic of a program that is rejected. -/
def ofRejection (r : Rejection) : Diagnostic :=
  { kind :=
      match r.cause with
      | .declaration _ => .declarationError
      | .type _ => .typeError
    location := r.location
    message := r.cause.message }

/- The diagnostic in words. -/
def text (d : Diagnostic) : String :=
  s!"{d.kind.text} in {d.location.text}: {d.message}"

end Diagnostic

/- The executable of a text. -/
def compile (text : String) : Except Diagnostic Executable :=
  match assemble text with
  | .error e => .error (.ofSyntaxError e)
  | .ok p =>
      match verify p with
      | .error r => .error (.ofRejection r)
      | .ok exe => .ok exe

end ThreeAddress
