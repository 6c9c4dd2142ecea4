import ThreeAddress.Opcode

/-
  This file defines what can be wrong with the text of a
  program.

  Key definitions include:
    * `SyntaxCause`, `SyntaxCause.message`
    * `SyntaxError`, `SyntaxError.message`
-/

namespace ThreeAddress

------------------------------------------------------------
-- Causes
------------------------------------------------------------

/- What is wrong with a line of program text. -/
inductive SyntaxCause where
| unexpectedCharacter (c : Char)
| invalidNumber (text : String)
| unexpectedToken (text : String)
| unexpectedEnd (expected : String)
| unknownOpcode (word : String)
| unknownType (word : String)
| wrongOperandCount (opcode : Opcode) (found : Nat)
| arrayAssign
| nestedFunction
| unmatchedEnd
| unterminatedFunction
| expectedHeader
| outsideFunction
| duplicateList (type : Scalar)
| declarationAfterCode
deriving DecidableEq, Repr

/- The keyword of a list of declarations of a type. -/
def Scalar.listKeyword : Scalar → String
| .int => "int-list"
| .float => "float-list"

namespace SyntaxCause

/- The wording of a cause. -/
def message : SyntaxCause → String
| .unexpectedCharacter c => s!"unexpected character '{c}'"
| .invalidNumber text => s!"invalid number '{text}'"
| .unexpectedToken text => s!"unexpected token '{text}'"
| .unexpectedEnd expected =>
    s!"unexpected end of line, expected {expected}"
| .unknownOpcode word => s!"unknown opcode '{word}'"
| .unknownType word => s!"unknown type '{word}'"
| .wrongOperandCount opcode found =>
    s!"{opcode.mnemonic} expects {opcode.arity.text} " ++
      s!"operand(s), found {found}"
| .arrayAssign =>
    "array initialization via 'assign, name, size, value' " ++
      "is not supported; declare arrays as name[size]"
| .nestedFunction =>
    "#start_function inside an open function block"
| .unmatchedEnd =>
    "#end_function without matching #start_function"
| .unterminatedFunction =>
    "function block opened here is never closed"
| .expectedHeader =>
    "expected function header 'type name(params)'"
| .outsideFunction => "text outside a function block"
| .duplicateList type =>
    s!"duplicate {type.listKeyword} in function"
| .declarationAfterCode =>
    "declarations must precede instructions"

end SyntaxCause

------------------------------------------------------------
-- Errors
------------------------------------------------------------

/- A cause and the line, counted from one, that it is on. -/
structure SyntaxError where
  line : Nat
  cause : SyntaxCause
deriving DecidableEq, Repr

/- The wording of an error. -/
def SyntaxError.message (e : SyntaxError) : String :=
  s!"line {e.line}: {e.cause.message}"

end ThreeAddress
