import ThreeAddress.Value

/-
  This file defines the tokens of program text and how each
  is written.

  Key definitions include:
    * `Token`
    * `Token.text`
-/

namespace ThreeAddress

/- A token of a line of program text. -/
inductive Token where
| ident (name : String)
| directive (name : String)
| int (n : Int32)
| float (x : Single)
| comma
| colon
| lparen
| rparen
| lbracket
| rbracket
deriving DecidableEq

namespace Token

/- The text of a token. -/
def text : Token → String
| .ident name => name
| .directive name => "#" ++ name
| .int n => String.ofList (Decimal.ofInt n.toInt)
| .float x => x.text
| .comma => ","
| .colon => ":"
| .lparen => "("
| .rparen => ")"
| .lbracket => "["
| .rbracket => "]"

/- The token that one character makes up on its own. -/
def ofMark? : Char → Option Token
| ',' => some .comma
| ':' => some .colon
| '(' => some .lparen
| ')' => some .rparen
| '[' => some .lbracket
| ']' => some .rbracket
| _ => none

end Token

end ThreeAddress
