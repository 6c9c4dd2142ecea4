/-
  This file cuts a text into its lines. A line ends at a line
  feed or at the end of the text, and a text that ends in a
  line feed has no further, empty line behind it.

  Key definitions include:
    * `lines`
-/

namespace ThreeAddress.Text

/- Put a character before the lines of the rest of a text. -/
def pushChar (c : Char) (rest : List (List Char)) : List (List Char) :=
  if c = '\n' then
    [] :: rest
  else
    match rest with
    | [] => [[c]]
    | line :: lines => (c :: line) :: lines

/- The lines of a text, without the line feeds. -/
def lines (cs : List Char) : List (List Char) :=
  cs.foldr pushChar []

end ThreeAddress.Text
