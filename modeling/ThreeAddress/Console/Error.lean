/-
  This file defines how reading the input and writing the
  output of a running program can fail.

  Key definitions include:
    * `ConsoleError`, `ConsoleError.message`
-/

namespace ThreeAddress

/- A failure of the input or the output. -/
inductive ConsoleError where
| endOfInput (expected : String)
| malformedToken (token : String) (expected : String)
| read (reason : String)
| write (reason : String)
deriving DecidableEq, Repr

/- The wording of a failure. -/
def ConsoleError.message : ConsoleError → String
| .endOfInput expected => s!"end of input while reading {expected}"
| .malformedToken token expected =>
    s!"malformed input '{token}', expected {expected}"
| .read reason => s!"failed to read input: {reason}"
| .write reason => s!"failed to write output: {reason}"

end ThreeAddress
