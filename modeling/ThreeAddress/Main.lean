import ThreeAddress.Command.Execute

/-
  This file is the command line: it reads the files that a
  command names, carries the command out, and writes its
  answer.
-/

namespace ThreeAddress

/- Open a file of the disk. -/
def openFile (path : String) : IO Opened := do
  try
    let bytes ← IO.FS.readBinFile path
    return .bytes bytes.toList
  catch
    | .noFileOrDirectory _ _ _ =>
        return .missing "No such file or directory (os error 2)"
    | .inappropriateType _ _ _ =>
        return .unreadable "Is a directory (os error 21)"
    | e => return .missing (toString e)

/- The paths that an invocation names. -/
def Invocation.paths : Invocation → List String
| .command (.check file) => [file]
| .command (.format file) => [file]
| .command (.run file input _) => file :: input.toList
| _ => []

/- The invocation reads the standard input. -/
def Invocation.readsStdin : Invocation → Bool
| .command (.run _ none _) => true
| _ => false

end ThreeAddress

open ThreeAddress

def main (args : List String) : IO UInt32 := do
  let invocation := readArguments args
  let opened ← invocation.paths.mapM fun path => do
    return (path, ← openFile path)
  let files := fun path =>
    (opened.lookup path).getD (.missing "not opened")
  let stdin ←
    if invocation.readsStdin then
      (← IO.getStdin).readBinToEnd
    else
      pure ByteArray.empty
  match invocation.answer files stdin.toList patience with
  | none => return 1
  | some answer =>
      IO.print answer.output
      IO.eprint answer.error
      return UInt32.ofNat answer.code
