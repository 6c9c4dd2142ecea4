/-
  This file defines folders of files, and what opening a path
  in one gives. A path is walked part by part from the folder
  on; nothing outside the folder can be named but the folders
  around it.

  Key definitions include:
    * `Opened`
    * `Folder`
    * `Folder.walk`
    * `Folder.lookup`
-/

namespace ThreeAddress

/-
  What opening a path gives: the bytes of a file, something
  whose every read fails, or a failure to open it.
-/
inductive Opened where
| bytes (b : List UInt8)
| unreadable (reason : String)
| missing (reason : String)
deriving DecidableEq, Repr

/- Names with the bytes of files, or none for folders. -/
structure Folder where
  entries : List (String × Option (List UInt8))

namespace Folder

------------------------------------------------------------
-- Outcomes
------------------------------------------------------------

/- Nothing has the name. -/
def notFound : Opened :=
  .missing "No such file or directory (os error 2)"

/- A file is used as a folder. -/
def notFolder : Opened :=
  .missing "Not a directory (os error 20)"

/- A folder is opened, and then read as a file. -/
def isFolder : Opened :=
  .unreadable "Is a directory (os error 21)"

------------------------------------------------------------
-- Paths
------------------------------------------------------------

/- A part of a path that stays where it is. -/
def stays (part : String) : Bool :=
  part = "" || part = "."

/- The parts of a name, without those that stay. -/
def parts (name : String) : List String :=
  (name.splitOn "/").filter fun part => !stays part

/- What lies at some parts below the folder. -/
def find? (f : Folder) (here : List String) : Option Opened :=
  match f.entries.find? fun (name, _) => parts name = here with
  | some (_, some bytes) => some (.bytes bytes)
  | some (_, none) => some isFolder
  | none =>
      let isAbove := fun (name, _) => here.isPrefixOf (parts name)
      if here.isEmpty || f.entries.any isAbove then
        some isFolder
      else
        none

/- What a path leads to from a folder around this one. -/
def outside (path : List String) : Opened :=
  if path.all fun part => stays part || part = ".." then
    isFolder
  else
    notFound

/- What a path leads to from some parts below the folder. -/
def walk (f : Folder) : List String → List String → Opened
| here, [] => (f.find? here).getD notFound
| here, part :: rest =>
    match f.find? here with
    | none => notFound
    | some (.bytes _) => notFolder
    | some _ =>
        if stays part then
          f.walk here rest
        else if part = ".." then
          if here.isEmpty then
            outside rest
          else
            f.walk here.dropLast rest
        else
          f.walk (here ++ [part]) rest

/- Open a path. -/
def lookup (f : Folder) (path : String) : Opened :=
  match path.splitOn "/" with
  | "" :: rest => outside rest
  | path => f.walk [] path

end Folder

end ThreeAddress
