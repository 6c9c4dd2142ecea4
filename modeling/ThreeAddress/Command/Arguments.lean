import ThreeAddress.Text.Decimal
import ThreeAddress.Machine.State

/-
  This file reads the arguments of the command line.

  Arguments are read from left to right, and the first that
  asks for help, asks for the version or cannot stand where
  it does settles the outcome. What is missing is noticed at
  the end only.

  Key definitions include:
    * `Command`
    * `Invocation`
    * `Options`
    * `readOptions`
    * `readArguments`
-/

namespace ThreeAddress

/- What the command line can do with a program's file. -/
inductive Command where
| check (file : String)
| run (file : String) (input : Option String) (config : Config)
| format (file : String)
deriving DecidableEq, Repr

/- What a list of arguments asks for. -/
inductive Invocation where
| help
| usageError
| version
| command (c : Command)
deriving DecidableEq, Repr

------------------------------------------------------------
-- Options
------------------------------------------------------------

/- The options and the file, as far as they have been read. -/
structure Options where
  file : Option String := none
  input : Option String := none
  maxDepth : Option Nat := none
  budget : Option Nat := none
  maxMemory : Option Nat := none
deriving DecidableEq, Repr

namespace Options

/- Set a value that must not have been set. -/
def once
    {α : Type}
    (old : Option α)
    (new : Option α)
    (set : Option α → Options) : Option Options :=
  if old.isSome || new.isNone then none else some (set new)

/- A path, which must not be empty. -/
def path? (s : String) : Option String :=
  if s.isEmpty then none else some s

/- A count, which must fit into 64 bits. -/
def count? (s : String) : Option Nat :=
  Decimal.word64? s.toList

/- Set the file. -/
def setFile (o : Options) (s : String) : Option Options :=
  once o.file (path? s) fun file => { o with file }

/- The setter of an option, if there is such an option. -/
def setter? (o : Options) (name : String) : Option (String → Option Options) :=
  if name = "input" then
    some fun s => once o.input (path? s) fun input => { o with input }
  else if name = "max-depth" then
    some fun s =>
      once o.maxDepth (count? s) fun maxDepth => { o with maxDepth }
  else if name = "budget" then
    some fun s =>
      once o.budget (count? s) fun budget => { o with budget }
  else if name = "max-memory" then
    some fun s =>
      once o.maxMemory (count? s) fun maxMemory => { o with maxMemory }
  else
    none

/- The limits that the options set. -/
def config (o : Options) : Config :=
  let standard : Config := {}
  { maxDepth := o.maxDepth.getD standard.maxDepth
    budget := o.budget
    maxMemory := o.maxMemory.getD standard.maxMemory }

end Options

------------------------------------------------------------
-- Arguments of One Command
------------------------------------------------------------

/- An argument by its shape. -/
inductive ArgumentForm where
| plain
| dashes
| long (name : String) (value : Option String)
| short (flags : List Char)
deriving DecidableEq, Repr

/- The shape of an argument; a lone hyphen is a plain one. -/
def argumentForm (arg : String) : ArgumentForm :=
  match arg.toList with
  | ['-', '-'] => .dashes
  | '-' :: '-' :: cs =>
      let name := String.ofList (cs.takeWhile (· ≠ '='))
      match cs.dropWhile (· ≠ '=') with
      | [] => .long name none
      | _ :: value => .long name (some (String.ofList value))
  | '-' :: c :: cs => .short (c :: cs)
  | _ => .plain

/- The files behind the dashes that end the options. -/
def readFiles (o : Options) : List String → Except Invocation Options
| [] => .ok o
| arg :: rest =>
    match o.setFile arg with
    | some o => readFiles o rest
    | none => .error .usageError

/-
  The options and the file of a command, which takes options
  with values only if it is given `valued`.
-/
def readOptions (valued : Bool) (o : Options) :
    List String → Except Invocation Options
| [] => .ok o
| arg :: rest =>
    match argumentForm arg with
    | .dashes => readFiles o rest
    | .short ('h' :: _) => .error .help
    | .short _ => .error .usageError
    | .plain =>
        match o.setFile arg with
        | some o => readOptions valued o rest
        | none => .error .usageError
    | .long name value =>
        if name = "help" ∧ value = none then
          .error .help
        else
          match (if valued then o.setter? name else none), value with
          | none, _ => .error .usageError
          | some set, some value =>
              match set value with
              | some o => readOptions valued o rest
              | none => .error .usageError
          | some set, none =>
              match rest with
              | [] => .error .usageError
              | value :: rest =>
                  if argumentForm value = .plain then
                    match set value with
                    | some o => readOptions valued o rest
                    | none => .error .usageError
                  else
                    .error .usageError

/- A command with its file, which it must have. -/
def readCommand
    (valued : Bool)
    (args : List String)
    (command : String → Options → Command) : Invocation :=
  match readOptions valued {} args with
  | .error invocation => invocation
  | .ok o =>
      match o.file with
      | some file => .command (command file o)
      | none => .usageError

------------------------------------------------------------
-- All Arguments
------------------------------------------------------------

/- The names of the commands, help included. -/
def commandNames : List String :=
  ["check", "run", "fmt", "help"]

/- The arguments of the command for help. -/
def readHelp : List String → Invocation
| [] => .help
| [name] => if name ∈ commandNames then .help else .usageError
| _ => .usageError

/- What a list of arguments asks for. -/
def readArguments : List String → Invocation
| [] => .usageError
| arg :: rest =>
    match argumentForm arg with
    | .dashes => .usageError
    | .short ('h' :: _) => .help
    | .short ('V' :: _) => .version
    | .short _ => .usageError
    | .long name value =>
        if name = "help" ∧ value = none then .help
        else if name = "version" ∧ value = none then .version
        else .usageError
    | .plain =>
        if arg = "check" then
          readCommand false rest fun file _ => .check file
        else if arg = "run" then
          readCommand true rest fun file o =>
            .run file o.input o.config
        else if arg = "fmt" then
          readCommand false rest fun file _ => .format file
        else if arg = "help" then
          readHelp rest
        else
          .usageError

end ThreeAddress
