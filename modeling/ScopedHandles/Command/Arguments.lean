/-
**Command lines.**

A command line names a command, a path and options. Options may stand before or behind the path, an
option takes its value from the next argument or behind an equals sign, and everything behind `--` is a
path. An option is given once. A value in an argument of its own does not begin with a hyphen.

Lines that break these rules are refused as a whole.
-/

import ScopedHandles.Path
import ScopedHandles.Settings.Basic

namespace ScopedHandles

/-- The options of a command: those that stand alone, and those that take a value. -/
structure OptionSet where
  flags : List String
  valued : List String
  deriving DecidableEq, Repr

/-- What the arguments of a command give. -/
structure Arguments where
  path : Option Text := none
  flags : List String := []
  values : List (String × Text) := []
  deriving DecidableEq, Repr

namespace Arguments

/-- Adds the path, if none is given yet. -/
def addPath (given : Arguments) (path : Text) : Option Arguments :=
  if given.path.isSome then none else some { given with path := some path }

/-- Adds an option that stands alone, if it is not given yet. -/
def addFlag (given : Arguments) (name : String) : Option Arguments :=
  if given.flags.contains name then none else some { given with flags := name :: given.flags }

/-- Adds an option with its value, if it is not given yet. -/
def addValue (given : Arguments) (name : String) (value : Text) : Option Arguments :=
  if given.values.any fun entry => entry.1 == name then none
  else some { given with values := (name, value) :: given.values }

/-- The value of an option. -/
def value? (given : Arguments) (name : String) : Option Text :=
  (given.values.find? fun entry => entry.1 == name).map Prod.snd

/-- Reads the arguments behind `--`. -/
def readPaths (given : Arguments) : List Text → Option Arguments
  | [] => some given
  | path :: rest => do readPaths (← given.addPath path) rest

/-- Whether an argument is an option. A hyphen alone is a path. -/
def isOption (argument : Text) : Bool :=
  argument.head? == some '-' && argument != ['-']

/-- The name and the value of an argument such as `--name=value`. -/
def splitOption (argument : Text) : Text × Option Text :=
  match argument.dropWhile (· != '=') with
  | [] => (argument, none)
  | _ :: value => (argument.takeWhile (· != '='), some value)

/-- The option among `names` that is spelled `--name`. -/
def lookup? (names : List String) (spelling : Text) : Option String :=
  names.find? fun name => "--".toList ++ name.toList == spelling

/-- Reads the arguments of a command. -/
def read? (options : OptionSet) : (given : Arguments) → List Text → Option Arguments
  | given, [] => some given
  | given, argument :: rest =>
    if argument = "--".toList then readPaths given rest
    else if isOption argument then
      let (spelling, inline) := splitOption argument
      match lookup? options.flags spelling, lookup? options.valued spelling, inline, rest with
      | some flag, _, none, rest => do read? options (← given.addFlag flag) rest
      | _, some name, some value, rest => do read? options (← given.addValue name value) rest
      | _, some name, none, value :: rest =>
        if isOption value then none else do read? options (← given.addValue name value) rest
      | _, _, _, _ => none
    else do read? options (← given.addPath argument) rest

end Arguments

/-- What to run. -/
structure Request where
  path : Path
  dryRun : Bool
  verbose : Bool
  threads : Option Nat
  extension : Option Text
  config : Option Path
  deriving DecidableEq, Repr

/-- A command. -/
inductive Command where
  | version
  | enclose (request : Request)
  | audit (request : Request)
  deriving DecidableEq, Repr

namespace Command

/-- Reads a number, with or without a plus sign. -/
def readThreads? (text : Text) : Option Nat :=
  let digits := if text.head? = some '+' then text.tail else text
  let value := digits.foldl (fun sum c => sum * 10 + (c.toNat - '0'.toNat)) 0
  if digits.isEmpty || !digits.all Char.isDigit || Settings.threadLimit < value then none else some value

/-- A path that is given has to be a text. -/
def readPath? (text : Text) : Option Path :=
  if text.isEmpty then none else some text

/-- The request that arguments make. -/
def requestOf? (given : Arguments) : Option Request := do
  let path ← readPath? (← given.path)
  let threads ← (given.value? "threads").mapM readThreads?
  let config ← (given.value? "config").mapM readPath?
  return {
    path
    dryRun := given.flags.contains "dry-run"
    verbose := given.flags.contains "verbose"
    threads
    extension := given.value? "extension"
    config }

/-- The options of the command that encloses. -/
def encloseOptions : OptionSet where
  flags := ["dry-run", "verbose"]
  valued := ["threads", "extension", "config"]

/-- The options of the command that audits. -/
def auditOptions : OptionSet where
  flags := []
  valued := ["extension", "config"]

/-- The command that a line gives. -/
def read? : (line : List Text) → Option Command
  | [] => none
  | name :: arguments =>
    if name = "--version".toList ∨ "-V".toList.isPrefixOf name then some .version
    else if name = "rewrite".toList then do
      return .enclose (← requestOf? (← Arguments.read? encloseOptions {} arguments))
    else if name = "audit".toList then do
      return .audit (← requestOf? (← Arguments.read? auditOptions {} arguments))
    else none

/-- What a command is asked to work on. -/
def request? : Command → Option Request
  | version => none
  | enclose request => some request
  | audit request => some request

end Command

end ScopedHandles
