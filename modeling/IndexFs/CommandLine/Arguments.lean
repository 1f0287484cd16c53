import IndexFs.Decimal.Natural

/-!
# Arguments

The words of the command line: options for the whole program, then the name of a command, then its
location and its own options. An option takes its value from the same word, behind an equals sign, or
from the next word, and it takes effect when the next option, the location or the end follows; so of two
flaws the one that comes up first in this order is reported.
-/

namespace IndexFs.CommandLine

/-- Why the words are not run as a command. -/
inductive ArgumentFault where
  /-- There is not a single word with a meaning. -/
  | nothingGiven
  | helpAsked
  | versionAsked
  | missingCommand
  | unknownCommand
  | unknownArgument
  /-- An option has no value, or an empty one that it does not take. -/
  | emptyValue
  /-- A value is of the wrong form. -/
  | badValue
  /-- An option is given twice. -/
  | repeated
  /-- A flag has a value. -/
  | valueOfFlag
  | missingLocation
deriving DecidableEq, Repr

/-- The exit code of the program: only those who asked for a text get what they wanted. -/
def ArgumentFault.exitCode : ArgumentFault → Nat
  | .helpAsked => 0
  | .versionAsked => 0
  | _ => 2

/-- What is done with a location. -/
inductive Command where
  | stat (location : String)
  | list (location : String)
  | cat (location : String)
  | tree (location : String) (depth : Option Nat)
deriving DecidableEq, Repr

structure Arguments where
  config : Option String
  address : Option String
  noHandshake : Bool
  logFile : Option String
  command : Command
deriving DecidableEq, Repr

/-! ## Words -/

/-- The form of a word. -/
inductive Word where
  /-- Two dashes: from here on no word is an option. -/
  | escape
  | long (name : String) (value : Option String)
  | short (letters : List Char)
  | plain (text : String)
deriving DecidableEq, Repr

def Word.of (text : String) : Word :=
  match text.toList with
  | ['-', '-'] => .escape
  | '-' :: '-' :: cs =>
    .long (String.ofList (cs.takeWhile (· ≠ '=')))
      (match cs.dropWhile (· ≠ '=') with
        | [] => none
        | _ :: value => some (String.ofList value))
  | '-' :: c :: cs => .short (c :: cs)
  | _ => .plain text

/-! ## Options -/

/-- The options that take a value. -/
inductive Setting where
  | config
  | address
  | logFile
  | depth
deriving DecidableEq, Repr

def Setting.name : Setting → String
  | .config => "config"
  | .address => "address"
  | .logFile => "log-file"
  | .depth => "depth"

/-- What has been read. -/
structure Draft where
  config : Option String := none
  address : Option String := none
  logFile : Option String := none
  noHandshake : Bool := false
  depth : Option Nat := none
  location : Option String := none
deriving DecidableEq, Repr

namespace Draft

/-- Whether nothing has been given. -/
def isEmpty (d : Draft) : Bool :=
  d = {}

/-- Sets an option that was not given before. Paths are not empty. -/
def set (d : Draft) (s : Setting) (value : String) : Except ArgumentFault Draft :=
  match s with
  | .config =>
    if d.config.isSome then .error .repeated
    else if value = "" then .error .emptyValue
    else .ok { d with config := some value }
  | .address =>
    if d.address.isSome then .error .repeated
    else .ok { d with address := some value }
  | .logFile =>
    if d.logFile.isSome then .error .repeated
    else if value = "" then .error .emptyValue
    else .ok { d with logFile := some value }
  | .depth =>
    if d.depth.isSome then .error .repeated
    else
      match Decimal.natural value.toList with
      | .ok n => .ok { d with depth := some n }
      | .error _ => .error .badValue

end Draft

/-- An option that has not taken effect yet, with its value if that has been read. -/
abbrev Waiting := Option (Setting × Option String)

/-- Lets the waiting option take effect. -/
def settle (waiting : Waiting) (d : Draft) : Except ArgumentFault Draft :=
  match waiting with
  | none => .ok d
  | some (_, none) => .error .emptyValue
  | some (s, some value) => d.set s value

/-- Whether the next word is a value. -/
def wantsValue : Waiting → Bool
  | some (_, none) => true
  | _ => false

/-- The options of the program, or of one of its commands. -/
structure Options where
  settings : List Setting
  noHandshake : Bool
  version : Bool

def Options.ofProgram : Options :=
  ⟨[.config, .address, .logFile], true, true⟩

/-- A flag: it takes effect at once, after the waiting option. -/
def takeFlag (waiting : Waiting) (d : Draft) (value : Option String)
    (effect : Draft → Except ArgumentFault Draft) : Except ArgumentFault (Waiting × Draft) :=
  match value with
  | some _ => .error .valueOfFlag
  | none => ((settle waiting d).bind effect).map fun d => (none, d)

def Options.takeLong (o : Options) (waiting : Waiting) (d : Draft) (name : String)
    (value : Option String) : Except ArgumentFault (Waiting × Draft) :=
  match o.settings.find? fun s => s.name = name, value with
  | some s, some value => ((settle waiting d).bind fun d => d.set s value).map fun d => (none, d)
  | some s, none => (settle waiting d).map fun d => (some (s, none), d)
  | none, value =>
    if name = "help" then takeFlag waiting d value fun _ => .error .helpAsked
    else if name = "version" && o.version then
      takeFlag waiting d value fun _ => .error .versionAsked
    else if name = "no-handshake" && o.noHandshake then
      takeFlag waiting d value fun d =>
        if d.noHandshake then .error .repeated else .ok { d with noHandshake := true }
    else .error .unknownArgument

/-- Of short options the first one decides, since each of them ends the program. -/
def Options.takeShort (o : Options) (waiting : Waiting) (d : Draft) (letters : List Char) :
    Except ArgumentFault (Waiting × Draft) :=
  match letters with
  | 'h' :: _ => takeFlag waiting d none fun _ => .error .helpAsked
  | 'V' :: _ =>
    if o.version then takeFlag waiting d none fun _ => .error .versionAsked
    else .error .unknownArgument
  | _ => .error .unknownArgument

/-! ## Commands -/

/-- The commands, before they have a location. -/
inductive CommandName where
  | stat
  | list
  | cat
  | tree
deriving DecidableEq, Repr

def CommandName.of? (text : String) : Option CommandName :=
  if text = "stat" then some .stat
  else if text = "ls" then some .list
  else if text = "cat" then some .cat
  else if text = "tree" then some .tree
  else none

def CommandName.options : CommandName → Options
  | .tree => ⟨[.depth], false, false⟩
  | _ => ⟨[], false, false⟩

def CommandName.command (name : CommandName) (d : Draft) : Except ArgumentFault Command :=
  match d.location with
  | none => .error .missingLocation
  | some location =>
    .ok (match name with
      | .stat => .stat location
      | .list => .list location
      | .cat => .cat location
      | .tree => .tree location d.depth)

/-- A word that is the location, if there is none yet. -/
def takeLocation (waiting : Waiting) (d : Draft) (text : String) :
    Except ArgumentFault (Waiting × Draft) :=
  if d.location.isSome then .error .unknownArgument
  else (settle waiting d).map fun d => (none, { d with location := some text })

/-- The words after the name of a command. `escaped` says whether two dashes have come before. -/
def readCommand (name : CommandName) (escaped : Bool) (waiting : Waiting) (d : Draft) :
    List String → Except ArgumentFault Command
  | [] => (settle waiting d).bind name.command
  | text :: texts =>
    let next := fun (p : Waiting × Draft) => readCommand name escaped p.1 p.2 texts
    if escaped then (takeLocation waiting d text).bind next
    else
      match Word.of text with
      | .escape => readCommand name true waiting d texts
      | .long option value => (name.options.takeLong waiting d option value).bind next
      | .short letters => (name.options.takeShort waiting d letters).bind next
      | .plain text =>
        match waiting with
        | some (s, none) => next (some (s, some text), d)
        | waiting => (takeLocation waiting d text).bind next

/-! ## The whole line -/

/-- Help about commands: each word after the first one names a command of the one before it, and only the
program has any. -/
def readHelp : List String → ArgumentFault
  | [] => .helpAsked
  | [text] =>
    if (CommandName.of? text).isSome || text = "help" then .helpAsked else .unknownCommand
  | _ => .unknownCommand

/-- After two dashes in front of a command: it would have been one without them, or there is no such
command. -/
def readEscaped (waiting : Waiting) (d : Draft) : List String → ArgumentFault
  | [] =>
    match settle waiting d with
    | .error e => e
    | .ok d => if d.isEmpty then .nothingGiven else .missingCommand
  | text :: _ =>
    if (CommandName.of? text).isSome || text = "help" then .unknownArgument else .unknownCommand

/-- The arguments of a command with the options of the program. A flaw after the command's name counts
before one of an option that has not taken effect yet. -/
def finishArguments (waiting : Waiting) (d : Draft) (command : Except ArgumentFault Command) :
    Except ArgumentFault Arguments :=
  command.bind fun command =>
    (settle waiting d).map fun d => ⟨d.config, d.address, d.noHandshake, d.logFile, command⟩

/-- The words from the start on. -/
def readProgram (waiting : Waiting) (d : Draft) : List String → Except ArgumentFault Arguments
  | [] => .error (readEscaped waiting d [])
  | text :: texts =>
    let next := fun (p : Waiting × Draft) => readProgram p.1 p.2 texts
    match if wantsValue waiting then none else CommandName.of? text with
    | some name => finishArguments waiting d (readCommand name false none {} texts)
    | none =>
      if text = "help" && !wantsValue waiting then .error (readHelp texts)
      else
        match Word.of text with
        | .escape => .error (readEscaped waiting d texts)
        | .long option value => (Options.ofProgram.takeLong waiting d option value).bind next
        | .short letters => (Options.ofProgram.takeShort waiting d letters).bind next
        | .plain text =>
          match waiting with
          | some (s, none) => next (some (s, some text), d)
          | _ => .error .unknownCommand

/-- Reads the words after the name of the program. -/
def Arguments.read (words : List String) : Except ArgumentFault Arguments :=
  readProgram none {} words

end IndexFs.CommandLine
