import RandomCodes.Text.Basic
/-!
# Reading arguments

What can be written on the command line: options that come before the command, the command, and the
options and the operand that belong to it.

Arguments are read from left to right. A value that stands apart from its option is checked only
when the next option is met or the arguments end; a value that is attached is checked at once. The
name of a command ends the arguments before it, and what is still unchecked there is checked after
everything behind the command.
-/

namespace RandomCodes.CommandLine

/-- A setting that an option makes. -/
inductive Setting where
  | count
  | seed
  | verbose
  | help
  | version
  | length
  | noLeadingZero
  | upper
  | lower
  | charset
deriving DecidableEq, Repr

inductive Usage where
  | value
  | switch
  | counter
  | request
deriving DecidableEq, Repr

namespace Setting

def long : Setting → String
  | count => "count"
  | seed => "seed"
  | verbose => "verbose"
  | help => "help"
  | version => "version"
  | length => "length"
  | noLeadingZero => "no-leading-zero"
  | upper => "upper"
  | lower => "lower"
  | charset => "charset"

def short? : Setting → Option Char
  | count => some 'n'
  | seed => some 's'
  | verbose => some 'v'
  | help => some 'h'
  | version => some 'V'
  | length => some 'l'
  | charset => some 'c'
  | noLeadingZero | upper | lower => none

def usage : Setting → Usage
  | count | seed | length | charset => .value
  | noLeadingZero | upper | lower => .switch
  | verbose => .counter
  | help | version => .request

end Setting

inductive Command where
  | digits
  | letters
  | word
  | charset
  | pattern
  | config
deriving DecidableEq, Repr

/-- An argument that is no option. -/
inductive Operand where
  | pattern
  | path
deriving DecidableEq, Repr

namespace Command

def all : List Command := [digits, letters, word, charset, pattern, config]

def name : Command → String
  | digits => "digits"
  | letters => "letters"
  | word => "word"
  | charset => "charset"
  | pattern => "pattern"
  | config => "config"

def settings : Command → List Setting
  | digits => [.length, .noLeadingZero, .help]
  | letters => [.length, .upper, .lower, .help]
  | word => [.length, .help]
  | charset => [.length, .charset, .help]
  | pattern => [.help]
  | config => [.help]

def operand? : Command → Option Operand
  | pattern => some .pattern
  | config => some .path
  | digits | letters | word | charset => none

end Command

/-- What may stand where the command is named. -/
inductive Word where
  | command (command : Command)
  | help
deriving DecidableEq, Repr

def helpName : String := "help"

def Word.ofName? (name : Text) : Option Word :=
  if name = helpName.toList then some .help
  else (Command.all.find? fun command => command.name.toList = name).map Word.command

/-- Where arguments stand: before the command or behind it. -/
inductive Level where
  | outer
  | inner (command : Command)
deriving DecidableEq, Repr

namespace Level

def settings : Level → List Setting
  | outer => [.count, .seed, .verbose, .help, .version]
  | inner command => command.settings

def operand? : Level → Option Operand
  | outer => none
  | inner command => command.operand?

def word? : Level → Text → Option Word
  | outer, argument => Word.ofName? argument
  | inner _, _ => none

def long? (level : Level) (name : Text) : Option Setting :=
  level.settings.find? fun setting => setting.long.toList = name

def short? (level : Level) (name : Char) : Option Setting :=
  level.settings.find? fun setting => setting.short? = some name

end Level

inductive Refusal where
  | usage
  | help
  | version
deriving DecidableEq, Repr

inductive Slot where
  | setting (setting : Setting)
  | operand (operand : Operand)
deriving DecidableEq, Repr

/-- Whether a value can be given: numbers are machine words, and a path has a character. -/
def Slot.accepts : Slot → Text → Bool
  | .setting .count, value => (Text.toUInt64? value).isSome
  | .setting .seed, value => (Text.toUInt64? value).isSome
  | .setting .length, value => (Text.toUInt64? value).isSome
  | .setting _, _ => true
  | .operand .path, value => !value.isEmpty
  | .operand .pattern, _ => true

/-- The counting option is counted no further than this. -/
def greatestVerbosity : Nat := 255

/-- What the arguments of one level have given so far. -/
structure Given where
  values : List (Slot × Text) := []
  switches : List Setting := []
  verbosity : Nat := 0
  /-- What was met last and is not checked yet, with its value if it has come already. -/
  pending : Option (Slot × Option Text) := none
  operandMet : Bool := false
deriving DecidableEq, Repr

namespace Given

/-- Whether the next argument is the value of an option. -/
def awaitsValue (given : Given) : Bool :=
  match given.pending with
  | some (_, none) => true
  | _ => false

/-- Takes a value after checking it. Nothing is given twice. -/
def take (given : Given) (slot : Slot) (value : Text) : Except Refusal Given :=
  if (given.values.lookup slot).isSome || !slot.accepts value then .error .usage
  else .ok { given with values := (slot, value) :: given.values }

def settle (given : Given) : Except Refusal Given :=
  match given.pending with
  | none => .ok given
  | some (_, none) => .error .usage
  | some (slot, some value) => { given with pending := none }.take slot value

def apply (given : Given) (setting : Setting) : Except Refusal Given := do
  let given ← given.settle
  match setting.usage with
  | .value => return { given with pending := some (.setting setting, none) }
  | .switch =>
      if given.switches.contains setting then .error .usage
      else return { given with switches := setting :: given.switches }
  | .counter =>
      return { given with verbosity := min (given.verbosity + 1) greatestVerbosity }
  | .request => .error (if setting = .version then .version else .help)

def applyTo (given : Given) (setting : Setting) (value : Text) : Except Refusal Given := do
  match setting.usage with
  | .value => (← given.settle).take (.setting setting) value
  | _ => .error .usage

def takeLong (given : Given) (level : Level) (argument : Text) : Except Refusal Given :=
  let name := argument.takeWhile (· != '=')
  match level.long? name, argument.drop name.length with
  | none, _ => .error .usage
  | some setting, [] => given.apply setting
  | some setting, _ :: value => given.applyTo setting value

/-- Short options behind one dash. The first one that takes a value takes the rest of the argument
for it, less an equals sign. -/
def takeShort (given : Given) (level : Level) : Text → Except Refusal Given
  | [] => .ok given
  | name :: rest =>
      match level.short? name with
      | none => .error .usage
      | some setting =>
          match setting.usage, rest with
          | .value, '=' :: value => given.applyTo setting value
          | .value, first :: value => given.applyTo setting (first :: value)
          | _, _ => do
              let given ← given.apply setting
              given.takeShort level rest

/-- An argument that is no option: the value of the option before it, or the operand. -/
def takePlain (given : Given) (level : Level) (argument : Text) : Except Refusal Given :=
  match given.pending, level.operand? with
  | some (slot, none), _ => .ok { given with pending := some (slot, some argument) }
  | _, some operand => do
      if given.operandMet then .error .usage
      let given ← given.settle
      return { given with pending := some (.operand operand, some argument), operandMet := true }
  | _, none => .error .usage

/-- An argument behind the double dash, which is never an option nor its value. -/
def takeOperand (given : Given) (level : Level) (argument : Text) : Except Refusal Given :=
  if given.awaitsValue then .error .usage else given.takePlain level argument

/-- An argument that may be an option. A single dash is none. -/
def takeArgument (given : Given) (level : Level) (argument : Text) : Except Refusal Given :=
  match argument with
  | '-' :: '-' :: long => given.takeLong level long
  | '-' :: first :: rest => given.takeShort level (first :: rest)
  | _ => given.takePlain level argument

end Given

/-- What the arguments of a level have given, and where they end: at a word or at their end. -/
structure Scan where
  given : Given
  /-- The word that ended the level, with the arguments behind it. -/
  word : Option (Word × List Text)
deriving DecidableEq, Repr

def scan (level : Level) (given : Given) : List Text → Except Refusal Scan
  | [] => .ok { given, word := none }
  | argument :: rest =>
      match if given.awaitsValue then none else level.word? argument with
      | some word => .ok { given, word := some (word, rest) }
      | none =>
          if argument = ['-', '-'] then do
            let given ← rest.foldlM (fun given operand => given.takeOperand level operand) given
            return { given, word := none }
          else do
            let given ← given.takeArgument level argument
            scan level given rest

/-- What a request for help answers: the words behind it have to name a command, or nothing. -/
def helpRefusal : List Text → Refusal
  | [] => .help
  | [name] => if (Word.ofName? name).isSome then .help else .usage
  | _ => .usage

/-- What a whole command line has given. -/
structure Parsed where
  outer : Given
  command : Command
  inner : Given
deriving DecidableEq, Repr

/-- Reads a command line. -/
def parse (arguments : List Text) : Except Refusal Parsed := do
  let outer ← scan .outer {} arguments
  match outer.word with
  | none => .error .usage
  | some (.help, rest) => .error (helpRefusal rest)
  | some (.command command, rest) => do
      let inner ← scan (.inner command) {} rest
      let inner ← inner.given.settle
      let outer ← outer.given.settle
      return { outer, command, inner }

end RandomCodes.CommandLine
