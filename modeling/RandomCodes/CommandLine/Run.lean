import RandomCodes.CommandLine.Arguments
import RandomCodes.Configuration.Reader
import RandomCodes.Configuration.Writer
import RandomCodes.Random.Seeded
/-!
# Running an invocation

What a command line that makes sense asks for. The configuration is found, the generator built, and
the codes are written one to a line. Files are seen through a function from paths to contents.
-/

namespace RandomCodes.CommandLine

/-- Where the configuration of a generator is found. -/
inductive Origin where
  | given (configuration : Configuration)
  | file (path : Text)
deriving DecidableEq, Repr

/-- What is asked for. -/
structure Invocation where
  count : UInt64
  seed : Option UInt64
  verbosity : Nat
  /-- Where the configuration is found. -/
  origin : Origin
deriving DecidableEq, Repr

namespace Given

def value? (given : Given) (slot : Slot) : Option Text :=
  given.values.lookup slot

def number? (given : Given) (setting : Setting) : Option UInt64 :=
  (given.value? (.setting setting)).bind Text.toUInt64?

/-- Whether a switch has been set. -/
def has (given : Given) (setting : Setting) : Bool :=
  given.switches.contains setting

end Given

/-- Where the configuration of a command is found, unless something it needs was not given. -/
def Command.origin? (command : Command) (given : Given) : Option Origin :=
  match command with
  | .digits => do
      let length ← given.number? .length
      return .given (.digits length (given.has .noLeadingZero))
  | .letters => do
      let length ← given.number? .length
      return .given (.letters length (.ofFlags (given.has .upper) (given.has .lower)))
  | .word => do
      let length ← given.number? .length
      return .given (.word length)
  | .charset => do
      let length ← given.number? .length
      let characters ← given.value? (.setting .charset)
      return .given (.charset length characters)
  | .pattern => do
      let text ← given.value? (.operand .pattern)
      return .given (.pattern text)
  | .config => do
      let path ← given.value? (.operand .path)
      return .file path

/-- One code is printed unless another number was given. -/
def defaultCount : UInt64 := 1

def Invocation.ofArguments (arguments : List Text) : Except Refusal Invocation := do
  let parsed ← parse arguments
  match parsed.command.origin? parsed.inner with
  | none => .error .usage
  | some origin =>
      return {
        count := (parsed.outer.number? .count).getD defaultCount
        seed := parsed.outer.number? .seed
        verbosity := parsed.outer.verbosity
        origin }

/-- Why a file has no text. -/
inductive FileProblem where
  | notFound
  | notText
  | other (reason : String)
deriving DecidableEq, Repr

def FileProblem.message : FileProblem → String
  | notFound => "No such file or directory (os error 2)"
  | notText => "stream did not contain valid UTF-8"
  | other reason => reason

abbrev Files := Text → Except FileProblem ByteArray

/-- Why an invocation fails. -/
inductive RunError where
  | unreadable (path : Text) (problem : FileProblem)
  | invalid (path : Text) (error : Configuration.ReadError)
  | unbuildable (error : BuildError)

/-- The reason in words, from the outermost to the innermost. Nothing is said of what is wrong with
text that is not JSON. -/
def RunError.message : RunError → String
  | unreadable path problem => s!"failed to read {String.ofList path}: {problem.message}"
  | invalid path error =>
      let failure := s!"invalid generator configuration in {String.ofList path}"
      match error.message? with
      | some reason => s!"{failure}: {reason}"
      | none => failure
  | unbuildable error => s!"cannot build generator: {error.message}"

def readText (files : Files) (path : Text) : Except FileProblem Text := do
  match String.fromUTF8? (← files path) with
  | some content => return content.toList
  | none => .error .notText

def Origin.configuration (files : Files) : Origin → Except RunError Configuration
  | given configuration => .ok configuration
  | file path =>
      match readText files path with
      | .error problem => .error (.unreadable path problem)
      | .ok content =>
          match Configuration.ofJson content with
          | .error error => .error (.invalid path error)
          | .ok configuration => .ok configuration

/-- The lines of a number of codes. -/
def codeLines (count : Nat) (generator : Generator) : Draws Text := do
  let codes ← Draws.collect count generator.generate
  return codes.flatMap fun code => code ++ ['\n']

namespace Invocation

/-- The random generator of an invocation: that of its seed, or else the one it is handed. -/
def randomness (unseeded : Congruential) (invocation : Invocation) : Congruential :=
  match invocation.seed with
  | some seed => .ofSeed seed
  | none => unseeded

def run (files : Files) (unseeded : Congruential) (invocation : Invocation) :
    Except RunError Text := do
  let configuration ← invocation.origin.configuration files
  match configuration.build with
  | .error error => .error (.unbuildable error)
  | .ok generator =>
      let program := codeLines invocation.count.toNat generator
      return (program.run Congruential.source (invocation.randomness unseeded)).1

end Invocation

end RandomCodes.CommandLine
