import RandomCodes.CommandLine.Run
/-!
# Command line

Prints random codes. What is done is settled by the modules that this one imports; here arguments,
files and the outcome meet the system.
-/

namespace RandomCodes.CommandLine

/-- The lines that explain the arguments. -/
def helpLines : List String :=
  ["Generate random verification codes",
    "",
    "Usage: [OPTIONS] <COMMAND>",
    "",
    "Commands: digits, letters, word, charset, pattern, config, help",
    "",
    "Options:",
    "  -n, --count <COUNT>  How many codes to print, one per line",
    "  -s, --seed <SEED>    Seed the random source for a reproducible run",
    "  -v, --verbose        More logging",
    "  -h, --help           Print help",
    "  -V, --version        Print version"]

def readFile (path : Text) : IO (Except FileProblem ByteArray) := do
  try
    return .ok (← IO.FS.readBinFile (String.ofList path))
  catch
    | .noFileOrDirectory .. => return .error .notFound
    | error => return .error (.other (toString error))

/-- A generator that nobody can foretell. -/
def unforeseeable : IO Congruential := do
  let bytes ← IO.getRandomBytes 8
  return .ofSeed (bytes.toList.foldl (fun seed byte => seed <<< 8 ||| byte.toUInt64) 0)

def filesOf (invocation : Invocation) : IO Files := do
  match invocation.origin with
  | .given _ => return fun _ => .error .notFound
  | .file path =>
      let content ← readFile path
      return fun _ => content

/-- Does what the arguments ask for; the result is the exit code. -/
def runArguments (arguments : List String) : IO UInt32 := do
  match Invocation.ofArguments (arguments.map String.toList) with
  | .error .usage =>
      helpLines.forM IO.eprintln
      return 2
  | .error .help =>
      helpLines.forM IO.println
      return 0
  | .error .version =>
      IO.println "0.1.0"
      return 0
  | .ok invocation =>
      match invocation.run (← filesOf invocation) (← unforeseeable) with
      | .ok text =>
          IO.print (String.ofList text)
          return 0
      | .error error =>
          IO.eprintln s!"error: {error.message}"
          return 1

end RandomCodes.CommandLine

def main (arguments : List String) : IO UInt32 :=
  RandomCodes.CommandLine.runArguments arguments
