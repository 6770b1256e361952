import MixedRadix.Compile
import MixedRadix.Config.Output
import MixedRadix.Config.Reader
import MixedRadix.FileSystem
import MixedRadix.Scalar.Binary64
import MixedRadix.SourceFile

/-!
# Command line

The program reads a configuration, compiles its kernel and writes the source text to the path that
the configuration names. Arguments are the path of the configuration and options.
-/

namespace MixedRadix

namespace CommandLine

/-- What the arguments ask for. -/
inductive Command where
  /-- Compile the configuration at a path, and report statistics if wanted. -/
  | compile (path : String) (statistics : Bool)
  | help
  | version
  /-- The path is empty. -/
  | emptyPath
  /-- The arguments make no sense. -/
  | misuse
  deriving DecidableEq, Repr

/-- The options that the program knows. -/
inductive Flag where
  | statistics
  | help
  | version
  deriving DecidableEq, Repr

/-- The option that an argument is. Of several letters behind one dash the first decides. -/
def Flag.ofArgument? (arg : String) : Option Flag :=
  if arg = "--stats" then some .statistics
  else if arg = "--help" || arg.startsWith "-h" then some .help
  else if arg = "--version" || arg.startsWith "-V" then some .version
  else none

/-- The arguments read so far. -/
structure Arguments where
  path : Option String := none
  statistics : Bool := false
  deriving DecidableEq, Repr

namespace Arguments

/-- Takes an argument as the path, of which there is only one. -/
def withPath (a : Arguments) (path : String) : Option Arguments :=
  if a.path.isSome then none else some { a with path := some path }

/-- Whether the path is empty. -/
def hasEmptyPath (a : Arguments) : Bool :=
  a.path == some ""

/-- The command of all arguments: there has to be a path, and it is not empty. -/
def command (a : Arguments) : Command :=
  match a.path with
  | none => .misuse
  | some path => if a.hasEmptyPath then .emptyPath else .compile path a.statistics

end Arguments

/-- Reads arguments behind the mark that ends the options. -/
def readPaths (a : Arguments) : List String → Command
  | [] => a.command
  | arg :: rest =>
    match a.withPath arg with
    | some a => readPaths a rest
    | none => .misuse

/-- Whether an argument is an option, or several of one letter each. -/
def isOption (arg : String) : Bool :=
  arg.startsWith "-" && arg ≠ "-"

/-- Reads arguments from left to right; the first one that ends the reading decides. A path is
looked at when a known option follows it or when there are no more arguments. -/
def read (a : Arguments) : List String → Command
  | [] => a.command
  | arg :: rest =>
    if arg = "--" then readPaths a rest
    else
      match Flag.ofArgument? arg with
      | some flag =>
        if a.hasEmptyPath then .emptyPath
        else
          match flag with
          | .help => .help
          | .version => .version
          | .statistics =>
            if a.statistics then .misuse else read { a with statistics := true } rest
      | none =>
        if isOption arg then .misuse
        else
          match a.withPath arg with
          | some a => read a rest
          | none => .misuse

/-- What the arguments ask for. -/
def parse (args : List String) : Command :=
  read {} args

/-- How a run of the program ended. -/
inductive Outcome where
  | help
  | version
  | emptyPath
  | misuse
  /-- The kernel was written; its cost, and its statistics if wanted. -/
  | written (cost : Cost) (statistics : Option Statistics)
  /-- Something failed, with this message. -/
  | failed (message : String)
  deriving DecidableEq, Repr

/-- How the program is called. -/
def usage : String :=
  "Generate fixed-size DCT-II and mixed-radix FFT kernels\n\n" ++
  "Usage: tkgen [OPTIONS] <CONFIG>\n\n" ++
  "Arguments:\n  <CONFIG>  Path to the JSON kernel configuration\n\n" ++
  "Options:\n" ++
  "      --stats    Print compilation statistics to stderr\n" ++
  "  -h, --help     Print help\n" ++
  "  -V, --version  Print version\n"

namespace Outcome

/-- The exit code. -/
def exitCode : Outcome → Nat
  | help | version | written _ _ => 0
  | emptyPath | misuse | failed _ => 1

/-- What goes to the standard output. -/
def stdout : Outcome → String
  | help => usage
  | version => "tkgen 0.1.0\n"
  | written cost _ => s!"OK! Mul/Add={cost.mul}/{cost.add}.\n"
  | emptyPath | misuse | failed _ => ""

/-- What goes to the standard error output. -/
def stderr : Outcome → String
  | emptyPath =>
    "error: a value is required for '<CONFIG>' but none was supplied\n\n" ++
      "For more information, try '--help'.\n"
  | misuse => usage
  | written _ (some statistics) => statistics.text
  | failed message => s!"error: {message}\n"
  | help | version | written _ none => ""

end Outcome

/-- The message of a file that cannot be read or written. -/
def fileMessage (path : String) (e : FileError) : String :=
  s!"I/O error on {path}: {e.message}"

/-- The kernel of a configuration and where it is written, given the text of the configuration and
its path. -/
def prepare (path text : String) : Except String (String × Kernel Float) := do
  let config ← (Config.ofText text).mapError Config.Problem.message
  let target ← (config.outputPath path).mapError Config.Problem.message
  let kernel ← (config.compile (R := Float)).mapError fun e => e.message?.getD "internal fault"
  return (target, kernel)

/-- Compiles the configuration at a path. -/
def compileFile {m : Type → Type} [Monad m] (fs : FileSystem m) (path : String)
    (statistics : Bool) : m Outcome := do
  match ← fs.read path with
  | .error e => return .failed (fileMessage path e)
  | .ok text =>
    match prepare path text with
    | .error message => return .failed message
    | .ok (target, kernel) =>
      match ← fs.write target kernel.source with
      | .error e => return .failed (fileMessage target e)
      | .ok () =>
        return .written kernel.cost (if statistics then some kernel.statistics else none)

/-- Runs the program. -/
def run {m : Type → Type} [Monad m] (fs : FileSystem m) (args : List String) : m Outcome :=
  match parse args with
  | .compile path statistics => compileFile fs path statistics
  | .help => return .help
  | .version => return .version
  | .emptyPath => return .emptyPath
  | .misuse => return .misuse

end CommandLine

end MixedRadix
