import SmallLisp.Session.Lifecycle

/-!
# The command line

The program runs a file and shows the last value, or reads lines and answers each as it comes.
Everything it does is a function of its arguments, a source of files and the lines it is given;
what it writes is a list of outputs, each for one of the two channels.
-/

namespace SmallLisp

/-- What the arguments ask for. -/
structure Options where
  file : Option String := none
  preload : List String := []
  maxDepth : Nat := 1000
  deriving DecidableEq

/-- Why the arguments mean nothing. -/
inductive UsageError where
  | missingFile
  | missingDepth
  | invalidDepth (text : String)
  | unknownOption (text : String)
  | tooManyArguments
  deriving DecidableEq

/-- The wording of a usage error. -/
def UsageError.message : UsageError → String
  | missingFile => "--load requires a file argument"
  | missingDepth => "--max-depth requires a number"
  | invalidDepth text => "invalid --max-depth value '" ++ text ++ "'"
  | unknownOption text => "unknown option '" ++ text ++ "'"
  | tooManyArguments => "too many arguments"

namespace Options

/-- The number that a text stands for: decimal digits, perhaps with a plus sign in front, that
fit an unsigned 64-bit word. -/
def number? (text : String) : Option Nat :=
  let digits := match text.toList with
    | '+' :: rest => rest
    | all => all
  if digits ≠ [] && digits.all Decimal.isDigit && Decimal.ofDigits digits < UInt64.size then
    some (Decimal.ofDigits digits)
  else none

/-- What further arguments ask for, or nothing when they ask for help. -/
def parseFrom (options : Options) : List String → Except UsageError (Option Options)
  | [] => .ok (some options)
  | "-h" :: _ => .ok none
  | "--help" :: _ => .ok none
  | ["--load"] => .error .missingFile
  | "--load" :: path :: rest =>
      parseFrom { options with preload := options.preload ++ [path] } rest
  | ["--max-depth"] => .error .missingDepth
  | "--max-depth" :: text :: rest =>
      match number? text with
      | some maxDepth => parseFrom { options with maxDepth } rest
      | none => .error (.invalidDepth text)
  | arg :: rest =>
      if arg.startsWith "-" then .error (.unknownOption arg)
      else if options.file.isSome then .error .tooManyArguments
      else parseFrom { options with file := some arg } rest

/-- What the arguments ask for, or nothing when they ask for help. -/
def parse (args : List String) : Except UsageError (Option Options) :=
  parseFrom {} args

end Options

/-- A piece of text for one of the two channels. -/
inductive Output where
  | out (text : String)
  | err (text : String)
  deriving DecidableEq

namespace Output

/-- A line on the first channel. -/
def line (text : String) : Output :=
  out (text ++ "\n")

/-- A line on the second channel. -/
def errLine (text : String) : Output :=
  err (text ++ "\n")

/-- All text for the first channel. -/
def outText (outputs : List Output) : String :=
  String.join (outputs.map fun | out text => text | err _ => "")

/-- All text for the second channel. -/
def errText (outputs : List Output) : String :=
  String.join (outputs.map fun | out _ => "" | err text => text)

end Output

namespace CommandLine

/-- How the program is used. -/
def usage : List Output :=
  [ "Usage:",
    "  rdl [OPTIONS]              Start interactive REPL",
    "  rdl [OPTIONS] <file.lisp>  Run a Lisp file and print the last result",
    "",
    "Options:",
    "  --load <file>     Evaluate a library file first (repeatable)",
    "  --max-depth <n>   Maximum evaluation depth (default 1000)",
    "  -h, --help        Show this help message" ].map .errLine

/-- What is shown before the first line is read. -/
def greeting : List Output :=
  ["rdlisp REPL", "Type expressions to evaluate, :quit or Ctrl-D to exit", ""].map .line

/-- What is shown before each line is read. -/
def prompt : Output :=
  .out "rdl> "

/-- An error as it is shown. -/
def errorLine (text : String) : Output :=
  .errLine ("Error: " ++ text)

/-- Why an evaluation has no result, as it is shown. -/
def haltLine : Halt → Output
  | .error cause => errorLine cause.describe
  | .exhausted => errorLine "evaluation exhausted"

/-- A session that is being used from a terminal. -/
structure Console where
  session : Session
  store : Store

namespace Console

variable (fuel : Nat)

/-- What is shown for the outcomes of a line. -/
def shownOutcomes (store : Store) (outcomes : List (Except Error Value)) : List Output :=
  outcomes.map fun
    | .ok value => .line (store.print value)
    | .error cause => errorLine cause.describe

/-- Answer a line. There is no console afterwards if the line asks to end. -/
def answer (console : Console) (line : String) : List Output × Option Console :=
  let text := Text.trim line
  if text = "" then ([], some console)
  else if text = ":quit" then ([], none)
  else
    match console.session.execute [] console.store none (console.session.evalLine fuel text) with
    | (.ok outcomes, session, store, _) => (shownOutcomes store outcomes, some ⟨session, store⟩)
    | (.error halt, session, store, _) => ([haltLine halt], some ⟨session, store⟩)

/-- Answer lines until they end or one of them asks to end. -/
def converse (console : Console) : List String → List Output
  | [] => [prompt]
  | line :: rest =>
      match console.answer fuel line with
      | (outputs, some console) => prompt :: outputs ++ console.converse rest
      | (outputs, none) => prompt :: outputs

/-- Run a file and show its last value. The second component tells whether it succeeded. -/
def runFile (console : Console) (files : Files) (path : String) : List Output × Bool :=
  match files path with
  | .error fault =>
      ([.errLine ("Failed to read file '" ++ path ++ "': " ++ fault.message)], false)
  | .ok text =>
      match console.session.execute [] console.store none
          (console.session.evalText fuel text) with
      | (.error halt, _) => ([haltLine halt], false)
      | (.ok values, _, store, _) =>
          ((values.getLast?.map fun value => Output.line (store.print value)).toList, true)

end Console

/-- What the program does first. -/
inductive Opening where
  /-- It writes something and ends; the status tells whether it succeeded. -/
  | ended (outputs : List Output) (status : Nat)
  /-- It reads lines. -/
  | console (outputs : List Output) (console : Console)

/-- What the program does with its arguments. -/
def begin (fuel : Nat) (files : Files) (args : List String) : Opening :=
  match Options.parse args with
  | .error cause => .ended (errorLine cause.message :: usage) 1
  | .ok none => .ended usage 0
  | .ok (some options) =>
      match Session.start fuel files options.maxDepth options.preload [] {} none with
      | (.error halt, _) => .ended [haltLine halt] 1
      | (.ok _, session, store, _) =>
          match options.file with
          | none => .console greeting ⟨session, store⟩
          | some path =>
              match Console.runFile fuel ⟨session, store⟩ files path with
              | (outputs, true) => .ended outputs 0
              | (outputs, false) => .ended outputs 1

/-- The lines of a text; the last one may lack its end. -/
def lines (text : String) : List String :=
  match (text.splitOn "\n").reverse with
  | "" :: rest => rest.reverse
  | all => all.reverse

/-- All that the program writes and its exit status, given all of its input. -/
def run (fuel : Nat) (files : Files) (args : List String) (input : String) :
    List Output × Nat :=
  match begin fuel files args with
  | .ended outputs status => (outputs, status)
  | .console outputs console => (outputs ++ console.converse fuel (lines input), 0)

end CommandLine

end SmallLisp
