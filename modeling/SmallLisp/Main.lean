import SmallLisp.CommandLine

/-!
# The program

Reads the files that the arguments name, and hands lines to the console one at a time.
-/

namespace SmallLisp.Main

/-- The number of a system error. Some calls give it negated. -/
def errorNumber (code : UInt32) : UInt32 :=
  min code (-code)

/-- Why the system could not read a file. -/
def fault : IO.Error → FileFault
  | .noFileOrDirectory .. => .missing
  | .inappropriateType _ code _ =>
      if errorNumber code = 20 then .notDirectory else .isDirectory
  | other@(.invalidArgument _ code _) =>
      if errorNumber code = 36 then .tooLong else .other (toString other)
  | other => .other (toString other)

/-- The text of a file, or why there is none. -/
def readFile (path : String) : IO (Except FileFault String) := do
  match ← (IO.FS.readBinFile path).toBaseIO with
  | .error e => return .error (fault e)
  | .ok bytes =>
      match String.fromUTF8? bytes with
      | some text => return .ok text
      | none => return .error .notText

/-- The paths that the arguments ask to read. -/
def named (args : List String) : List String :=
  match Options.parse args with
  | .ok (some options) => options.preload ++ options.file.toList
  | _ => []

/-- Write to the two channels. -/
def write (outputs : List Output) : IO Unit := do
  for output in outputs do
    match output with
    | .out text => IO.print text
    | .err text => IO.eprint text
  (← IO.getStdout).flush

/-- Answer lines until they end or one of them asks to end. -/
partial def converse (console : CommandLine.Console) : IO Unit := do
  write [CommandLine.prompt]
  let line ← (← IO.getStdin).getLine
  if line.isEmpty then return
  let (outputs, next) := console.answer Session.defaultFuel line
  write outputs
  match next with
  | some console => converse console
  | none => return

end SmallLisp.Main

/-- Run the program. -/
def main (args : List String) : IO UInt32 := do
  let contents ← (SmallLisp.Main.named args).mapM fun path =>
    return (path, ← SmallLisp.Main.readFile path)
  let files : SmallLisp.Files := fun path => (contents.lookup path).getD (.error .missing)
  match SmallLisp.CommandLine.begin SmallLisp.Session.defaultFuel files args with
  | .ended outputs status =>
      SmallLisp.Main.write outputs
      return status.toUInt32
  | .console outputs console =>
      SmallLisp.Main.write outputs
      SmallLisp.Main.converse console
      return 0
