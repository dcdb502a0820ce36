import LispReader.CommandLine

/-!
# Main program

Reads the arguments, the input and files, and writes what the command line answers. A session
answers each entry as soon as it ends.
-/

namespace LispReader.Main

/-- A directory can be opened but not read (error 21); a path through a file cannot be opened. -/
def readError : IO.Error → ReadError
  | .noFileOrDirectory .. => .missing
  | .inappropriateType _ 21 _ => .isDirectory
  | .inappropriateType .. => .notDirectory
  | e => .other (toString e)

def readSource (path : String) : IO (Except ReadError Source) := do
  match ← (IO.FS.readBinFile path).toBaseIO with
  | .ok bytes => pure ((decodeText bytes).map (Source.mk path))
  | .error e => pure (.error (readError e))

def write (output : Output) : IO Unit := do
  let out ← IO.getStdout
  let err ← IO.getStderr
  out.putStr output.stdout
  out.flush
  err.putStr output.stderr
  err.flush

/-- Reads lines and answers their entries until the input ends. -/
partial def converse (color showTokens : Bool) (input : IO.FS.Stream) (pending : List Char) :
    IO Unit := do
  let line := (← input.getLine).toList
  let entry := Entry.extend pending line
  if line.isEmpty then
    unless pending.isEmpty do write (Session.respond color showTokens pending)
  else if Entry.endsWith pending line then
    write (Session.respond color showTokens entry)
    converse color showTokens input []
  else
    converse color showTokens input entry

/-- Answers the arguments and gives the exit status. -/
def run (args : List String) : IO UInt32 := do
  let color ← (← IO.getStdout).isTty
  match CommandLine.Request.ofArguments ⟨[], none⟩ args with
  | .ok (.run options none) =>
    write ⟨Session.banner, ""⟩
    converse color options.showTokens (← IO.getStdin) []
    return 0
  | request =>
    let found ← match request with
      | .ok (.run _ (some path)) => readSource path
      | _ => pure (.error .missing)
    let answer := CommandLine.answer color (fun _ => found) "" args
    write answer.output
    return answer.exit.toUInt32

end LispReader.Main

def main (args : List String) : IO UInt32 := LispReader.Main.run args
