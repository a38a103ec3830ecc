import Formulary.Arguments

/-! The program: arguments, files and standard streams around the pure run. -/

namespace Formulary

/-- The rest of a stream. -/
partial def readToEnd (stream : IO.FS.Stream) (read : ByteArray) : IO ByteArray := do
  let chunk ← stream.read 65536
  if chunk.isEmpty then pure read else readToEnd stream (read ++ chunk)

/-- The grammar in a file, if the file can be read. -/
def grammarSource (file : Option String) : IO CommandLine.GrammarSource := do
  match file with
  | none => pure .builtIn
  | some file =>
      try
        match String.fromUTF8? (← IO.FS.readBinFile file) with
        | some text => pure (.text text)
        | none => pure (.unreadable "stream did not contain valid UTF-8")
      catch
        | .noFileOrDirectory .. => pure (.unreadable "No such file or directory (os error 2)")
        | error => pure (.unreadable (toString error))

/-- Writes out a response and gives its exit status. -/
def deliver (response : CommandLine.Response) : IO UInt32 := do
  (← IO.getStdout).putStr response.stdout
  (← IO.getStderr).putStr response.stderr
  pure response.code.toUInt32

/-- Runs the program on arguments and gives its exit status. -/
def runMain (args : List String) : IO UInt32 := do
  match Arguments.read args with
  | .error ending => deliver ending.response
  | .ok arguments =>
      let grammar ← grammarSource arguments.grammar
      let input ←
        match arguments.expression with
        | some _ => pure ByteArray.empty
        | none => readToEnd (← IO.getStdin) ByteArray.empty
      deliver (CommandLine.run (arguments.request grammar input))

end Formulary

def main (args : List String) : IO UInt32 :=
  Formulary.runMain args
