import OrderedJobs.CommandLine.Basic

/-! # The program

The command line as a program.  It rehearses a run: commands are read, checked, launched and echoed
in order on a host whose children end at once, without output of their own. -/

namespace OrderedJobs.Program

/-- Reads a stream to its end. -/
partial def readAll (stream : IO.FS.Stream) (taken : ByteArray) : IO ByteArray := do
  let chunk ← stream.read 65536
  if chunk.isEmpty then return taken
  readAll stream (taken ++ chunk)

/-- The invocation that the process was started with. -/
def invocation (arguments : List String) : IO Invocation := do
  let input ← IO.getStdin
  let interactive ← input.isTty
  let bytes ← if interactive then pure ByteArray.empty else readAll input ByteArray.empty
  return {
    arguments := arguments.map Bytes.ofString
    input := bytes.data.toList
    interactive
    level := ← IO.getEnv "PARARUN_LOG_LEVEL"
    host := { platform := { terminal := ← (← IO.getStdout).isTty } } }

end OrderedJobs.Program

def main (arguments : List String) : IO UInt32 := do
  let i ← OrderedJobs.Program.invocation arguments
  let a := i.answer
  let output ← IO.getStdout
  output.write ⟨a.output.toArray⟩
  output.flush
  let now ← IO.monoMsNow
  IO.eprint (i.errorOutput (toString now) a)
  match a.exit with
  | .ok code => return code.toNat.toUInt32
  | .error e =>
    IO.eprintln e.message
    return 1
