import Reckon.Console.Transcript
import Reckon.Settings

/-!
# The command line

An interactive session on the standard streams. The limits come from the environment variables named
in `Settings`.
-/

namespace Reckon

/-- Reads bytes up to the next line feed, or to the end of the input. -/
partial def readLine (stdin : IO.FS.Stream) (line : ByteArray) : IO ByteArray := do
  match (← stdin.read 1).toList with
  | [] => return line
  | byte :: _ => if byte == 10 then return line.push byte else readLine stdin (line.push byte)

/-- Carries on a session and gives its exit code. -/
partial def converse (s : Session) : IO UInt32 := do
  let stdout ← IO.getStdout
  let stderr ← IO.getStderr
  stdout.putStr prompt
  stdout.flush
  let line ← readLine (← IO.getStdin) ByteArray.empty
  if line.isEmpty then return 0
  match decodeLine line.toList with
  | none => return 1
  | some typed =>
    match s.turn typed with
    | none => return 0
    | some (reply, s) =>
      stdout.putStr ((reply.map Reply.output).getD "")
      stdout.flush
      stderr.putStr ((reply.map Reply.errors).getD "")
      converse { s with machine := { s.machine with log := [] } }

end Reckon

/-- Runs a session at the console. -/
def main : IO UInt32 := do
  let maxDepth ← IO.getEnv Reckon.Settings.maxDepthName
  let maxEvalDepth ← IO.getEnv Reckon.Settings.maxEvalDepthName
  let (limits, _) := Reckon.Settings.limits maxDepth maxEvalDepth
  let seed ← IO.monoNanosNow
  Reckon.converse (Reckon.Session.start limits ⟨UInt64.ofNat seed⟩)
