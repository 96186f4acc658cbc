import Reckon.Console.Session

/-!
# Transcripts of sessions

A whole input, given as bytes, run through a session: a prompt before each line and the replies
after it. A line that is not UTF-8 text breaks the session off.
-/

namespace Reckon

/-- The lines of some bytes, each up to its line feed; what comes after the last line feed is a line
if it is not empty. -/
def byteLines (bytes : List UInt8) : List (List UInt8) :=
  match bytes with
  | [] => []
  | b :: rest =>
    if b == 10 then [] :: byteLines rest
    else
      match byteLines rest with
      | [] => [[b]]
      | line :: lines => (b :: line) :: lines

/-- The text that some bytes encode, if they are UTF-8. -/
def decodeLine (bytes : List UInt8) : Option String := String.fromUTF8? ⟨bytes.toArray⟩

/-- What stands before each line. -/
def prompt : String := ">>> "

/-- What a session puts out, and whether it came to its end. -/
structure Transcript where
  output : String
  errors : String
  completed : Bool

namespace Transcript

/-- A transcript with a prompt and perhaps a reply in front. -/
def after (reply : Option Reply) (rest : Transcript) : Transcript :=
  { rest with
    output := prompt ++ (reply.map Reply.output).getD "" ++ rest.output
    errors := (reply.map Reply.errors).getD "" ++ rest.errors }

/-- Runs lines through a session. -/
def ofLines (s : Session) : List (List UInt8) → Transcript
  | [] => ⟨prompt, "", true⟩
  | line :: rest =>
    match decodeLine line with
    | none => ⟨prompt, "", false⟩
    | some typed =>
      match s.turn typed with
      | none => ⟨prompt, "", true⟩
      | some (reply, s) => after reply (ofLines s rest)

/-- The exit code of a session. -/
def exitCode (t : Transcript) : Nat := if t.completed then 0 else 1

end Transcript

end Reckon
