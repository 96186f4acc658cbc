import Reckon.Calculate
import Reckon.Env.Builtins
import Reckon.Expr.Text
import Reckon.Text.Basic

/-!
# A session at the console

A line of the form `name = expression` binds a variable, any other line is evaluated. What a line
does is a `Reply`, which knows what it puts on the output and among the errors. A session goes on
after every error; only an accepted binding changes its environment.
-/

namespace Reckon

/-- What a line does. -/
inductive Reply where
  | bound (name : String) (e : Expr)
  | value (x : Float)
  | invalidName (name : String)
  /-- The expression `source` has an error. -/
  | failed (source : String) (cause : Error)

namespace Reply

/-- A line of marks under the characters of a span; an empty span has one mark. -/
def marks (span : Span) : String :=
  let width := max span.stop (span.start + 1) - span.start
  String.ofList (List.replicate span.start ' ' ++ List.replicate width '^')

/-- What goes to the output. -/
def output : Reply → String
  | bound name e => " " ++ name ++ " = " ++ e.text ++ "\n"
  | value x => " " ++ Layout.marked.text x ++ "\n"
  | _ => ""

/-- What goes among the errors: the message, below the marked source if the cause has a place in it.
-/
def errors : Reply → String
  | invalidName name => "error: invalid variable name '" ++ name ++ "'\n"
  | failed source cause =>
    let place :=
      match cause.span? with
      | some span => source ++ "\n" ++ marks span ++ "\n"
      | none => ""
    place ++ "error: " ++ cause.message ++ "\n"
  | _ => ""

end Reply

/-- Whether characters make a variable name: letters, the first one in lower case. -/
def isVariableName : List Char → Bool
  | [] => false
  | c :: rest => c.isLower && rest.all Char.isAlpha

/-- A session: its bindings and the evaluator's state. -/
structure Session where
  env : Env
  machine : Machine

namespace Session

/-- A session with the built-in environment. -/
def start (limits : Limits) (source : Source) : Session := ⟨Env.builtins limits, .start source⟩

/-- Evaluates the expression `source`. -/
def calculate (s : Session) (source : String) : Reply × Session :=
  let done := Reckon.calculate (some s.env) source s.machine
  let reply :=
    match done.1 with
    | .ok x => .value x
    | .error cause => .failed source cause
  (reply, { s with machine := done.2 })

/-- Binds a name to the expression `source`, unless the name or the expression is wrong. -/
def bind (s : Session) (name source : String) : Reply × Session :=
  if isVariableName name.toList then
    let machine := s.machine.tell (compileRecords s.env.limits source)
    match compile s.env.limits source with
    | .ok e => (.bound name e, { env := s.env.bind name e, machine })
    | .error cause => (.failed source cause, { s with machine })
  else (.invalidName name, s)

/-- Carries out a line without blanks at its ends. The first `=` of a line separates the name from
the expression. -/
def execute (s : Session) (line : String) : Reply × Session :=
  let name := line.toList.takeWhile (· != '=')
  match line.toList.dropWhile (· != '=') with
  | [] => s.calculate line
  | _ :: source =>
    s.bind (String.ofList (Text.trimChars name)) (String.ofList (Text.trimChars source))

/-- Whether a line ends the session. -/
def ends (line : String) : Bool := line == "exit" || line == "quit"

/-- Takes a line as it was typed: `none` if it ends the session, no reply if it is blank. -/
def turn (s : Session) (typed : String) : Option (Option Reply × Session) :=
  let line := Text.trim typed
  if ends line then none
  else if line.isEmpty then some (none, s)
  else
    let done := s.execute line
    some (some done.1, done.2)

end Session

end Reckon
