import Reckon.Eval
import Reckon.Expr.OfTree
import Reckon.Token.Signs
import Reckon.Tree.OfTokens

/-!
# The value of a line

A line is compiled in stages: tokens, tree, expression. The first stage that fails decides the
error. Calculating a line is compiling and evaluating it in one go, with a record in the log for
each stage that succeeds.
-/

namespace Reckon

/-! ## Compiling -/

/-- The expression of a line, or why it has none. -/
def compile (limits : Limits) (line : String) : Except Error Expr := do
  let tokens ← (tokenize line).mapError .lex
  let tree ← (Tree.ofTokens limits tokens).mapError .group
  (Expr.ofTree limits tree).mapError .parse

/-! ## Calculating -/

/-- The records of compiling a line. -/
def compileRecords (limits : Limits) (line : String) : List Record :=
  match tokenize line with
  | .error _ => []
  | .ok tokens => .tokenized line.utf8ByteSize tokens.length ::
    match Tree.ofTokens limits tokens with
    | .error _ => []
    | .ok tree => .grouped tree.items.length ::
      match Expr.ofTree limits tree with
      | .error _ => []
      | .ok e => [.parsed e.children.length]

/-- The value of a line in an environment, if there is one. -/
def calculate (env : Option Env) (line : String) : ExceptT Error (StateM Machine) Float := fun m =>
  let limits := limitsOf env
  let m := m.tell (compileRecords limits line)
  match compile limits line with
  | .error cause => (.error cause, m)
  | .ok e =>
    let done := evaluate env e m
    (done.1.mapError .eval, done.2)

end Reckon
