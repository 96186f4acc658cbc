import Reckon.Env.Description
import Reckon.Main
import Reckon.Proofs.Grammar.Basic
import Reckon.Proofs.Grammar.Unique
import Reckon.Proofs.Tree.Flatten
import Reckon.Proofs.Grammar.Trees
import Reckon.Proofs.Grammar.Derive
import Reckon.Proofs.Grammar.Compile
import Reckon.Proofs.Decimal.Reading
import Reckon.Proofs.Number.Bits
import Reckon.Proofs.Token.Marks
import Reckon.Proofs.Written.Normal
import Reckon.Proofs.Written.Words
import Reckon.Proofs.Written.ReadBack
import Reckon.Proofs.Eval.Interpreter
import Reckon.Proofs.Eval.Depth
import Reckon.Proofs.Number.Arithmetic
import Reckon.Proofs.Limits.Compile
import Reckon.Proofs.Eval.Pure
import Reckon.Proofs.Written.Value
import Reckon.Proofs.Eval.Reach
import Reckon.Proofs.Eval.Strict
import Reckon.Proofs.Limits.Calculate
import Reckon.Proofs.Eval.Faults
import Reckon.Proofs.Eval.Unfolding
import Reckon.Proofs.Console.Run
import Reckon.Proofs.Console.Bindings
import Reckon.Proofs.Tree.Fits
import Reckon.Proofs.Limits.Nesting
import Reckon.Proofs.Limits.Height
import Reckon.Proofs.Token.Places
import Reckon.Proofs.Console.Marks
import Reckon.Proofs.Grammar.Canonical
import Reckon.Proofs.Line.Bare
import Reckon.Proofs.Line.Signs
import Reckon.Proofs.Eval.Inline
import Reckon.Proofs.Line.Inline
import Reckon.Proofs.Line.Lead
import Reckon.Proofs.Line.Join
import Reckon.Proofs.Tree.Swaps
import Reckon.Proofs.Line.Variants
import Reckon.Proofs.Tree.Rows
import Reckon.Proofs.Tree.Sweep
import Reckon.Proofs.Expr.Visits
import Reckon.Proofs.Token.Munch
import Reckon.Proofs.Token.Folding
import Reckon.Proofs.Eval.Agreement
import Reckon.Proofs.Console.Names
import Reckon.Proofs.Tree.Fused
