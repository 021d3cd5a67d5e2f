import Workflow.Expr.Basic
import Workflow.Expr.Token

/-! The operators that join operands from the left, by their levels of precedence. -/
namespace Workflow

inductive Joint where
  | binary (op : BinaryOp)
  | logical (op : LogicalOp)
  deriving Repr, DecidableEq

namespace Joint

def ofMark? : Mark → Option Joint
  | .questionQuestion => some (.logical .nullish)
  | .orOr => some (.logical .or)
  | .andAnd => some (.logical .and)
  | .eqEq => some (.binary .eq)
  | .notEq => some (.binary .notEq)
  | .eqEqEq => some (.binary .strictEq)
  | .notEqEq => some (.binary .strictNotEq)
  | .lt => some (.binary .lt)
  | .le => some (.binary .le)
  | .gt => some (.binary .gt)
  | .ge => some (.binary .ge)
  | .plus => some (.binary .add)
  | .minus => some (.binary .sub)
  | .star => some (.binary .mul)
  | .slash => some (.binary .div)
  | .percent => some (.binary .rem)
  | _ => none

/-- How many operators bind less tightly, counted in levels; powers bind tightest. -/
def level : Joint → Nat
  | .logical .nullish => 0
  | .logical .or => 1
  | .logical .and => 2
  | .binary .eq | .binary .notEq | .binary .strictEq | .binary .strictNotEq => 3
  | .binary .lt | .binary .le | .binary .gt | .binary .ge => 4
  | .binary .add | .binary .sub => 5
  | .binary .mul | .binary .div | .binary .rem => 6
  | .binary .pow => 7

/-- The level behind that of the operators that bind tightest of those joined from the left. -/
def levelCount : Nat :=
  7

def apply (j : Joint) (left right : Expr) : Expr :=
  match j with
  | .binary op => .binary op left right
  | .logical op => .logical op left right

end Joint

end Workflow
