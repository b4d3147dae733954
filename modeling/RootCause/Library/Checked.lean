import Mathlib.Algebra.BigOperators.Group.List.Basic
import Mathlib.Algebra.Order.Group.Int
import Mathlib.Algebra.Ring.Int.Defs

/-! Sums in a bounded integer type whose additions are checked one by one: there is a sum
exactly where no running total leaves the type. -/
namespace RootCause.Library

structure IntRange where
  low : Int
  high : Int

namespace IntRange
variable (type : IntRange)

def Holds (x : Int) : Prop := type.low ≤ x ∧ x ≤ type.high

instance (x : Int) : Decidable (type.Holds x) := inferInstanceAs (Decidable (_ ∧ _))

def checked (x : Int) : Option Int := if type.Holds x then some x else none

def checkedSum (start : Int) (steps : List Int) : Option Int :=
  steps.foldlM (fun total step => type.checked (total + step)) start

variable {type}

@[simp] theorem checkedOk {x r : Int} : type.checked x = some r ↔ type.Holds x ∧ r = x := by
  unfold checked
  split <;> simp_all [eq_comm]

@[simp] theorem checkedSumNil {start : Int} : type.checkedSum start [] = some start := rfl

@[simp] theorem checkedSumCons {start step : Int} {steps : List Int} : type.checkedSum start (step :: steps) =
    (type.checked (start + step)).bind fun total => type.checkedSum total steps := rfl

theorem checkedSumAppend {start : Int} {first rest : List Int} : type.checkedSum start (first ++ rest) =
    (type.checkedSum start first).bind fun total => type.checkedSum total rest :=
  List.foldlM_append

theorem checkedSumExact {start r : Int} {steps : List Int} : type.checkedSum start steps = some r ↔
    (∀ k < steps.length, type.Holds (start + (steps.take (k + 1)).sum)) ∧ r = start + steps.sum := by
  induction steps generalizing start with
  | nil => simp [eq_comm]
  | cons step steps ih =>
    have unfolded : type.checkedSum start (step :: steps) = some r ↔
        type.Holds (start + step) ∧ type.checkedSum (start + step) steps = some r := by
      rw [checkedSumCons]
      constructor
      · intro run
        obtain ⟨next,held,rest⟩ := Option.bind_eq_some_iff.mp run
        obtain ⟨inside,rfl⟩ := checkedOk.mp held
        exact ⟨inside,rest⟩
      · intro given
        exact Option.bind_eq_some_iff.mpr ⟨_,checkedOk.mpr ⟨given.1,rfl⟩,given.2⟩
    have totals : (∀ k < (step :: steps).length, type.Holds (start + ((step :: steps).take (k + 1)).sum)) ↔
        type.Holds (start + step) ∧
          ∀ k < steps.length, type.Holds (start + step + (steps.take (k + 1)).sum) := by
      constructor
      · intro every
        refine ⟨by simpa using every 0 (Nat.zero_lt_succ _),fun k below => ?_⟩
        simpa [Int.add_assoc] using every (k + 1) (Nat.succ_lt_succ below)
      · intro given k below
        cases k with
        | zero => simpa using given.1
        | succ k => simpa [Int.add_assoc] using given.2 k (Nat.lt_of_succ_lt_succ below)
    rw [unfolded,ih,totals,List.sum_cons,← Int.add_assoc,and_assoc]

end IntRange

def gains (steps : List Int) : Int := (steps.map (max 0)).sum
def losses (steps : List Int) : Int := (steps.map (min 0)).sum

theorem sublistTotal {part steps : List Int} (sub : part.Sublist steps) :
    losses steps ≤ part.sum ∧ part.sum ≤ gains steps := by
  unfold losses gains
  induction sub with
  | slnil => simp
  | cons step _ ih =>
    simp only [List.map_cons,List.sum_cons]
    omega
  | cons_cons step _ ih =>
    simp only [List.map_cons,List.sum_cons]
    omega

theorem IntRange.checkedSumOf {type : IntRange} {steps : List Int} (low : type.low ≤ losses steps)
    (high : gains steps ≤ type.high) : type.checkedSum 0 steps = some steps.sum := by
  refine checkedSumExact.mpr ⟨fun k _ => ?_,by rw [Int.zero_add]⟩
  obtain ⟨above,below⟩ := sublistTotal (List.take_sublist (k + 1) steps)
  rw [Int.zero_add]
  exact ⟨Int.le_trans low above,Int.le_trans below high⟩

end RootCause.Library
