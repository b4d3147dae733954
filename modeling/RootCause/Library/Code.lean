import Mathlib.Data.List.Basic

/-! Codes of variable length that are found again at the front of whatever follows them,
and how such codes are put together. -/
namespace RootCause.Library
variable {α β γ : Type}

/- Neither the value nor the end of a code word depends on what follows it. -/
def Delimited (code : α → List γ) : Prop :=
  ∀ ⦃a b r s⦄, code a ++ r = code b ++ s → a = b ∧ r = s

theorem Delimited.fixed {code : α → List γ} {n : Nat} (width : ∀ a, (code a).length = n)
    (injective : Function.Injective code) : Delimited code := by
  intro a b r s same
  obtain ⟨word,rest⟩ := List.append_inj same ((width a).trans (width b).symm)
  exact ⟨injective word,rest⟩

theorem appendStop {stop : γ} {u v r s : List γ} (left : stop ∉ u) (right : stop ∉ v)
    (same : u ++ stop :: r = v ++ stop :: s) : u = v ∧ r = s := by
  induction u generalizing v with
  | nil =>
    cases v with
    | nil => exact ⟨rfl,(List.cons.inj same).2⟩
    | cons c v => exact absurd (List.cons.inj same).1 (List.ne_of_not_mem_cons right)
  | cons c u ih =>
    cases v with
    | nil => exact absurd (List.cons.inj same).1.symm (List.ne_of_not_mem_cons left)
    | cons d v =>
      obtain ⟨rfl,rest⟩ := List.cons.inj same
      obtain ⟨rfl,tail⟩ := ih (List.not_mem_of_not_mem_cons left)
        (List.not_mem_of_not_mem_cons right) rest
      exact ⟨rfl,tail⟩

theorem Delimited.terminated {code : α → List γ} {stop : γ} (free : ∀ a, stop ∉ code a)
    (injective : Function.Injective code) : Delimited fun a => code a ++ [stop] := by
  intro a b r s same
  simp only [List.append_assoc,List.singleton_append] at same
  obtain ⟨word,rest⟩ := appendStop (free a) (free b) same
  exact ⟨injective word,rest⟩

theorem Delimited.flatMap {code : α → List γ} (delimited : Delimited code)
    (nonempty : ∀ a, code a ≠ []) : Function.Injective fun l : List α => l.flatMap code := by
  intro xs
  induction xs with
  | nil =>
    intro ys same
    cases ys with
    | nil => rfl
    | cons y ys => exact absurd (List.append_eq_nil_iff.mp same.symm).1 (nonempty y)
  | cons x xs ih =>
    intro ys same
    cases ys with
    | nil => exact absurd (List.append_eq_nil_iff.mp same).1 (nonempty x)
    | cons y ys =>
      obtain ⟨rfl,rest⟩ := delimited same
      rw [ih rest]

end RootCause.Library
