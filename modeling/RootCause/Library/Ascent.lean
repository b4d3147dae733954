import Mathlib.Logic.Relation
import Mathlib.Data.List.Basic

/-! Climbing along links that lead upwards. A rank that falls with every link bounds the
climb, so a loop with that much fuel sees everything above its start. A loop whose state
shrinks with every round stops. What an element has not of its own it takes from the
nearest one above that has it. -/
namespace RootCause.Library
variable {α : Type}

def Above (up : α → Option α) (a b : α) : Prop := Relation.TransGen (fun x y => up x = some y) a b

def climb (up : α → Option α) (test : α → Bool) : Nat → Option α → Bool
  | 0, _ => false
  | _ + 1, none => false
  | fuel + 1, some a => test a || climb up test fuel (up a)

variable {up : α → Option α} {test : α → Bool}

theorem aboveIff {a c : α} : Above up a c ↔ ∃ b ∈ up a, c = b ∨ Above up b c := by
  rw [Above,Relation.TransGen.head'_iff]
  simp only [Relation.reflTransGen_iff_eq_or_transGen]
  rfl

theorem aboveRoot {a c : α} (root : up a = none) : ¬ Above up a c := by
  rw [aboveIff,root]
  simp

def Ranked (up : α → Option α) (inside : α → Prop) (rank : α → Nat) : Prop :=
  ∀ a, inside a → ∀ b ∈ up a, inside b ∧ rank b < rank a

variable {inside : α → Prop} {rank : α → Nat}

theorem Ranked.above (ranked : Ranked up inside rank) {a b : α} (within : inside a)
    (reached : Above up a b) : inside b ∧ rank b < rank a := by
  induction reached with
  | single link => exact ranked a within _ link
  | tail _ link ih =>
    obtain ⟨there,lower⟩ := ih
    obtain ⟨next,further⟩ := ranked _ there _ link
    exact ⟨next,Nat.lt_trans further lower⟩

theorem climbIff (ranked : Ranked up inside rank) {fuel : Nat} {start : Option α}
    (enough : ∀ a ∈ start, inside a ∧ rank a < fuel) :
    climb up test fuel start = true ↔ ∃ a ∈ start, ∃ c, (c = a ∨ Above up a c) ∧ test c = true := by
  induction fuel generalizing start with
  | zero =>
    have none : start = none := Option.eq_none_iff_forall_not_mem.mpr fun a mem =>
      Nat.not_lt_zero _ (enough a mem).2
    simp [climb,none]
  | succ fuel ih =>
    cases start with
    | none => simp [climb]
    | some a =>
      obtain ⟨within,bound⟩ := enough a rfl
      have later : ∀ b ∈ up a, inside b ∧ rank b < fuel := fun b mem =>
        ⟨(ranked a within b mem).1,Nat.lt_of_lt_of_le (ranked a within b mem).2 (Nat.le_of_lt_succ bound)⟩
      simp only [climb,Bool.or_eq_true,ih later,Option.mem_def,Option.some.injEq,exists_eq_left']
      constructor
      · intro given
        rcases given with here | ⟨b,link,c,above,found⟩
        · exact ⟨a,.inl rfl,here⟩
        · exact ⟨c,.inr (aboveIff.mpr ⟨b,link,above⟩),found⟩
      · intro given
        obtain ⟨c,rfl | above,found⟩ := given
        · exact .inl found
        · obtain ⟨b,link,further⟩ := aboveIff.mp above
          exact .inr ⟨b,link,c,further,found⟩

theorem climbAbove (ranked : Ranked up inside rank) {fuel : Nat} {a : α} (within : inside a)
    (enough : rank a ≤ fuel) :
    climb up test fuel (up a) = true ↔ ∃ c, Above up a c ∧ test c = true := by
  rw [climbIff ranked fun b mem =>
    ⟨(ranked a within b mem).1,Nat.lt_of_lt_of_le (ranked a within b mem).2 enough⟩]
  constructor
  · intro given
    obtain ⟨b,link,c,above,found⟩ := given
    exact ⟨c,aboveIff.mpr ⟨b,link,above⟩,found⟩
  · intro given
    obtain ⟨c,above,found⟩ := given
    obtain ⟨b,link,further⟩ := aboveIff.mp above
    exact ⟨b,link,c,further,found⟩

/- A loop as its rounds, each of which returns from the loop or hands on a state. It stops
when a round returns; nothing counts the rounds while it runs. -/
inductive Stops {σ ρ : Type} (round : σ → ρ ⊕ σ) : Nat → σ → ρ → Prop where
  | last {s : σ} {r : ρ} (returned : round s = .inl r) : Stops round 1 s r
  | next {n : Nat} {s t : σ} {r : ρ} (goes : round s = .inr t) (later : Stops round n t r) :
      Stops round (n + 1) s r

theorem stopsWithin {σ ρ : Type} {round : σ → ρ ⊕ σ} (measure : σ → Nat)
    (falls : ∀ s t, round s = .inr t → measure t < measure s) (s : σ) :
    ∃ r, ∃ n ≤ measure s + 1, Stops round n s r := by
  generalize bound : measure s = m
  induction m using Nat.strongRecOn generalizing s with
  | ind m ih =>
    cases done : round s with
    | inl r => exact ⟨r,1,Nat.le_add_left 1 m,.last done⟩
    | inr t =>
      have lower : measure t < m := bound ▸ falls s t done
      obtain ⟨r,n,enough,stops⟩ := ih (measure t) lower t rfl
      exact ⟨r,n + 1,by omega,.next done stops⟩

inductive Nearest {β : Type} (own : α → Option β) (up : α → Option α) : α → β → Prop where
  | here {a : α} {b : β} (given : own a = some b) : Nearest own up a b
  | above {a c : α} {b : β} (without : own a = none) (link : up a = some c) (further : Nearest own up c b) :
      Nearest own up a b

section
variable {β : Type} {own : α → Option β}

theorem nearestUnique {a : α} {b b' : β} (first : Nearest own up a b) (second : Nearest own up a b') :
    b = b' := by
  induction first with
  | here given =>
    cases second with
    | here again => exact Option.some.inj (given.symm.trans again)
    | above without _ _ =>
      rw [given] at without
      contradiction
  | above without link _ ih =>
    cases second with
    | here again =>
      rw [without] at again
      contradiction
    | above _ link' further =>
      cases Option.some.inj (link.symm.trans link')
      exact ih further

theorem nearestMap {γ : Type} {own' : γ → Option β} {up' : γ → Option γ} (f : α → γ)
    (here : ∀ a b, own a = some b → own' (f a) = some b)
    (above : ∀ a c, own a = none → up a = some c → own' (f a) = none ∧ up' (f a) = some (f c))
    {a : α} {b : β} (near : Nearest own up a b) : Nearest own' up' (f a) b := by
  induction near with
  | here given => exact .here (here _ _ given)
  | above without link _ ih =>
    obtain ⟨without',link'⟩ := above _ _ without link
    exact .above without' link' ih

end

end RootCause.Library
