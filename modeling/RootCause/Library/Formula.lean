import Mathlib.Data.List.Basic

/-! Boolean formulas with n-ary conjunction and disjunction, over any atoms.
The sign of an occurrence is the parity of the negations above it; what an
evaluation owes to signs alone is proved here once, by induction on the tree. -/
namespace RootCause.Library

inductive Formula (α : Type) where
  | leaf (atom : α)
  | and (items : List (Formula α))
  | or (items : List (Formula α))
  | not (inner : Formula α)
  deriving Repr

namespace Formula
variable {α : Type}

mutual
def decEq [DecidableEq α] : (f g : Formula α) → Decidable (f = g)
  | .leaf a, .leaf b => if h : a = b then .isTrue (h ▸ rfl) else .isFalse (by simp [h])
  | .and xs, .and ys => match decEqAll xs ys with
    | .isTrue h => .isTrue (h ▸ rfl)
    | .isFalse h => .isFalse (by simp [h])
  | .or xs, .or ys => match decEqAll xs ys with
    | .isTrue h => .isTrue (h ▸ rfl)
    | .isFalse h => .isFalse (by simp [h])
  | .not f, .not g => match decEq f g with
    | .isTrue h => .isTrue (h ▸ rfl)
    | .isFalse h => .isFalse (by simp [h])
  | .leaf _, .and _ | .leaf _, .or _ | .leaf _, .not _ => .isFalse (by simp)
  | .and _, .leaf _ | .and _, .or _ | .and _, .not _ => .isFalse (by simp)
  | .or _, .leaf _ | .or _, .and _ | .or _, .not _ => .isFalse (by simp)
  | .not _, .leaf _ | .not _, .and _ | .not _, .or _ => .isFalse (by simp)
def decEqAll [DecidableEq α] : (xs ys : List (Formula α)) → Decidable (xs = ys)
  | [], [] => .isTrue rfl
  | f :: fs, g :: gs => match decEq f g, decEqAll fs gs with
    | .isTrue h, .isTrue k => .isTrue (h ▸ k ▸ rfl)
    | .isFalse h, _ => .isFalse (by simp [h])
    | _, .isFalse k => .isFalse (by simp [k])
  | [], _ :: _ | _ :: _, [] => .isFalse (by simp)
end

instance [DecidableEq α] : DecidableEq (Formula α) := decEq

@[elab_as_elim, induction_eliminator]
theorem ind {motive : Formula α → Prop} (leaf : ∀ atom, motive (.leaf atom))
    (and : ∀ items, (∀ f ∈ items, motive f) → motive (.and items))
    (or : ∀ items, (∀ f ∈ items, motive f) → motive (.or items))
    (not : ∀ inner, motive inner → motive (.not inner)) (f : Formula α) : motive f :=
  @Formula.rec α motive (fun items => ∀ f ∈ items, motive f) leaf and or not
    (by simp) (by intro head tail h t; simpa using ⟨h,t⟩) f

mutual
def eval (v : α → Bool) : Formula α → Bool
  | .leaf a => v a
  | .and items => evalAll v items
  | .or items => evalAny v items
  | .not inner => !eval v inner
def evalAll (v : α → Bool) : List (Formula α) → Bool
  | [] => true
  | f :: fs => eval v f && evalAll v fs
def evalAny (v : α → Bool) : List (Formula α) → Bool
  | [] => false
  | f :: fs => eval v f || evalAny v fs
end

/- The atoms whose occurrence has the given sign relative to `sign`: with `true`
the occurrences under an even number of negations, with `false` the others. -/
mutual
def leaves (sign : Bool) : Formula α → List α
  | .leaf a => if sign then [a] else []
  | .and items => leavesAll sign items
  | .or items => leavesAll sign items
  | .not inner => leaves (!sign) inner
def leavesAll (sign : Bool) : List (Formula α) → List α
  | [] => []
  | f :: fs => leaves sign f ++ leavesAll sign fs
end

mutual
def atoms : Formula α → List α
  | .leaf a => [a]
  | .and items => atomsAll items
  | .or items => atomsAll items
  | .not inner => atoms inner
def atomsAll : List (Formula α) → List α
  | [] => []
  | f :: fs => atoms f ++ atomsAll fs
end

mutual
def map {β : Type} (g : α → β) : Formula α → Formula β
  | .leaf a => .leaf (g a)
  | .and items => .and (mapAll g items)
  | .or items => .or (mapAll g items)
  | .not inner => .not (map g inner)
def mapAll {β : Type} (g : α → β) : List (Formula α) → List (Formula β)
  | [] => []
  | f :: fs => map g f :: mapAll g fs
end

theorem evalAllEq (v : α → Bool) (items : List (Formula α)) :
    evalAll v items = items.all (eval v) := by
  induction items with
  | nil => rfl
  | cons f fs ih => exact congrArg (f.eval v && ·) ih

theorem evalAnyEq (v : α → Bool) (items : List (Formula α)) :
    evalAny v items = items.any (eval v) := by
  induction items with
  | nil => rfl
  | cons f fs ih => exact congrArg (f.eval v || ·) ih

theorem leavesAllEq (sign : Bool) (items : List (Formula α)) :
    leavesAll sign items = items.flatMap (leaves sign) := by
  induction items with
  | nil => rfl
  | cons f fs ih => exact congrArg (f.leaves sign ++ ·) ih

theorem atomsAllEq (items : List (Formula α)) : atomsAll items = items.flatMap atoms := by
  induction items with
  | nil => rfl
  | cons f fs ih => exact congrArg (f.atoms ++ ·) ih

theorem mapAllEq {β : Type} (g : α → β) (items : List (Formula α)) :
    mapAll g items = items.map (map g) := by
  induction items with
  | nil => rfl
  | cons f fs ih => exact congrArg (f.map g :: ·) ih

@[simp] theorem evalLeaf (v : α → Bool) (a : α) : (leaf a).eval v = v a := rfl
@[simp] theorem evalNot (v : α → Bool) (f : Formula α) : (not f).eval v = !f.eval v := rfl
@[simp] theorem evalAnd (v : α → Bool) (items : List (Formula α)) :
    (and items).eval v = items.all (eval v) := evalAllEq v items
@[simp] theorem evalOr (v : α → Bool) (items : List (Formula α)) :
    (or items).eval v = items.any (eval v) := evalAnyEq v items

@[simp] theorem leavesLeaf (sign : Bool) (a : α) :
    (leaf a).leaves sign = if sign then [a] else [] := rfl
@[simp] theorem leavesNot (sign : Bool) (f : Formula α) :
    (not f).leaves sign = f.leaves (!sign) := rfl
@[simp] theorem leavesAnd (sign : Bool) (items : List (Formula α)) :
    (and items).leaves sign = items.flatMap (leaves sign) := leavesAllEq sign items
@[simp] theorem leavesOr (sign : Bool) (items : List (Formula α)) :
    (or items).leaves sign = items.flatMap (leaves sign) := leavesAllEq sign items

@[simp] theorem mapLeaf {β : Type} (g : α → β) (a : α) : (leaf a).map g = leaf (g a) := rfl
@[simp] theorem mapNot {β : Type} (g : α → β) (f : Formula α) : (not f).map g = not (f.map g) := rfl
@[simp] theorem mapAnd {β : Type} (g : α → β) (items : List (Formula α)) :
    (and items).map g = and (items.map (map g)) := congrArg and (mapAllEq g items)
@[simp] theorem mapOr {β : Type} (g : α → β) (items : List (Formula α)) :
    (or items).map g = or (items.map (map g)) := congrArg or (mapAllEq g items)

@[simp] theorem atomsLeaf (a : α) : (leaf a).atoms = [a] := rfl
@[simp] theorem atomsNot (f : Formula α) : (not f).atoms = f.atoms := rfl
@[simp] theorem atomsAnd (items : List (Formula α)) : (and items).atoms = items.flatMap atoms :=
  atomsAllEq items
@[simp] theorem atomsOr (items : List (Formula α)) : (or items).atoms = items.flatMap atoms :=
  atomsAllEq items

theorem evalMap {β : Type} (g : α → β) (v : β → Bool) (f : Formula α) :
    (f.map g).eval v = f.eval fun a => v (g a) := by
  induction f with
  | leaf a => simp
  | and items ih =>
    apply Bool.eq_iff_iff.mpr
    simp only [mapAnd,evalAnd,List.all_map,List.all_eq_true,Function.comp_apply]
    exact forall₂_congr fun f mem => by rw [ih f mem]
  | or items ih =>
    apply Bool.eq_iff_iff.mpr
    simp only [mapOr,evalOr,List.any_map,List.any_eq_true,Function.comp_apply]
    exact exists_congr fun f => and_congr_right fun mem => by rw [ih f mem]
  | not inner ih => simp [ih]

theorem atomsMap {β : Type} (g : α → β) (f : Formula α) : (f.map g).atoms = f.atoms.map g := by
  induction f with
  | leaf a => simp
  | and items ih =>
    simp only [mapAnd,atomsAnd,List.flatMap_map,List.map_flatMap]
    exact List.flatMap_congr ih
  | or items ih =>
    simp only [mapOr,atomsOr,List.flatMap_map,List.map_flatMap]
    exact List.flatMap_congr ih
  | not inner ih => simp [ih]

theorem memAtoms {f : Formula α} {a : α} (sign : Bool) :
    a ∈ f.atoms ↔ a ∈ f.leaves sign ∨ a ∈ f.leaves (!sign) := by
  have operands {items : List (Formula α)} {sign : Bool}
      (each : ∀ g ∈ items, a ∈ g.atoms ↔ a ∈ g.leaves sign ∨ a ∈ g.leaves (!sign)) :
      (∃ g ∈ items, a ∈ g.atoms) ↔ (∃ g ∈ items, a ∈ g.leaves sign) ∨ ∃ g ∈ items, a ∈ g.leaves (!sign) := by
    constructor
    · intro ⟨g,mem,ha⟩
      exact ((each g mem).mp ha).imp (fun h => ⟨g,mem,h⟩) fun h => ⟨g,mem,h⟩
    · intro h
      obtain ⟨g,mem,ha⟩ | ⟨g,mem,ha⟩ := h
      · exact ⟨g,mem,(each g mem).mpr (.inl ha)⟩
      · exact ⟨g,mem,(each g mem).mpr (.inr ha)⟩
  induction f generalizing sign with
  | leaf b => cases sign <;> simp
  | and items ih =>
    simp only [atomsAnd,leavesAnd,List.mem_flatMap]
    exact operands fun g mem => ih g mem sign
  | or items ih =>
    simp only [atomsOr,leavesOr,List.mem_flatMap]
    exact operands fun g mem => ih g mem sign
  | not inner ih => simpa using ih (!sign)

/- Raising atoms that occur positively and lowering atoms that occur negatively
keeps a true formula true. The two signs exchange roles under a negation. -/
theorem evalMono {f : Formula α} {v w : α → Bool}
    (up : ∀ a ∈ f.leaves true, v a = true → w a = true)
    (down : ∀ a ∈ f.leaves false, w a = true → v a = true)
    (holds : f.eval v = true) : f.eval w = true := by
  induction f generalizing v w with
  | leaf a => exact up a (by simp) (by simpa using holds)
  | and items ih =>
    simp only [evalAnd,List.all_eq_true] at holds ⊢
    intro g mem
    exact ih g mem (fun a ha => up a (by simpa using ⟨g,mem,ha⟩))
      (fun a ha => down a (by simpa using ⟨g,mem,ha⟩)) (holds g mem)
  | or items ih =>
    simp only [evalOr,List.any_eq_true] at holds ⊢
    obtain ⟨g,mem,hg⟩ := holds
    exact ⟨g,mem,ih g mem (fun a ha => up a (by simpa using ⟨g,mem,ha⟩))
      (fun a ha => down a (by simpa using ⟨g,mem,ha⟩)) hg⟩
  | not inner ih =>
    simp only [evalNot,Bool.not_eq_true'] at holds ⊢
    cases raised : inner.eval w with
    | false => rfl
    | true =>
      have back := ih (fun a ha => down a (by simpa using ha))
        (fun a ha => up a (by simpa using ha)) raised
      rw [holds] at back; contradiction

theorem evalCongr {f : Formula α} {v w : α → Bool}
    (same : ∀ sign, ∀ a ∈ f.leaves sign, v a = w a) : f.eval v = f.eval w := by
  apply Bool.eq_iff_iff.mpr
  constructor
  · exact evalMono (fun a ha h => by rwa [← same true a ha]) (fun a ha h => by rwa [same false a ha])
  · exact evalMono (fun a ha h => by rwa [same true a ha]) (fun a ha h => by rwa [← same false a ha])

inductive Branching : Formula α → Prop where
  | leaf (a : α) : Branching (.leaf a)
  | and {items} (some : items ≠ []) (each : ∀ f ∈ items, Branching f) : Branching (.and items)
  | or {items} (some : items ≠ []) (each : ∀ f ∈ items, Branching f) : Branching (.or items)
  | not {inner} (below : Branching inner) : Branching (.not inner)

/- With every atom as its sign asks, the formula has the value of the sign. An
empty list of operands would break this at one of the two signs. -/
theorem evalOfSigns {f : Formula α} (full : Branching f) {v : α → Bool} {sign : Bool}
    (present : ∀ a ∈ f.leaves sign, v a = true) (absent : ∀ a ∈ f.leaves (!sign), v a = false) :
    f.eval v = sign := by
  induction full generalizing sign with
  | leaf a => cases sign with
    | true => simpa using present a (by simp)
    | false => simpa using absent a (by simp)
  | @and items nonempty each ih =>
    have all : ∀ g ∈ items, g.eval v = sign := fun g mem =>
      ih g mem (fun a ha => present a (by simpa using ⟨g,mem,ha⟩))
        (fun a ha => absent a (by simpa using ⟨g,mem,ha⟩))
    obtain ⟨first,rest,rfl⟩ := List.exists_cons_of_ne_nil nonempty
    cases sign with
    | true => simpa using all
    | false => simp [all first]
  | @or items nonempty each ih =>
    have all : ∀ g ∈ items, g.eval v = sign := fun g mem =>
      ih g mem (fun a ha => present a (by simpa using ⟨g,mem,ha⟩))
        (fun a ha => absent a (by simpa using ⟨g,mem,ha⟩))
    obtain ⟨first,rest,rfl⟩ := List.exists_cons_of_ne_nil nonempty
    cases sign with
    | true => simp [all first]
    | false => simpa using all
  | not below ih =>
    have flipped : Formula.eval v _ = !sign := ih (fun a ha => present a (by simpa using ha))
      (fun a ha => absent a (by simpa using ha))
    simp [flipped]

theorem satisfiable [DecidableEq α] {f : Formula α} (full : Branching f)
    (apart : ∀ a ∈ f.leaves true, a ∉ f.leaves false) : ∃ v, f.eval v = true := by
  refine ⟨fun a => decide (a ∈ f.leaves true),evalOfSigns full ?_ ?_⟩
  · intro a above
    simpa using above
  · intro a below
    have unsigned : a ∉ f.leaves true := fun above => apart a above below
    simpa using unsigned

end Formula
end RootCause.Library
