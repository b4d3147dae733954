import Mathlib.Data.List.AList
import Mathlib.Data.List.Dedup

/-! Hash sets and hash maps as lists without repetition. Nothing fixes the order
in which such a collection is walked: a walk goes through an arbitrary
permutation of the contents, and results hold for every choice of it. -/
namespace RootCause.Library

structure HashOrder where
  walk : {α : Type} → List α → List α
  perm : ∀ {α : Type} (xs : List α), (walk xs).Perm xs

def HashOrder.insertion : HashOrder := ⟨id,fun xs => List.Perm.refl xs⟩

theorem HashOrder.memWalk {α : Type} (order : HashOrder) {xs : List α} {a : α} :
    a ∈ order.walk xs ↔ a ∈ xs := (order.perm xs).mem_iff

theorem HashOrder.nodupWalk {α : Type} (order : HashOrder) {xs : List α} (h : xs.Nodup) :
    (order.walk xs).Nodup := (order.perm xs).nodup_iff.mpr h

/- `HashSet::intersection` walks the smaller of the two sets. -/
def HashOrder.intersection {α : Type} [DecidableEq α] (order : HashOrder) (xs ys : List α) : List α :=
  if xs.length ≤ ys.length then (order.walk xs).filter fun a => a ∈ ys
  else (order.walk ys).filter fun a => a ∈ xs

theorem HashOrder.memIntersection {α : Type} [DecidableEq α] (order : HashOrder) {xs ys : List α} {a : α} :
    a ∈ order.intersection xs ys ↔ a ∈ xs ∧ a ∈ ys := by
  unfold intersection
  split
  · simp [order.memWalk]
  · simp [order.memWalk,and_comm]

theorem zipKeysDistinct {α β : Type} {xs : List α} {ys : List β} (distinct : xs.Nodup) :
    ((xs.zip ys).map Prod.fst).Nodup := by
  induction xs generalizing ys with
  | nil => simp
  | cons x xs ih =>
    obtain ⟨fresh,distinct⟩ := List.nodup_cons.mp distinct
    cases ys with
    | nil => simp
    | cons y ys =>
      refine List.nodup_cons.mpr ⟨?_,ih distinct⟩
      intro again
      obtain ⟨pair,mem,same⟩ := List.mem_map.mp again
      have member := (List.of_mem_zip mem).1
      rw [same] at member
      exact fresh member

abbrev HashMap (κ ν : Type) := AList (fun _ : κ => ν)

namespace HashMap
variable {κ ν : Type} [DecidableEq κ]

/- Later pairs overwrite earlier ones under the same key. -/
def collect (pairs : List (κ × ν)) : HashMap κ ν :=
  pairs.foldl (fun m pair => m.insert pair.1 pair.2) ∅

def values (m : HashMap κ ν) : List ν := m.entries.map Sigma.snd

theorem memValues {m : HashMap κ ν} {value : ν} :
    value ∈ m.values ↔ ∃ key, m.lookup key = some value := by
  constructor
  · intro h
    obtain ⟨entry,mem,same⟩ := List.mem_map.mp h
    exact ⟨entry.1,AList.mem_lookup_iff.mpr (by rw [← same]; exact mem)⟩
  · intro given
    obtain ⟨key,h⟩ := given
    exact List.mem_map.mpr ⟨⟨key,value⟩,AList.mem_lookup_iff.mp h,rfl⟩

theorem lookupFold {pairs : List (κ × ν)} (distinct : (pairs.map Prod.fst).Nodup)
    (m : HashMap κ ν) (key : κ) :
    (pairs.foldl (fun m pair => m.insert pair.1 pair.2) m).lookup key =
      (pairs.lookup key).or (m.lookup key) := by
  induction pairs generalizing m with
  | nil => rfl
  | cons pair rest ih =>
    obtain ⟨k,v⟩ := pair
    simp only [List.map_cons,List.nodup_cons] at distinct
    rw [List.foldl_cons,ih distinct.2]
    by_cases same : key = k
    · subst same
      have fresh : rest.lookup key = none := by
        rw [List.lookup_eq_none_iff]
        intro other mem
        simp only [bne_iff_ne,ne_eq]
        exact fun equal => distinct.1 (List.mem_map.mpr ⟨other,mem,equal.symm⟩)
      simp [fresh]
    · rw [AList.lookup_insert_ne same,List.lookup_cons,beq_eq_false_iff_ne.mpr same]

theorem lookupCollect {pairs : List (κ × ν)} (distinct : (pairs.map Prod.fst).Nodup)
    {key : κ} {value : ν} : (collect pairs).lookup key = some value ↔ (key,value) ∈ pairs := by
  rw [collect,lookupFold distinct]
  simp only [AList.lookup_empty,Option.or_none]
  induction pairs with
  | nil => simp
  | cons pair rest ih =>
    obtain ⟨k,v⟩ := pair
    simp only [List.map_cons,List.nodup_cons] at distinct
    rw [List.lookup_cons]
    by_cases same : key = k
    · subst same
      have absent : (key,value) ∉ rest := fun mem =>
        distinct.1 (List.mem_map.mpr ⟨_,mem,rfl⟩)
      simp [absent,eq_comm]
    · rw [beq_eq_false_iff_ne.mpr same]
      simpa [same] using ih distinct.2

theorem keysCollect {pairs : List (κ × ν)} {key : κ} :
    key ∈ (collect pairs).keys → key ∈ pairs.map Prod.fst := by
  have grown (m : HashMap κ ν) :
      key ∈ (pairs.foldl (fun m pair => m.insert pair.1 pair.2) m) → key ∈ pairs.map Prod.fst ∨ key ∈ m := by
    induction pairs generalizing m with
    | nil => exact .inr
    | cons pair rest ih =>
      intro mem
      rcases ih _ mem with later | before
      · exact .inl (List.mem_cons_of_mem _ later)
      · rcases (AList.mem_insert _).mp before with rfl | old
        · exact .inl List.mem_cons_self
        · exact .inr old
  intro mem
  rcases grown ∅ (AList.mem_keys.mp mem) with listed | none
  · exact listed
  · exact absurd none (AList.notMem_empty _)

theorem lookupSome {m : HashMap κ ν} {key : κ} : key ∈ m.keys ↔ ∃ value, m.lookup key = some value := by
  rw [← AList.mem_keys,← AList.lookup_isSome,Option.isSome_iff_exists]

def insertSome (f : κ → Option ν) (keys : List κ) : HashMap κ ν :=
  keys.foldl (fun m key => match f key with
    | some value => m.insert key value
    | none => m) ∅

theorem lookupInsertSome {f : κ → Option ν} {keys : List κ} {key : κ} :
    (insertSome f keys).lookup key = if key ∈ keys then f key else none := by
  have fold (m : HashMap κ ν) : (keys.foldl (fun m key => match f key with
      | some value => m.insert key value
      | none => m) m).lookup key = if key ∈ keys then (f key).or (m.lookup key) else m.lookup key := by
    induction keys generalizing m with
    | nil => simp
    | cons first rest ih =>
      rw [List.foldl_cons,ih]
      by_cases same : key = first
      · subst same
        cases h : f key <;> simp
      · cases h : f first <;> simp [same]
  rw [insertSome,fold]
  split <;> simp

end HashMap
end RootCause.Library
