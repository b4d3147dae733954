import Mathlib.Algebra.Ring.Nat
import Mathlib.Algebra.BigOperators.Group.List.Basic
import RootCause.Library.Hash

/-! Tables of running values by key, in the order in which the keys first came up. What a
loop collects under one key is what the events of that key collect by themselves. -/
namespace RootCause.Library
variable {κ ν α : Type} [DecidableEq κ]

def upsert (key : κ) (first : ν) (change : ν → ν) : List (κ × ν) → List (κ × ν)
  | [] => [(key,change first)]
  | entry :: rest =>
    if entry.1 = key then (entry.1,change entry.2) :: rest else entry :: upsert key first change rest

def valueAt (first : ν) (table : List (κ × ν)) (key : κ) : ν :=
  ((table.find? fun entry => entry.1 = key).map Prod.snd).getD first

theorem valueAtUpsert (first : ν) (change : ν → ν) (table : List (κ × ν)) (key other : κ) :
    valueAt first (upsert key first change table) other =
      if key = other then change (valueAt first table other) else valueAt first table other := by
  induction table with
  | nil => by_cases same : key = other <;> simp [upsert,valueAt,same]
  | cons entry rest ih =>
    unfold upsert
    by_cases here : entry.1 = key
    · by_cases same : key = other
      · simp [valueAt,here,same]
      · simp [valueAt,here,same]
    · rw [if_neg here]
      by_cases found : entry.1 = other
      · have apart : key ≠ other := fun same => here (found.trans same.symm)
        simp [valueAt,found,apart]
      · simpa [valueAt,found] using ih

theorem upsertKeys (key : κ) (first : ν) (change : ν → ν) (table : List (κ × ν)) :
    (upsert key first change table).map Prod.fst =
      if key ∈ table.map Prod.fst then table.map Prod.fst else table.map Prod.fst ++ [key] := by
  induction table with
  | nil => simp [upsert]
  | cons entry rest ih =>
    unfold upsert
    by_cases here : entry.1 = key
    · simp [here]
    · rw [if_neg here,List.map_cons,ih]
      have other : key ≠ entry.1 := fun same => here same.symm
      by_cases later : key ∈ rest.map Prod.fst
      · rw [if_pos later,if_pos (by simp [later])]
        rfl
      · have absent : key ∉ (entry :: rest).map Prod.fst := by
          intro mem
          rcases List.mem_cons.mp mem with same | mem
          · exact other same
          · exact later mem
        rw [if_neg later,if_neg absent,List.map_cons,List.cons_append]

theorem upsertDistinct {key : κ} {first : ν} {change : ν → ν} {table : List (κ × ν)}
    (distinct : (table.map Prod.fst).Nodup) : ((upsert key first change table).map Prod.fst).Nodup := by
  rw [upsertKeys]
  split
  · exact distinct
  · next fresh => exact List.nodup_append.mpr ⟨distinct,List.nodup_singleton key,fun k mem k' last same =>
      fresh (by rw [← List.mem_singleton.mp last,← same]; exact mem)⟩

theorem memUpsert {key other : κ} {first : ν} {change : ν → ν} {table : List (κ × ν)} :
    other ∈ (upsert key first change table).map Prod.fst ↔ other ∈ table.map Prod.fst ∨ key = other := by
  rw [upsertKeys]
  split
  · next known =>
    constructor
    · exact Or.inl
    · intro given
      rcases given with mem | same
      · exact mem
      · rwa [← same]
  · rw [List.mem_append,List.mem_singleton,eq_comm]

def tally (first : ν) (key : α → κ) (change : α → ν → ν) (events : List α)
    (table : List (κ × ν)) : List (κ × ν) :=
  events.foldl (fun table event => upsert (key event) first (change event) table) table

theorem tallyAt (first : ν) (key : α → κ) (change : α → ν → ν) (events : List α)
    (table : List (κ × ν)) (k : κ) : valueAt first (tally first key change events table) k =
      (events.filter fun event => key event = k).foldl (fun value event => change event value)
        (valueAt first table k) := by
  unfold tally
  induction events generalizing table with
  | nil => rfl
  | cons event rest ih =>
    rw [List.foldl_cons,ih,valueAtUpsert,List.filter_cons]
    by_cases same : key event = k <;> simp [same]

theorem upsertSum (measure : ν → Nat) {first : ν} {change : ν → ν} {weight : Nat}
    (raised : ∀ value, measure (change value) = measure value + weight) (empty : measure first = 0)
    (key : κ) (table : List (κ × ν)) : ((upsert key first change table).map fun e => measure e.2).sum =
      (table.map fun e => measure e.2).sum + weight := by
  induction table with
  | nil => simp [upsert,raised,empty]
  | cons entry rest ih =>
    unfold upsert
    split
    · simp only [List.map_cons,List.sum_cons,raised]
      omega
    · simp only [List.map_cons,List.sum_cons,ih]
      omega

theorem tallyCount (measure : ν → Nat) (raising : α → Bool) {first : ν} {change : α → ν → ν}
    (raised : ∀ event value, measure (change event value) = measure value + if raising event then 1 else 0)
    (empty : measure first = 0) (key : α → κ) (events : List α) (table : List (κ × ν)) :
    ((tally first key change events table).map fun e => measure e.2).sum =
      (table.map fun e => measure e.2).sum + events.countP raising := by
  unfold tally
  induction events generalizing table with
  | nil => rfl
  | cons event rest ih =>
    rw [List.foldl_cons,ih,upsertSum measure (raised event) empty,List.countP_cons]
    omega

theorem valuesInsert (m : HashMap κ Nat) (key : κ) (value : Nat) :
    (HashMap.values (m.insert key value)).sum + (m.lookup key).getD 0 = m.values.sum + value := by
  have without (entries : List (Sigma fun _ : κ => Nat)) :
      ((entries.kerase key).map Sigma.snd).sum + (entries.dlookup key).getD 0 =
        (entries.map Sigma.snd).sum := by
    induction entries with
    | nil => rfl
    | cons entry rest ih =>
      by_cases same : key = entry.1
      · obtain ⟨k,v⟩ := entry
        subst same
        simp [Nat.add_comm]
      · rw [List.kerase_cons_ne same,List.dlookup_cons_ne rest entry same,List.map_cons,List.map_cons,
          List.sum_cons,List.sum_cons,Nat.add_assoc,ih]
  have exchanged := without m.entries
  unfold HashMap.values AList.lookup
  rw [AList.entries_insert,List.map_cons,List.sum_cons]
  dsimp only
  omega

theorem countsAll {strong weak : α → Bool} {xs : List α}
    (implied : ∀ x, strong x = true → weak x = true)
    (same : xs.countP strong = xs.countP weak) : ∀ x ∈ xs, weak x = true → strong x = true := by
  have inside : (xs.filter weak).countP strong = (xs.filter weak).length := by
    rw [List.countP_filter,← List.countP_eq_length_filter,← same]
    refine List.countP_congr fun x _ => ?_
    simpa using implied x
  intro x mem held
  exact List.countP_eq_length.mp inside x (List.mem_filter.mpr ⟨mem,held⟩)

end RootCause.Library
