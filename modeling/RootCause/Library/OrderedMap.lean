import Mathlib.Data.List.Sort
import Mathlib.Order.Defs.LinearOrder
import RootCause.Library.Tally

/-! Maps walked in the order of their keys. The order is a field of the map, so every walk
is the same one; what a loop files under a key is what the events of that key bring. -/
namespace RootCause.Library
variable {κ ν α : Type} [LinearOrder κ]

def changeAt (key : κ) (first : ν) (change : ν → ν) : List (κ × ν) → List (κ × ν)
  | [] => [(key,change first)]
  | entry :: rest =>
    if key < entry.1 then (key,change first) :: entry :: rest
    else if key = entry.1 then (entry.1,change entry.2) :: rest
    else entry :: changeAt key first change rest

theorem changeAtKeys {key other : κ} {first : ν} {change : ν → ν} {entries : List (κ × ν)} :
    other ∈ (changeAt key first change entries).map Prod.fst ↔ other = key ∨ other ∈ entries.map Prod.fst := by
  induction entries with
  | nil => simp [changeAt]
  | cons entry rest ih =>
    unfold changeAt
    split
    · simp
    · split
      · rename_i same
        simp [same]
      · rw [List.map_cons,List.mem_cons,ih,List.map_cons,List.mem_cons]
        tauto

theorem changeAtIncreasing {key : κ} {first : ν} {change : ν → ν} {entries : List (κ × ν)}
    (increasing : (entries.map Prod.fst).Pairwise (· < ·)) :
    ((changeAt key first change entries).map Prod.fst).Pairwise (· < ·) := by
  induction entries with
  | nil => simp [changeAt]
  | cons entry rest ih =>
    obtain ⟨least,later⟩ := List.pairwise_cons.mp increasing
    unfold changeAt
    split
    · rename_i below
      refine List.pairwise_cons.mpr ⟨?_,increasing⟩
      intro other mem
      rcases List.mem_cons.mp mem with rfl | mem
      · exact below
      · exact lt_trans below (least other mem)
    · rename_i above
      split
      · exact increasing
      · rename_i apart
        refine List.pairwise_cons.mpr ⟨?_,ih later⟩
        intro other mem
        rcases changeAtKeys.mp mem with rfl | mem
        · exact lt_of_le_of_ne (not_lt.mp above) (Ne.symm apart)
        · exact least other mem

theorem valueAtChange {key other : κ} {first : ν} {change : ν → ν} {entries : List (κ × ν)}
    (increasing : (entries.map Prod.fst).Pairwise (· < ·)) :
    valueAt first (changeAt key first change entries) other =
      if key = other then change (valueAt first entries other) else valueAt first entries other := by
  induction entries with
  | nil => by_cases same : key = other <;> simp [changeAt,valueAt,same]
  | cons entry rest ih =>
    obtain ⟨least,later⟩ := List.pairwise_cons.mp increasing
    unfold changeAt
    split
    · rename_i below
      by_cases same : key = other
      · have absent : valueAt first (entry :: rest) other = first := by
          have none : (entry :: rest).find? (fun e => e.1 = other) = none := by
            refine List.find?_eq_none.mpr fun e mem found => ?_
            have equal : e.1 = other := by simpa using found
            rcases List.mem_cons.mp mem with rfl | mem
            · rw [same,← equal] at below
              exact lt_irrefl _ below
            · have above := lt_trans below (least e.1 (List.mem_map_of_mem mem))
              rw [same,equal] at above
              exact lt_irrefl _ above
          rw [valueAt,none]
          rfl
        rw [if_pos same,absent]
        simp [valueAt,same]
      · rw [if_neg same]
        simp [valueAt,same]
    · split
      · rename_i same
        by_cases here : key = other
        · simp [valueAt,← same,here]
        · have apart : entry.1 ≠ other := fun equal => here (same.trans equal)
          simp [valueAt,here,apart]
      · rename_i apart
        by_cases found : entry.1 = other
        · have different : key ≠ other := fun same => apart (same.trans found.symm)
          simp [valueAt,found,different]
        · simpa [valueAt,found] using ih later

structure OrderedMap (κ ν : Type) [LinearOrder κ] where
  entries : List (κ × ν)
  increasing : (entries.map Prod.fst).Pairwise (· < ·)

namespace OrderedMap

def empty : OrderedMap κ ν := ⟨[],.nil⟩

def change (m : OrderedMap κ ν) (key : κ) (first : ν) (f : ν → ν) : OrderedMap κ ν :=
  ⟨changeAt key first f m.entries,changeAtIncreasing m.increasing⟩

def push (m : OrderedMap κ (List α)) (key : κ) (item : α) : OrderedMap κ (List α) :=
  m.change key [] (· ++ [item])

def filed (pairs : List (κ × α)) : OrderedMap κ (List α) :=
  pairs.foldl (fun m pair => m.push pair.1 pair.2) empty

theorem distinct (m : OrderedMap κ ν) : (m.entries.map Prod.fst).Nodup :=
  m.increasing.imp fun less => ne_of_lt less

theorem memValueAt {m : OrderedMap κ ν} {first : ν} {entry : κ × ν} (mem : entry ∈ m.entries) :
    valueAt first m.entries entry.1 = entry.2 := by
  have distinct := m.distinct
  revert mem distinct
  generalize m.entries = entries
  intro mem distinct
  induction entries with
  | nil => cases mem
  | cons e rest ih =>
    obtain ⟨fresh,later⟩ := List.nodup_cons.mp distinct
    rcases List.mem_cons.mp mem with rfl | inside
    · simp [valueAt]
    · have apart : e.1 ≠ entry.1 := fun same => fresh (same ▸ List.mem_map_of_mem inside)
      have found := ih inside later
      rw [valueAt,List.find?_cons_of_neg (by simpa using apart)]
      exact found

theorem filedFrom {pairs : List (κ × α)} {m : OrderedMap κ (List α)} {key : κ} :
    valueAt [] (pairs.foldl (fun m pair => m.push pair.1 pair.2) m).entries key =
      valueAt [] m.entries key ++ (pairs.filter fun pair => pair.1 = key).map Prod.snd ∧
    (key ∈ (pairs.foldl (fun m pair => m.push pair.1 pair.2) m).entries.map Prod.fst ↔
      key ∈ m.entries.map Prod.fst ∨ key ∈ pairs.map Prod.fst) := by
  induction pairs generalizing m with
  | nil => simp
  | cons pair rest ih =>
    obtain ⟨values,keys⟩ := @ih (m.push pair.1 pair.2)
    rw [List.foldl_cons]
    refine ⟨?_,?_⟩
    · rw [values,push,change,valueAtChange m.increasing]
      by_cases same : pair.1 = key <;> simp [same]
    · rw [keys,push,change,changeAtKeys,List.map_cons,List.mem_cons]
      tauto

theorem memFiled {pairs : List (κ × α)} {entry : κ × List α} (mem : entry ∈ (filed pairs).entries) :
    entry.1 ∈ pairs.map Prod.fst ∧ entry.2 = (pairs.filter fun pair => pair.1 = entry.1).map Prod.snd := by
  obtain ⟨values,keys⟩ := @filedFrom κ α _ pairs empty entry.1
  have listed := keys.mp (List.mem_map_of_mem mem)
  refine ⟨by simpa [empty] using listed,?_⟩
  have value : valueAt [] _ entry.1 = entry.2 := memValueAt mem
  rw [← value]
  simpa [empty,valueAt,filed] using values

theorem filedSingle {pairs : List (κ × α)} :
    (∀ entry ∈ (filed pairs).entries, entry.2.length ≤ 1) ↔ (pairs.map Prod.fst).Nodup := by
  have counted (key : κ) : (pairs.map Prod.fst).count key = (pairs.filter fun pair => pair.1 = key).length := by
    rw [List.count_eq_countP,List.countP_map,List.countP_eq_length_filter]
    rfl
  rw [List.nodup_iff_count_le_one]
  constructor
  · intro single key
    by_cases listed : key ∈ pairs.map Prod.fst
    · have known : key ∈ (filed pairs).entries.map Prod.fst :=
        (filedFrom (m := empty)).2.mpr (.inr listed)
      obtain ⟨entry,mem,rfl⟩ := List.mem_map.mp known
      have short := single entry mem
      rwa [(memFiled mem).2,List.length_map,← counted] at short
    · rw [List.count_eq_zero.mpr listed]
      exact Nat.zero_le 1
  · intro few entry mem
    rw [(memFiled mem).2,List.length_map,← counted]
    exact few entry.1

end OrderedMap

theorem sortSame {xs ys : List κ} (perm : xs.Perm ys) :
    xs.insertionSort (· ≤ ·) = ys.insertionSort (· ≤ ·) :=
  List.Perm.eq_of_pairwise (fun _ _ _ _ => le_antisymm) (List.pairwise_insertionSort _ _)
    (List.pairwise_insertionSort _ _) (((List.perm_insertionSort _ xs).trans perm).trans
      (List.perm_insertionSort _ ys).symm)

end RootCause.Library
