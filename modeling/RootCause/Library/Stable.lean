import Mathlib.Data.List.Sort
import RootCause.Library.Hash

/-! A stable sort by a numeric key undoes the order in which its blocks arrive, as long
as the keys of different blocks differ: the order inside a block is all that remains. -/
namespace RootCause.Library
variable {α β : Type}

abbrev ByKey (key : β → Nat) (x y : β) : Prop := key x ≤ key y

theorem insertComm {key : β → Nat} {x y : β} (apart : key x ≠ key y) (l : List β) :
    (l.orderedInsert (ByKey key) y).orderedInsert (ByKey key) x =
      (l.orderedInsert (ByKey key) x).orderedInsert (ByKey key) y := by
  have order : key x < key y ∨ key y < key x := Nat.lt_or_gt_of_ne apart
  induction l with
  | nil =>
    rcases order with less | less
    · simp [Nat.le_of_lt less,Nat.not_le.mpr less]
    · simp [Nat.le_of_lt less,Nat.not_le.mpr less]
  | cons z l ih =>
    by_cases beforeX : key x ≤ key z
    · by_cases beforeY : key y ≤ key z
      · rcases order with less | less
        · simp [beforeX,beforeY,Nat.le_of_lt less,Nat.not_le.mpr less]
        · simp [beforeX,beforeY,Nat.le_of_lt less,Nat.not_le.mpr less]
      · have less : key x < key y := by omega
        simp [beforeX,beforeY,Nat.not_le.mpr less]
    · by_cases beforeY : key y ≤ key z
      · have less : key y < key x := by omega
        simp [beforeX,beforeY,Nat.not_le.mpr less]
      · simp [beforeX,beforeY,ih]

def insertBlock (key : β → Nat) (block l : List β) : List β :=
  block.foldr (List.orderedInsert (ByKey key)) l

theorem insertBlockComm {key : β → Nat} {xs ys : List β}
    (apart : ∀ x ∈ xs, ∀ y ∈ ys, key x ≠ key y) (l : List β) :
    insertBlock key xs (insertBlock key ys l) = insertBlock key ys (insertBlock key xs l) := by
  have one (x : β) (ys : List β) (apart : ∀ y ∈ ys, key x ≠ key y) (l : List β) :
      (insertBlock key ys l).orderedInsert (ByKey key) x =
        insertBlock key ys (l.orderedInsert (ByKey key) x) := by
    induction ys with
    | nil => rfl
    | cons y ys ih =>
      obtain ⟨here,later⟩ := List.forall_mem_cons.mp apart
      change (((insertBlock key ys l).orderedInsert _ y).orderedInsert _ x) =
        (insertBlock key ys (l.orderedInsert _ x)).orderedInsert _ y
      rw [insertComm here,ih later]
  induction xs with
  | nil => rfl
  | cons x xs ih =>
    obtain ⟨here,later⟩ := List.forall_mem_cons.mp apart
    change (insertBlock key xs (insertBlock key ys l)).orderedInsert _ x =
      insertBlock key ys ((insertBlock key xs l).orderedInsert _ x)
    rw [ih later,one x ys here]

theorem sortBlocks (key : β → Nat) (f : α → List β) (blocks : List α) :
    (blocks.flatMap f).insertionSort (ByKey key) = blocks.foldr (fun a l => insertBlock key (f a) l) [] := by
  induction blocks with
  | nil => rfl
  | cons a rest ih =>
    rw [List.flatMap_cons,List.foldr_cons,← ih,List.insertionSort,List.foldr_append]
    rfl

theorem sortStable {key : β → Nat} {f : α → List β} {blocks other : List α} (perm : blocks.Perm other)
    (apart : ∀ a ∈ blocks, ∀ b ∈ blocks, a ≠ b → ∀ x ∈ f a, ∀ y ∈ f b, key x ≠ key y) :
    (blocks.flatMap f).insertionSort (ByKey key) = (other.flatMap f).insertionSort (ByKey key) := by
  rw [sortBlocks,sortBlocks]
  refine perm.foldr_eq' ?_ []
  intro a inside b within l
  by_cases same : a = b
  · rw [same]
  · exact insertBlockComm (apart b within a inside (Ne.symm same)) l

theorem sortDetermined {key : β → Nat} {xs ys : List β} (perm : xs.Perm ys)
    (apart : ∀ x ∈ xs, ∀ y ∈ xs, x ≠ y → key x ≠ key y) :
    xs.insertionSort (ByKey key) = ys.insertionSort (ByKey key) := by
  have singles := sortStable (f := fun x => [x]) perm (by simpa using apart)
  simpa [List.flatMap_singleton'] using singles

end RootCause.Library
