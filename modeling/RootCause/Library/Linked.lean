import Mathlib.Data.List.Nodup
import RootCause.Library.Traversal

/-! Ordered trees stored as the list of their nodes in pre-order, where every node names
its parent by a key. Reading the children of a node off the whole list, again and again
from the root, gives the tree back in shape and order. -/
namespace RootCause.Library.Rose

variable {α β κ : Type}

def value : Rose α → α
  | .node a _ => a

mutual
def flatten : Rose α → List α
  | .node a ts => a :: flattenAll ts
def flattenAll : List (Rose α) → List α
  | [] => []
  | t :: ts => flatten t ++ flattenAll ts
end

def readFrom (children : β → List β) : Nat → β → Rose β
  | 0, b => .node b []
  | fuel + 1, b => .node b ((children b).map (readFrom children fuel))

inductive ReadBy (children : β → List β) : Rose β → Prop
  | node {b ts} (same : ts.map value = children b) (each : ∀ t ∈ ts, ReadBy children t) :
      ReadBy children (.node b ts)

theorem sizeChild {t : Rose α} {ts : List (Rose α)} (child : t ∈ ts) : t.size ≤ sizes ts := by
  induction ts with
  | nil => cases child
  | cons u rest ih =>
    rw [sizes]
    rcases List.mem_cons.mp child with rfl | later
    · exact Nat.le_add_right _ _
    · exact Nat.le_trans (ih later) (Nat.le_add_left _ _)

theorem readFromReadBy {children : β → List β} {t : Rose β} (read : ReadBy children t) {fuel : Nat}
    (enough : t.size ≤ fuel) : readFrom children fuel t.value = t := by
  induction t generalizing fuel with
  | node b ts each =>
    cases read with
    | node same below =>
      cases fuel with
      | zero => exact absurd enough (by simp [size])
      | succ fuel =>
        rw [value,readFrom,← same,List.map_map]
        refine congrArg (Rose.node b) ?_
        refine (List.map_congr_left fun t child => ?_).trans (List.map_id ts)
        have small : t.size ≤ fuel := Nat.le_trans (sizeChild child) (Nat.le_of_succ_le_succ enough)
        exact each t child (below t child) small

theorem flattenAllEq (ts : List (Rose α)) : flattenAll ts = ts.flatMap flatten := by
  induction ts with
  | nil => rfl
  | cons t ts ih => rw [flattenAll,ih,List.flatMap_cons]

theorem memFlatten {a : α} {t : Rose α} : a ∈ t.flatten ↔ a ∈ t := by
  induction t with
  | node b ts each =>
    rw [flatten,List.mem_cons,flattenAllEq,List.mem_flatMap,memNode]
    exact or_congr_right (exists_congr fun t => and_congr_right fun child => each t child)

theorem listingValues (t : Rose α) (start : Nat) (parent : Option Nat) (depth : Nat) :
    (t.listing start parent depth).map Placed.value = t.flatten := by
  induction t generalizing start parent depth with
  | node a ts each =>
    have all (start : Nat) (parent : Option Nat) (depth : Nat) :
        (listings start parent depth ts).map Placed.value = flattenAll ts := by
      induction ts generalizing start with
      | nil => rfl
      | cons t ts ih =>
        rw [listings,flattenAll,List.map_append,each t List.mem_cons_self,
          ih fun u child => each u (List.mem_cons_of_mem _ child)]
    rw [listing,flatten,List.map_cons]
    exact congrArg (List.cons a) (all _ _ _)

section
variable (key : β → κ) (link : β → Option κ)

inductive Linked : Rose β → Prop
  | node {b ts} (links : ∀ t ∈ ts, link t.value = some (key b)) (each : ∀ t ∈ ts, Linked t) :
      Linked (.node b ts)

variable {key link} [DecidableEq κ]

theorem namedOutside {t : Rose β} (linked : Linked key link t) {k : κ}
    (outside : ∀ b ∈ t.flatten, key b ≠ k) :
    t.flatten.filter (fun b => link b = some k) = [t.value].filter fun b => link b = some k := by
  induction t with
  | node b ts each =>
    cases linked with
    | node links below =>
      have inside : (flattenAll ts).filter (fun c => link c = some k) = [] := by
        rw [flattenAllEq,List.filter_flatMap,List.flatMap_eq_nil_iff]
        intro t child
        have later : ∀ c ∈ t.flatten, key c ≠ k := fun c mem => outside c (List.mem_cons_of_mem _ (by
          rw [flattenAllEq]
          exact List.mem_flatMap.mpr ⟨t,child,mem⟩))
        have own : key b ≠ k := outside b List.mem_cons_self
        rw [each t child (below t child) later]
        simp [links t child,own]
      rw [flatten,value,← List.singleton_append,List.filter_append,inside,List.append_nil]

theorem namedRoot {b : β} {ts : List (Rose β)} (linked : Linked key link (.node b ts))
    (distinct : ((Rose.node b ts).flatten.map key).Nodup) (own : link b ≠ some (key b)) :
    (Rose.node b ts).flatten.filter (fun c => link c = some (key b)) = ts.map value := by
  cases linked with
  | node links below =>
    have fresh := (List.nodup_cons.mp distinct).1
    rw [flatten,List.filter_cons_of_neg (by simpa using own),flattenAllEq,List.filter_flatMap]
    rw [flattenAllEq] at fresh
    have each : ∀ t ∈ ts, t.flatten.filter (fun c => link c = some (key b)) = [t.value] := by
      intro t child
      rw [namedOutside (below t child) fun c mem same => fresh
        (List.mem_map.mpr ⟨c,List.mem_flatMap.mpr ⟨t,child,mem⟩,same⟩)]
      simp [links t child]
    clear fresh distinct links below
    induction ts with
    | nil => rfl
    | cons t ts ih =>
      rw [List.flatMap_cons,each t List.mem_cons_self,
        ih fun c mem => each c (List.mem_cons_of_mem _ mem)]
      rfl

theorem namedChild {ts : List (Rose β)} (linked : ∀ t ∈ ts, Linked key link t)
    (distinct : ((flattenAll ts).map key).Nodup) {k : κ} (roots : ∀ t ∈ ts, link t.value ≠ some k)
    {t : Rose β} (child : t ∈ ts) {b : β} (mem : b ∈ t.flatten) (named : key b = k) :
    (flattenAll ts).filter (fun c => link c = some k) = t.flatten.filter fun c => link c = some k := by
  have without {u : Rose β} (other : u ∈ ts) (outside : ∀ c ∈ u.flatten, key c ≠ k) :
      u.flatten.filter (fun c => link c = some k) = [] := by
    rw [namedOutside (linked u other) outside]
    simpa using roots u other
  induction ts with
  | nil => cases child
  | cons u rest ih =>
    rw [flattenAll,List.map_append,List.nodup_append] at distinct
    obtain ⟨_,later,apart⟩ := distinct
    rw [flattenAll,List.filter_append]
    rcases List.mem_cons.mp child with rfl | deeper
    · have others : (flattenAll rest).filter (fun c => link c = some k) = [] := by
        rw [flattenAllEq,List.filter_flatMap,List.flatMap_eq_nil_iff]
        intro v other
        refine without (List.mem_cons_of_mem _ other) fun c inside same => ?_
        refine apart k (List.mem_map.mpr ⟨b,mem,named⟩) k (List.mem_map.mpr ⟨c,?_,same⟩) rfl
        rw [flattenAllEq]
        exact List.mem_flatMap.mpr ⟨v,other,inside⟩
      rw [others,List.append_nil]
    · have first : u.flatten.filter (fun c => link c = some k) = [] := by
        refine without List.mem_cons_self fun c inside same => ?_
        refine apart k (List.mem_map.mpr ⟨c,inside,same⟩) k (List.mem_map.mpr ⟨b,?_,named⟩) rfl
        rw [flattenAllEq]
        exact List.mem_flatMap.mpr ⟨t,deeper,mem⟩
      rw [first,List.nil_append]
      exact ih (fun v other => linked v (List.mem_cons_of_mem _ other)) later
        (fun v other => roots v (List.mem_cons_of_mem _ other)) deeper
        fun other => without (List.mem_cons_of_mem _ other)

theorem linkedReadByWhole {t : Rose β} (linked : Linked key link t) (distinct : (t.flatten.map key).Nodup)
    (root : ∀ b ∈ t.flatten, link t.value ≠ some (key b)) {whole : List β}
    (agrees : ∀ b ∈ t.flatten, whole.filter (fun c => link c = some (key b)) =
      t.flatten.filter fun c => link c = some (key b)) :
    ReadBy (fun b => whole.filter fun c => link c = some (key b)) t := by
  induction t with
  | node b ts each =>
    have own : link b ≠ some (key b) := root b List.mem_cons_self
    have children : ts.map value = whole.filter fun c => link c = some (key b) := by
      rw [agrees b List.mem_cons_self,namedRoot linked distinct own]
    cases linked with
    | node links below =>
      obtain ⟨fresh,later⟩ := List.nodup_cons.mp distinct
      refine .node children fun t child => ?_
      have inside {c : β} (mem : c ∈ t.flatten) : c ∈ flattenAll ts := by
        rw [flattenAllEq]
        exact List.mem_flatMap.mpr ⟨t,child,mem⟩
      have other {c : β} (mem : c ∈ t.flatten) : key b ≠ key c := fun same =>
        fresh (List.mem_map.mpr ⟨c,inside mem,same.symm⟩)
      have unnamed {u : Rose β} (sibling : u ∈ ts) {c : β} (mem : c ∈ t.flatten) :
          link u.value ≠ some (key c) := by
        rw [links u sibling]
        exact fun same => other mem (Option.some.inj same)
      have part : (t.flatten.map key).Nodup := by
        rw [flattenAllEq,List.map_flatMap] at later
        exact (List.nodup_flatMap.mp later).1 t child
      refine each t child (below t child) part (fun c mem => unnamed child mem) fun c mem => ?_
      have top : link b ≠ some (key c) := root c (List.mem_cons_of_mem _ (inside mem))
      rw [agrees c (List.mem_cons_of_mem _ (inside mem)),flatten,
        List.filter_cons_of_neg (by simpa using top)]
      exact namedChild below later (fun u sibling => unnamed sibling mem) child mem rfl

theorem linkedReadBy {t : Rose β} (linked : Linked key link t) (distinct : (t.flatten.map key).Nodup)
    (root : link t.value = none) :
    ReadBy (fun b => t.flatten.filter fun c => link c = some (key b)) t :=
  linkedReadByWhole linked distinct (by simp [root]) fun _ _ => rfl

end

theorem alikeSize {R : α → β → Prop} {t : Rose α} {u : Rose β} (alike : Alike R t u) : t.size = u.size := by
  induction t generalizing u with
  | node a ts each =>
    obtain ⟨b,us⟩ := u
    have children := (alikeNode.mp alike).2
    clear alike
    rw [size,size,Nat.add_right_cancel_iff]
    induction children with
    | nil => rfl
    | cons first _ ih =>
      rw [sizes,sizes,each _ List.mem_cons_self first,ih fun t child => each t (List.mem_cons_of_mem _ child)]

section
variable {R : Placed α → β → Prop} {key : β → κ} {link : β → Option κ} {keyAt : Nat → κ}

theorem regrown (links : ∀ x y, R x y → link y = x.parent.map keyAt) {t : Rose α} {start : Nat}
    {parent : Option Nat} {depth : Nat} {ys : List β}
    (related : List.Forall₂ R (t.listing start parent depth) ys)
    (keys : ∀ i y, ys[i]? = some y → key y = keyAt (start + i)) :
    ∃ u : Rose β, u.flatten = ys ∧ Alike (fun a b => ∃ x, x.value = a ∧ R x b) t u ∧
      Linked key link u ∧ key u.value = keyAt start ∧ link u.value = parent.map keyAt := by
  induction t generalizing start parent depth ys with
  | node a ts each =>
    -- The children take consecutive parts of the list, and each is keyed by where its part starts.
    have all {start : Nat} {parent : Option Nat} {depth : Nat} {ys : List β}
        (listed : List.Forall₂ R (listings start parent depth ts) ys)
        (keyed : ∀ i y, ys[i]? = some y → key y = keyAt (start + i)) :
        ∃ us : List (Rose β), flattenAll us = ys ∧
          List.Forall₂ (Alike fun a b => ∃ x, x.value = a ∧ R x b) ts us ∧
          ∀ u ∈ us, Linked key link u ∧ link u.value = parent.map keyAt := by
      clear related keys
      induction ts generalizing start ys with
      | nil =>
        cases listed
        exact ⟨[],rfl,.nil,by simp⟩
      | cons t ts ih =>
        obtain ⟨first,later,rfl,head,tail⟩ := forall₂Split listed
        have length : first.length = t.size := by rw [← head.length_eq,listingLength]
        obtain ⟨u,flat,alike,linked,_,above⟩ := each t List.mem_cons_self head fun i y found =>
          keyed i y (by rw [List.getElem?_append_left (List.getElem?_eq_some_iff.mp found).1,found])
        obtain ⟨us,flats,alikes,others⟩ := ih (fun t child => each t (List.mem_cons_of_mem _ child)) tail
          fun i y found => by
            rw [Nat.add_assoc]
            refine keyed (t.size + i) y ?_
            rw [← length,List.getElem?_append_right (Nat.le_add_right _ _),Nat.add_sub_cancel_left,found]
        refine ⟨u :: us,by rw [flattenAll,flat,flats],.cons alike alikes,?_⟩
        intro v mem
        rcases List.mem_cons.mp mem with rfl | other
        · exact ⟨linked,above⟩
        · exact others v other
    rw [listing] at related
    cases related with
    | @cons _ b _ ys top below =>
      obtain ⟨us,flat,alike,linked⟩ := all below fun i y found => by
        rw [Nat.add_assoc,Nat.add_comm 1 i]
        exact keys (i + 1) y found
      have own : key b = keyAt start := keys 0 b rfl
      refine ⟨.node b us,by rw [flatten,flat],.node ⟨_,rfl,top⟩ alike,?_,own,links _ _ top⟩
      refine .node (fun u child => ?_) fun u child => (linked u child).1
      rw [(linked u child).2,own]
      rfl

theorem readBack [DecidableEq κ] (links : ∀ x y, R x y → link y = x.parent.map keyAt) {t : Rose α} {ys : List β}
    (related : List.Forall₂ R (t.listing 0 none 0) ys)
    (keys : ∀ i y, ys[i]? = some y → key y = keyAt i) (distinct : (ys.map key).Nodup) {first : β}
    (head : ys.head? = some first) :
    Alike (fun a b => ∃ x, x.value = a ∧ R x b) t
      (readFrom (fun b => ys.filter fun c => link c = some (key b)) ys.length first) := by
  obtain ⟨u,flat,alike,linked,_,above⟩ := regrown links related fun i y found => by
    rw [Nat.zero_add]
    exact keys i y found
  have counted : u.size = ys.length := by rw [← alikeSize alike,← listingLength t 0 none 0,related.length_eq]
  have top : u.value = first := by
    rw [← flat] at head
    cases u
    exact Option.some.inj head
  subst flat top
  rw [readFromReadBy (linkedReadBy linked distinct above) (Nat.le_of_eq counted)]
  exact alike

end
end RootCause.Library.Rose
