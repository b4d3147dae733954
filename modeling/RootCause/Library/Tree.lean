import Mathlib.Algebra.Ring.Nat
import RootCause.Library.Except

/-! Ordered trees walked in pre-order by a fallible visitor. The walk with an explicit
stack does what the recursion does, error for error, and what entering one node adds to
the state is added for every node in the order of the listing. -/
namespace RootCause.Library

inductive Rose (α : Type) where
  | node (value : α) (children : List (Rose α))

namespace Rose
variable {α : Type}

@[elab_as_elim, induction_eliminator]
theorem ind {motive : Rose α → Prop}
    (node : ∀ value children, (∀ t ∈ children, motive t) → motive (.node value children)) (t : Rose α) :
    motive t :=
  @Rose.rec α motive (fun ts => ∀ t ∈ ts, motive t) node
    (by simp) (by intro head tail h rest; simpa using ⟨h,rest⟩) t

mutual
def size : Rose α → Nat
  | .node _ children => sizes children + 1
def sizes : List (Rose α) → Nat
  | [] => 0
  | t :: rest => size t + sizes rest
end

structure Placed (α : Type) where
  value : α
  parent : Option Nat
  depth : Nat

mutual
def listing (start : Nat) (parent : Option Nat) (depth : Nat) : Rose α → List (Placed α)
  | .node value children => ⟨value,parent,depth⟩ :: listings (start + 1) (some start) (depth + 1) children
def listings (start : Nat) (parent : Option Nat) (depth : Nat) : List (Rose α) → List (Placed α)
  | [] => []
  | t :: rest => listing start parent depth t ++ listings (start + size t) parent depth rest
end

theorem listingLength (t : Rose α) (start : Nat) (parent : Option Nat) (depth : Nat) :
    (t.listing start parent depth).length = t.size := by
  induction t generalizing start parent depth with
  | node value children each =>
    have all (start : Nat) (parent : Option Nat) (depth : Nat) :
        (listings start parent depth children).length = sizes children := by
      induction children generalizing start with
      | nil => rfl
      | cons t rest ih =>
        rw [listings,sizes,List.length_append,each t List.mem_cons_self,
          ih fun c mem => each c (List.mem_cons_of_mem _ mem)]
    rw [listing,size,List.length_cons,all]

def Under (start : Nat) (parent : Option Nat) (depth : Nat) (xs : List (Placed α)) : Prop :=
  ∀ i x, xs[i]? = some x → (x.parent = parent ∧ x.depth = depth) ∨
    ∃ j y, x.parent = some (start + j) ∧ j < i ∧ xs[j]? = some y ∧ x.depth = y.depth + 1

theorem underAppend {start : Nat} {parent : Option Nat} {depth : Nat} {xs ys : List (Placed α)}
    (first : Under start parent depth xs) (later : Under (start + xs.length) parent depth ys) :
    Under start parent depth (xs ++ ys) := by
  intro i x found
  rw [List.getElem?_append] at found
  split at found
  · rename_i inside
    rcases first i x found with top | ⟨j,y,parent,earlier,at',deeper⟩
    · exact .inl top
    · exact .inr ⟨j,y,parent,earlier,by rw [List.getElem?_append_left (Nat.lt_trans earlier inside),at'],
        deeper⟩
  · rename_i outside
    rcases later (i - xs.length) x found with top | ⟨j,y,parent,earlier,at',deeper⟩
    · exact .inl top
    · refine .inr ⟨xs.length + j,y,by rw [parent,Nat.add_assoc],by omega,?_,deeper⟩
      rw [List.getElem?_append_right (Nat.le_add_right _ _),Nat.add_sub_cancel_left,at']

theorem listingUnder (t : Rose α) (start : Nat) (parent : Option Nat) (depth : Nat) :
    (∃ value rest, t.listing start parent depth = ⟨value,parent,depth⟩ :: rest ∧
      Under (start + 1) (some start) (depth + 1) rest) ∧
    Under start parent depth (t.listing start parent depth) := by
  induction t generalizing start parent depth with
  | node value children each =>
    have all (start : Nat) (parent : Option Nat) (depth : Nat) :
        Under start parent depth (listings start parent depth children) := by
      induction children generalizing start with
      | nil => simp [listings,Under]
      | cons t rest ih =>
        have later := ih (fun c mem => each c (List.mem_cons_of_mem _ mem)) (start + t.size)
        rw [← listingLength t start parent depth] at later
        rw [listings,← listingLength t start parent depth]
        exact underAppend (each t List.mem_cons_self start parent depth).2 later
    have below := all (start + 1) (some start) (depth + 1)
    refine ⟨⟨value,_,rfl,below⟩,?_⟩
    intro i x found
    rw [listing] at found ⊢
    cases i with
    | zero =>
      cases found
      exact .inl ⟨rfl,rfl⟩
    | succ i =>
      refine .inr ?_
      rcases below i x found with ⟨top,deep⟩ | ⟨j,y,parent,earlier,at',deeper⟩
      · exact ⟨0,_,top,Nat.succ_pos i,rfl,deep⟩
      · exact ⟨j + 1,y,by rw [parent,Nat.add_assoc,Nat.add_comm 1 j],Nat.succ_lt_succ earlier,at',deeper⟩

end Rose

/- What a walk does: entering a node under a context gives what its children share, from
which the context of each child is read. -/
structure Visitor (α κ χ σ ε : Type) where
  enter : κ → α → σ → Except ε (χ × σ)
  below : χ → Nat → κ

namespace Visitor
variable {α κ χ σ ε : Type} (v : Visitor α κ χ σ ε)

mutual
def visit (k : κ) (s : σ) : Rose α → Except ε σ
  | .node value children => do
    let (shared,s) ← v.enter k value s
    visitAll shared 0 s children
def visitAll (shared : χ) (i : Nat) (s : σ) : List (Rose α) → Except ε σ
  | [] => .ok s
  | t :: rest => do
    let s ← visit (v.below shared i) s t
    visitAll shared (i + 1) s rest
end

def children (shared : χ) (i : Nat) (ts : List (Rose α)) : List (κ × Rose α) :=
  (ts.zipIdx i).map fun t => (v.below shared t.2,t.1)

def walk : Nat → List (κ × Rose α) → σ → Option (Except ε σ)
  | 0, _, _ => none
  | _ + 1, [], s => some (.ok s)
  | fuel + 1, (k,.node value ts) :: rest, s =>
    match v.enter k value s with
    | .error e => some (.error e)
    | .ok (shared,s) => walk fuel (v.children shared 0 ts ++ rest) s

def pending (stack : List (κ × Rose α)) : Nat := (stack.map fun item => item.2.size).sum

variable {v}

theorem pendingChildren {shared : χ} {i : Nat} {ts : List (Rose α)} :
    pending (v.children shared i ts) = Rose.sizes ts := by
  induction ts generalizing i with
  | nil => rfl
  | cons t rest ih =>
    have later : pending (v.children shared (i + 1) rest) = Rose.sizes rest := ih
    rw [Rose.sizes,← later]
    rfl

theorem visitAllChildren {shared : χ} {i : Nat} {s : σ} {ts : List (Rose α)} : v.visitAll shared i s ts =
    (v.children shared i ts).foldlM (fun s item => v.visit item.1 s item.2) s := by
  induction ts generalizing i s with
  | nil => rfl
  | cons t rest ih =>
    have next : v.children shared i (t :: rest) =
        (v.below shared i,t) :: v.children shared (i + 1) rest := rfl
    rw [visitAll,next,List.foldlM_cons]
    simp only [ih]

/- With a step for every pending node and one for the empty stack, the stack is worked
off in the order of the recursion, with its result and its first error. -/
theorem walkVisits {fuel : Nat} {stack : List (κ × Rose α)} {s : σ} (enough : pending stack < fuel) :
    v.walk fuel stack s = some (stack.foldlM (fun s item => v.visit item.1 s item.2) s) := by
  induction fuel generalizing stack s with
  | zero => exact absurd enough (Nat.not_lt_zero _)
  | succ fuel ih =>
    cases stack with
    | nil => rfl
    | cons item rest =>
      obtain ⟨k,⟨value,ts⟩⟩ := item
      rw [walk,List.foldlM_cons,visit]
      cases v.enter k value s with
      | error e => rfl
      | ok entered =>
        obtain ⟨shared,s⟩ := entered
        have fewer : pending (v.children shared 0 ts ++ rest) < fuel := by
          have joined : pending (v.children shared 0 ts ++ rest) =
              pending (v.children shared 0 ts) + pending rest := by simp [pending]
          rw [pendingChildren] at joined
          have whole : pending ((k,Rose.node value ts) :: rest) = Rose.sizes ts + 1 + pending rest := by
            simp [pending,Rose.size]
          omega
        have later := ih (s := s) fewer
        rw [List.foldlM_append,← visitAllChildren] at later
        exact later

section
variable (R : σ → List (Rose.Placed α) → σ → Prop) (count : σ → Nat) (place : κ → Option Nat × Nat)

def Adds (v : Visitor α κ χ σ ε) (tree : Rose α) : Prop :=
  ∀ k s t, v.visit k s tree = .ok t → count t = count s + tree.size ∧
    R s (tree.listing (count s) (place k).1 (place k).2) t

theorem visitAllAdds (none : ∀ s, R s [] s)
    (append : ∀ s xs t ys u, R s xs t → R t ys u → R s (xs ++ ys) u) {ts : List (Rose α)}
    (each : ∀ tree ∈ ts, Adds R count place v tree) {shared : χ} {parent : Option Nat} {depth i : Nat}
    (placed : ∀ i, place (v.below shared i) = (parent,depth)) {s t : σ}
    (visited : v.visitAll shared i s ts = .ok t) : count t = count s + Rose.sizes ts ∧
      R s (Rose.listings (count s) parent depth ts) t := by
  induction ts generalizing i s with
  | nil =>
    cases visited
    exact ⟨rfl,none _⟩
  | cons tree rest ih =>
    obtain ⟨middle,head,tail⟩ := bindOk.mp visited
    obtain ⟨counted,first⟩ := each tree List.mem_cons_self _ s middle head
    obtain ⟨last,later⟩ := ih (fun c mem => each c (List.mem_cons_of_mem _ mem)) tail
    rw [placed i] at first
    rw [counted] at later
    exact ⟨by rw [last,counted,Rose.sizes,Nat.add_assoc],append s _ middle _ t first later⟩

theorem visitAdds (none : ∀ s, R s [] s)
    (append : ∀ s xs t ys u, R s xs t → R t ys u → R s (xs ++ ys) u)
    (entered : ∀ k value s shared t, v.enter k value s = .ok (shared,t) → count t = count s + 1 ∧
      (∀ i, place (v.below shared i) = (some (count s),(place k).2 + 1)) ∧
      R s [⟨value,(place k).1,(place k).2⟩] t) (tree : Rose α) : Adds R count place v tree := by
  induction tree with
  | node value children each =>
    intro k s t visited
    obtain ⟨⟨shared,middle⟩,first,rest⟩ := bindOk.mp visited
    obtain ⟨counted,placed,one⟩ := entered k value s shared middle first
    obtain ⟨last,later⟩ := visitAllAdds R count place none append each placed rest
    rw [counted] at later
    exact ⟨by rw [last,counted,Rose.size]; omega,append s [_] middle _ t one later⟩

end

section
variable (I : σ → Prop) (K : σ → κ → Prop)

def Keeps (v : Visitor α κ χ σ ε) (tree : Rose α) : Prop :=
  ∀ k s t, v.visit k s tree = .ok t → I s → K s k → I t ∧ ∀ k', K s k' → K t k'

theorem visitAllKeeps {ts : List (Rose α)} (each : ∀ tree ∈ ts, Keeps I K v tree) {shared : χ} {i : Nat}
    {s t : σ} (visited : v.visitAll shared i s ts = .ok t) (kept : I s) (below : ∀ i, K s (v.below shared i)) :
    I t ∧ ∀ k', K s k' → K t k' := by
  induction ts generalizing i s with
  | nil =>
    cases visited
    exact ⟨kept,fun _ good => good⟩
  | cons tree rest ih =>
    obtain ⟨middle,head,tail⟩ := bindOk.mp visited
    obtain ⟨held,grown⟩ := each tree List.mem_cons_self _ s middle head kept (below i)
    obtain ⟨last,later⟩ := ih (fun c mem => each c (List.mem_cons_of_mem _ mem)) tail held
      fun i => grown _ (below i)
    exact ⟨last,fun k' good => later k' (grown k' good)⟩

theorem visitKeeps (entered : ∀ k value s shared t, v.enter k value s = .ok (shared,t) → I s → K s k →
      I t ∧ (∀ i, K t (v.below shared i)) ∧ ∀ k', K s k' → K t k') (tree : Rose α) : Keeps I K v tree := by
  induction tree with
  | node value children each =>
    intro k s t visited kept good
    obtain ⟨⟨shared,middle⟩,first,rest⟩ := bindOk.mp visited
    obtain ⟨held,below,stays⟩ := entered k value s shared middle first kept good
    obtain ⟨last,later⟩ := visitAllKeeps I K each rest held below
    exact ⟨last,fun k' good => later k' (stays k' good)⟩

end
end Visitor
end RootCause.Library
