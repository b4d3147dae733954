import RootCause.Library.Linked

/-! Walks that pass a context down and collect names that may not repeat. Such a walk
succeeds exactly when every node is admitted under what is passed to it and no name comes
twice, in whatever branches of the tree. -/
namespace RootCause.Library

section
variable {γ : Type} {xs ys : List γ} {seen : γ → Prop}

def Fresh (names : List γ) (seen : γ → Prop) : Prop := names.Nodup ∧ ∀ n ∈ names, ¬ seen n

theorem freshNil : Fresh [] seen := ⟨.nil,by simp⟩

theorem freshAppend : Fresh (xs ++ ys) seen ↔ Fresh xs seen ∧ Fresh ys fun n => seen n ∨ n ∈ xs := by
  unfold Fresh
  rw [List.nodup_append',List.forall_mem_append,List.disjoint_right]
  constructor
  · rintro ⟨⟨left,right,apart⟩,before,after⟩
    exact ⟨⟨left,before⟩,right,fun n mem => not_or.mpr ⟨after n mem,apart mem⟩⟩
  · rintro ⟨⟨left,before⟩,right,after⟩
    exact ⟨⟨left,right,fun n mem => (not_or.mp (after n mem)).2⟩,before,fun n mem => (not_or.mp (after n mem)).1⟩

theorem Fresh.same {other : γ → Prop} (same : ∀ n, seen n ↔ other n) : Fresh xs seen ↔ Fresh xs other := by
  unfold Fresh
  simp only [same]

end

/- Every node is entered under what its parent passes down. -/
inductive Rose.Admitted {α ω : Type} (enters : ω → α → ω → Prop) : ω → Rose α → Prop
  | node {w a below ts} (entered : enters w a below) (children : ∀ t ∈ ts, Admitted enters below t) :
      Admitted enters w (.node a ts)

namespace Visitor
variable {α κ χ σ ε ω γ : Type}

structure Admits (v : Visitor α κ χ σ ε) (view : κ → ω) (enters : ω → α → ω → Prop) (names : α → List γ)
    (seen : σ → γ → Prop) : Prop where
  sound : ∀ k a s shared t, v.enter k a s = .ok (shared,t) → Fresh (names a) (seen s) ∧
    (∃ below, enters (view k) a below ∧ ∀ i, view (v.below shared i) = below) ∧
    ∀ n, seen t n ↔ seen s n ∨ n ∈ names a
  complete : ∀ k a s below, enters (view k) a below → Fresh (names a) (seen s) →
    ∃ shared t, v.enter k a s = .ok (shared,t)
  functional : ∀ w a x y, enters w a x → enters w a y → x = y

variable {v : Visitor α κ χ σ ε} {view : κ → ω} {enters : ω → α → ω → Prop} {names : α → List γ}
  {seen : σ → γ → Prop}

def Succeeds (v : Visitor α κ χ σ ε) (view : κ → ω) (enters : ω → α → ω → Prop) (names : α → List γ)
    (seen : σ → γ → Prop) (tree : Rose α) : Prop := ∀ k s,
  ((∃ t, v.visit k s tree = .ok t) ↔
    tree.Admitted enters (view k) ∧ Fresh (tree.flatten.flatMap names) (seen s)) ∧
  ∀ t, v.visit k s tree = .ok t → ∀ n, seen t n ↔ seen s n ∨ n ∈ tree.flatten.flatMap names

theorem visitAllSucceeds {ts : List (Rose α)} (each : ∀ tree ∈ ts, Succeeds v view enters names seen tree)
    {shared : χ} {below : ω} (passed : ∀ i, view (v.below shared i) = below) (i : Nat) (s : σ) :
    ((∃ t, v.visitAll shared i s ts = .ok t) ↔
      (∀ tree ∈ ts, tree.Admitted enters below) ∧ Fresh ((Rose.flattenAll ts).flatMap names) (seen s)) ∧
    ∀ t, v.visitAll shared i s ts = .ok t → ∀ n, seen t n ↔ seen s n ∨ n ∈ (Rose.flattenAll ts).flatMap names := by
  induction ts generalizing i s with
  | nil =>
    refine ⟨⟨fun _ => ⟨by simp,freshNil⟩,fun _ => ⟨s,rfl⟩⟩,fun t visited n => ?_⟩
    cases visited
    simp [Rose.flattenAll]
  | cons tree rest ih =>
    obtain ⟨first,grown⟩ := each tree List.mem_cons_self (v.below shared i) s
    have later := ih fun c mem => each c (List.mem_cons_of_mem _ mem)
    rw [passed i] at first
    rw [Rose.flattenAll,List.flatMap_append,freshAppend,List.forall_mem_cons]
    refine ⟨⟨?_,?_⟩,fun t visited n => ?_⟩
    · rintro ⟨t,visited⟩
      obtain ⟨middle,head,tail⟩ := bindOk.mp visited
      obtain ⟨admitted,fresh⟩ := first.mp ⟨middle,head⟩
      obtain ⟨others,apart⟩ := (later (i + 1) middle).1.mp ⟨t,tail⟩
      exact ⟨⟨admitted,others⟩,fresh,(Fresh.same (grown middle head)).mp apart⟩
    · rintro ⟨⟨admitted,others⟩,fresh,apart⟩
      obtain ⟨middle,head⟩ := first.mpr ⟨admitted,fresh⟩
      obtain ⟨t,tail⟩ := (later (i + 1) middle).1.mpr ⟨others,(Fresh.same (grown middle head)).mpr apart⟩
      exact ⟨t,bindOk.mpr ⟨middle,head,tail⟩⟩
    · obtain ⟨middle,head,tail⟩ := bindOk.mp visited
      rw [(later (i + 1) middle).2 t tail n,grown middle head n,List.mem_append,or_assoc]

theorem visitSucceeds (admits : Admits v view enters names seen) (tree : Rose α) :
    Succeeds v view enters names seen tree := by
  induction tree with
  | node a ts each =>
    intro k s
    rw [Rose.flatten,List.flatMap_cons,freshAppend]
    refine ⟨⟨?_,?_⟩,fun t visited n => ?_⟩
    · rintro ⟨t,visited⟩
      obtain ⟨⟨shared,middle⟩,head,tail⟩ := bindOk.mp visited
      obtain ⟨fresh,⟨below,entered,passed⟩,grown⟩ := admits.sound k a s shared middle head
      obtain ⟨others,apart⟩ := (visitAllSucceeds each passed 0 middle).1.mp ⟨t,tail⟩
      exact ⟨.node entered others,fresh,(Fresh.same grown).mp apart⟩
    · rintro ⟨admitted,fresh,apart⟩
      cases admitted with
      | @node _ _ below _ entered others =>
        obtain ⟨shared,middle,head⟩ := admits.complete k a s below entered fresh
        obtain ⟨_,⟨below',entered',passed⟩,grown⟩ := admits.sound k a s shared middle head
        cases admits.functional _ _ _ _ entered entered'
        obtain ⟨t,tail⟩ := (visitAllSucceeds each passed 0 middle).1.mpr
          ⟨others,(Fresh.same grown).mpr apart⟩
        exact ⟨t,bindOk.mpr ⟨(shared,middle),head,tail⟩⟩
    · obtain ⟨⟨shared,middle⟩,head,tail⟩ := bindOk.mp visited
      obtain ⟨_,⟨below,_,passed⟩,grown⟩ := admits.sound k a s shared middle head
      rw [(visitAllSucceeds each passed 0 middle).2 t tail n,grown n,List.mem_append,or_assoc]

end Visitor
end RootCause.Library
