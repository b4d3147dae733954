import RootCause.Library.Tree

/-! A fallible function applied to every node of an ordered tree, a node before its
children. It succeeds with the tree of the results, node for node, and fails exactly
when it fails at some node. -/
namespace RootCause.Library.Rose

variable {α β ε : Type}

inductive Mem (a : α) : Rose α → Prop
  | root {children} : Mem a (.node a children)
  | inside {value children t} (child : t ∈ children) (mem : Mem a t) : Mem a (.node value children)

instance : Membership α (Rose α) := ⟨fun t a => Mem a t⟩

theorem memNode {a value : α} {children : List (Rose α)} :
    a ∈ Rose.node value children ↔ a = value ∨ ∃ t ∈ children, a ∈ t := by
  constructor
  · intro given
    cases given with
    | root => exact .inl rfl
    | inside child mem => exact .inr ⟨_,child,mem⟩
  · rintro (rfl | ⟨t,child,mem⟩)
    · exact .root
    · exact .inside child mem

inductive Alike (R : α → β → Prop) : Rose α → Rose β → Prop
  | node {a b ts us} (value : R a b) (children : List.Forall₂ (Alike R) ts us) :
      Alike R (.node a ts) (.node b us)

theorem alikeNode {R : α → β → Prop} {a : α} {b : β} {ts : List (Rose α)} {us : List (Rose β)} :
    Alike R (.node a ts) (.node b us) ↔ R a b ∧ List.Forall₂ (Alike R) ts us := by
  constructor
  · intro given
    cases given with
    | node value children => exact ⟨value,children⟩
  · intro given
    exact .node given.1 given.2

mutual
def traverse (f : α → Except ε β) : Rose α → Except ε (Rose β)
  | .node a ts => do
    let b ← f a
    let us ← traverseAll f ts
    pure (.node b us)
def traverseAll (f : α → Except ε β) : List (Rose α) → Except ε (List (Rose β))
  | [] => pure []
  | t :: ts => do
    let u ← traverse f t
    let us ← traverseAll f ts
    pure (u :: us)
end

variable {f : α → Except ε β}

theorem traverseAllMap {ts : List (Rose α)} : traverseAll f ts = ts.mapM (traverse f) := by
  induction ts with
  | nil => rfl
  | cons t ts ih => rw [traverseAll,ih,List.mapM_cons]

theorem traverseOk {t : Rose α} {u : Rose β} :
    traverse f t = .ok u ↔ Alike (fun a b => f a = .ok b) t u := by
  induction t generalizing u with
  | node a ts each =>
    have all {us : List (Rose β)} :
        ts.mapM (traverse f) = .ok us ↔ List.Forall₂ (Alike fun a b => f a = .ok b) ts us := by
      rw [mapMOk]
      constructor
      · intro given
        exact forall₂Imp given fun t mem u same => (each t mem).mp same
      · intro given
        exact forall₂Imp given fun t mem u alike => (each t mem).mpr alike
    obtain ⟨b,us⟩ := u
    rw [alikeNode,← all,traverse,traverseAllMap]
    simp only [bindOk]
    constructor
    · rintro ⟨b',value,us',rest,same⟩
      cases same
      exact ⟨value,rest⟩
    · intro given
      exact ⟨b,given.1,us,given.2,rfl⟩

theorem traverseFails {t : Rose α} :
    (∃ e, traverse f t = .error e) ↔ ∃ a ∈ t, ∃ e, f a = .error e := by
  induction t with
  | node a ts each =>
    have below : (∃ e, ts.mapM (traverse f) = .error e) ↔ ∃ t ∈ ts, ∃ b ∈ t, ∃ e, f b = .error e := by
      rw [mapMFails]
      constructor
      · rintro ⟨t,child,failed⟩
        exact ⟨t,child,(each t child).mp failed⟩
      · rintro ⟨t,child,failed⟩
        exact ⟨t,child,(each t child).mpr failed⟩
    have nodes : (∃ b ∈ Rose.node a ts, ∃ e, f b = .error e) ↔
        (∃ e, f a = .error e) ∨ ∃ t ∈ ts, ∃ b ∈ t, ∃ e, f b = .error e := by
      constructor
      · rintro ⟨b,mem,failed⟩
        rcases memNode.mp mem with rfl | ⟨t,child,deep⟩
        · exact .inl failed
        · exact .inr ⟨t,child,b,deep,failed⟩
      · rintro (failed | ⟨t,child,b,deep,failed⟩)
        · exact ⟨a,.root,failed⟩
        · exact ⟨b,.inside child deep,failed⟩
    rw [nodes,← below,traverse,traverseAllMap]
    cases f a with
    | error e => simp [bind,Except.bind]
    | ok b => cases ts.mapM (traverse f) <;> simp [bind,Except.bind,pure,Except.pure]

theorem Alike.imp {R S : α → β → Prop} {t : Rose α} {u : Rose β} (alike : Alike R t u)
    (implies : ∀ a b, R a b → S a b) : Alike S t u := by
  induction t generalizing u with
  | node a ts each =>
    obtain ⟨b,us⟩ := u
    obtain ⟨value,children⟩ := alikeNode.mp alike
    exact .node (implies a b value) (forall₂Imp children fun t mem u below => each t mem below)

theorem Alike.trans {γ : Type} {R : α → β → Prop} {S : β → γ → Prop} {t : Rose α} {u : Rose β} {v : Rose γ}
    (first : Alike R t u) (second : Alike S u v) : Alike (fun a c => ∃ b, R a b ∧ S b c) t v := by
  induction t generalizing u v with
  | node a ts each =>
    obtain ⟨b,us⟩ := u
    obtain ⟨c,vs⟩ := v
    obtain ⟨left,below⟩ := alikeNode.mp first
    obtain ⟨right,above⟩ := alikeNode.mp second
    have joined : List.Forall₂ (fun t v => ∃ u, Alike R t u ∧ Alike S u v) ts vs :=
      forall₂Joined below above fun t u v one two => ⟨u,one,two⟩
    refine .node ⟨b,left,right⟩ (forall₂Imp joined ?_)
    rintro t mem v ⟨u,one,two⟩
    exact each t mem one two

theorem Alike.mem {R : α → β → Prop} {t : Rose α} {u : Rose β} (alike : Alike R t u) {b : β} (mem : b ∈ u) :
    ∃ a ∈ t, R a b := by
  induction t generalizing u with
  | node a ts each =>
    obtain ⟨b',us⟩ := u
    obtain ⟨value,children⟩ := alikeNode.mp alike
    rcases memNode.mp mem with rfl | ⟨u,child,mem⟩
    · exact ⟨a,.root,value⟩
    · obtain ⟨t,found,below⟩ := forall₂Right children child
      obtain ⟨a',deep,related⟩ := each t found below mem
      exact ⟨a',.inside found deep,related⟩

end RootCause.Library.Rose
