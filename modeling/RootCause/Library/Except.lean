import Mathlib.Data.List.Forall2

/-! Fallible operations: an error of the operation's own type is kept apart from
a panic, and a traversal succeeds exactly when each of its steps does. -/
namespace RootCause.Library

inductive Failure (ε : Type) where
  | error (e : ε)
  | panicked (message : String)
  deriving DecidableEq, Repr

variable {ε α β : Type}

def unwrap (message : String) : Option α → Except (Failure ε) α
  | some a => .ok a
  | none => .error (.panicked message)

def mapFailure {φ : Type} (f : ε → φ) : Except (Failure ε) α → Except (Failure φ) α
  | .ok a => .ok a
  | .error (.error e) => .error (.error (f e))
  | .error (.panicked message) => .error (.panicked message)

/- An operation that cannot panic, its error wrapped in the caller's. -/
def raise {φ : Type} (f : ε → φ) : Except ε α → Except (Failure φ) α
  | .ok a => .ok a
  | .error e => .error (.error (f e))

@[simp] theorem mapFailureOk {φ : Type} {f : ε → φ} {x : Except (Failure ε) α} {a : α} :
    mapFailure f x = .ok a ↔ x = .ok a := by
  rcases x with (e | message) | a <;> simp [mapFailure]

@[simp] theorem raiseOk {φ : Type} {f : ε → φ} {x : Except ε α} {a : α} :
    raise f x = .ok a ↔ x = .ok a := by
  cases x <;> simp [raise]

theorem mapErrorOk {φ : Type} {f : ε → φ} {x : Except ε α} {a : α} : x.mapError f = .ok a ↔ x = .ok a := by
  cases x <;> simp [Except.mapError]

@[simp] theorem unwrapOk {message : String} {o : Option α} {a : α} :
    (unwrap message o : Except (Failure ε) α) = .ok a ↔ o = some a := by
  cases o <;> simp [unwrap]

@[simp] theorem toOptionOk {x : Except ε α} {a : α} : x.toOption = some a ↔ x = .ok a := by
  cases x <;> simp [Except.toOption]

theorem bindOk {x : Except ε α} {f : α → Except ε β} {b : β} :
    x >>= f = .ok b ↔ ∃ a, x = .ok a ∧ f a = .ok b := by
  cases x <;> simp [bind,Except.bind]

theorem bindError {x : Except ε α} {f : α → Except ε β} {e : ε} :
    x >>= f = .error e ↔ x = .error e ∨ ∃ a, x = .ok a ∧ f a = .error e := by
  cases x <;> simp [bind,Except.bind]

theorem thenOk {x y : Except ε Unit} : (x >>= fun _ => y) = .ok () ↔ x = .ok () ∧ y = .ok () := by
  cases x <;> simp [bind,Except.bind]

theorem foldInvariant {holds : β → Prop} {step : β → α → Except ε β}
    (preserved : ∀ s a t, holds s → step s a = .ok t → holds t) {xs : List α} {s t : β}
    (start : holds s) (run : xs.foldlM step s = .ok t) : holds t := by
  induction xs generalizing s with
  | nil =>
    cases run
    exact start
  | cons a rest ih =>
    rw [List.foldlM_cons] at run
    obtain ⟨next,first,later⟩ := bindOk.mp run
    exact ih (preserved s a next start first) later

theorem foldPast {holds : List α → β → Prop} {step : β → α → Except ε β}
    (preserved : ∀ past s a t, holds past s → step s a = .ok t → holds (past ++ [a]) t)
    {past xs : List α} {s t : β} (start : holds past s) (run : xs.foldlM step s = .ok t) :
    holds (past ++ xs) t := by
  induction xs generalizing past s with
  | nil =>
    cases run
    rwa [List.append_nil]
  | cons a rest ih =>
    rw [List.foldlM_cons] at run
    obtain ⟨next,first,later⟩ := bindOk.mp run
    have whole := ih (preserved past s a next start first) later
    rwa [List.append_assoc] at whole

theorem foldHistory {holds : List α → β → Prop} {step : β → α → Except ε β}
    (preserved : ∀ past s a t, holds past s → step s a = .ok t → holds (past ++ [a]) t)
    {xs : List α} {s t : β} (start : holds [] s) (run : xs.foldlM step s = .ok t) : holds xs t :=
  foldPast preserved start run

theorem foldTotal (holds : Nat → β → Prop) {step : β → α → Except ε β} {xs : List α}
    (each : ∀ i x s, xs[i]? = some x → holds i s → ∃ t, step s x = .ok t ∧ holds (i + 1) t) {s : β}
    (start : holds 0 s) : ∃ t, xs.foldlM step s = .ok t ∧ holds xs.length t := by
  induction xs generalizing holds s with
  | nil => exact ⟨s,rfl,start⟩
  | cons x rest ih =>
    obtain ⟨next,first,held⟩ := each 0 x s rfl start
    obtain ⟨t,later,last⟩ := ih (fun i => holds (i + 1))
      (fun i y s found held => each (i + 1) y s found held) held
    exact ⟨t,by rw [List.foldlM_cons,first]; exact later,last⟩

theorem foldEach {step : β → α → Except ε β} {xs : List α} {s t : β} (run : xs.foldlM step s = .ok t) :
    ∀ x ∈ xs, ∃ a b, step a x = .ok b := by
  induction xs generalizing s with
  | nil => simp
  | cons x rest ih =>
    rw [List.foldlM_cons] at run
    obtain ⟨next,first,later⟩ := bindOk.mp run
    exact List.forall_mem_cons.mpr ⟨⟨s,next,first⟩,ih later⟩

theorem forMOk {f : α → Except ε Unit} {xs : List α} :
    xs.forM f = .ok () ↔ ∀ x ∈ xs, f x = .ok () := by
  induction xs with
  | nil => simp [pure,Except.pure]
  | cons x xs ih =>
    have step : (x :: xs).forM f = .ok () ↔ f x = .ok () ∧ xs.forM f = .ok () := by
      cases h : f x <;> simp [List.forM,bind,Except.bind,h]
    rw [step,ih,List.forall_mem_cons]

theorem forMError {f : α → Except ε Unit} {xs : List α} {e : ε} (failed : xs.forM f = .error e) :
    ∃ x ∈ xs, f x = .error e := by
  induction xs with
  | nil => cases failed
  | cons x xs ih =>
    have step : (x :: xs).forM f = f x >>= fun _ => xs.forM f := rfl
    rw [step] at failed
    cases first : f x with
    | error other =>
      rw [first] at failed
      cases failed
      exact ⟨x,List.mem_cons_self,first⟩
    | ok _ =>
      rw [first] at failed
      obtain ⟨y,mem,later⟩ := ih failed
      exact ⟨y,List.mem_cons_of_mem _ mem,later⟩

theorem thenError {x y : Except ε Unit} {e : ε} :
    (x >>= fun _ => y) = .error e ↔ x = .error e ∨ x = .ok () ∧ y = .error e := by
  cases x <;> simp [bind,Except.bind]

theorem forMFirst {f : α → Except ε Unit} {xs : List α} {e : ε} : xs.forM f = .error e ↔
    ∃ before x after, xs = before ++ x :: after ∧ (∀ y ∈ before, f y = .ok ()) ∧ f x = .error e := by
  induction xs with
  | nil =>
    constructor
    · intro failed
      cases failed
    · intro given
      obtain ⟨before,x,after,same,_⟩ := given
      exact absurd same.symm (List.append_ne_nil_of_right_ne_nil before (List.cons_ne_nil x after))
  | cons x xs ih =>
    have step : (x :: xs).forM f = f x >>= fun _ => xs.forM f := rfl
    rw [step,thenError,ih]
    constructor
    · intro failed
      rcases failed with here | ⟨first,before,y,after,rfl,passed,failing⟩
      · exact ⟨[],x,xs,rfl,by simp,here⟩
      · exact ⟨x :: before,y,after,rfl,List.forall_mem_cons.mpr ⟨first,passed⟩,failing⟩
    · intro given
      obtain ⟨before,y,after,same,passed,failing⟩ := given
      cases before with
      | nil =>
        obtain ⟨rfl,rfl⟩ := List.cons.inj same
        exact .inl failing
      | cons first before =>
        obtain ⟨rfl,rfl⟩ := List.cons.inj same
        obtain ⟨ok,later⟩ := List.forall_mem_cons.mp passed
        exact .inr ⟨ok,before,y,after,rfl,later,failing⟩

theorem firstWithout (holds : α → Prop) (xs : List α) : (∀ x ∈ xs, holds x) ∨
    ∃ before x after, xs = before ++ x :: after ∧ (∀ y ∈ before, holds y) ∧ ¬ holds x := by
  induction xs with
  | nil => exact .inl (by simp)
  | cons x xs ih =>
    by_cases here : holds x
    · rcases ih with all | ⟨before,y,after,rfl,passed,without⟩
      · exact .inl (List.forall_mem_cons.mpr ⟨here,all⟩)
      · exact .inr ⟨x :: before,y,after,rfl,List.forall_mem_cons.mpr ⟨here,passed⟩,without⟩
    · exact .inr ⟨[],x,xs,rfl,by simp,here⟩

theorem mapMOk {f : α → Except ε β} {xs : List α} {ys : List β} :
    xs.mapM f = .ok ys ↔ List.Forall₂ (fun x y => f x = .ok y) xs ys := by
  induction xs generalizing ys with
  | nil => cases ys <;> simp [pure,Except.pure]
  | cons x xs ih =>
    rw [List.mapM_cons,bindOk]
    constructor
    · intro h
      obtain ⟨y,hy,rest⟩ := h
      obtain ⟨tail,ht,last⟩ := bindOk.mp rest
      cases last
      exact .cons hy (ih.mp ht)
    · intro h
      cases h with
      | cons hy tail => exact ⟨_,hy,bindOk.mpr ⟨_,ih.mpr tail,rfl⟩⟩

theorem mapMFails {f : α → Except ε β} {xs : List α} :
    (∃ e, xs.mapM f = .error e) ↔ ∃ x ∈ xs, ∃ e, f x = .error e := by
  induction xs with
  | nil => simp [pure,Except.pure]
  | cons x xs ih =>
    rw [List.exists_mem_cons_iff,← ih,List.mapM_cons]
    cases f x with
    | error e => simp [bind,Except.bind]
    | ok y => cases xs.mapM f <;> simp [bind,Except.bind,pure,Except.pure]

theorem mapMErrorMem {f : α → Except ε β} {xs : List α} {e : ε} (failed : xs.mapM f = .error e) :
    ∃ x ∈ xs, f x = .error e := by
  induction xs with
  | nil => simp [pure,Except.pure] at failed
  | cons x xs ih =>
    rw [List.mapM_cons] at failed
    rcases bindError.mp failed with first | ⟨y,_,rest⟩
    · exact ⟨x,List.mem_cons_self,first⟩
    · rcases bindError.mp rest with later | ⟨ys,_,last⟩
      · obtain ⟨z,mem,same⟩ := ih later
        exact ⟨z,List.mem_cons_of_mem _ mem,same⟩
      · cases last

theorem mapMTotal {f : α → Except ε β} {xs : List α} (each : ∀ x ∈ xs, ∃ y, f x = .ok y) :
    ∃ ys, xs.mapM f = .ok ys := by
  induction xs with
  | nil => exact ⟨[],rfl⟩
  | cons x xs ih =>
    obtain ⟨y,first⟩ := each x List.mem_cons_self
    obtain ⟨ys,rest⟩ := ih fun z mem => each z (List.mem_cons_of_mem _ mem)
    exact ⟨y :: ys,by rw [List.mapM_cons,first,rest]; rfl⟩

theorem optionMapMTotal {f : α → Except ε β} {o : Option α} (each : ∀ a ∈ o, ∃ b, f a = .ok b) :
    ∃ out, o.mapM f = .ok out := by
  cases o with
  | none => exact ⟨none,rfl⟩
  | some a =>
    obtain ⟨b,step⟩ := each a rfl
    exact ⟨some b,by rw [Option.mapM_some,step]; rfl⟩

theorem optionMapped {γ : Type} {f : α → Except ε β} {g : β → γ} {k : α → γ} {o : Option α}
    {out : Option β} (mapped : o.mapM f = .ok out) (each : ∀ a ∈ o, ∀ b, f a = .ok b → g b = k a) :
    out.map g = o.map k := by
  cases o with
  | none =>
    have empty : Except.ok none = (Except.ok out : Except ε (Option β)) := mapped
    cases empty
    rfl
  | some a =>
    obtain ⟨b,step,last⟩ := bindOk.mp mapped
    have same : Except.ok (some b) = (Except.ok out : Except ε (Option β)) := last
    cases same
    simp [each a rfl b step]

theorem mapMSame {f g : α → Except ε β} {xs : List α} (same : ∀ x ∈ xs, f x = g x) :
    xs.mapM f = xs.mapM g := by
  induction xs with
  | nil => rfl
  | cons x xs ih => rw [List.mapM_cons,List.mapM_cons,same x List.mem_cons_self,
      ih fun z mem => same z (List.mem_cons_of_mem _ mem)]

theorem mapMFlatMap {γ : Type} {f : α → List β} {g : β → Except ε γ} {own : α → β → Except ε γ}
    {xs : List α} (same : ∀ x ∈ xs, ∀ y ∈ f x, g y = own x y) : (xs.flatMap f).mapM g =
      (xs.mapM fun x => (f x).mapM (own x)) >>= fun found => .ok found.flatten := by
  induction xs with
  | nil => rfl
  | cons x xs ih =>
    have first : (f x).mapM g = (f x).mapM (own x) := mapMSame (same x List.mem_cons_self)
    have later := ih fun z mem => same z (List.mem_cons_of_mem _ mem)
    rw [List.flatMap_cons,List.mapM_append,List.mapM_cons,first,later]
    cases (f x).mapM (own x) with
    | error e => rfl
    | ok found => cases xs.mapM fun x => (f x).mapM (own x) <;> rfl

theorem mapMError {φ : Type} {f : α → Except ε β} {wrap : ε → φ} {xs : List α} :
    (xs.mapM fun x => (f x).mapError wrap) = (xs.mapM f).mapError wrap := by
  induction xs with
  | nil => rfl
  | cons x xs ih =>
    rw [List.mapM_cons,List.mapM_cons,ih]
    cases f x with
    | error e => rfl
    | ok y => cases xs.mapM f <;> rfl

theorem forall₂Right {R : α → β → Prop} {xs : List α} {ys : List β} (rel : List.Forall₂ R xs ys)
    {y : β} (mem : y ∈ ys) : ∃ x ∈ xs, R x y := by
  induction rel with
  | nil => simp at mem
  | cons head tail ih =>
    rcases List.mem_cons.mp mem with rfl | inside
    · exact ⟨_,List.mem_cons_self,head⟩
    · obtain ⟨x,member,related⟩ := ih inside
      exact ⟨x,List.mem_cons_of_mem _ member,related⟩

theorem forall₂At {R : α → β → Prop} {xs : List α} {ys : List β} (rel : List.Forall₂ R xs ys)
    {i : Nat} {y : β} (found : ys[i]? = some y) : ∃ x, xs[i]? = some x ∧ R x y := by
  induction rel generalizing i with
  | nil => simp at found
  | cons head tail ih =>
    cases i with
    | zero =>
      cases found
      exact ⟨_,rfl,head⟩
    | succ i => exact ih found

theorem forall₂AtLeft {R : α → β → Prop} {xs : List α} {ys : List β} (rel : List.Forall₂ R xs ys)
    {i : Nat} {x : α} (found : xs[i]? = some x) : ∃ y, ys[i]? = some y ∧ R x y :=
  forall₂At rel.flip found

theorem forall₂Imp {R S : α → β → Prop} {xs : List α} {ys : List β} (rel : List.Forall₂ R xs ys)
    (implies : ∀ x ∈ xs, ∀ y, R x y → S x y) : List.Forall₂ S xs ys :=
  ((List.forall₂_and_left _ _).mpr ⟨implies,rel⟩).imp fun _ _ both => both.1 _ both.2

theorem forall₂Middle {γ : Type} {R : α → β → Prop} {S : β → γ → Prop} {xs : List α} {zs : List γ}
    (rel : List.Forall₂ (fun x z => ∃ y, R x y ∧ S y z) xs zs) :
    ∃ ys, List.Forall₂ R xs ys ∧ List.Forall₂ S ys zs := by
  induction rel with
  | nil => exact ⟨[],.nil,.nil⟩
  | cons head tail ih =>
    obtain ⟨y,left,right⟩ := head
    obtain ⟨ys,lefts,rights⟩ := ih
    exact ⟨y :: ys,.cons left lefts,.cons right rights⟩

theorem forall₂Split {R : α → β → Prop} {xs xs' : List α} {ys : List β} (related : List.Forall₂ R (xs ++ xs') ys) :
    ∃ first later, ys = first ++ later ∧ List.Forall₂ R xs first ∧ List.Forall₂ R xs' later := by
  induction xs generalizing ys with
  | nil => exact ⟨[],ys,rfl,.nil,related⟩
  | cons x xs ih =>
    cases related with
    | @cons _ y _ _ head tail =>
      obtain ⟨first,later,rfl,left,right⟩ := ih tail
      exact ⟨y :: first,later,rfl,.cons head left,right⟩

theorem forall₂Joined {γ : Type} {R : α → β → Prop} {S : β → γ → Prop} {T : α → γ → Prop} {xs : List α}
    {ys : List β} {zs : List γ} (first : List.Forall₂ R xs ys) (second : List.Forall₂ S ys zs)
    (joined : ∀ x y z, R x y → S y z → T x z) : List.Forall₂ T xs zs := by
  induction first generalizing zs with
  | nil =>
    cases second
    exact .nil
  | cons head _ ih =>
    cases second with
    | cons next rest => exact .cons (joined _ _ _ head next) (ih rest)

theorem forall₂Positions {R S : α → β → Prop} {xs : List α} {ys : List β}
    (related : List.Forall₂ R xs ys)
    (each : ∀ (i : Nat) (x : α) (y : β), xs[i]? = some x → ys[i]? = some y → R x y → S x y) : List.Forall₂ S xs ys := by
  induction related with
  | nil => exact .nil
  | cons head _ ih =>
    exact .cons (each 0 _ _ rfl rfl head) (ih fun i x y left right => each (i + 1) x y left right)

def Quiet (x : Except (Failure ε) α) : Prop := ∀ e, x ≠ .error (.error e)

theorem quietOk {a : α} : Quiet (.ok a : Except (Failure ε) α) := fun _ other => by contradiction

theorem quietUnwrap {message : String} {o : Option α} : Quiet (unwrap message o : Except (Failure ε) α) := by
  intro e failed
  cases o with
  | none => simp [unwrap] at failed
  | some a => simp [unwrap] at failed

theorem Quiet.bind {x : Except (Failure ε) α} {f : α → Except (Failure ε) β} (first : Quiet x)
    (later : ∀ a, Quiet (f a)) : Quiet (x >>= f) := by
  intro e failed
  rcases bindError.mp failed with same | ⟨a,_,same⟩
  · exact first e same
  · exact later a e same

theorem quietMapM {f : α → Except (Failure ε) β} {xs : List α} (each : ∀ x, Quiet (f x)) : Quiet (xs.mapM f) := by
  intro e failed
  obtain ⟨x,_,same⟩ := mapMErrorMem failed
  exact each x e same

theorem quietOptionMapM {f : α → Except (Failure ε) β} {o : Option α} (each : ∀ x, Quiet (f x)) :
    Quiet (o.mapM f) := by
  cases o with
  | none => exact quietOk
  | some a => exact (each a).bind fun _ => quietOk

end RootCause.Library
