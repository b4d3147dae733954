import RootCause.FactModel.History
import RootCause.Library.Ascent

/-! Depths in exact arithmetic. The depth of the root is not looked at, so a chain can reach
the greatest depth of the type; the call below it is where the addition overflows. -/
namespace RootCause.FactModel
open Library FactArenaBuilder

def linkedCall (calls : List Call) (c : Call) : Option Call := c.parent.bind fun id => calls[id.index]?

def LinkExact (calls : List Call) (c : Call) : Prop :=
  ∀ id ∈ c.parent, ∃ parent, calls[id.index]? = some parent ∧ id.index < c.id.index ∧
    c.depth.raw.toNat = parent.depth.raw.toNat + 1

def ExactDepths (calls : List Call) : Prop := ∀ c ∈ calls, LinkExact calls c

/- The build never panics, and what it accepts has exact depths, which fall along the links. -/
structure DepthsChecked (builder : FactArenaBuilder) : Prop where
  silent : ∀ message, builder.build .on ≠ .error (.panicked message)
  exact : ∀ checks arena, builder.build checks = .ok arena → ExactDepths arena.calls
  descending : ∀ checks arena, builder.build checks = .ok arena → ∀ c ∈ arena.calls, ∀ a,
    Above (linkedCall arena.calls) c a → a.depth.raw.toNat < c.depth.raw.toNat

def Rooted (calls : List Call) : Prop :=
  ∃ first rest, calls = first :: rest ∧ first.parent = none ∧ ∀ c ∈ rest, c.parent ≠ none

def LinkedToDeepest (calls : List Call) (c : Call) : Prop :=
  ∃ id ∈ c.parent, ∃ parent, calls[id.index]? = some parent ∧ id.index < c.id.index ∧
    parent.depth.raw.toNat = UInt16.size - 1

def ReachesDeepest (calls : List Call) : Prop :=
  Rooted calls ∧ ∃ before c after, calls = before ++ c :: after ∧
    (∀ b ∈ before, LinkExact calls b) ∧ LinkedToDeepest calls c

variable {checks : OverflowChecks} {calls : List Call} {c : Call}

theorem linkExactValid (exact : LinkExact calls c) : validateCall checks calls c = .ok () := by
  refine validateCallOk.mpr fun id link => ?_
  obtain ⟨parent,found,earlier,deeper⟩ := exact id link
  exact ⟨parent,found,earlier,OverflowChecks.succOf deeper⟩

theorem validLinkExact (valid : validateCall checks calls c = .ok ()) :
    LinkExact calls c ∨ LinkedToDeepest calls c := by
  refine or_iff_not_imp_right.mpr fun shallow id link => ?_
  obtain ⟨parent,found,earlier,next⟩ := validateCallOk.mp valid id link
  have small := parent.depth.raw.toNat_lt
  have below : parent.depth.raw.toNat ≠ UInt16.size - 1 := fun deepest =>
    shallow ⟨id,link,parent,found,earlier,deepest⟩
  have room : (parent.depth.raw + 1).toNat = parent.depth.raw.toNat + 1 := by
    rw [UInt16.toNat_add]
    exact Nat.mod_eq_of_lt (by simp only [UInt16.size] at below; simp; omega)
  have same := next.symm.trans (OverflowChecks.succOf room)
  exact ⟨parent,found,earlier,by rw [Option.some.inj same,room]⟩

theorem succNone {depth : UInt16} : OverflowChecks.succ .on depth = none ↔ depth.toNat = UInt16.size - 1 := by
  have small := depth.toNat_lt
  simp only [OverflowChecks.succ,UInt16.size] at small ⊢
  split
  · simp
    omega
  · simp
    omega

theorem callPanics {message : String} : validateCall .on calls c = .error (.panicked message) ↔
    LinkedToDeepest calls c ∧ message = "attempt to add with overflow" := by
  unfold validateCall LinkedToDeepest
  cases c.parent with
  | none => simp
  | some id => cases found : calls[id.index]? with
    | none => simp [found]
    | some parent =>
      by_cases late : id.index ≥ c.id.index
      · simp [found,late,Nat.not_lt.mpr late]
      · cases next : OverflowChecks.succ .on parent.depth.raw with
        | none => simp [found,late,next,Nat.lt_of_not_le late,succNone.mp next,eq_comm]
        | some expected =>
          have shallow : parent.depth.raw.toNat ≠ 65535 := fun deepest => by
            rw [succNone.mpr deepest] at next
            contradiction
          by_cases same : c.depth.raw = expected
          · simp [found,late,next,same,shallow]
          · simp [found,late,next,same,shallow]

theorem treePanics {message : String} : validateCallTree .on calls = .error (.panicked message) ↔
    Rooted calls ∧ calls.forM (validateCall .on calls) = .error (.panicked message) := by
  cases calls with
  | nil => simp [validateCallTree,Rooted]
  | cons first rest =>
    have rooted : Rooted (first :: rest) ↔ first.parent = none ∧ ∀ c ∈ rest, c.parent ≠ none := by
      simp [Rooted]
    rw [rooted]
    simp only [validateCallTree]
    cases root : first.parent with
    | some id => simp [throw,throwThe,MonadExceptOf.throw,bind,Except.bind]
    | none =>
      cases others : rest.find? fun call => call.parent.isNone with
      | some second =>
        constructor
        · intro failed
          cases failed
        · intro given
          rw [noSecondRoot.mpr given.1.2] at others
          contradiction
      | none => exact ⟨fun failed => ⟨⟨rfl,noSecondRoot.mp others⟩,failed⟩,fun given => given.2⟩

theorem buildError {builder : FactArenaBuilder} {e : Failure FactModelError} :
    builder.build checks = .error e ↔ builder.validate checks = .error e := by
  unfold build
  split
  · rename_i valid
    simp [valid]
  · rename_i failed
    simp [failed]

theorem buildPanics {builder : FactArenaBuilder} {message : String} :
    builder.build .on = .error (.panicked message) ↔
      validateCallTree .on builder.calls = .error (.panicked message) := by
  have references {α : Type} {check : α → Except (Failure FactModelError) Unit} {xs : List α}
      (quiet : ∀ x, check x ≠ .error (.panicked message)) : xs.forM check ≠ .error (.panicked message) := by
    intro failed
    obtain ⟨x,_,panicked⟩ := forMError failed
    exact quiet x panicked
  have changes : builder.storageChanges.zipIdx.forM (validateStorageChange builder.calls) ≠
      .error (.panicked message) := references fun entry => by unfold validateStorageChange; split <;> simp
  have logs : builder.logs.zipIdx.forM (validateLog builder.calls) ≠
      .error (.panicked message) := references fun entry => by unfold validateLog; split <;> simp
  have transfers : builder.tokenTransfers.forM (validateTransfer builder.logs) ≠
      .error (.panicked message) := references fun entry => by unfold validateTransfer; split <;> simp
  rw [buildError,validate,thenError,thenError,thenError]
  simp only [changes,logs,transfers,and_false,or_false]

theorem reachesPanics {builder : FactArenaBuilder} :
    (∃ message, builder.build .on = .error (.panicked message)) ↔ ReachesDeepest builder.calls := by
  constructor
  · intro failed
    obtain ⟨message,panicked⟩ := failed
    obtain ⟨rooted,loop⟩ := treePanics.mp (buildPanics.mp panicked)
    obtain ⟨before,c,after,same,passed,failing⟩ := forMFirst.mp loop
    refine ⟨rooted,before,c,after,same,?_,(callPanics.mp failing).1⟩
    intro b mem
    refine (validLinkExact (passed b mem)).resolve_right fun deepest => ?_
    have twice := (passed b mem).symm.trans (callPanics.mpr ⟨deepest,rfl⟩)
    contradiction
  · intro reached
    obtain ⟨rooted,before,c,after,same,passed,deepest⟩ := reached
    refine ⟨"attempt to add with overflow",buildPanics.mpr (treePanics.mpr ⟨rooted,forMFirst.mpr ?_⟩)⟩
    exact ⟨before,c,after,same,fun b mem => linkExactValid (passed b mem),callPanics.mpr ⟨deepest,rfl⟩⟩

theorem acceptedExact {builder : FactArenaBuilder} {arena : FactArena}
    (shallow : ¬ ReachesDeepest builder.calls) (built : builder.build checks = .ok arena) :
    ExactDepths arena.calls := by
  have facts : arena.calls = builder.calls := by rw [FactArena.calls,buildFacts built]
  have valid : builder.validate checks = .ok () := by
    cases outcome : builder.validate checks with
    | ok _ => rfl
    | error e =>
      have failed := built.symm.trans (buildError.mpr outcome)
      contradiction
  obtain ⟨first,rest,same,root,owned,each⟩ := callTreeOk.mp (validateOk.mp valid).1
  rw [facts]
  refine (firstWithout (LinkExact builder.calls) builder.calls).resolve_right fun failing => ?_
  obtain ⟨before,c,after,split,passed,without⟩ := failing
  have mem : c ∈ builder.calls := by simp [split]
  exact shallow ⟨⟨first,rest,same,root,owned⟩,before,c,after,split,passed,
    (validLinkExact (each c mem)).resolve_left without⟩

theorem exactRanked (exact : ExactDepths calls) :
    Ranked (linkedCall calls) (· ∈ calls) fun c => c.depth.raw.toNat := by
  intro c mem parent linked
  obtain ⟨id,link,found⟩ := Option.bind_eq_some_iff.mp linked
  obtain ⟨other,here,_,deeper⟩ := exact c mem id link
  cases Option.some.inj (found.symm.trans here)
  exact ⟨List.mem_of_getElem? found,Nat.lt_of_lt_of_eq (Nat.lt_succ_self _) deeper.symm⟩

theorem depthsChecked (builder : FactArenaBuilder) :
    DepthsChecked builder ↔ ¬ ReachesDeepest builder.calls := by
  constructor
  · intro checked reached
    obtain ⟨message,panicked⟩ := reachesPanics.mpr reached
    exact checked.silent message panicked
  · intro shallow
    refine ⟨fun message panicked => shallow (reachesPanics.mp ⟨message,panicked⟩),
      fun _ _ built => acceptedExact shallow built,fun _ _ built c mem a above => ?_⟩
    exact ((exactRanked (acceptedExact shallow built)).above mem above).2

theorem depthsWrap :
    let calls := [sampleCall 0 none 65535,sampleCall 1 (some 0) 0]
    (FactArenaBuilder.build .on ⟨calls,[],[],[]⟩ = .error (.panicked "attempt to add with overflow")) ∧
    (∃ arena, FactArenaBuilder.build .off ⟨calls,[],[],[]⟩ = .ok arena ∧ ¬ ExactDepths arena.calls) ∧
    ¬ DepthsChecked ⟨calls,[],[],[]⟩ := by
  intro calls
  have panics : FactArenaBuilder.build .on ⟨calls,[],[],[]⟩ =
      .error (.panicked "attempt to add with overflow") := buildError.mpr (by decide)
  have wrapped : FactArenaBuilder.validate .off ⟨calls,[],[],[]⟩ = .ok () := by decide
  obtain ⟨arena,built⟩ := buildOf wrapped
  have facts : arena.calls = calls := by rw [FactArena.calls,buildFacts built]
  refine ⟨panics,⟨arena,built,?_⟩,fun checked => checked.silent _ panics⟩
  rw [facts]
  intro exact
  obtain ⟨parent,_,_,deeper⟩ := exact (sampleCall 1 (some 0) 0) (by simp [calls]) ⟨0⟩ rfl
  exact absurd deeper (Nat.succ_ne_zero _).symm

end RootCause.FactModel
