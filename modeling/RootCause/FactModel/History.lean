import RootCause.FactModel.Arena

/-! Build histories: any sequence of builder operations, with whatever ids, parents and
depths the caller wrote. The arena keeps its documented invariants exactly when the
caller wrote the ids that the builder hands out and gave depth zero to the root alone. -/
namespace RootCause.FactModel
open Library

inductive BuilderOp where
  | addCall (call : Call)
  | addStorageChange (change : StorageChange)
  | addLog (log : LogEvent)
  | addTokenTransfer (transfer : TokenTransfer)
  deriving DecidableEq, Repr

namespace BuilderOp

def apply (builder : FactArenaBuilder) : BuilderOp → Except (Failure FactModelError) FactArenaBuilder
  | .addCall call => .ok (builder.addCall call).1
  | .addLog log => .ok (builder.addLog log).1
  | .addStorageChange change => do
    let (next,_) ← builder.addStorageChange change
    pure next
  | .addTokenTransfer transfer => do
    let (next,_) ← builder.addTokenTransfer transfer
    pure next

/- The operation carries the id that the builder hands out next, and its call has depth
zero when it is the first one and only then. -/
def TakesNext (builder : FactArenaBuilder) : BuilderOp → Prop
  | .addCall call => (builder.nextCallId : Except (Failure FactModelError) _) = .ok call.id ∧
      (call.depth.raw = 0 ↔ builder.calls = [])
  | .addLog log => (builder.nextLogId : Except (Failure FactModelError) _) = .ok log.id
  | .addStorageChange _ | .addTokenTransfer _ => True

end BuilderOp

def history (ops : List BuilderOp) : Except (Failure FactModelError) FactArenaBuilder :=
  ops.foldlM BuilderOp.apply .empty

def buildHistory (checks : OverflowChecks) (ops : List BuilderOp) :
    Except (Failure FactModelError) FactArena := do
  let builder ← history ops
  builder.build checks

inductive Obeys : FactArenaBuilder → List BuilderOp → Prop where
  | nil (builder) : Obeys builder []
  | cons {builder op next rest} (takes : op.TakesNext builder) (applied : op.apply builder = .ok next)
      (later : Obeys next rest) : Obeys builder (op :: rest)

/- The invariants that the arena documents. -/
structure FactArena.Documented (arena : FactArena) : Prop where
  nonempty : arena.calls ≠ []
  root : ∀ i (c : Call), arena.calls[i]? = some c → (c.parent = none ↔ i = 0)
  rootDepth : ∀ (c : Call), arena.calls[0]? = some c → c.depth.raw = 0
  callIds : ∀ i (c : Call), arena.calls[i]? = some c → c.id.index = i
  logIds : ∀ i (l : LogEvent), arena.logs[i]? = some l → l.id.index = i
  parents : ∀ i (c : Call), arena.calls[i]? = some c → ∀ id ∈ c.parent, id.index < i ∧
    ∃ parent, arena.call id = some parent ∧ c.depth.raw.toNat = parent.depth.raw.toNat + 1
  storageChanges : ∀ change ∈ arena.storageChanges, (arena.call change.callId).isSome
  logs : ∀ l ∈ arena.logs, (arena.call l.callId).isSome
  tokenTransfers : ∀ transfer ∈ arena.tokenTransfers, (arena.log transfer.logId).isSome

namespace FactArenaBuilder

structure Placed (builder : FactArenaBuilder) : Prop where
  calls : ∀ i (c : Call), builder.calls[i]? = some c → c.id.index = i ∧ (c.depth.raw = 0 ↔ i = 0)
  logs : ∀ i (l : LogEvent), builder.logs[i]? = some l → l.id.index = i

theorem placedEmpty : empty.Placed := ⟨by simp [empty],by simp [empty]⟩

variable {ε : Type} {builder next final : FactArenaBuilder}

theorem nextIndexIs {message : String} {count : Nat} {index : UInt32} :
    (nextIndex message count : Except (Failure ε) UInt32) = .ok index ↔ index.toNat = count := by
  constructor
  · exact fun next => (nextIndexOk next).2
  · intro same
    have small : count < UInt32.size := same ▸ index.toNat_lt
    rw [nextIndex,if_pos small,unwrapOk,← same,UInt32.ofNat_toNat]

theorem nextCallIdIs {id : CallId} : (builder.nextCallId : Except (Failure ε) CallId) = .ok id ↔
    id.index = builder.calls.length := by
  rw [nextCallId,bindOk]
  constructor
  · intro given
    obtain ⟨index,handed,last⟩ := given
    cases last
    exact nextIndexIs.mp handed
  · intro same
    exact ⟨id.raw,nextIndexIs.mpr same,rfl⟩

theorem nextLogIdIs {id : LogId} : (builder.nextLogId : Except (Failure ε) LogId) = .ok id ↔
    id.index = builder.logs.length := by
  rw [nextLogId,bindOk]
  constructor
  · intro given
    obtain ⟨index,handed,last⟩ := given
    cases last
    exact nextIndexIs.mp handed
  · intro same
    exact ⟨id.raw,nextIndexIs.mpr same,rfl⟩

theorem applied {op : BuilderOp} (step : op.apply builder = .ok next) :
    (∃ call, op = .addCall call ∧ next.calls = builder.calls ++ [call] ∧ next.logs = builder.logs) ∨
    (∃ log, op = .addLog log ∧ next.calls = builder.calls ∧ next.logs = builder.logs ++ [log]) ∨
    ((∀ call, op ≠ .addCall call) ∧ (∀ log, op ≠ .addLog log) ∧ next.calls = builder.calls ∧
      next.logs = builder.logs) := by
  cases op with
  | addCall call =>
    cases step
    exact .inl ⟨call,rfl,rfl,rfl⟩
  | addLog log =>
    cases step
    exact .inr (.inl ⟨log,rfl,rfl,rfl⟩)
  | addStorageChange change =>
    obtain ⟨⟨grown,_⟩,added,last⟩ := bindOk.mp step
    cases last
    obtain ⟨_,_,last⟩ := bindOk.mp added
    cases last
    exact .inr (.inr ⟨by simp,by simp,rfl,rfl⟩)
  | addTokenTransfer transfer =>
    obtain ⟨⟨grown,_⟩,added,last⟩ := bindOk.mp step
    cases last
    obtain ⟨_,_,last⟩ := bindOk.mp added
    cases last
    exact .inr (.inr ⟨by simp,by simp,rfl,rfl⟩)

def Extends (builder next : FactArenaBuilder) : Prop :=
  builder.calls <+: next.calls ∧ builder.logs <+: next.logs

theorem appliedExtends {op : BuilderOp} (step : op.apply builder = .ok next) : Extends builder next := by
  unfold Extends
  rcases applied step with ⟨call,_,calls,logs⟩ | ⟨log,_,calls,logs⟩ | ⟨_,_,calls,logs⟩ <;>
    simp [calls,logs]

theorem historyExtends {ops : List BuilderOp} (run : ops.foldlM BuilderOp.apply builder = .ok final) :
    Extends builder final := by
  refine foldInvariant ?_ ⟨List.prefix_refl _,List.prefix_refl _⟩ run
  intro now op after grown step
  obtain ⟨calls,logs⟩ := appliedExtends step
  exact ⟨grown.1.trans calls,grown.2.trans logs⟩

theorem Placed.earlier (placed : next.Placed) (extended : Extends builder next) : builder.Placed := by
  obtain ⟨⟨moreCalls,calls⟩,moreLogs,logs⟩ := extended
  constructor
  · intro i c found
    refine placed.calls i c ?_
    rw [← calls,List.getElem?_append_left (List.getElem?_eq_some_iff.mp found).1,found]
  · intro i l found
    refine placed.logs i l ?_
    rw [← logs,List.getElem?_append_left (List.getElem?_eq_some_iff.mp found).1,found]

theorem appliedPlaced {op : BuilderOp} (placed : builder.Placed) (step : op.apply builder = .ok next) :
    next.Placed ↔ op.TakesNext builder := by
  have first (call : Call) : (call.depth.raw = 0 ↔ builder.calls.length = 0) ↔
      (call.depth.raw = 0 ↔ builder.calls = []) := by rw [List.length_eq_zero_iff]
  rcases applied step with ⟨call,rfl,calls,logs⟩ | ⟨log,rfl,calls,logs⟩ | ⟨noCall,noLog,calls,logs⟩
  · rw [BuilderOp.TakesNext,nextCallIdIs,← first call]
    constructor
    · intro after
      have every := after.calls
      rw [calls,everyAppended] at every
      exact every.2
    · intro takes
      refine ⟨?_,by rw [logs]; exact placed.logs⟩
      rw [calls,everyAppended]
      exact ⟨placed.calls,takes⟩
  · rw [BuilderOp.TakesNext,nextLogIdIs]
    constructor
    · intro after
      have every := after.logs
      rw [logs,everyAppended] at every
      exact every.2
    · intro takes
      refine ⟨by rw [calls]; exact placed.calls,?_⟩
      rw [logs,everyAppended]
      exact ⟨placed.logs,takes⟩
  · have takes : op.TakesNext builder := by
      cases op with
      | addCall call => exact absurd rfl (noCall call)
      | addLog log => exact absurd rfl (noLog log)
      | addStorageChange _ => trivial
      | addTokenTransfer _ => trivial
    exact iff_of_true ⟨by rw [calls]; exact placed.calls,by rw [logs]; exact placed.logs⟩ takes

theorem historyPlaced {ops : List BuilderOp} (placed : builder.Placed)
    (run : ops.foldlM BuilderOp.apply builder = .ok final) : final.Placed ↔ Obeys builder ops := by
  induction ops generalizing builder with
  | nil =>
    cases run
    exact iff_of_true placed (.nil _)
  | cons op rest ih =>
    rw [List.foldlM_cons] at run
    obtain ⟨next,step,later⟩ := bindOk.mp run
    constructor
    · intro last
      have middle := last.earlier (historyExtends later)
      exact .cons ((appliedPlaced placed step).mp middle) step ((ih middle later).mp last)
    · intro obeys
      cases obeys with
      | cons takes same obeyed =>
        cases step.symm.trans same
        exact (ih ((appliedPlaced placed step).mpr takes) later).mpr obeyed

end FactArenaBuilder

namespace FactArena
variable {checks : OverflowChecks} {builder : FactArenaBuilder} {arena : FactArena}

theorem documentedPlaced (documented : arena.Documented) : arena.facts.Placed := by
  refine ⟨fun i c found => ⟨documented.callIds i c found,?_⟩,documented.logIds⟩
  constructor
  · intro zero
    refine (documented.root i c found).mp ?_
    cases owned : c.parent with
    | none => rfl
    | some id =>
      obtain ⟨_,parent,_,deeper⟩ := documented.parents i c found id owned
      rw [zero] at deeper
      cases deeper
  · intro first
    subst first
    exact documented.rootDepth c found

theorem placedDocumented (valid : arena.facts.validate checks = .ok ()) (placed : arena.facts.Placed) :
    arena.Documented := by
  obtain ⟨tree,storageChanges,logs,tokenTransfers⟩ := FactArenaBuilder.validateOk.mp valid
  obtain ⟨first,rest,shape,root,owned,each⟩ := FactArenaBuilder.callTreeOk.mp tree
  have free : ∀ i (c : Call), arena.calls[i]? = some c → (c.parent = none ↔ i = 0) := by
    intro i c found
    rw [calls,shape] at found
    cases i with
    | zero =>
      cases found
      exact iff_of_true root rfl
    | succ i => exact iff_of_false (owned c (List.mem_of_getElem? found)) (Nat.succ_ne_zero i)
  refine ⟨arena.nonempty,free,?_,?_,placed.logs,?_,storageChanges,logs,tokenTransfers⟩
  · intro c found
    exact (placed.calls 0 c found).2.mpr rfl
  · intro i c found
    exact (placed.calls i c found).1
  · intro i c found id parent
    obtain ⟨above,given,earlier,deeper⟩ :=
      FactArenaBuilder.validateCallOk.mp (each c (List.mem_of_getElem? found)) id parent
    have positive : c.depth.raw ≠ 0 := by
      intro zero
      have top := (placed.calls i c found).2.mp zero
      rw [(free i c found).mpr top] at parent
      cases parent
    rw [(placed.calls i c found).1] at earlier
    exact ⟨earlier,above,given,checks.succExact deeper positive⟩

theorem documentedIff {ops : List BuilderOp} (built : buildHistory checks ops = .ok arena) :
    arena.Documented ↔ Obeys .empty ops := by
  obtain ⟨builder,run,made⟩ := bindOk.mp built
  rw [← FactArenaBuilder.historyPlaced FactArenaBuilder.placedEmpty run,
    ← FactArenaBuilder.buildFacts made]
  have valid : arena.facts.validate checks = .ok () := by
    rw [FactArenaBuilder.buildFacts made]
    unfold FactArenaBuilder.build at made
    split at made
    · assumption
    · contradiction
  exact ⟨documentedPlaced,placedDocumented valid⟩

end FactArena

def sampleCall (id : UInt32) (parent : Option UInt32) (depth : UInt16) : Call :=
  let address : Address := ⟨.replicate 20 1⟩
  ⟨⟨id⟩,parent.map CallId.mk,.call,⟨depth⟩,address,some address,Wei.zero,⟨0⟩,⟨0⟩,true,none⟩

def sampleLog (id callId : UInt32) : LogEvent := ⟨⟨id⟩,⟨callId⟩,⟨.replicate 20 1⟩,[],[],⟨0⟩⟩

theorem historyBuilt (ops : List BuilderOp)
    (accepted : (history ops >>= fun builder => builder.validate .on) = .ok ()) :
    ∃ arena, buildHistory .on ops = .ok arena ∧ history ops = .ok arena.facts := by
  obtain ⟨builder,run,valid⟩ := bindOk.mp accepted
  obtain ⟨arena,made⟩ := FactArenaBuilder.buildOf valid
  have facts := FactArenaBuilder.buildFacts made
  exact ⟨arena,bindOk.mpr ⟨builder,run,made⟩,facts ▸ run⟩

theorem documentedNested : ∃ arena, buildHistory .on [.addCall (sampleCall 0 none 0),
      .addLog (sampleLog 0 0),.addCall (sampleCall 1 (some 0) 1)] = .ok arena ∧
    (arena.Documented ↔ Obeys .empty [.addCall (sampleCall 0 none 0),.addLog (sampleLog 0 0),
      .addCall (sampleCall 1 (some 0) 1)]) := by
  obtain ⟨arena,built,_⟩ := historyBuilt [.addCall (sampleCall 0 none 0),
    .addLog (sampleLog 0 0),.addCall (sampleCall 1 (some 0) 1)] (by decide)
  exact ⟨arena,built,FactArena.documentedIff built⟩

/- A single call with another call's id and depth five is accepted as a trace. -/
theorem misplacedBuilt : ∃ arena, buildHistory .on [.addCall (sampleCall 7 none 5)] = .ok arena ∧
    arena.calls = [sampleCall 7 none 5] ∧ ¬ arena.Documented := by
  obtain ⟨arena,built,run⟩ := historyBuilt [.addCall (sampleCall 7 none 5)] (by decide)
  have calls : arena.calls = [sampleCall 7 none 5] := by
    have facts : ⟨[sampleCall 7 none 5],[],[],[]⟩ = arena.facts := Except.ok.inj run
    rw [FactArena.calls,← facts]
  refine ⟨arena,built,calls,fun documented => ?_⟩
  have zero := documented.callIds 0 (sampleCall 7 none 5) (by simp [calls])
  cases zero

end RootCause.FactModel
