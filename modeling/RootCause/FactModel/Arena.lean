import Mathlib.Data.List.Nodup
import RootCause.FactModel.Facts
import RootCause.Library.Except

/-! The arena: the builder's validation passes in the order of the source, and
the arena as facts together with the proof that these passes accepted them.
The builder compares a call's parent with the call's own `id`, not with its
position; that the two agree is a separate property of the inputs. -/
namespace RootCause.FactModel
open Library

inductive FactModelError where
  | emptyCallList
  | multipleRootCalls (firstRoot secondRoot : CallId)
  | firstCallIsNotRoot (call : CallId)
  | parentNotYetSeen (call parent : CallId)
  | inconsistentCallDepth (call parent : CallId) (parentDepth actual expected : UInt16)
  | storageChangeReferencesUnknownCall (storageChange : StorageChangeId) (call : CallId)
  | logReferencesUnknownCall (log : LogId) (call : CallId)
  | tokenTransferReferencesUnknownLog (log : LogId)
  deriving DecidableEq, Repr

/- Whether the build keeps overflow checks: an overflowing addition panics with
them and wraps without. -/
inductive OverflowChecks where
  | on
  | off
  deriving DecidableEq, Repr

def OverflowChecks.succ (checks : OverflowChecks) (depth : UInt16) : Option UInt16 :=
  match checks with
  | .on => if depth.toNat + 1 < UInt16.size then some (depth + 1) else none
  | .off => some (depth + 1)

theorem OverflowChecks.succExact {checks : OverflowChecks} {depth next : UInt16}
    (given : checks.succ depth = some next) (positive : next ≠ 0) : next.toNat = depth.toNat + 1 := by
  have same : next = depth + 1 := by
    cases checks with
    | on =>
      simp only [succ] at given
      split at given
      · exact (Option.some.inj given).symm
      · contradiction
    | off => exact (Option.some.inj given).symm
  subst same
  have nonzero : (depth + 1).toNat ≠ 0 := fun zero => positive (UInt16.toNat_inj.mp zero)
  rw [UInt16.toNat_add] at nonzero ⊢
  have small := depth.toNat_lt
  have one : (1 : UInt16).toNat = 1 := rfl
  omega

theorem OverflowChecks.succOf {checks : OverflowChecks} {depth next : UInt16}
    (deeper : next.toNat = depth.toNat + 1) : checks.succ depth = some next := by
  have small : depth.toNat + 1 < UInt16.size := deeper ▸ next.toNat_lt
  have same : depth + 1 = next := by
    apply UInt16.toNat_inj.mp
    rw [UInt16.toNat_add,deeper]
    exact Nat.mod_eq_of_lt small
  cases checks with
  | on => exact (if_pos small).trans (congrArg some same)
  | off => exact congrArg some same

structure FactArenaBuilder where
  calls : List Call
  storageChanges : List StorageChange
  logs : List LogEvent
  tokenTransfers : List TokenTransfer
  deriving DecidableEq, Repr

namespace FactArenaBuilder

def empty : FactArenaBuilder := ⟨[],[],[],[]⟩

variable {ε : Type}

def nextIndex (message : String) (count : Nat) : Except (Failure ε) UInt32 :=
  unwrap message (if count < UInt32.size then some (UInt32.ofNat count) else none)

def nextCallId (builder : FactArenaBuilder) : Except (Failure ε) CallId := do
  let index ← nextIndex ("more than u32::MAX calls in a single trace, which exceeds the EVM's own " ++
    "call-depth/gas limits by many orders of magnitude and indicates a caller bug") builder.calls.length
  pure ⟨index⟩

def addCall (builder : FactArenaBuilder) (call : Call) : FactArenaBuilder × CallId :=
  ({ builder with calls := builder.calls ++ [call] },call.id)

def nextLogId (builder : FactArenaBuilder) : Except (Failure ε) LogId := do
  let index ← nextIndex "more than u32::MAX logs in a single trace" builder.logs.length
  pure ⟨index⟩

def nextStorageChangeId (builder : FactArenaBuilder) : Except (Failure ε) StorageChangeId := do
  let index ← nextIndex "more than u32::MAX storage changes in a single trace"
    builder.storageChanges.length
  pure ⟨index⟩

def nextTokenTransferId (builder : FactArenaBuilder) : Except (Failure ε) TokenTransferId := do
  let index ← nextIndex "more than u32::MAX token transfers in a single trace"
    builder.tokenTransfers.length
  pure ⟨index⟩

def addStorageChange (builder : FactArenaBuilder) (change : StorageChange) :
    Except (Failure ε) (FactArenaBuilder × StorageChangeId) := do
  let id ← builder.nextStorageChangeId
  pure ({ builder with storageChanges := builder.storageChanges ++ [change] },id)

def addLog (builder : FactArenaBuilder) (log : LogEvent) : FactArenaBuilder × LogId :=
  ({ builder with logs := builder.logs ++ [log] },log.id)

def addTokenTransfer (builder : FactArenaBuilder) (transfer : TokenTransfer) :
    Except (Failure ε) (FactArenaBuilder × TokenTransferId) := do
  let id ← builder.nextTokenTransferId
  pure ({ builder with tokenTransfers := builder.tokenTransfers ++ [transfer] },id)

structure Positional (builder : FactArenaBuilder) : Prop where
  calls : ∀ i (c : Call), builder.calls[i]? = some c → c.id.index = i
  logs : ∀ i (l : LogEvent), builder.logs[i]? = some l → l.id.index = i
  storageChanges : builder.storageChanges.length ≤ UInt32.size
  tokenTransfers : builder.tokenTransfers.length ≤ UInt32.size

theorem nextIndexOk {message : String} {count : Nat} {index : UInt32}
    (next : (nextIndex message count : Except (Failure ε) UInt32) = .ok index) :
    count < UInt32.size ∧ index.toNat = count := by
  simp only [nextIndex,unwrapOk] at next
  split at next
  · rename_i small
    cases Option.some.inj next
    exact ⟨small,UInt32.toNat_ofNat_of_lt' small⟩
  · contradiction

theorem everyAppended {α : Type} {xs : List α} {x : α} {holds : Nat → α → Prop} :
    (∀ i y, (xs ++ [x])[i]? = some y → holds i y) ↔
      (∀ i y, xs[i]? = some y → holds i y) ∧ holds xs.length x := by
  constructor
  · intro every
    refine ⟨fun i y found => every i y ?_,every _ x (by simp)⟩
    rw [List.getElem?_append_left (List.getElem?_eq_some_iff.mp found).1,found]
  · intro both i y found
    rw [List.getElem?_append] at found
    split at found
    · exact both.1 i y found
    · obtain ⟨below,rfl⟩ := List.getElem?_eq_some_iff.mp found
      simp only [List.length_singleton] at below
      rw [List.getElem_singleton,show i = xs.length by omega]
      exact both.2

theorem positionalEmpty : empty.Positional :=
  ⟨by simp [empty],by simp [empty],Nat.zero_le _,Nat.zero_le _⟩

theorem addCallPositional {builder : FactArenaBuilder} (positional : builder.Positional) {id : CallId}
    (next : (builder.nextCallId : Except (Failure ε) CallId) = .ok id) {c : Call} (same : c.id = id) :
    (builder.addCall c).1.Positional := by
  obtain ⟨index,given,last⟩ := bindOk.mp next
  cases last
  refine ⟨everyAppended.mpr ⟨positional.calls,?_⟩,positional.logs,positional.storageChanges,
    positional.tokenTransfers⟩
  rw [same]
  exact (nextIndexOk given).2

theorem addLogPositional {builder : FactArenaBuilder} (positional : builder.Positional) {id : LogId}
    (next : (builder.nextLogId : Except (Failure ε) LogId) = .ok id) {l : LogEvent} (same : l.id = id) :
    (builder.addLog l).1.Positional := by
  obtain ⟨index,given,last⟩ := bindOk.mp next
  cases last
  refine ⟨positional.calls,everyAppended.mpr ⟨positional.logs,?_⟩,positional.storageChanges,
    positional.tokenTransfers⟩
  rw [same]
  exact (nextIndexOk given).2

theorem addStorageChangePositional {builder next : FactArenaBuilder} (positional : builder.Positional)
    {id : StorageChangeId} {change : StorageChange}
    (added : (builder.addStorageChange change : Except (Failure ε) _) = .ok (next,id)) :
    next.Positional := by
  obtain ⟨_,handed,last⟩ := bindOk.mp added
  cases last
  obtain ⟨index,given,_⟩ := bindOk.mp handed
  have small := (nextIndexOk given).1
  refine ⟨positional.calls,positional.logs,?_,positional.tokenTransfers⟩
  rw [List.length_append,List.length_singleton]
  exact small

theorem addTokenTransferPositional {builder next : FactArenaBuilder} (positional : builder.Positional)
    {id : TokenTransferId} {transfer : TokenTransfer}
    (added : (builder.addTokenTransfer transfer : Except (Failure ε) _) = .ok (next,id)) :
    next.Positional := by
  obtain ⟨_,handed,last⟩ := bindOk.mp added
  cases last
  obtain ⟨index,given,_⟩ := bindOk.mp handed
  have small := (nextIndexOk given).1
  refine ⟨positional.calls,positional.logs,positional.storageChanges,?_⟩
  rw [List.length_append,List.length_singleton]
  exact small

def validateCall (checks : OverflowChecks) (calls : List Call) (call : Call) :
    Except (Failure FactModelError) Unit :=
  match call.parent with
  | none => .ok ()
  | some parentId =>
    match calls[parentId.index]? with
    | none => .error (.error (.parentNotYetSeen call.id parentId))
    | some parent =>
      if parentId.index ≥ call.id.index then
        .error (.error (.parentNotYetSeen call.id parentId))
      else
        -- `parent.depth.0 + 1` on `u16`.
        match checks.succ parent.depth.raw with
        | none => .error (.panicked "attempt to add with overflow")
        | some expected =>
          if call.depth.raw != expected then
            .error (.error (.inconsistentCallDepth call.id parentId parent.depth.raw
              call.depth.raw expected))
          else .ok ()

def validateCallTree (checks : OverflowChecks) (calls : List Call) :
    Except (Failure FactModelError) Unit :=
  match calls with
  | [] => .error (.error .emptyCallList)
  | first :: rest => do
    if first.parent.isSome then throw (.error (.firstCallIsNotRoot first.id))
    match rest.find? (fun call => call.parent.isNone) with
    | some second => throw (.error (.multipleRootCalls first.id second.id))
    | none => calls.forM (validateCall checks calls)

def validateStorageChange (calls : List Call) (entry : StorageChange × Nat) :
    Except (Failure FactModelError) Unit :=
  if calls[entry.1.callId.index]?.isNone then
    .error (.error (.storageChangeReferencesUnknownCall
      ⟨if entry.2 < UInt32.size then UInt32.ofNat entry.2 else 0⟩ entry.1.callId))
  else .ok ()

def validateLog (calls : List Call) (entry : LogEvent × Nat) :
    Except (Failure FactModelError) Unit :=
  if calls[entry.1.callId.index]?.isNone then
    .error (.error (.logReferencesUnknownCall
      ⟨if entry.2 < UInt32.size then UInt32.ofNat entry.2 else 0⟩ entry.1.callId))
  else .ok ()

def validateTransfer (logs : List LogEvent) (transfer : TokenTransfer) :
    Except (Failure FactModelError) Unit :=
  if logs[transfer.logId.index]?.isNone then
    .error (.error (.tokenTransferReferencesUnknownLog transfer.logId))
  else .ok ()

def validate (checks : OverflowChecks) (builder : FactArenaBuilder) :
    Except (Failure FactModelError) Unit := do
  validateCallTree checks builder.calls
  builder.storageChanges.zipIdx.forM (validateStorageChange builder.calls)
  builder.logs.zipIdx.forM (validateLog builder.calls)
  builder.tokenTransfers.forM (validateTransfer builder.logs)

theorem validateCallOk {checks : OverflowChecks} {calls : List Call} {call : Call} :
    validateCall checks calls call = .ok () ↔ ∀ id ∈ call.parent, ∃ parent,
      calls[id.index]? = some parent ∧ id.index < call.id.index ∧
      checks.succ parent.depth.raw = some call.depth.raw := by
  unfold validateCall
  cases call.parent with
  | none => simp
  | some id => cases found : calls[id.index]? with
    | none => simp [found]
    | some parent =>
      by_cases late : id.index ≥ call.id.index
      · simp [found,late,Nat.not_lt.mpr late]
      · cases next : checks.succ parent.depth.raw with
        | none => simp [found,late,next]
        | some expected => simp [found,late,next,Nat.lt_of_not_le late,eq_comm (a := expected)]

theorem noSecondRoot {rest : List Call} :
    (rest.find? fun call => call.parent.isNone) = none ↔ ∀ c ∈ rest, c.parent ≠ none := by
  simp [List.find?_eq_none]

theorem callTreeOk {checks : OverflowChecks} {calls : List Call} :
    validateCallTree checks calls = .ok () ↔ ∃ first rest, calls = first :: rest ∧
      first.parent = none ∧ (∀ c ∈ rest, c.parent ≠ none) ∧
      ∀ c ∈ calls, validateCall checks calls c = .ok () := by
  cases calls with
  | nil => simp [validateCallTree]
  | cons first rest =>
    simp only [validateCallTree,List.cons.injEq]
    cases root : first.parent with
    | some id => simp [root,throw,throwThe,MonadExceptOf.throw,bind,Except.bind]
    | none =>
      cases others : rest.find? fun call => call.parent.isNone with
      | some second =>
        constructor
        · intro refused
          cases refused
        · intro given
          obtain ⟨_,_,⟨rfl,rfl⟩,_,owned,_⟩ := given
          rw [noSecondRoot.mpr owned] at others
          contradiction
      | none =>
        constructor
        · intro valid
          exact ⟨first,rest,⟨rfl,rfl⟩,root,noSecondRoot.mp others,forMOk.mp valid⟩
        · intro given
          obtain ⟨_,_,⟨rfl,rfl⟩,_,_,valid⟩ := given
          exact forMOk.mpr valid

theorem storageChangeOk {calls : List Call} {entry : StorageChange × Nat} :
    validateStorageChange calls entry = .ok () ↔ calls[entry.1.callId.index]?.isSome := by
  unfold validateStorageChange
  cases calls[entry.1.callId.index]? <;> simp

theorem logOk {calls : List Call} {entry : LogEvent × Nat} :
    validateLog calls entry = .ok () ↔ calls[entry.1.callId.index]?.isSome := by
  unfold validateLog
  cases calls[entry.1.callId.index]? <;> simp

theorem transferOk {logs : List LogEvent} {transfer : TokenTransfer} :
    validateTransfer logs transfer = .ok () ↔ logs[transfer.logId.index]?.isSome := by
  unfold validateTransfer
  cases logs[transfer.logId.index]? <;> simp

theorem validateOk {checks : OverflowChecks} {builder : FactArenaBuilder} :
    builder.validate checks = .ok () ↔ validateCallTree checks builder.calls = .ok () ∧
      (∀ change ∈ builder.storageChanges, builder.calls[change.callId.index]?.isSome) ∧
      (∀ l ∈ builder.logs, builder.calls[l.callId.index]?.isSome) ∧
      ∀ transfer ∈ builder.tokenTransfers, builder.logs[transfer.logId.index]?.isSome := by
  have indexed {α : Type} {xs : List α} (holds : α → Prop) :
      (∀ entry ∈ xs.zipIdx, holds entry.1) ↔ ∀ x ∈ xs, holds x := by
    rw [← List.forall_mem_map (f := Prod.fst),List.zipIdx_map_fst]
  unfold validate
  rw [thenOk,thenOk,thenOk,forMOk,forMOk,forMOk]
  simp only [storageChangeOk,logOk,transferOk]
  rw [indexed fun change : StorageChange => builder.calls[change.callId.index]?.isSome,
    indexed fun l : LogEvent => builder.calls[l.callId.index]?.isSome]

end FactArenaBuilder

theorem idsDistinct {α ι : Type} {xs : List α} {id : α → ι} {index : ι → Nat}
    (placed : ∀ i x, xs[i]? = some x → index (id x) = i) : (xs.map id).Nodup := by
  rw [List.nodup_iff_getElem?_ne_getElem?]
  intro i j less bound same
  rw [List.length_map] at bound
  have earlier := List.getElem?_eq_getElem (Nat.lt_trans less bound)
  have later := List.getElem?_eq_getElem bound
  rw [List.getElem?_map,List.getElem?_map,earlier,later] at same
  have ids : id xs[i] = id xs[j] := Option.some.inj same
  have first := placed i _ earlier
  rw [ids,placed j _ later] at first
  exact Nat.ne_of_gt less first

/- The facts of a builder whose validation succeeded, in either build. -/
structure FactArena where
  facts : FactArenaBuilder
  accepted : ∃ checks, facts.validate checks = .ok ()

def FactArenaBuilder.build (checks : OverflowChecks) (builder : FactArenaBuilder) :
    Except (Failure FactModelError) FactArena :=
  match valid : builder.validate checks with
  | .ok () => .ok ⟨builder,checks,valid⟩
  | .error e => .error e

theorem FactArenaBuilder.buildOf {checks : OverflowChecks} {builder : FactArenaBuilder}
    (valid : builder.validate checks = .ok ()) : ∃ arena, builder.build checks = .ok arena := by
  unfold build
  split
  · exact ⟨_,rfl⟩
  · rename_i failed
    cases failed.symm.trans valid

theorem FactArenaBuilder.buildFacts {checks : OverflowChecks} {builder : FactArenaBuilder}
    {arena : FactArena} (built : builder.build checks = .ok arena) : arena.facts = builder := by
  unfold build at built
  split at built
  · cases built
    rfl
  · contradiction

namespace FactArena

def calls (arena : FactArena) : List Call := arena.facts.calls
def storageChanges (arena : FactArena) : List StorageChange := arena.facts.storageChanges
def logs (arena : FactArena) : List LogEvent := arena.facts.logs
def tokenTransfers (arena : FactArena) : List TokenTransfer := arena.facts.tokenTransfers

def call (arena : FactArena) (id : CallId) : Option Call := arena.calls[id.index]?
def storageChange (arena : FactArena) (id : StorageChangeId) : Option StorageChange :=
  arena.storageChanges[id.index]?
def log (arena : FactArena) (id : LogId) : Option LogEvent := arena.logs[id.index]?
def tokenTransfer (arena : FactArena) (id : TokenTransferId) : Option TokenTransfer :=
  arena.tokenTransfers[id.index]?

def storageChangesWithIds (arena : FactArena) : List (StorageChangeId × StorageChange) :=
  arena.storageChanges.zipIdx.map fun entry => (⟨UInt32.ofNatClamp entry.2⟩,entry.1)

def tokenTransfersWithIds (arena : FactArena) : List (TokenTransferId × TokenTransfer) :=
  arena.tokenTransfers.zipIdx.map fun entry => (⟨UInt32.ofNatClamp entry.2⟩,entry.1)

def childrenOf (arena : FactArena) (parent : CallId) : List Call :=
  arena.calls.filter fun c => c.parent = some parent

def storageChangesForCall (arena : FactArena) (callId : CallId) : List StorageChange :=
  arena.storageChanges.filter fun sc => sc.callId = callId

theorem nonempty (arena : FactArena) : arena.calls ≠ [] := by
  obtain ⟨facts,checks,valid⟩ := arena
  intro empty
  simp only [calls] at empty
  simp [FactArenaBuilder.validate,FactArenaBuilder.validateCallTree,empty,bind,Except.bind] at valid

/- The first call; the validation refuses an empty list. -/
def rootCall (arena : FactArena) : Call := arena.calls.head arena.nonempty

def Positional (arena : FactArena) : Prop := arena.facts.Positional

theorem resolves (arena : FactArena) :
    (∀ change ∈ arena.storageChanges, (arena.call change.callId).isSome) ∧
    (∀ l ∈ arena.logs, (arena.call l.callId).isSome) ∧
    ∀ transfer ∈ arena.tokenTransfers, (arena.log transfer.logId).isSome := by
  obtain ⟨facts,checks,valid⟩ := arena
  exact (FactArenaBuilder.validateOk.mp valid).2

namespace Positional
variable {arena : FactArena}

theorem callAt (positional : arena.Positional) {c : Call} (mem : c ∈ arena.calls) :
    arena.call c.id = some c := by
  obtain ⟨i,at'⟩ := List.mem_iff_getElem?.mp mem
  rw [call,positional.calls i c at',at']

theorem logAt (positional : arena.Positional) {l : LogEvent} (mem : l ∈ arena.logs) :
    arena.log l.id = some l := by
  obtain ⟨i,at'⟩ := List.mem_iff_getElem?.mp mem
  rw [log,positional.logs i l at',at']

theorem enumeratedAt {α : Type} {xs : List α} {x : α} {i : Nat} (few : xs.length ≤ UInt32.size)
    (listed : (x,i) ∈ xs.zipIdx) : xs[(UInt32.ofNatClamp i).toNat]? = some x := by
  have at' := List.mem_zipIdx_iff_getElem?.mp listed
  obtain ⟨below,_⟩ := List.getElem?_eq_some_iff.mp at'
  have small : i < UInt32.size := Nat.lt_of_lt_of_le below few
  rw [UInt32.toNat_ofNatClamp_of_lt small,at']

theorem storageChangeAt (positional : arena.Positional) {id : StorageChangeId} {change : StorageChange}
    (mem : (id,change) ∈ arena.storageChangesWithIds) : arena.storageChange id = some change := by
  obtain ⟨⟨_,i⟩,listed,same⟩ := List.mem_map.mp mem
  cases same
  exact enumeratedAt positional.storageChanges listed

theorem tokenTransferAt (positional : arena.Positional) {id : TokenTransferId} {transfer : TokenTransfer}
    (mem : (id,transfer) ∈ arena.tokenTransfersWithIds) : arena.tokenTransfer id = some transfer := by
  obtain ⟨⟨_,i⟩,listed,same⟩ := List.mem_map.mp mem
  cases same
  exact enumeratedAt positional.tokenTransfers listed

theorem rootAt (positional : arena.Positional) : arena.call arena.rootCall.id = some arena.rootCall ∧
    arena.rootCall.id.index = 0 := by
  obtain ⟨first,rest,same⟩ := List.exists_cons_of_ne_nil arena.nonempty
  have head : arena.rootCall = first := by simp [rootCall,same]
  have at' : arena.calls[0]? = some first := by simp [same]
  rw [head]
  exact ⟨positional.callAt (List.mem_of_getElem? at'),positional.calls 0 first at'⟩

end Positional
end FactArena
end RootCause.FactModel
