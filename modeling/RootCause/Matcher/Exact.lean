import RootCause.Matcher.Ancestors
import RootCause.Matcher.Facts
import RootCause.Matcher.Literals

/-! What each predicate kind asks of a fact, attribute by attribute, and that evaluation
returns exactly the facts that meet it. An attribute that is absent asks nothing; `role`
and `unexpected` ask nothing of the fact model. -/
namespace RootCause.Matcher
open Library FactModel Dsl

/- The name of a call kind in predicates; no call is `Internal`. -/
def kindName : CallKind → String
  | .call => "External"
  | .staticCall => "StaticCall"
  | .delegateCall | .callCode => "Delegate"
  | .create | .create2 => "Create"
  | .selfdestruct => "SelfDestruct"

def statusName : TxStatus → String
  | .success => "Success"
  | .reverted => "Reverted"

def Directed (trace : Trace) (direction : String) (sender : Address) (recipient : Option Address) : Prop :=
  (direction = "In" ∧ recipient = some trace.transaction.sender) ∨
    (direction = "Out" ∧ sender = trace.transaction.sender)

structure CallMeets (trace : Trace) (p : CompiledPredicate) (c : Call) : Prop where
  kind : ∀ k, p.attr "kind" = some (.ident k) → kindName c.kind = k
  reentrant : ∀ want, p.attr "reentrant" = some (.bool want) → (Reentrant trace.arena c ↔ want = true)
  valueFlow : ∀ d, p.attr "value_flow" = some (.ident d) → Directed trace d c.sender c.recipient
  minValue : ∀ m, p.attr "min_value" = some (.int m) → m.toInt ≤ c.value.raw.toNat
  selector : ∀ s, p.attr "selector" = some (.str s) → ∃ sel ∈ c.selector, Denotes s sel.bytes
  succeeded : ∀ want, p.attr "succeeded" = some (.bool want) → c.succeeded = want
  parentKind : ∀ k, p.attr "parent_kind" = some (.ident k) →
    ∃ parent ∈ parentOf trace.arena c, kindName parent.kind = k
  ancestorKind : ∀ k, p.attr "ancestor_kind" = some (.ident k) →
    ∃ a, Ancestor trace.arena c a ∧ kindName a.kind = k

structure StorageMeets (trace : Trace) (p : CompiledPredicate) (change : StorageChange) : Prop where
  changed : ∀ want, p.attr "changed" = some (.bool want) → (change.before ≠ change.after ↔ want = true)
  slot : ∀ s, p.attr "slot" = some (.str s) → Denotes s change.slot.key.raw.bytes
  callKind : ∀ k, p.attr "call_kind" = some (.ident k) →
    ∃ c ∈ trace.arena.call change.callId, kindName c.kind = k

/- A call with a value, as a flow of it. -/
structure FlowMeets (trace : Trace) (p : CompiledPredicate) (c : Call) : Prop where
  nonzero : c.value.raw.toNat ≠ 0
  direction : ∀ d, p.attr "direction" = some (.ident d) → Directed trace d c.sender c.recipient
  min : ∀ m, p.attr "min" = some (.int m) → m.toInt ≤ c.value.raw.toNat
  max : ∀ m, p.attr "max" = some (.int m) → c.value.raw.toNat ≤ m.toInt

structure TransferMeets (trace : Trace) (p : CompiledPredicate) (transfer : TokenTransfer) : Prop where
  direction : ∀ d, p.attr "direction" = some (.ident d) →
    Directed trace d transfer.sender (some transfer.recipient)
  token : ∀ s, p.attr "token" = some (.str s) → Denotes s transfer.token.raw.bytes

structure TransactionMeets (trace : Trace) (p : CompiledPredicate) : Prop where
  status : ∀ s, p.attr "status" = some (.ident s) → statusName trace.transaction.status = s
  gasUsedMin : ∀ m, p.attr "gas_used_min" = some (.int m) →
    m.toInt ≤ trace.transaction.gasUsed.raw.toNat

structure LogMeets (trace : Trace) (p : CompiledPredicate) (log : LogEvent) : Prop where
  topic0 : ∀ s, p.attr "topic0" = some (.str s) → ∃ topic ∈ log.topics.head?, Denotes s topic.raw.bytes
  decoded : ∀ want, p.attr "decoded" = some (.bool want) →
    ((∃ transfer ∈ trace.arena.tokenTransfers, transfer.logId = log.id) ↔ want = true)

/- The facts that a predicate describes; the root call stands for the transaction. -/
def Meets (trace : Trace) (p : CompiledPredicate) (fact : FactRef) : Prop :=
  match p.kind with
  | "call" => ∃ c ∈ trace.arena.calls, CallMeets trace p c ∧ fact = .call c.id
  | "storage" => ∃ id change, trace.arena.storageChange id = some change ∧ StorageMeets trace p change ∧
      fact = .storageChange id
  | "value_flow" => ∃ c ∈ trace.arena.calls, FlowMeets trace p c ∧ fact = .call c.id
  | "token_transfer" => ∃ id transfer, trace.arena.tokenTransfer id = some transfer ∧
      TransferMeets trace p transfer ∧ fact = .tokenTransfer id
  | "transaction" => TransactionMeets trace p ∧ fact = .call trace.arena.rootCall.id
  | "log" => ∃ l ∈ trace.arena.logs, LogMeets trace p l ∧ fact = .log l.id
  | _ => False

section
variable {p : CompiledPredicate} {name : String}

theorem identAll {test : String → Bool} : (ident p name).all test = true ↔
    ∀ k, p.attr name = some (.ident k) → test k = true := by
  unfold ident
  cases p.attr name with
  | none => simp
  | some value => cases value <;> simp

theorem boolAll {test : Bool → Bool} : (boolAttr p name).all test = true ↔
    ∀ want, p.attr name = some (.bool want) → test want = true := by
  unfold boolAttr
  cases p.attr name with
  | none => simp
  | some value => cases value <;> simp

theorem intAll {test : Int64 → Bool} : (intAttr p name).all test = true ↔
    ∀ m, p.attr name = some (.int m) → test m = true := by
  unfold intAttr
  cases p.attr name with
  | none => simp
  | some value => cases value <;> simp

theorem literalAll {α : Type} [DecidableEq α] {parse : String → Option α} {actual : Option α} :
    literalAdmits ((strAttr p name).map parse) actual = true ↔
      ∀ s, p.attr name = some (.str s) → ∃ value ∈ actual, parse s = some value := by
  unfold strAttr
  cases p.attr name with
  | none => simp [literalAdmits]
  | some value =>
    cases value with
    | str s => cases parsed : parse s <;> simp [literalAdmits,parsed,eq_comm]
    | _ => simp [literalAdmits]

theorem kindMatches {kind : CallKind} {k : String} : callKindMatches kind k = true ↔ kindName kind = k := by
  cases kind <;> simp [callKindMatches,kindName,eq_comm]

theorem statusIs {status : TxStatus} {s : String} : statusMatches status s = true ↔ statusName status = s := by
  cases status <;> simp [statusMatches,statusName,eq_comm]

theorem directionAll {trace : Trace} {sender : Address} {recipient : Option Address}
    {inward outward : Bool} (into : inward = true ↔ recipient = some trace.transaction.sender)
    (out : outward = true ↔ sender = trace.transaction.sender) :
    directionAdmits (ident p name) inward outward = true ↔
      ∀ d, p.attr name = some (.ident d) → Directed trace d sender recipient := by
  unfold directionAdmits
  rw [identAll]
  refine forall₂_congr fun d _ => ?_
  rw [Directed,← into,← out]
  split <;> simp_all

theorem clampBounds {amount : Nat} (m : Int64) :
    (m.toInt ≤ clampI128 amount ↔ m.toInt ≤ amount) ∧ (clampI128 amount ≤ m.toInt ↔ amount ≤ m.toInt) := by
  have bound := m.toInt_lt
  have wide : (2 : Int) ^ 63 ≤ i128Max := by decide
  unfold clampI128
  split
  · exact ⟨Iff.rfl,Iff.rfl⟩
  · constructor <;> constructor <;> intro le <;> omega

theorem minAll {amount : Nat} : minAdmits (intAttr p name) amount = true ↔
    ∀ m, p.attr name = some (.int m) → m.toInt ≤ amount := by
  rw [minAdmits,intAll]
  refine forall₂_congr fun m _ => ?_
  simp only [Bool.or_eq_true,decide_eq_true_eq,(clampBounds m).1]
  omega

theorem maxAll {amount : Nat} : maxAdmits (intAttr p name) amount = true ↔
    ∀ m, p.attr name = some (.int m) → amount ≤ m.toInt := by
  rw [maxAdmits,intAll]
  refine forall₂_congr fun m _ => ?_
  simp only [Bool.and_eq_true,decide_eq_true_eq,(clampBounds m).2]
  omega

theorem wordDenoted {s : String} {w : Word} : parseHexWord s = some w ↔ Denotes s w.raw.bytes := by
  obtain ⟨raw⟩ := w
  rw [← parseHexIff,parseHexWord]
  simp

theorem addressDenoted {s : String} {a : Address} : parseAddress s = some a ↔ Denotes s a.raw.bytes := by
  obtain ⟨raw⟩ := a
  rw [← parseHexIff,parseAddress]
  simp

end

section
variable {trace : Trace} {p : CompiledPredicate}

theorem anchorSender {sender : Address} :
    decide (sender = anchor trace) = true ↔ sender = trace.transaction.sender := by
  rw [decide_eq_true_eq,anchor]

theorem anchorRecipient {recipient : Option Address} :
    decide (recipient = some (anchor trace)) = true ↔ recipient = some trace.transaction.sender := by
  rw [decide_eq_true_eq,anchor]

theorem parentKindIff {c : Call} : parentKindAdmits trace (ident p "parent_kind") c.parent = true ↔
    ∀ k, p.attr "parent_kind" = some (.ident k) → ∃ parent ∈ parentOf trace.arena c, kindName parent.kind = k := by
  rw [parentKindAdmits,identAll]
  refine forall₂_congr fun k _ => ?_
  unfold parentOf
  cases c.parent with
  | none => simp
  | some id => simp [Option.any_eq_true,kindMatches]

theorem callAdmitsIff (placed : CallsPlaced trace.arena) {c : Call} (mem : c ∈ trace.arena.calls) :
    callAdmits trace (.build trace) p c = true ↔ CallMeets trace p c := by
  have reentrancy (want : Bool) : ((TraceIndex.build trace).isReentrant c.id == want) = true ↔
      (Reentrant trace.arena c ↔ want = true) := by
    rw [beq_iff_eq,Bool.eq_iff_iff,isReentrantIff placed mem]
  simp only [callAdmits,Bool.and_eq_true,parentKindIff,identAll,boolAll,literalAll,minAll,reentrancy,
    directionAll anchorRecipient anchorSender,kindMatches,hasAncestorIff placed mem,beq_iff_eq,
    parseHexSelector,parseHexIff]
  constructor
  · intro given
    obtain ⟨⟨⟨⟨⟨⟨⟨kind,reentrant⟩,flow⟩,min⟩,selector⟩,succeeded⟩,parent⟩,ancestor⟩ := given
    exact ⟨kind,reentrant,flow,min,selector,succeeded,parent,ancestor⟩
  · intro meets
    obtain ⟨kind,reentrant,flow,min,selector,succeeded,parent,ancestor⟩ := meets
    exact ⟨⟨⟨⟨⟨⟨⟨kind,reentrant⟩,flow⟩,min⟩,selector⟩,succeeded⟩,parent⟩,ancestor⟩

theorem storageAdmitsIff {change : StorageChange} :
    storageAdmits trace p change = true ↔ StorageMeets trace p change := by
  have net (want : Bool) : (change.isNetChange == want) = true ↔
      (change.before ≠ change.after ↔ want = true) := by
    rw [beq_iff_eq,Bool.eq_iff_iff,StorageChange.isNetChange,bne_iff_ne]
  simp only [storageAdmits,Bool.and_eq_true,boolAll,literalAll,identAll,net,wordDenoted,
    Option.any_eq_true,kindMatches,Option.mem_def,Option.some.injEq,exists_eq_left']
  constructor
  · intro given
    obtain ⟨⟨changed,slot⟩,kind⟩ := given
    exact ⟨changed,slot,kind⟩
  · intro meets
    exact ⟨⟨meets.changed,meets.slot⟩,meets.callKind⟩

theorem flowAdmitsIff {c : Call} : (∃ flow ∈ ValueFlow.fromCall c, valueFlowAdmits trace p flow = true) ↔
    FlowMeets trace p c := by
  have zero : c.value = Wei.zero ↔ c.value.raw.toNat = 0 := by
    obtain ⟨raw⟩ := c.value
    rw [Wei.zero,Wei.mk.injEq,← BitVec.toNat_inj]
    rfl
  unfold ValueFlow.fromCall
  by_cases free : c.value = Wei.zero
  · rw [if_pos free]
    exact iff_of_false (by simp) fun meets => meets.nonzero (zero.mp free)
  · rw [if_neg free]
    simp only [Option.mem_def,Option.some.injEq,exists_eq_left',valueFlowAdmits,Bool.and_eq_true,
      directionAll anchorRecipient anchorSender,minAll,maxAll]
    constructor
    · intro given
      obtain ⟨⟨direction,min⟩,max⟩ := given
      exact ⟨fun none => free (zero.mpr none),direction,min,max⟩
    · intro meets
      exact ⟨⟨meets.direction,meets.min⟩,meets.max⟩

theorem flowCall {c : Call} {flow : ValueFlow} (same : ValueFlow.fromCall c = some flow) :
    flow.callId = c.id := by
  unfold ValueFlow.fromCall at same
  split at same
  · contradiction
  · cases same
    rfl

theorem tokenTransferAdmitsIff {transfer : TokenTransfer} :
    tokenTransferAdmits trace p transfer = true ↔ TransferMeets trace p transfer := by
  have into : decide (transfer.recipient = anchor trace) = true ↔
      some transfer.recipient = some trace.transaction.sender := by
    rw [decide_eq_true_eq,anchor,Option.some.injEq]
  simp only [tokenTransferAdmits,Bool.and_eq_true,directionAll into anchorSender,literalAll,addressDenoted,
    Option.mem_def,Option.some.injEq,exists_eq_left']
  exact ⟨fun given => ⟨given.1,given.2⟩,fun meets => ⟨meets.direction,meets.token⟩⟩

theorem transactionAdmitsIff : transactionAdmits trace p = true ↔ TransactionMeets trace p := by
  have gas (m : Int64) : m.toInt ≤ 0 ∨ m.toInt ≤ (trace.transaction.gasUsed.raw.toNat : Int) ↔
      m.toInt ≤ trace.transaction.gasUsed.raw.toNat := by omega
  simp only [transactionAdmits,Bool.and_eq_true,identAll,intAll,statusIs,Bool.or_eq_true,
    decide_eq_true_eq,gas]
  exact ⟨fun given => ⟨given.1,given.2⟩,fun meets => ⟨meets.status,meets.gasUsedMin⟩⟩

theorem logAdmitsIff {l : LogEvent} : logAdmits trace p l = true ↔ LogMeets trace p l := by
  have decoded (want : Bool) :
      ((trace.arena.tokenTransfers.any fun transfer => transfer.logId = l.id) == want) = true ↔
        ((∃ transfer ∈ trace.arena.tokenTransfers, transfer.logId = l.id) ↔ want = true) := by
    rw [beq_iff_eq,Bool.eq_iff_iff]
    simp
  simp only [logAdmits,Bool.and_eq_true,literalAll,boolAll,wordDenoted,decoded]
  exact ⟨fun given => ⟨given.1,given.2⟩,fun meets => ⟨meets.topic0,meets.decoded⟩⟩

theorem clampedDistinct {α : Type} {xs : List α} (few : xs.length ≤ UInt32.size) :
    (xs.zipIdx.map fun entry => UInt32.ofNatClamp entry.2).Nodup := by
  have positions : xs.zipIdx.map (fun entry => UInt32.ofNatClamp entry.2) =
      (List.range xs.length).map UInt32.ofNatClamp := by
    rw [List.range_eq_range',← List.zipIdx_map_snd 0 xs,List.map_map]
    rfl
  rw [positions]
  refine List.Nodup.map_on ?_ List.nodup_range
  intro i hi j hj same
  have small {k : Nat} (mem : k ∈ List.range xs.length) : (UInt32.ofNatClamp k).toNat = k :=
    UInt32.toNat_ofNatClamp_of_lt (Nat.lt_of_lt_of_le (List.mem_range.mp mem) few)
  rw [← small hi,← small hj,same]

theorem storageIdsDistinct (positional : trace.arena.Positional) :
    (trace.arena.storageChangesWithIds.map Prod.fst).Nodup := by
  rw [FactArena.storageChangesWithIds,List.map_map]
  refine List.Nodup.of_map StorageChangeId.raw ?_
  rw [List.map_map]
  exact clampedDistinct positional.storageChanges

theorem transferIdsDistinct (positional : trace.arena.Positional) :
    (trace.arena.tokenTransfersWithIds.map Prod.fst).Nodup := by
  rw [FactArena.tokenTransfersWithIds,List.map_map]
  refine List.Nodup.of_map TokenTransferId.raw ?_
  rw [List.map_map]
  exact clampedDistinct positional.tokenTransfers

theorem logIdsDistinct (positional : trace.arena.Positional) : (trace.arena.logs.map LogEvent.id).Nodup :=
  idsDistinct positional.logs

theorem flowIdsDistinct (positional : trace.arena.Positional) :
    (trace.arena.valueFlows.map ValueFlow.callId).Nodup := by
  rw [List.Nodup,List.pairwise_map,FactArena.valueFlows,List.pairwise_filterMap]
  refine (List.pairwise_map.mp (callIdsDistinct positional.calls)).imp ?_
  intro c d distinct flow first other second same
  rw [flowCall first,flowCall second] at same
  exact distinct same

theorem clampToNat (raw : UInt32) : UInt32.ofNatClamp raw.toNat = raw :=
  UInt32.toNat_inj.mp (UInt32.toNat_ofNatClamp_of_lt raw.toNat_lt)

theorem storageListed (positional : trace.arena.Positional) {id : StorageChangeId} {change : StorageChange} :
    (id,change) ∈ trace.arena.storageChangesWithIds ↔ trace.arena.storageChange id = some change := by
  refine ⟨positional.storageChangeAt,fun found => ?_⟩
  refine List.mem_map.mpr ⟨(change,id.index),List.mem_zipIdx_iff_getElem?.mpr found,?_⟩
  exact congrArg (fun raw => (StorageChangeId.mk raw,change)) (clampToNat id.raw)

theorem transferListed (positional : trace.arena.Positional) {id : TokenTransferId}
    {transfer : TokenTransfer} :
    (id,transfer) ∈ trace.arena.tokenTransfersWithIds ↔ trace.arena.tokenTransfer id = some transfer := by
  refine ⟨positional.tokenTransferAt,fun found => ?_⟩
  refine List.mem_map.mpr ⟨(transfer,id.index),List.mem_zipIdx_iff_getElem?.mpr found,?_⟩
  exact congrArg (fun raw => (TokenTransferId.mk raw,transfer)) (clampToNat id.raw)

theorem memCallFacts (placed : CallsPlaced trace.arena) {fact : FactRef} :
    fact ∈ (evaluateCall trace (.build trace) p).map Binding.fact ↔
      ∃ c ∈ trace.arena.calls, CallMeets trace p c ∧ fact = .call c.id := by
  simp only [evaluateCall,List.map_map,List.mem_map,List.mem_filter,Function.comp_apply]
  constructor
  · intro given
    obtain ⟨c,⟨mem,admitted⟩,rfl⟩ := given
    exact ⟨c,mem,(callAdmitsIff placed mem).mp admitted,rfl⟩
  · intro given
    obtain ⟨c,mem,meets,rfl⟩ := given
    exact ⟨c,⟨mem,(callAdmitsIff placed mem).mpr meets⟩,rfl⟩

theorem memStorageFacts (positional : trace.arena.Positional) {fact : FactRef} :
    fact ∈ (evaluateStorage trace p).map Binding.fact ↔
      ∃ id change, trace.arena.storageChange id = some change ∧ StorageMeets trace p change ∧
        fact = .storageChange id := by
  simp only [evaluateStorage,List.map_map,List.mem_map,List.mem_filter,Function.comp_apply,storageAdmitsIff,
    Prod.exists,storageListed positional]
  constructor
  · intro given
    obtain ⟨id,change,⟨found,meets⟩,rfl⟩ := given
    exact ⟨id,change,found,meets,rfl⟩
  · intro given
    obtain ⟨id,change,found,meets,rfl⟩ := given
    exact ⟨id,change,⟨found,meets⟩,rfl⟩

theorem memFlowFacts {fact : FactRef} : fact ∈ (evaluateValueFlow trace p).map Binding.fact ↔
    ∃ c ∈ trace.arena.calls, FlowMeets trace p c ∧ fact = .call c.id := by
  simp only [evaluateValueFlow,FactArena.valueFlows,List.map_map,List.mem_map,List.mem_filter,
    List.mem_filterMap,Function.comp_apply,← flowAdmitsIff]
  constructor
  · intro given
    obtain ⟨flow,⟨⟨c,mem,same⟩,admitted⟩,rfl⟩ := given
    exact ⟨c,mem,⟨flow,same,admitted⟩,by rw [flowCall same]⟩
  · intro given
    obtain ⟨c,mem,⟨flow,same,admitted⟩,rfl⟩ := given
    exact ⟨flow,⟨⟨c,mem,same⟩,admitted⟩,by rw [flowCall same]⟩

theorem memTransferFacts (positional : trace.arena.Positional) {fact : FactRef} :
    fact ∈ (evaluateTokenTransfer trace p).map Binding.fact ↔
      ∃ id transfer, trace.arena.tokenTransfer id = some transfer ∧ TransferMeets trace p transfer ∧
        fact = .tokenTransfer id := by
  simp only [evaluateTokenTransfer,List.map_map,List.mem_map,List.mem_filter,Function.comp_apply,
    tokenTransferAdmitsIff,Prod.exists,transferListed positional]
  constructor
  · intro given
    obtain ⟨id,transfer,⟨found,meets⟩,rfl⟩ := given
    exact ⟨id,transfer,found,meets,rfl⟩
  · intro given
    obtain ⟨id,transfer,found,meets,rfl⟩ := given
    exact ⟨id,transfer,⟨found,meets⟩,rfl⟩

theorem memTransactionFacts {fact : FactRef} : fact ∈ (evaluateTransaction trace p).map Binding.fact ↔
    TransactionMeets trace p ∧ fact = .call trace.arena.rootCall.id := by
  simp only [evaluateTransaction,← transactionAdmitsIff]
  split
  · rename_i admitted
    simp [admitted]
  · rename_i refused
    simp [refused]

theorem memLogFacts {fact : FactRef} : fact ∈ (evaluateLog trace p).map Binding.fact ↔
    ∃ l ∈ trace.arena.logs, LogMeets trace p l ∧ fact = .log l.id := by
  simp only [evaluateLog,List.map_map,List.mem_map,List.mem_filter,Function.comp_apply,logAdmitsIff]
  constructor
  · intro given
    obtain ⟨l,⟨mem,meets⟩,rfl⟩ := given
    exact ⟨l,mem,meets,rfl⟩
  · intro given
    obtain ⟨l,mem,meets,rfl⟩ := given
    exact ⟨l,⟨mem,meets⟩,rfl⟩

theorem memFacts (positional : trace.arena.Positional) {fact : FactRef} :
    fact ∈ (collectBindings trace (.build trace) p).map Binding.fact ↔ Meets trace p fact := by
  unfold collectBindings
  split
  · rename_i kind
    simpa only [Meets,kind] using memCallFacts positional.calls
  · rename_i kind
    simpa only [Meets,kind] using memStorageFacts positional
  · rename_i kind
    simpa only [Meets,kind] using memFlowFacts
  · rename_i kind
    simpa only [Meets,kind] using memTransferFacts positional
  · rename_i kind
    simpa only [Meets,kind] using memTransactionFacts
  · rename_i kind
    simpa only [Meets,kind] using memLogFacts
  · rename_i other
    unfold Meets
    split
    all_goals simp_all

theorem factsDistinct (positional : trace.arena.Positional) {index : TraceIndex} :
    ((collectBindings trace index p).map Binding.fact).Nodup := by
  have kept {α ι : Type} {xs : List α} {id : α → ι} (distinct : (xs.map id).Nodup)
      {test : α → Bool} {fact : ι → FactRef} (inj : Function.Injective fact) :
      ((xs.filter test).map fun x => fact (id x)).Nodup := by
    have filtered : ((xs.filter test).map id).Nodup := distinct.sublist (List.filter_sublist.map id)
    have facts := filtered.map inj
    rwa [List.map_map] at facts
  unfold collectBindings
  split
  · rw [evaluateCall,List.map_map]
    exact kept (callIdsDistinct positional.calls) fun _ _ same => FactRef.call.inj same
  · rw [evaluateStorage,List.map_map]
    exact kept (storageIdsDistinct positional) fun _ _ same => FactRef.storageChange.inj same
  · rw [evaluateValueFlow,List.map_map]
    exact kept (flowIdsDistinct positional) fun _ _ same => FactRef.call.inj same
  · rw [evaluateTokenTransfer,List.map_map]
    exact kept (transferIdsDistinct positional) fun _ _ same => FactRef.tokenTransfer.inj same
  · unfold evaluateTransaction
    split <;> simp
  · rw [evaluateLog,List.map_map]
    exact kept (logIdsDistinct positional) fun _ _ same => FactRef.log.inj same
  · exact .nil

theorem evaluatePerm {index : TraceIndex} :
    (evaluate trace index p).Perm (collectBindings trace index p) := List.perm_insertionSort _ _

theorem evaluateDistinct (positional : trace.arena.Positional) {index : TraceIndex} :
    ((evaluate trace index p).map Binding.fact).Nodup :=
  (evaluatePerm.map Binding.fact).nodup_iff.mpr (factsDistinct positional)

end

theorem evaluateExact (trace : Trace) (positional : trace.arena.Positional) (p : CompiledPredicate) :
    (∀ fact, fact ∈ (evaluate trace (.build trace) p).map Binding.fact ↔ Meets trace p fact) ∧
    ((evaluate trace (.build trace) p).map Binding.fact).Nodup ∧
    (evaluate trace (.build trace) p).Pairwise (fun a b => keyLe a.order b.order = true) ∧
    ∀ b ∈ evaluate trace (.build trace) p,
      b.order = if p.kind = "transaction" then none else orderKey trace b.fact := by
  refine ⟨?_,evaluateDistinct positional,evaluateSorted,?_⟩
  · intro fact
    rw [(evaluatePerm.map Binding.fact).mem_iff]
    exact memFacts positional
  · intro b mem
    have key := (evaluateKey positional mem).1
    split
    · rename_i kind
      exact transactionUnordered kind mem
    · rename_i other
      rw [key,factKey,if_neg other]

theorem writingPositional : writingTrace.arena.Positional := by
  refine ⟨?_,by simp [writingTrace,exampleTrace],by decide,by decide⟩
  intro i c found
  rcases i with _ | _ | _ | i
  · cases found
    rfl
  · cases found
    rfl
  · cases found
    rfl
  · simp [writingTrace,exampleTrace] at found

def staticWrites : CompiledPredicate := ⟨"storage",[⟨"changed",.bool true⟩,⟨"call_kind",.ident "StaticCall"⟩]⟩

theorem evaluateExactWriting : Meets writingTrace staticWrites (.storageChange ⟨0⟩) ∧
    ¬ Meets writingTrace staticWrites (.storageChange ⟨1⟩) := by
  have facts : (evaluate writingTrace (.build writingTrace) staticWrites).map Binding.fact =
      [.storageChange ⟨0⟩] := by decide +kernel
  obtain ⟨mem,_⟩ := evaluateExact writingTrace writingPositional staticWrites
  rw [facts] at mem
  exact ⟨(mem _).mp (by decide),fun meets => absurd ((mem _).mpr meets) (by decide)⟩

end RootCause.Matcher
