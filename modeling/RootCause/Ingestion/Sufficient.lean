import RootCause.Ingestion.Walk

/-! What the fact model accepts of a normalized trace. Normalization establishes every
condition of the arena; the one rule that it leaves to the constructors is that a static
call carries no value. -/
namespace RootCause.Ingestion
open Library FactModel

def staticTransfer (raw : RawFrame) : Bool :=
  raw.kind.toLower = "staticcall" &&
    match parseHexU128 "call.value" raw.value with
    | .ok value => value != 0
    | .error _ => false

def Carries (call : NormalizedCall) : Prop := call.kind.canCarryValue = true ∨ call.value = Wei.zero

theorem kindStatic {path raw : String} {kind : CallKind} (parsed : parseCallKind path raw = .ok kind) :
    kind = .staticCall ↔ raw.toLower = "staticcall" := by
  unfold parseCallKind at parsed
  split at parsed <;> cases parsed <;> simp_all

theorem frameCarries {item : Pending} {raw : RawFrame} {call : NormalizedCall}
    (parsed : parseFrame item raw = .ok call) : Carries call ↔ staticTransfer raw = false := by
  unfold parseFrame at parsed
  obtain ⟨kind,named,rest⟩ := bindOk.mp parsed
  obtain ⟨_,_,rest⟩ := bindOk.mp rest
  obtain ⟨_,_,rest⟩ := bindOk.mp rest
  obtain ⟨value,amount,rest⟩ := bindOk.mp rest
  obtain ⟨_,_,rest⟩ := bindOk.mp rest
  obtain ⟨_,_,rest⟩ := bindOk.mp rest
  obtain ⟨_,_,rest⟩ := bindOk.mp rest
  cases rest
  have static := kindStatic named
  simp only [Carries,staticTransfer,amount,CallKind.canCarryValue,Wei.zero,Wei.mk.injEq,bne_iff_ne,ne_eq,
    Bool.and_eq_false_iff,decide_eq_false_iff_not,bne_eq_false_iff_eq,static]

section
variable {ε : Type} {xs : List NormalizedCall}

def callIdAt (i : Nat) : CallId := ⟨UInt32.ofNat i⟩
def logIdAt (i : Nat) : LogId := ⟨UInt32.ofNat i⟩

theorem callIdIndex {i : Nat} (small : i < UInt32.size) : (callIdAt i).index = i :=
  UInt32.toNat_ofNat_of_lt' small

theorem logIdIndex {i : Nat} (small : i < UInt32.size) : (logIdAt i).index = i :=
  UInt32.toNat_ofNat_of_lt' small

theorem indexedRange {α : Type} {f : Nat → α} {n i : Nat} (below : i < n) :
    indexed ((List.range n).map f) i = .ok (f i) := by
  simp [indexed,below,unwrap]

theorem nextIndexSmall {message : String} {count : Nat} (small : count < UInt32.size) :
    (FactArenaBuilder.nextIndex message count : Except (Failure ε) UInt32) = .ok (UInt32.ofNat count) := by
  rw [FactArenaBuilder.nextIndex,if_pos small,unwrap]

end

structure BuiltFrom (calls : List NormalizedCall) (i : Nat) (call : Call) : Prop where
  id : call.id = callIdAt i
  source : ∃ nc, calls[i]? = some nc ∧ call.parent = nc.parentIndex.map callIdAt ∧ call.depth = nc.depth

structure CallsBuilt (calls : List NormalizedCall) (i : Nat) (s : FactArenaBuilder × List CallId) : Prop where
  count : s.1.calls.length = i
  ids : s.2 = (List.range i).map callIdAt
  others : s.1.storageChanges = [] ∧ s.1.logs = [] ∧ s.1.tokenTransfers = []
  each : ∀ j (c : Call), s.1.calls[j]? = some c → BuiltFrom calls j c

theorem buildCallStep {calls : List NormalizedCall} {i : Nat} {nc : NormalizedCall}
    {s : FactArenaBuilder × List CallId} (few : calls.length < UInt32.size) (at' : calls[i]? = some nc)
    (earlier : ∀ j ∈ nc.parentIndex, j < i) (carries : Carries nc) (built : CallsBuilt calls i s) :
    ∃ t, buildCall s nc = .ok t ∧ CallsBuilt calls (i + 1) t := by
  have small : i < UInt32.size := Nat.lt_trans (List.getElem?_eq_some_iff.mp at').1 few
  have next : (s.1.nextCallId : Except (Failure IngestionError) CallId) = .ok (callIdAt i) := by
    rw [FactArenaBuilder.nextCallId,built.count,nextIndexSmall small]
    rfl
  have parent : nc.parentIndex.mapM (indexed s.2) = .ok (nc.parentIndex.map callIdAt) := by
    rw [built.ids]
    cases given : nc.parentIndex with
    | none => rfl
    | some j =>
      rw [Option.mapM_some,indexedRange (earlier j given)]
      rfl
  have made : Call.new (callIdAt i) (nc.parentIndex.map callIdAt) nc.kind nc.depth nc.sender nc.recipient
      nc.value nc.gasLimit nc.gasUsed nc.succeeded = .ok ⟨callIdAt i,nc.parentIndex.map callIdAt,nc.kind,
        nc.depth,nc.sender,nc.recipient,nc.value,nc.gasLimit,nc.gasUsed,nc.succeeded,none⟩ := by
    unfold Call.new
    rcases carries with able | zero
    · simp [able]
    · simp [zero]
  have grown (call : Call) (from' : BuiltFrom calls i call) :
      CallsBuilt calls (i + 1) ((s.1.addCall call).1,s.2 ++ [callIdAt i]) := by
    refine ⟨?_,?_,built.others,FactArenaBuilder.everyAppended.mpr ⟨built.each,?_⟩⟩
    · simp [FactArenaBuilder.addCall,built.count]
    · simp [built.ids,List.range_succ]
    · rw [built.count]
      exact from'
  refine ⟨_,bindOk.mpr ⟨_,next,bindOk.mpr ⟨_,parent,bindOk.mpr ⟨_,raiseOk.mpr made,rfl⟩⟩⟩,grown _ ?_⟩
  cases nc.selector with
  | none => exact ⟨rfl,nc,at',rfl,rfl⟩
  | some selector => exact ⟨rfl,nc,at',rfl,rfl⟩

section
variable {calls : List Call} {logs : List LogEvent}

structure ChangesBuilt (calls : List Call) (i : Nat) (s : FactArenaBuilder) : Prop where
  kept : s.calls = calls ∧ s.logs = [] ∧ s.tokenTransfers = []
  count : s.storageChanges.length = i
  each : ∀ change ∈ s.storageChanges, change.callId.index < calls.length

theorem buildStorageChangeStep {i : Nat} {sc : NormalizedStorageChange} {s : FactArenaBuilder}
    (small : i < UInt32.size) (few : calls.length < UInt32.size) (own : sc.callIndex < calls.length)
    (built : ChangesBuilt calls i s) :
    ∃ t, buildStorageChange ((List.range calls.length).map callIdAt) s sc = .ok t ∧
      ChangesBuilt calls (i + 1) t := by
  have next : (s.nextStorageChangeId : Except (Failure IngestionError) StorageChangeId) =
      .ok ⟨UInt32.ofNat i⟩ := by
    rw [FactArenaBuilder.nextStorageChangeId,built.count,nextIndexSmall small]
    rfl
  refine ⟨_,bindOk.mpr ⟨_,indexedRange own,bindOk.mpr ⟨_,bindOk.mpr ⟨_,next,rfl⟩,rfl⟩⟩,
    built.kept,?_,?_⟩
  · simp [built.count]
  · refine List.forall_mem_append.mpr ⟨built.each,List.forall_mem_singleton.mpr ?_⟩
    rw [callIdIndex (Nat.lt_trans own few)]
    exact own

structure LogsBuilt (calls : List Call) (changes : List StorageChange) (i : Nat)
    (s : FactArenaBuilder × List LogId) : Prop where
  kept : s.1.calls = calls ∧ s.1.storageChanges = changes ∧ s.1.tokenTransfers = []
  count : s.1.logs.length = i
  ids : s.2 = (List.range i).map logIdAt
  each : ∀ l ∈ s.1.logs, l.callId.index < calls.length

theorem buildLogStep {changes : List StorageChange} {i : Nat} {log : NormalizedLog}
    {s : FactArenaBuilder × List LogId} (small : i < UInt32.size) (few : calls.length < UInt32.size)
    (own : log.callIndex < calls.length) (topics : log.topics.length ≤ 4)
    (built : LogsBuilt calls changes i s) :
    ∃ t, buildLog ((List.range calls.length).map callIdAt) s log = .ok t ∧
      LogsBuilt calls changes (i + 1) t := by
  have next : (s.1.nextLogId : Except (Failure IngestionError) LogId) = .ok (logIdAt i) := by
    rw [FactArenaBuilder.nextLogId,built.count,nextIndexSmall small]
    rfl
  have made : LogEvent.new (logIdAt i) (callIdAt log.callIndex) log.address log.topics log.data
      log.logIndex = .ok ⟨logIdAt i,callIdAt log.callIndex,log.address,log.topics,log.data,log.logIndex⟩ := by
    rw [LogEvent.new,if_neg (Nat.not_lt.mpr topics)]
  refine ⟨_,bindOk.mpr ⟨_,indexedRange own,bindOk.mpr ⟨_,next,bindOk.mpr ⟨_,raiseOk.mpr made,rfl⟩⟩⟩,
    built.kept,?_,?_,?_⟩
  · simp [FactArenaBuilder.addLog,built.count]
  · simp [built.ids,List.range_succ]
  · refine List.forall_mem_append.mpr ⟨built.each,List.forall_mem_singleton.mpr ?_⟩
    rw [callIdIndex (Nat.lt_trans own few)]
    exact own

structure TransfersBuilt (before : FactArenaBuilder) (i : Nat) (s : FactArenaBuilder) : Prop where
  kept : s.calls = before.calls ∧ s.storageChanges = before.storageChanges ∧ s.logs = before.logs
  count : s.tokenTransfers.length = i
  each : ∀ transfer ∈ s.tokenTransfers, transfer.logId.index < before.logs.length

theorem buildTokenTransferStep {before : FactArenaBuilder} {i : Nat} {transfer : NormalizedTokenTransfer}
    {s : FactArenaBuilder} (small : i < UInt32.size) (few : before.logs.length < UInt32.size)
    (own : transfer.logIndexInVec < before.logs.length) (built : TransfersBuilt before i s) :
    ∃ t, buildTokenTransfer ((List.range before.logs.length).map logIdAt) s transfer = .ok t ∧
      TransfersBuilt before (i + 1) t := by
  have next : (s.nextTokenTransferId : Except (Failure IngestionError) TokenTransferId) =
      .ok ⟨UInt32.ofNat i⟩ := by
    rw [FactArenaBuilder.nextTokenTransferId,built.count,nextIndexSmall small]
    rfl
  refine ⟨_,bindOk.mpr ⟨_,indexedRange own,bindOk.mpr ⟨_,bindOk.mpr ⟨_,next,rfl⟩,rfl⟩⟩,
    built.kept,?_,?_⟩
  · simp [built.count]
  · refine List.forall_mem_append.mpr ⟨built.each,List.forall_mem_singleton.mpr ?_⟩
    rw [logIdIndex (Nat.lt_trans own few)]
    exact own

end

/- What the stages of `build` ask of a normalized trace, the rule about static calls apart. -/
structure Sound (nt : NormalizedTrace) : Prop where
  root : ∃ call, nt.calls[0]? = some call ∧ call.parentIndex = none
  below : ∀ i (call : NormalizedCall), nt.calls[i + 1]? = some call → ∃ j parent,
    call.parentIndex = some j ∧ j ≤ i ∧ nt.calls[j]? = some parent ∧
    call.depth.raw.toNat = parent.depth.raw.toNat + 1
  storageChanges : ∀ sc ∈ nt.storageChanges, sc.callIndex < nt.calls.length
  logs : ∀ log ∈ nt.logs, log.callIndex < nt.calls.length ∧ log.topics.length ≤ 4
  tokenTransfers : ∀ transfer ∈ nt.tokenTransfers, transfer.logIndexInVec < nt.logs.length

structure Narrow (nt : NormalizedTrace) : Prop where
  calls : nt.calls.length < UInt32.size
  storageChanges : nt.storageChanges.length < UInt32.size
  logs : nt.logs.length < UInt32.size
  tokenTransfers : nt.tokenTransfers.length < UInt32.size

section
variable {nt : NormalizedTrace} {checks : OverflowChecks}

theorem Sound.parentEarlier (sound : Sound nt) {i : Nat} {nc : NormalizedCall}
    (at' : nt.calls[i]? = some nc) : ∀ j ∈ nc.parentIndex, j < i := by
  intro j parent
  cases i with
  | zero =>
    obtain ⟨call,first,free⟩ := sound.root
    cases first.symm.trans at'
    rw [free] at parent
    cases parent
  | succ i =>
    obtain ⟨j',_,given,earlier,_⟩ := sound.below i nc at'
    rw [given] at parent
    cases parent
    exact Nat.lt_succ_of_le earlier

theorem callsBuilt (sound : Sound nt) (few : nt.calls.length < UInt32.size)
    (carries : ∀ nc ∈ nt.calls, Carries nc) : ∃ s, nt.calls.foldlM buildCall (.empty,[]) = .ok s ∧
      CallsBuilt nt.calls nt.calls.length s := by
  refine foldTotal (CallsBuilt nt.calls) ?_ ⟨rfl,rfl,⟨rfl,rfl,rfl⟩,by simp [FactArenaBuilder.empty]⟩
  intro i nc s at' built
  exact buildCallStep few at' (sound.parentEarlier at') (carries nc (List.mem_of_getElem? at')) built

theorem changesBuilt (sound : Sound nt) (narrow : Narrow nt) {s : FactArenaBuilder × List CallId}
    (built : CallsBuilt nt.calls nt.calls.length s) :
    ∃ t, nt.storageChanges.foldlM (buildStorageChange s.2) s.1 = .ok t ∧
      ChangesBuilt s.1.calls nt.storageChanges.length t := by
  have few : s.1.calls.length < UInt32.size := built.count ▸ narrow.calls
  rw [built.ids,← built.count]
  refine foldTotal (ChangesBuilt s.1.calls) ?_ ⟨⟨rfl,built.others.2⟩,by simp [built.others.1],
    by simp [built.others.1]⟩
  intro i sc t at' held
  refine buildStorageChangeStep ?_ few ?_ held
  · exact Nat.lt_trans (List.getElem?_eq_some_iff.mp at').1 narrow.storageChanges
  · exact built.count ▸ sound.storageChanges sc (List.mem_of_getElem? at')

theorem logsBuilt (sound : Sound nt) (narrow : Narrow nt) {s : FactArenaBuilder × List CallId}
    {t : FactArenaBuilder} (built : CallsBuilt nt.calls nt.calls.length s)
    (changed : ChangesBuilt s.1.calls nt.storageChanges.length t) :
    ∃ u, nt.logs.foldlM (buildLog s.2) (t,[]) = .ok u ∧
      LogsBuilt s.1.calls t.storageChanges nt.logs.length u := by
  have few : s.1.calls.length < UInt32.size := built.count ▸ narrow.calls
  rw [built.ids,← built.count]
  refine foldTotal (LogsBuilt s.1.calls t.storageChanges) ?_ ⟨⟨changed.kept.1,rfl,changed.kept.2.2⟩,
    by simp [changed.kept.2.1],rfl,by simp [changed.kept.2.1]⟩
  intro i log u at' held
  obtain ⟨own,topics⟩ := sound.logs log (List.mem_of_getElem? at')
  refine buildLogStep ?_ few (built.count ▸ own) topics held
  exact Nat.lt_trans (List.getElem?_eq_some_iff.mp at').1 narrow.logs

theorem transfersBuilt (sound : Sound nt) (narrow : Narrow nt) {calls : List Call}
    {changes : List StorageChange} {u : FactArenaBuilder × List LogId}
    (logged : LogsBuilt calls changes nt.logs.length u) :
    ∃ v, nt.tokenTransfers.foldlM (buildTokenTransfer u.2) u.1 = .ok v ∧
      TransfersBuilt u.1 nt.tokenTransfers.length v := by
  have few : u.1.logs.length < UInt32.size := logged.count ▸ narrow.logs
  rw [logged.ids,← logged.count]
  refine foldTotal (TransfersBuilt u.1) ?_ ⟨⟨rfl,rfl,rfl⟩,by simp [logged.kept.2.2],
    by simp [logged.kept.2.2]⟩
  intro i transfer v at' held
  refine buildTokenTransferStep ?_ few ?_ held
  · exact Nat.lt_trans (List.getElem?_eq_some_iff.mp at').1 narrow.tokenTransfers
  · exact logged.count ▸ sound.tokenTransfers transfer (List.mem_of_getElem? at')

section
variable {s : FactArenaBuilder × List CallId} (built : CallsBuilt nt.calls nt.calls.length s)
  (few : nt.calls.length < UInt32.size)
include built few

theorem builtCallAt {i : Nat} {nc : NormalizedCall} (source : nt.calls[i]? = some nc) :
    ∃ call, s.1.calls[i]? = some call ∧ call.id.index = i ∧
      call.parent = nc.parentIndex.map callIdAt ∧ call.depth = nc.depth := by
  have below : i < s.1.calls.length := built.count ▸ (List.getElem?_eq_some_iff.mp source).1
  have found := List.getElem?_eq_getElem below
  obtain ⟨id,nc',source',parent,depth⟩ := built.each i _ found
  cases source.symm.trans source'
  have small : i < UInt32.size := Nat.lt_trans (built.count ▸ below) few
  exact ⟨_,found,by rw [id,callIdIndex small],parent,depth⟩

theorem builtCallValid (sound : Sound nt) {i : Nat} {c : Call} (inside : s.1.calls[i]? = some c) :
    FactArenaBuilder.validateCall checks s.1.calls c = .ok () := by
  obtain ⟨id,nc,source,parent,depth⟩ := built.each i c inside
  refine FactArenaBuilder.validateCallOk.mpr fun above given => ?_
  rw [parent] at given
  obtain ⟨j,owner,rfl⟩ := Option.map_eq_some_iff.mp given
  have earlier := sound.parentEarlier source j owner
  have small : i < UInt32.size := Nat.lt_trans (List.getElem?_eq_some_iff.mp source).1 few
  cases i with
  | zero => exact absurd earlier (Nat.not_lt_zero j)
  | succ i =>
    obtain ⟨j',up,given',_,source',deeper⟩ := sound.below i nc source
    cases Option.some.inj (given'.symm.trans owner)
    obtain ⟨upper,found,_,_,depth'⟩ := builtCallAt built few source'
    rw [callIdIndex (Nat.lt_trans earlier small),id,callIdIndex small]
    exact ⟨upper,found,earlier,OverflowChecks.succOf (by rw [depth,depth',deeper])⟩

end

theorem treeAccepted (sound : Sound nt) (few : nt.calls.length < UInt32.size)
    {s : FactArenaBuilder × List CallId} (built : CallsBuilt nt.calls nt.calls.length s) :
    FactArenaBuilder.validateCallTree checks s.1.calls = .ok () := by
  obtain ⟨top,source,free⟩ := sound.root
  obtain ⟨first,found,_,parentless,_⟩ := builtCallAt built few source
  cases shape : s.1.calls with
  | nil => simp [shape] at found
  | cons head rest =>
    rw [shape] at found
    cases found
    refine FactArenaBuilder.callTreeOk.mpr ⟨_,rest,rfl,by rw [parentless,free]; rfl,?_,?_⟩
    · intro c mem
      obtain ⟨i,inside⟩ := List.mem_iff_getElem?.mp mem
      have inside : s.1.calls[i + 1]? = some c := by rw [shape]; exact inside
      obtain ⟨_,nc,source,parent,_⟩ := built.each (i + 1) c inside
      obtain ⟨j,_,given,_⟩ := sound.below i nc source
      rw [parent,given]
      exact Option.some_ne_none _
    · intro c mem
      rw [← shape] at mem ⊢
      obtain ⟨i,inside⟩ := List.mem_iff_getElem?.mp mem
      exact builtCallValid built few sound inside

theorem buildCallCarries {s t : FactArenaBuilder × List CallId} {nc : NormalizedCall}
    (step : buildCall s nc = .ok t) : Carries nc := by
  obtain ⟨_,_,rest⟩ := bindOk.mp step
  obtain ⟨_,_,rest⟩ := bindOk.mp rest
  obtain ⟨_,made,_⟩ := bindOk.mp rest
  have accepted := raiseOk.mp made
  unfold Call.new at accepted
  split at accepted
  · cases accepted
  · rename_i allowed
    by_contra refused
    simp only [Carries,not_or] at refused
    simp [refused] at allowed

theorem factsAccepted (sound : Sound nt) (narrow : Narrow nt) {s : FactArenaBuilder × List CallId}
    {t v : FactArenaBuilder} {u : FactArenaBuilder × List LogId}
    (built : CallsBuilt nt.calls nt.calls.length s)
    (changed : ChangesBuilt s.1.calls nt.storageChanges.length t)
    (logged : LogsBuilt s.1.calls t.storageChanges nt.logs.length u)
    (transferred : TransfersBuilt u.1 nt.tokenTransfers.length v) : v.validate checks = .ok () := by
  have calls : v.calls = s.1.calls := transferred.kept.1.trans logged.kept.1
  have changes : v.storageChanges = t.storageChanges := transferred.kept.2.1.trans logged.kept.2.1
  refine FactArenaBuilder.validateOk.mpr ⟨by rw [calls]; exact treeAccepted sound narrow.calls built,?_,?_,?_⟩
  · intro change mem
    rw [changes] at mem
    rw [calls,List.getElem?_eq_getElem (changed.each change mem)]
    rfl
  · intro log mem
    rw [transferred.kept.2.2] at mem
    rw [calls,List.getElem?_eq_getElem (logged.each log mem)]
    rfl
  · intro transfer mem
    rw [transferred.kept.2.2,List.getElem?_eq_getElem (transferred.each transfer mem)]
    rfl

theorem buildIff (sound : Sound nt) (narrow : Narrow nt) {source : TraceSource} :
    (∃ trace, build checks nt source = .ok trace) ↔ ∀ nc ∈ nt.calls, Carries nc := by
  constructor
  · intro given nc mem
    obtain ⟨trace,built⟩ := given
    obtain ⟨_,calls,_⟩ := bindOk.mp built
    obtain ⟨s,t,step⟩ := foldEach calls nc mem
    exact buildCallCarries step
  · intro carries
    obtain ⟨first,calls,built⟩ := callsBuilt sound narrow.calls carries
    obtain ⟨second,changes,changed⟩ := changesBuilt sound narrow built
    obtain ⟨third,logs,logged⟩ := logsBuilt sound narrow built changed
    obtain ⟨fourth,transfers,transferred⟩ := transfersBuilt sound narrow logged
    obtain ⟨arena,made⟩ := FactArenaBuilder.buildOf
      (factsAccepted sound narrow built changed logged transferred)
    obtain ⟨trace,last⟩ : ∃ trace, Trace.new ⟨nt.transactionHash,nt.blockChainId,nt.blockNumber,source⟩
        ⟨nt.blockNumber,nt.blockTimestamp,nt.blockChainId,nt.blockBaseFee⟩
        ⟨nt.transactionHash,nt.transactionFrom,nt.transactionTo,nt.transactionValue,nt.transactionNonce,
          nt.transactionGasUsed,nt.transactionStatus⟩ arena = .ok trace := Trace.newOf rfl rfl rfl
    exact ⟨trace,bindOk.mpr ⟨first,calls,bindOk.mpr ⟨second,changes,bindOk.mpr ⟨third,logs,
      bindOk.mpr ⟨fourth,transfers,bindOk.mpr ⟨arena,mapFailureOk.mpr made,raiseOk.mpr last⟩⟩⟩⟩⟩⟩

end

theorem attributedBound {β : Type} {part : RawFrame → List β} {start : Nat}
    {xs : List (Rose.Placed RawFrame)} {x : Nat × β} (mem : x ∈ attributed part start xs) :
    x.1 < start + xs.length := by
  induction xs generalizing start with
  | nil => simp [attributed] at mem
  | cons y ys ih =>
    rw [List.length_cons]
    rcases List.mem_append.mp mem with own | later
    · obtain ⟨_,_,rfl⟩ := List.mem_map.mp own
      exact Nat.lt_add_of_pos_right (Nat.succ_pos _)
    · have below := ih later
      omega

theorem transferBound {start : Nat} {logs : List NormalizedLog} {transfer : NormalizedTokenTransfer}
    (mem : transfer ∈ transfersOf start logs) : transfer.logIndexInVec < start + logs.length := by
  obtain ⟨⟨log,i⟩,listed,own⟩ := List.mem_flatMap.mp mem
  have below := (List.mem_zipIdx listed).2.1
  have same : transfer.logIndexInVec = i := by
    unfold decodedTransfers at own
    split at own
    · cases List.mem_singleton.mp own
      rfl
    · simp at own
  omega

section
variable {doc : RawTraceDocument} {nt : NormalizedTrace}

theorem normalizedSound (normalized : normalizeVisited doc = .ok nt) : Sound nt ∧
    ((∀ nc ∈ nt.calls, Carries nc) ↔
      ∀ x ∈ doc.root.listing 0 none 0, staticTransfer x.value = false) := by
  obtain ⟨header,_,rest⟩ := bindOk.mp normalized
  obtain ⟨acc,visited,last⟩ := bindOk.mp rest
  cases last
  have order := traversalPreOrder visited
  -- Everything is read off the listing of the frames, of which there is one for each call.
  obtain ⟨calls,grown,each⟩ := order.lists.calls
  obtain ⟨changes,changed,ownChanges⟩ := order.lists.storageChanges
  obtain ⟨logs,logged,ownLogs,transfers⟩ := order.lists.logs
  have sameCalls : acc.calls = calls := grown
  have sameChanges : acc.storageChanges = changes := changed
  have sameLogs : acc.logs = logs := logged
  have sameTransfers : acc.tokenTransfers = transfersOf 0 logs := transfers
  have count : (doc.root.listing 0 none 0).length = acc.calls.length := by
    rw [sameCalls]
    exact each.length_eq
  refine ⟨⟨?_,order.below,?_,?_,?_⟩,?_⟩
  · obtain ⟨call,found,free,_⟩ := order.root
    exact ⟨call,found,free⟩
  · intro sc mem
    rw [sameChanges] at mem
    obtain ⟨x,inside,own,_⟩ := forall₂Right ownChanges mem
    have bound := attributedBound inside
    rw [own,← count]
    simpa [Accumulator.empty] using bound
  · intro log mem
    rw [sameLogs] at mem
    obtain ⟨x,inside,own⟩ := forall₂Right ownLogs mem
    have bound := attributedBound inside
    refine ⟨?_,own.fewTopics⟩
    rw [own.callIndex,← count]
    simpa [Accumulator.empty] using bound
  · intro transfer mem
    rw [sameTransfers] at mem
    have bound := transferBound mem
    rw [sameLogs]
    simpa using bound
  · rw [sameCalls]
    constructor
    · intro carries x mem
      obtain ⟨i,found⟩ := List.mem_iff_getElem?.mp mem
      obtain ⟨call,inside,_,_,item,parsed⟩ := forall₂AtLeft each found
      exact (frameCarries parsed).mp (carries call (List.mem_of_getElem? inside))
    · intro clean call mem
      obtain ⟨x,inside,_,_,item,parsed⟩ := forall₂Right each mem
      exact (frameCarries parsed).mpr (clean x inside)

theorem normalizedBuilds {checks : OverflowChecks} {source : TraceSource}
    (normalized : normalize checks doc = some (.ok nt)) (narrow : Narrow nt) :
    (∃ trace, build checks nt source = .ok trace) ↔
      ∀ x ∈ doc.root.listing 0 none 0, staticTransfer x.value = false := by
  rw [normalizeVisits] at normalized
  obtain ⟨sound,carries⟩ := normalizedSound (raiseOk.mp (Option.some.inj normalized))
  rw [buildIff sound narrow,carries]

end

def sampleDocument (value : String) : RawTraceDocument :=
  ⟨⟨hexText 64,hexText 40,none,"0x0","0x0","0x0","success"⟩,⟨"0x1","0x1","0x1",none⟩,
    sampleRoot "staticcall" value⟩

theorem normalizedPair {doc : RawTraceDocument} {nt : NormalizedTrace}
    (found : nt ∈ (normalizeVisited doc).toOption) (two : nt.calls.length = 2)
    (none : nt.storageChanges = [] ∧ nt.logs = [] ∧ nt.tokenTransfers = []) (checks : OverflowChecks) :
    normalize checks doc = some (.ok nt) ∧ Narrow nt := by
  refine ⟨?_,?_⟩
  · rw [normalizeVisits]
    exact congrArg some (raiseOk.mpr (toOptionOk.mp found))
  · obtain ⟨changes,logs,transfers⟩ := none
    exact ⟨by rw [two]; decide,by rw [changes]; decide,by rw [logs]; decide,by rw [transfers]; decide⟩

theorem normalizedBuildsStatic : ∃ nt, normalize .on (sampleDocument "0x0") = some (.ok nt) ∧
    ((∃ trace, build .on nt (.archiveNodeRpc "") = .ok trace) ↔
      ∀ x ∈ (sampleDocument "0x0").root.listing 0 none 0, staticTransfer x.value = false) := by
  have some : ∃ nt ∈ (normalizeVisited (sampleDocument "0x0")).toOption, nt.calls.length = 2 ∧
      nt.storageChanges = [] ∧ nt.logs = [] ∧ nt.tokenTransfers = [] := by decide +kernel
  obtain ⟨nt,found,two,none⟩ := some
  obtain ⟨normalized,narrow⟩ := normalizedPair found two none .on
  exact ⟨nt,normalized,normalizedBuilds normalized narrow⟩

def refusal {ε α : Type} : Except ε α → Option ε
  | .ok _ => none
  | .error e => some e

theorem refusalIs {ε α : Type} {x : Except ε α} {e : ε} (refused : refusal x = some e) : x = .error e := by
  cases x with
  | ok a => cases refused
  | error e' => rw [Option.some.inj refused]

/- A static call with a value is normalized, and the constructor of the call refuses it. -/
theorem staticTransferRefused : ∃ nt, normalize .on (sampleDocument "0x5") = some (.ok nt) ∧ Narrow nt ∧
    build .on nt (.archiveNodeRpc "") =
      .error (.error (.traceConstruction "a StaticCall cannot carry a nonzero value transfer")) := by
  have some : ∃ nt ∈ (normalizeVisited (sampleDocument "0x5")).toOption, (nt.calls.length = 2 ∧
      nt.storageChanges = [] ∧ nt.logs = [] ∧ nt.tokenTransfers = []) ∧
      refusal (build .on nt (.archiveNodeRpc "")) = some (.error (.traceConstruction
        "a StaticCall cannot carry a nonzero value transfer")) := by decide +kernel
  obtain ⟨nt,found,⟨two,none⟩,refused⟩ := some
  obtain ⟨normalized,narrow⟩ := normalizedPair found two none .on
  exact ⟨nt,normalized,narrow,refusalIs refused⟩

end RootCause.Ingestion
