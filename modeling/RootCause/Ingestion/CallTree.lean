import RootCause.Library.Linked
import RootCause.Ingestion.Ownership

/-! The arena against the document it was read from. Following `children_of` from the root
call gives the call tree of the document back, each call with the fields of its frame and,
in their order, with the storage changes and the logs of that frame. -/
namespace RootCause.Ingestion
open Library FactModel

structure FrameRead (raw : RawFrame) (call : Call) : Prop where
  kind : ∃ path, parseCallKind path raw.kind = .ok call.kind
  sender : parseAddress "call.from" raw.sender = .ok call.sender
  recipient : raw.recipient.mapM (parseAddress "call.to") = .ok call.recipient
  value : parseHexU128 "call.value" raw.value = .ok call.value.raw
  gasLimit : parseHexU64 "call.gasLimit" raw.gasLimit = .ok call.gasLimit.raw
  gasUsed : parseHexU64 "call.gasUsed" raw.gasUsed = .ok call.gasUsed.raw
  succeeded : call.succeeded = raw.succeeded
  selector : ∃ input, raw.input.mapM (parseHexBytes "call.input") = .ok input ∧
    call.selector = input.bind extractSelector

structure ChangeRead (raw : RawStorageChange) (change : StorageChange) : Prop where
  contract : parseAddress "storageChange.contract" raw.contract = .ok change.slot.contract
  slot : parseWord "storageChange.slot" raw.slot = .ok change.slot.key
  before : parseWord "storageChange.before" raw.before = .ok change.before
  after : parseWord "storageChange.after" raw.after = .ok change.after

structure LogRead (raw : RawLog) (log : LogEvent) : Prop where
  address : parseAddress "log.address" raw.address = .ok log.address
  topics : raw.topics.mapM (parseWord "log.topics[]") = .ok log.topics
  data : parseHexBytes "log.data" raw.data = .ok log.data
  logIndex : ∃ n, parseHexU64 "log.logIndex" raw.logIndex = .ok n ∧ log.logIndex.raw.toNat = n.toNat

structure Holds (arena : FactArena) (raw : RawFrame) (call : Call) : Prop where
  fields : FrameRead raw call
  storageChanges : List.Forall₂ ChangeRead raw.storageChanges (arena.storageChangesForCall call.id)
  logs : List.Forall₂ LogRead raw.logs (arena.logs.filter fun l => l.callId = call.id)

/- The tree below a call, read with `children_of` down to `fuel` levels. -/
def subtree (arena : FactArena) (fuel : Nat) (call : Call) : Rose Call :=
  Rose.readFrom (fun c => arena.childrenOf c.id) fuel call

structure CallKept (nc : NormalizedCall) (call : Call) : Prop where
  parent : call.parent = nc.parentIndex.map callIdAt
  kind : call.kind = nc.kind
  sender : call.sender = nc.sender
  recipient : call.recipient = nc.recipient
  value : call.value = nc.value
  gas : call.gasLimit = nc.gasLimit ∧ call.gasUsed = nc.gasUsed
  succeeded : call.succeeded = nc.succeeded
  selector : call.selector = nc.selector

def ChangeKept (sc : NormalizedStorageChange) (change : StorageChange) : Prop :=
  change = ⟨callIdAt sc.callIndex,⟨sc.contract,sc.slot⟩,sc.before,sc.after⟩

def LogKept (log : NormalizedLog) (l : LogEvent) : Prop :=
  l.callId = callIdAt log.callIndex ∧ l.address = log.address ∧ l.topics = log.topics ∧
    l.data = log.data ∧ l.logIndex = log.logIndex

theorem buildCallKept {past : List NormalizedCall} {s t : FactArenaBuilder × List CallId} {nc : NormalizedCall}
    (made : CallsMade past s) (kept : List.Forall₂ CallKept past s.1.calls ∧ s.1.logs = [])
    (step : buildCall s nc = .ok t) : List.Forall₂ CallKept (past ++ [nc]) t.1.calls ∧ t.1.logs = [] := by
  obtain ⟨id,next,rest⟩ := bindOk.mp step
  obtain ⟨parent,above,rest⟩ := bindOk.mp rest
  obtain ⟨call,accepted,last⟩ := bindOk.mp rest
  cases last
  have linked : parent = nc.parentIndex.map callIdAt := by
    rw [made.ids] at above
    cases given : nc.parentIndex with
    | none =>
      rw [given] at above
      cases above
      rfl
    | some j =>
      rw [given,Option.mapM_some] at above
      obtain ⟨id,found,same⟩ := bindOk.mp above
      cases same
      rw [indexedOk found]
      rfl
  refine ⟨List.rel_append kept.1 (.cons ?_ .nil),kept.2⟩
  have fields := raiseOk.mp accepted
  unfold Call.new at fields
  split at fields
  · contradiction
  · cases fields
    cases given : nc.selector with
    | none => exact ⟨linked,rfl,rfl,rfl,rfl,⟨rfl,rfl⟩,rfl,given.symm⟩
    | some selector => exact ⟨linked,rfl,rfl,rfl,rfl,⟨rfl,rfl⟩,rfl,given.symm⟩

theorem buildChangeKept {n : Nat} {calls : List Call} {logs : List LogEvent}
    (past : List NormalizedStorageChange) (s : FactArenaBuilder) (sc : NormalizedStorageChange)
    (t : FactArenaBuilder)
    (kept : s.calls = calls ∧ s.logs = logs ∧ List.Forall₂ ChangeKept past s.storageChanges)
    (step : buildStorageChange ((List.range n).map callIdAt) s sc = .ok t) :
    t.calls = calls ∧ t.logs = logs ∧ List.Forall₂ ChangeKept (past ++ [sc]) t.storageChanges := by
  obtain ⟨callId,found,rest⟩ := bindOk.mp step
  obtain ⟨added,grown,last⟩ := bindOk.mp rest
  cases last
  obtain ⟨id,_,same⟩ := bindOk.mp grown
  cases same
  exact ⟨kept.1,kept.2.1,List.rel_append kept.2.2 (.cons (by rw [ChangeKept,indexedOk found]) .nil)⟩

theorem buildLogKept {n : Nat} {calls : List Call} {changes : List StorageChange} (past : List NormalizedLog)
    (s : FactArenaBuilder × List LogId) (log : NormalizedLog) (t : FactArenaBuilder × List LogId)
    (kept : Stored calls changes s.1 ∧ List.Forall₂ LogKept past s.1.logs)
    (step : buildLog ((List.range n).map callIdAt) s log = .ok t) :
    Stored calls changes t.1 ∧ List.Forall₂ LogKept (past ++ [log]) t.1.logs := by
  refine ⟨buildLogStored s log t kept.1 step,?_⟩
  obtain ⟨callId,found,rest⟩ := bindOk.mp step
  obtain ⟨id,_,rest⟩ := bindOk.mp rest
  obtain ⟨l,accepted,last⟩ := bindOk.mp rest
  cases last
  refine List.rel_append kept.2 (.cons ?_ .nil)
  have fields := raiseOk.mp accepted
  unfold LogEvent.new at fields
  split at fields
  · contradiction
  · cases fields
    exact ⟨indexedOk found,rfl,rfl,rfl,rfl⟩

theorem buildTransferKept {logIds : List LogId} {calls : List Call} {changes : List StorageChange}
    {logs : List LogEvent} (s : FactArenaBuilder) (transfer : NormalizedTokenTransfer) (t : FactArenaBuilder)
    (kept : Stored calls changes s ∧ s.logs = logs) (step : buildTokenTransfer logIds s transfer = .ok t) :
    Stored calls changes t ∧ t.logs = logs := by
  refine ⟨buildTransferStored s transfer t kept.1 step,?_⟩
  obtain ⟨logId,_,rest⟩ := bindOk.mp step
  obtain ⟨added,grown,last⟩ := bindOk.mp rest
  cases last
  obtain ⟨id,_,same⟩ := bindOk.mp grown
  cases same
  exact kept.2

section
variable {checks : OverflowChecks} {nt : NormalizedTrace} {source : TraceSource} {trace : Trace}

theorem buildKept (built : build checks nt source = .ok trace) :
    List.Forall₂ CallKept nt.calls trace.arena.calls ∧
    List.Forall₂ ChangeKept nt.storageChanges trace.arena.storageChanges ∧
    List.Forall₂ LogKept nt.logs trace.arena.logs := by
  obtain ⟨first,callIds,second,third,logIds,calls,changes,logs,transfers⟩ := buildStages built
  have made : CallsMade nt.calls (first,callIds) ∧
      List.Forall₂ CallKept nt.calls first.calls ∧ first.logs = [] :=
    @foldHistory _ _ _ (fun past s => CallsMade past s ∧ List.Forall₂ CallKept past s.1.calls ∧ s.1.logs = []) _
      (fun past s nc t both step => ⟨buildCallMade past s nc t both.1 step,buildCallKept both.1 both.2 step⟩)
      _ _ _ ⟨⟨Nat.zero_le _,rfl,.nil,rfl⟩,.nil,rfl⟩ calls
  obtain ⟨made,own,noLogs⟩ := made
  rw [show callIds = _ from made.ids] at changes logs
  have changed : second.calls = first.calls ∧ second.logs = [] ∧
      List.Forall₂ ChangeKept nt.storageChanges second.storageChanges :=
    foldHistory buildChangeKept ⟨rfl,noLogs,by rw [show first.storageChanges = [] from made.others]; exact .nil⟩
      changes
  have logged : Stored second.calls second.storageChanges third ∧ List.Forall₂ LogKept nt.logs third.logs :=
    @foldHistory _ _ _ (fun past s => Stored second.calls second.storageChanges s.1 ∧
      List.Forall₂ LogKept past s.1.logs) _ buildLogKept _ _ _
      ⟨⟨rfl,rfl⟩,by rw [show second.logs = [] from changed.2.1]; exact .nil⟩ logs
  have moved : Stored second.calls second.storageChanges trace.arena.facts ∧ trace.arena.facts.logs = third.logs :=
    foldInvariant buildTransferKept ⟨logged.1,rfl⟩ transfers
  rw [FactArena.calls,FactArena.storageChanges,FactArena.logs,moved.1.1,moved.1.2,moved.2,changed.1]
  exact ⟨own,changed.2.2,logged.2⟩

theorem attributedAbove {β : Type} {part : RawFrame → List β} {start : Nat}
    {xs : List (Rose.Placed RawFrame)} {x : Nat × β} (mem : x ∈ attributed part start xs) : start ≤ x.1 := by
  induction xs generalizing start with
  | nil => simp [attributed] at mem
  | cons y ys ih =>
    rcases List.mem_append.mp mem with own | later
    · obtain ⟨_,_,rfl⟩ := List.mem_map.mp own
      exact Nat.le_refl _
    · exact Nat.le_of_succ_le (ih later)

theorem attributedAt {β : Type} {part : RawFrame → List β} {start i : Nat} {xs : List (Rose.Placed RawFrame)}
    {x : Rose.Placed RawFrame} (found : xs[i]? = some x) :
    (attributed part start xs).filter (fun y => y.1 = start + i) = (part x.value).map (Prod.mk (start + i)) := by
  induction xs generalizing start i with
  | nil => simp at found
  | cons y ys ih =>
    rw [attributed,List.filter_append]
    cases i with
    | zero =>
      cases found
      have later : (attributed part (start + 1) ys).filter (fun y => y.1 = start + 0) = [] := by
        rw [List.filter_eq_nil_iff]
        intro z mem
        have above := attributedAbove mem
        simp
        omega
      rw [later,List.append_nil,List.filter_eq_self.mpr (by simp)]
      rfl
    | succ i =>
      have earlier : ((part y.value).map (Prod.mk start)).filter (fun z => z.1 = start + (i + 1)) = [] := by
        simp [List.filter_eq_nil_iff]
      have shifted : start + (i + 1) = start + 1 + i := by omega
      rw [earlier,List.nil_append,shifted]
      exact ih found

theorem frameRead {item : Pending} {raw : RawFrame} {nc : NormalizedCall} {call : Call}
    (parsed : parseFrame item raw = .ok nc) (kept : CallKept nc call) : FrameRead raw call := by
  obtain ⟨kind,kindRead,rest⟩ := bindOk.mp parsed
  obtain ⟨sender,senderRead,rest⟩ := bindOk.mp rest
  obtain ⟨recipient,recipientRead,rest⟩ := bindOk.mp rest
  obtain ⟨value,valueRead,rest⟩ := bindOk.mp rest
  obtain ⟨gasLimit,limitRead,rest⟩ := bindOk.mp rest
  obtain ⟨gasUsed,usedRead,rest⟩ := bindOk.mp rest
  obtain ⟨input,inputRead,rest⟩ := bindOk.mp rest
  cases rest
  obtain ⟨_,sameKind,sameSender,sameRecipient,sameValue,⟨sameLimit,sameUsed⟩,ended,selector⟩ := kept
  refine ⟨⟨item.path,?_⟩,?_,?_,?_,?_,?_,ended,input,inputRead,selector⟩
  · rwa [sameKind]
  · rwa [sameSender]
  · rwa [sameRecipient]
  · rwa [sameValue]
  · rwa [sameLimit]
  · rwa [sameUsed]

theorem changeRead {x : Nat × RawStorageChange} {sc : NormalizedStorageChange} {change : StorageChange}
    (normalized : ChangeOf x sc) (kept : ChangeKept sc change) :
    change.callId = callIdAt x.1 ∧ ChangeRead x.2 change := by
  obtain ⟨owner,context,path,parsed⟩ := normalized
  obtain ⟨declared,contract,rest⟩ := bindOk.mp parsed
  obtain ⟨_,_,rest⟩ := bindOk.mp rest
  obtain ⟨slot,slotRead,rest⟩ := bindOk.mp rest
  obtain ⟨before,beforeRead,rest⟩ := bindOk.mp rest
  obtain ⟨after,afterRead,rest⟩ := bindOk.mp rest
  cases rest
  cases kept
  exact ⟨rfl,contract,slotRead,beforeRead,afterRead⟩

theorem logRead {x : Nat × RawLog} {log : NormalizedLog} {l : LogEvent} (normalized : LogOf x log)
    (kept : LogKept log l) : l.callId = callIdAt x.1 ∧ LogRead x.2 l := by
  obtain ⟨_,_,_,_,_,_⟩ := l
  obtain ⟨owner,rfl,rfl,rfl,rfl⟩ := kept
  refine ⟨owner.trans ?_,normalized.address,normalized.topics,normalized.data,normalized.logIndex⟩
  rw [normalized.callIndex]

theorem callIdApart {i j : Nat} (left : i < UInt32.size) (right : j < UInt32.size) :
    callIdAt i = callIdAt j ↔ i = j := by
  constructor
  · intro same
    rw [← callIdIndex left,same,callIdIndex right]
  · intro same
    rw [same]

theorem selected {α β : Type} {part : RawFrame → List α} {R : α → β → Prop} {owner : β → CallId}
    {xs : List (Rose.Placed RawFrame)} {ys : List β} (narrow : xs.length ≤ UInt32.size)
    (related : List.Forall₂ (fun x y => owner y = callIdAt x.1 ∧ R x.2 y) (attributed part 0 xs) ys) {i : Nat}
    {x : Rose.Placed RawFrame} (found : xs[i]? = some x) :
    List.Forall₂ R (part x.value) (ys.filter fun y => owner y = callIdAt i) := by
  have inside : i < UInt32.size := Nat.lt_of_lt_of_le (List.getElem?_eq_some_iff.mp found).1 narrow
  have bounded : List.Forall₂ (fun (x : Nat × α) y => x.1 < UInt32.size ∧ owner y = callIdAt x.1 ∧ R x.2 y)
      (attributed part 0 xs) ys := forall₂Imp related fun x mem y both =>
    ⟨Nat.lt_of_lt_of_le (by simpa using attributedBound mem) narrow,both⟩
  have chosen := List.rel_filter (p := fun x => x.1 = i) (q := fun y => owner y = callIdAt i)
    (by
      intro x y both
      simp only [decide_eq_true_eq]
      rw [both.2.1,callIdApart both.1 inside]) bounded
  have own : (attributed part 0 xs).filter (fun y => y.1 = i) = (part x.value).map (Prod.mk i) := by
    have whole := @attributedAt _ part 0 i xs x found
    rwa [Nat.zero_add] at whole
  rw [own,List.forall₂_map_left_iff] at chosen
  exact chosen.imp fun _ _ both => both.2.2

structure ArenaRead (doc : RawTraceDocument) (nt : NormalizedTrace) (trace : Trace) : Prop where
  calls : List.Forall₂ (fun x c => c.parent = x.parent.map callIdAt ∧ Holds trace.arena x.value c)
    (doc.root.listing 0 none 0) trace.arena.calls
  changes : List.Forall₂ (fun x change => change.callId = callIdAt x.1 ∧ ChangeRead x.2 change)
    (attributed RawFrame.storageChanges 0 (doc.root.listing 0 none 0)) trace.arena.storageChanges
  logs : List.Forall₂ (fun x log => log.callId = callIdAt x.1 ∧ LogRead x.2 log)
    (attributed RawFrame.logs 0 (doc.root.listing 0 none 0)) trace.arena.logs
  kept : List.Forall₂ LogKept nt.logs trace.arena.logs
  transfers : nt.tokenTransfers = transfersOf 0 nt.logs

theorem callKeyed (built : build checks nt source = .ok trace) (i : Nat) (c : Call)
    (found : trace.arena.calls[i]? = some c) : c.id = callIdAt i := by
  have index : c.id.raw.toNat = i := (buildPositional built).calls i c found
  rw [callIdAt,← index,UInt32.ofNat_toNat]

theorem arenaRead {doc : RawTraceDocument} (normalized : normalize checks doc = some (.ok nt))
    (built : build checks nt source = .ok trace) : ArenaRead doc nt trace := by
  rw [normalizeVisits] at normalized
  obtain ⟨header,_,rest⟩ := bindOk.mp (raiseOk.mp (Option.some.inj normalized))
  obtain ⟨acc,visited,last⟩ := bindOk.mp rest
  cases last
  have lists := traversalLists visited
  obtain ⟨calls,sameCalls,frames⟩ := lists.calls
  obtain ⟨changes,sameChanges,slots⟩ := lists.storageChanges
  obtain ⟨logs,sameLogs,events,sameTransfers⟩ := lists.logs
  have sameCalls : acc.calls = calls := sameCalls
  have sameChanges : acc.storageChanges = changes := sameChanges
  have sameLogs : acc.logs = logs := sameLogs
  subst sameCalls sameChanges sameLogs
  obtain ⟨keptCalls,keptChanges,keptLogs⟩ := buildKept built
  have narrow : (doc.root.listing 0 none 0).length ≤ UInt32.size := by
    rw [frames.length_eq]
    exact (buildMade built).1
  have owned := forall₂Joined slots keptChanges fun _ _ _ => changeRead
  have logged := forall₂Joined events keptLogs fun _ _ _ => logRead
  refine ⟨?_,owned,logged,keptLogs,sameTransfers⟩
  have each : List.Forall₂ (fun x c => ∃ nc, CallOf x nc ∧ CallKept nc c) (doc.root.listing 0 none 0)
      trace.arena.calls := forall₂Joined frames keptCalls fun _ nc _ call kept => ⟨nc,call,kept⟩
  refine forall₂Positions each ?_
  rintro i x c found at' ⟨nc,⟨parent,_,item,parsed⟩,kept⟩
  refine ⟨by rw [kept.parent,parent],frameRead parsed kept,?_,?_⟩
  · rw [FactArena.storageChangesForCall,callKeyed built i c at']
    exact selected narrow owned found
  · rw [callKeyed built i c at']
    exact selected narrow logged found

theorem treeRead {doc : RawTraceDocument} (built : build checks nt source = .ok trace)
    (read : ArenaRead doc nt trace) : Rose.Alike (Holds trace.arena) doc.root
      (subtree trace.arena trace.arena.calls.length trace.arena.rootCall) := by
  have distinct : (trace.arena.calls.map Call.id).Nodup := idsDistinct (buildPositional built).calls
  have head : trace.arena.calls.head? = some trace.arena.rootCall := List.head?_eq_some_head _
  have read := Rose.readBack (fun _ _ both => both.1) read.calls (callKeyed built) distinct head
  refine read.imp ?_
  rintro raw c ⟨x,rfl,_,holds⟩
  exact holds

theorem documentReadBack {doc : RawTraceDocument} (normalized : normalize checks doc = some (.ok nt))
    (built : build checks nt source = .ok trace) : Rose.Alike (Holds trace.arena) doc.root
      (subtree trace.arena trace.arena.calls.length trace.arena.rootCall) :=
  treeRead built (arenaRead normalized built)

end

theorem documentReadBackProxy : ∃ nt trace, normalize .on proxyDocument = some (.ok nt) ∧
    build .on nt (.archiveNodeRpc "") = .ok trace ∧ trace.arena.calls.length = 2 ∧
    Rose.Alike (Holds trace.arena) proxyDocument.root (subtree trace.arena 2 trace.arena.rootCall) := by
  have some : ∃ nt ∈ (normalizeVisited proxyDocument).toOption,
      ∃ trace ∈ (build .on nt (.archiveNodeRpc "")).toOption, trace.arena.calls.length = 2 := by
    decide +kernel
  obtain ⟨nt,found,trace,made,two⟩ := some
  have normalized : normalize .on proxyDocument = Option.some (.ok nt) := by
    rw [normalizeVisits]
    exact congrArg Option.some (raiseOk.mpr (toOptionOk.mp found))
  have built := toOptionOk.mp made
  have read := documentReadBack normalized built
  rw [two] at read
  exact ⟨nt,trace,normalized,built,two,read⟩

end RootCause.Ingestion
