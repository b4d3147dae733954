import RootCause.Ingestion.CallTree
import RootCause.Library.Admission

/-! Which documents are ingested. Every field has to be readable, every storage change to
declare the storage its call works on, no log index to come twice in the whole tree; what
is refused is refused with an error of the ingestion, never by a panic. -/
namespace RootCause.Ingestion
open Library FactModel

structure HeaderOk (doc : RawTraceDocument) : Prop where
  hash : ∃ w, parseWord "transaction.hash" doc.transaction.hash = .ok w
  sender : ∃ a, parseAddress "transaction.from" doc.transaction.sender = .ok a
  recipient : ∃ a, doc.transaction.recipient.mapM (parseAddress "transaction.to") = .ok a
  value : ∃ n, parseHexU128 "transaction.value" doc.transaction.value = .ok n
  nonce : ∃ n, parseHexU64 "transaction.nonce" doc.transaction.nonce = .ok n
  gasUsed : ∃ n, parseHexU64 "transaction.gasUsed" doc.transaction.gasUsed = .ok n
  status : doc.transaction.status = "success" ∨ doc.transaction.status = "reverted"
  number : ∃ n, parseHexU64 "block.number" doc.block.number = .ok n
  timestamp : ∃ n, parseHexU64 "block.timestamp" doc.block.timestamp = .ok n
  chainId : ∃ n, parseHexU64 "block.chainId" doc.block.chainId = .ok n
  baseFee : ∃ n, doc.block.baseFee.mapM (parseHexU128 "block.baseFee") = .ok n

structure Reached where
  depth : Nat
  inherited : Option Address

def WorksOn (inherited : Option Address) (call : Call) (context : Address) : Prop :=
  if executesInCallerContext call.kind then inherited = some context else call.recipient.getD call.sender = context

structure FrameOk (reached : Reached) (raw : RawFrame) (context : Address) : Prop where
  shallow : reached.depth ≤ 1024
  fields : ∃ call, FrameRead raw call ∧ WorksOn reached.inherited call context
  changes : ∀ change ∈ raw.storageChanges, ∃ read, ChangeRead change read ∧ read.slot.contract = context
  logs : ∀ log ∈ raw.logs, ∃ read, LogRead log read ∧ read.topics.length ≤ 4

def Enters (reached : Reached) (raw : RawFrame) (below : Reached) : Prop :=
  ∃ context, FrameOk reached raw context ∧ below = ⟨reached.depth + 1,some context⟩

def logIndexOf (log : RawLog) : Option UInt64 := (parseHexU64 "log.logIndex" log.logIndex).toOption

def logIndices (raw : RawFrame) : List UInt64 := raw.logs.filterMap logIndexOf

structure Acceptable (doc : RawTraceDocument) : Prop where
  header : HeaderOk doc
  frames : doc.root.Admitted Enters ⟨0,none⟩
  logIndices : (doc.root.flatten.flatMap logIndices).Nodup

theorem statusOk {status : String} :
    (∃ s, parseStatus status = .ok s) ↔ status = "success" ∨ status = "reverted" := by
  unfold parseStatus
  split
  · simp
  · simp
  · rename_i success reverted
    have neither : ¬ (status = "success" ∨ status = "reverted") := fun given => given.elim success reverted
    simp [neither]

theorem headerOk {doc : RawTraceDocument} : (∃ nt, normalizeHeader doc = .ok nt) ↔ HeaderOk doc := by
  constructor
  · rintro ⟨nt,read⟩
    obtain ⟨hash,hashRead,rest⟩ := bindOk.mp read
    obtain ⟨sender,senderRead,rest⟩ := bindOk.mp rest
    obtain ⟨recipient,recipientRead,rest⟩ := bindOk.mp rest
    obtain ⟨value,valueRead,rest⟩ := bindOk.mp rest
    obtain ⟨nonce,nonceRead,rest⟩ := bindOk.mp rest
    obtain ⟨gasUsed,gasRead,rest⟩ := bindOk.mp rest
    obtain ⟨status,statusRead,rest⟩ := bindOk.mp rest
    obtain ⟨number,numberRead,rest⟩ := bindOk.mp rest
    obtain ⟨timestamp,timeRead,rest⟩ := bindOk.mp rest
    obtain ⟨chainId,chainRead,rest⟩ := bindOk.mp rest
    obtain ⟨baseFee,feeRead,_⟩ := bindOk.mp rest
    exact ⟨⟨hash,hashRead⟩,⟨sender,senderRead⟩,⟨recipient,recipientRead⟩,⟨value,valueRead⟩,⟨nonce,nonceRead⟩,
      ⟨gasUsed,gasRead⟩,statusOk.mp ⟨status,statusRead⟩,⟨number,numberRead⟩,⟨timestamp,timeRead⟩,⟨chainId,chainRead⟩,
      ⟨baseFee,feeRead⟩⟩
  · rintro ⟨⟨hash,hashRead⟩,⟨sender,senderRead⟩,⟨recipient,recipientRead⟩,⟨value,valueRead⟩,⟨nonce,nonceRead⟩,
      ⟨gasUsed,gasRead⟩,known,⟨number,numberRead⟩,⟨timestamp,timeRead⟩,⟨chainId,chainRead⟩,⟨baseFee,feeRead⟩⟩
    obtain ⟨status,statusRead⟩ := statusOk.mpr known
    exact ⟨_,bindOk.mpr ⟨hash,hashRead,bindOk.mpr ⟨sender,senderRead,bindOk.mpr ⟨recipient,recipientRead,
      bindOk.mpr ⟨value,valueRead,bindOk.mpr ⟨nonce,nonceRead,bindOk.mpr ⟨gasUsed,gasRead,
      bindOk.mpr ⟨status,statusRead,bindOk.mpr ⟨number,numberRead,bindOk.mpr ⟨timestamp,timeRead,
      bindOk.mpr ⟨chainId,chainRead,bindOk.mpr ⟨baseFee,feeRead,rfl⟩⟩⟩⟩⟩⟩⟩⟩⟩⟩⟩⟩

section
variable {item : Pending} {raw : RawFrame} {call call' : Call} {nc : NormalizedCall} {context context' : Address}
  {path : String} {i : Nat} {acc : Accumulator}

theorem kindPath {path' kind : String} {k : CallKind} (parsed : parseCallKind path kind = .ok k) :
    parseCallKind path' kind = .ok k := by
  unfold parseCallKind at parsed ⊢
  split at parsed <;> first | exact parsed | contradiction

theorem FrameRead.unique (read : FrameRead raw call) (again : FrameRead raw call') :
    call.kind = call'.kind ∧ call.sender = call'.sender ∧ call.recipient = call'.recipient := by
  obtain ⟨path,kind⟩ := read.kind
  obtain ⟨path',kind'⟩ := again.kind
  have sender := read.sender.symm.trans again.sender
  have recipient := read.recipient.symm.trans again.recipient
  refine ⟨?_,Except.ok.inj sender,Except.ok.inj recipient⟩
  exact Except.ok.inj ((kindPath kind).symm.trans kind')

theorem worksOnUnique (read : FrameRead raw call) (again : FrameRead raw call')
    (works : WorksOn item.parentStorageContext call context)
    (works' : WorksOn item.parentStorageContext call' context') : context = context' := by
  obtain ⟨kind,sender,recipient⟩ := read.unique again
  unfold WorksOn at works works'
  rw [← kind,← sender,← recipient] at works'
  split at works
  · rename_i delegated
    rw [if_pos delegated,works] at works'
    exact Option.some.inj works'
  · rename_i own
    rw [if_neg own,works] at works'
    exact works'

def storedCall (nc : NormalizedCall) : Call :=
  ⟨⟨0⟩,nc.parentIndex.map callIdAt,nc.kind,nc.depth,nc.sender,nc.recipient,nc.value,nc.gasLimit,nc.gasUsed,
    nc.succeeded,nc.selector⟩

theorem frameStored (parsed : parseFrame item raw = .ok nc) : FrameRead raw (storedCall nc) :=
  frameRead parsed ⟨rfl,rfl,rfl,rfl,rfl,⟨rfl,rfl⟩,rfl,rfl⟩

theorem frameParsed (read : FrameRead raw call) : ∃ nc, parseFrame item raw = .ok nc ∧
    nc.kind = call.kind ∧ nc.sender = call.sender ∧ nc.recipient = call.recipient := by
  obtain ⟨⟨path,kind⟩,sender,recipient,value,gasLimit,gasUsed,_,input,inputRead,_⟩ := read
  exact ⟨_,bindOk.mpr ⟨_,kindPath kind,bindOk.mpr ⟨_,sender,bindOk.mpr ⟨_,recipient,bindOk.mpr ⟨_,value,
    bindOk.mpr ⟨_,gasLimit,bindOk.mpr ⟨_,gasUsed,bindOk.mpr ⟨_,inputRead,rfl⟩⟩⟩⟩⟩⟩⟩,rfl,rfl,rfl⟩

theorem storageContextOk (kind : nc.kind = call.kind) (sender : nc.sender = call.sender)
    (recipient : nc.recipient = call.recipient) :
    storageContext item nc = .ok context ↔ WorksOn item.parentStorageContext call context := by
  unfold storageContext WorksOn
  rw [kind,sender,recipient]
  split
  · cases item.parentStorageContext <;> simp
  · simp

theorem changeOk {change : RawStorageChange} : (∃ out, normalizeChange context path i change = .ok out) ↔
    ∃ read, ChangeRead change read ∧ read.slot.contract = context := by
  constructor
  · rintro ⟨out,normalized⟩
    have kept : ChangeKept out ⟨callIdAt out.callIndex,⟨out.contract,out.slot⟩,out.before,out.after⟩ := rfl
    obtain ⟨own,same⟩ := normalizedOwner normalized
    have source : ChangeOf (i,change) out := ⟨own,context,path,normalized⟩
    exact ⟨_,(changeRead source kept).2,same⟩
  · rintro ⟨⟨callId,⟨contract,slot⟩,before,after⟩,read,rfl⟩
    exact ⟨_,bindOk.mpr ⟨_,read.contract,bindOk.mpr ⟨(),if_pos rfl,bindOk.mpr ⟨_,read.slot,
      bindOk.mpr ⟨_,read.before,bindOk.mpr ⟨_,read.after,rfl⟩⟩⟩⟩⟩⟩

theorem changesOk : (∃ next, processStorageChanges raw i context path acc = .ok next) ↔
    ∀ change ∈ raw.storageChanges, ∃ read, ChangeRead change read ∧ read.slot.contract = context := by
  constructor
  · rintro ⟨next,processed⟩ change mem
    obtain ⟨changes,_,each⟩ := processStorageChangesOk processed
    obtain ⟨out,_,normalized⟩ := forall₂Right each.flip mem
    exact changeOk.mp ⟨out,normalized⟩
  · intro each
    unfold processStorageChanges
    generalize raw.storageChanges = given at each ⊢
    induction given generalizing acc with
    | nil => exact ⟨acc,rfl⟩
    | cons change rest ih =>
      obtain ⟨first,later⟩ := List.forall_mem_cons.mp each
      obtain ⟨out,normalized⟩ := changeOk.mpr first
      obtain ⟨next,done⟩ := @ih { acc with storageChanges := acc.storageChanges ++ [out] } later
      refine ⟨next,?_⟩
      rw [List.foldlM_cons]
      exact bindOk.mpr ⟨_,bindOk.mpr ⟨out,normalized,rfl⟩,done⟩

theorem logOk {log : RawLog} : (∃ next, processLog i path acc log = .ok next) ↔
    (∃ read, LogRead log read ∧ read.topics.length ≤ 4) ∧ ∀ n ∈ logIndexOf log, n ∉ acc.seenLogIndices := by
  constructor
  · rintro ⟨next,processed⟩
    obtain ⟨out,own,_⟩ := processLogOk processed
    refine ⟨⟨⟨⟨0⟩,⟨0⟩,out.address,out.topics,out.data,out.logIndex⟩,
      ⟨own.address,own.topics,own.data,own.logIndex⟩,own.fewTopics⟩,fun n given => ?_⟩
    obtain ⟨index,read,rest⟩ := bindOk.mp processed
    obtain ⟨_,fresh,_⟩ := bindOk.mp rest
    cases (toOptionOk.mp given).symm.trans read
    unfold checkFresh at fresh
    split at fresh
    · contradiction
    · rename_i new
      simpa using new
  · rintro ⟨⟨read,⟨address,topics,data,n,index,narrow⟩,few⟩,new⟩
    have fresh : checkFresh acc.seenLogIndices n = .ok () := by
      have unseen := new n (toOptionOk.mpr index)
      exact if_neg (by simpa using unseen)
    have small : checkTopics path read.topics = .ok () := if_neg (Nat.not_lt.mpr few)
    have fits : narrowLogIndex n = .ok read.logIndex := by
      have bound : n.toNat < UInt32.size := narrow ▸ read.logIndex.raw.toNat_lt
      rw [narrowLogIndex,if_pos bound,← narrow,UInt32.ofNat_toNat]
    exact ⟨_,bindOk.mpr ⟨n,index,bindOk.mpr ⟨(),fresh,bindOk.mpr ⟨_,address,bindOk.mpr ⟨_,topics,
      bindOk.mpr ⟨(),small,bindOk.mpr ⟨_,data,bindOk.mpr ⟨_,fits,rfl⟩⟩⟩⟩⟩⟩⟩⟩

theorem logSeen {log : RawLog} {next : Accumulator} (processed : processLog i path acc log = .ok next) (n : UInt64) :
    n ∈ next.seenLogIndices ↔ n ∈ acc.seenLogIndices ∨ n ∈ (logIndexOf log).toList := by
  obtain ⟨index,read,rest⟩ := bindOk.mp processed
  obtain ⟨_,_,rest⟩ := bindOk.mp rest
  obtain ⟨_,_,rest⟩ := bindOk.mp rest
  obtain ⟨_,_,rest⟩ := bindOk.mp rest
  obtain ⟨_,_,rest⟩ := bindOk.mp rest
  obtain ⟨_,_,rest⟩ := bindOk.mp rest
  obtain ⟨_,_,done⟩ := bindOk.mp rest
  cases done
  rw [logIndexOf,read]
  simp [Except.toOption,or_comm]

theorem logsOk : ((∃ next, processLogs raw i path acc = .ok next) ↔
      (∀ log ∈ raw.logs, ∃ read, LogRead log read ∧ read.topics.length ≤ 4) ∧
      Fresh (logIndices raw) (· ∈ acc.seenLogIndices)) ∧
    ∀ next, processLogs raw i path acc = .ok next →
      ∀ n, n ∈ next.seenLogIndices ↔ n ∈ acc.seenLogIndices ∨ n ∈ logIndices raw := by
  unfold processLogs logIndices
  generalize raw.logs = given
  induction given generalizing acc with
  | nil =>
    refine ⟨⟨fun _ => ⟨by simp,freshNil⟩,fun _ => ⟨acc,rfl⟩⟩,fun next done n => ?_⟩
    cases done
    simp
  | cons log rest ih =>
    have names : (log :: rest).filterMap logIndexOf = (logIndexOf log).toList ++ rest.filterMap logIndexOf := by
      cases given : logIndexOf log <;> simp [given]
    have single {seen : UInt64 → Prop} : Fresh (logIndexOf log).toList seen ↔ ∀ n ∈ logIndexOf log, ¬ seen n := by
      cases logIndexOf log <;> simp [Fresh]
    rw [List.foldlM_cons,names,freshAppend,single,List.forall_mem_cons]
    refine ⟨⟨?_,?_⟩,fun next done n => ?_⟩
    · rintro ⟨next,done⟩
      obtain ⟨middle,first,later⟩ := bindOk.mp done
      obtain ⟨own,new⟩ := logOk.mp ⟨middle,first⟩
      obtain ⟨others,apart⟩ := ih.1.mp ⟨next,later⟩
      exact ⟨⟨own,others⟩,new,(Fresh.same (logSeen first)).mp apart⟩
    · rintro ⟨⟨own,others⟩,new,apart⟩
      obtain ⟨middle,first⟩ := @logOk path i acc log |>.mpr ⟨own,new⟩
      obtain ⟨next,later⟩ := ih.1.mpr ⟨others,(Fresh.same (logSeen first)).mpr apart⟩
      exact ⟨next,bindOk.mpr ⟨middle,first,later⟩⟩
    · obtain ⟨middle,first,later⟩ := bindOk.mp done
      rw [ih.2 next later n,logSeen first n,List.mem_append,or_assoc]

theorem changesSeen {next : Accumulator} (processed : processStorageChanges raw i context path acc = .ok next) :
    next.seenLogIndices = acc.seenLogIndices := by
  obtain ⟨changes,rfl,_⟩ := processStorageChangesOk processed
  rfl

theorem depthOk : checkDepth item = .ok () ↔ item.depth.toNat ≤ 1024 := by
  unfold checkDepth
  split
  · rename_i deep
    have deep : maxCallDepth < item.depth := deep
    exact ⟨fun given => by contradiction,fun shallow => absurd shallow (Nat.not_le_of_lt deep)⟩
  · rename_i shallow
    exact ⟨fun _ => UInt16.not_lt.mp shallow,fun _ => rfl⟩

end

def reachedBy (item : Pending) : Reached := ⟨item.depth.toNat,item.parentStorageContext⟩

theorem traversalAdmits :
    traversal.Admits reachedBy Enters logIndices (fun acc n => n ∈ acc.seenLogIndices) := by
  refine ⟨?_,?_,?_⟩
  · intro item raw acc parent next entered
    have processed : processCall item raw acc = .ok (parent,next) := entered
    have parts := processCallOk processed
    obtain ⟨nc,middle,parsed,given,changed,logged⟩ := parts.run
    have works := (@storageContextOk item (storedCall nc) nc parent.context rfl rfl rfl).mp given
    obtain ⟨logs,fresh⟩ := logsOk.1.mp ⟨next,logged⟩
    have seen := changesSeen changed
    rw [seen] at fresh
    refine ⟨fresh,⟨_,⟨parent.context,⟨parts.shallow,⟨_,frameStored parsed,works⟩,changesOk.mp ⟨middle,changed⟩,
      logs⟩,rfl⟩,fun i => ?_⟩,fun n => ?_⟩
    · simp only [reachedBy,traversal,parts.shared.1,(parts.nextDepth .on).2]
    · rw [logsOk.2 next logged n,seen]
  · rintro item raw acc _ ⟨context,⟨shallow,⟨call,read,works⟩,changes,logs⟩,rfl⟩ fresh
    obtain ⟨nc,parsed,kind,sender,recipient⟩ := @frameParsed item raw call read
    have given := (storageContextOk kind sender recipient).mpr works
    obtain ⟨middle,changed⟩ := @changesOk raw context item.path acc.calls.length
      { acc with calls := acc.calls ++ [nc] } |>.mpr changes
    have seen := changesSeen changed
    obtain ⟨next,logged⟩ := @logsOk raw item.path acc.calls.length middle |>.1.mpr ⟨logs,by rw [seen]; exact fresh⟩
    exact ⟨⟨item,acc.calls.length,context⟩,next,bindOk.mpr ⟨(),depthOk.mpr shallow,bindOk.mpr ⟨nc,parsed,
      bindOk.mpr ⟨context,given,bindOk.mpr ⟨middle,changed,bindOk.mpr ⟨next,logged,rfl⟩⟩⟩⟩⟩⟩
  · rintro reached raw _ _ ⟨context,ok,rfl⟩ ⟨context',ok',rfl⟩
    obtain ⟨call,read,works⟩ := ok.fields
    obtain ⟨call',read',works'⟩ := ok'.fields
    rw [@worksOnUnique ⟨none,0,reached.inherited,""⟩ raw call call' context context' read read' works works']

structure Fits (doc : RawTraceDocument) : Prop where
  frames : doc.root.size < UInt32.size
  changes : (doc.root.flatten.flatMap RawFrame.storageChanges).length < UInt32.size
  logs : (doc.root.flatten.flatMap RawFrame.logs).length < UInt32.size

section
variable {doc : RawTraceDocument} {nt : NormalizedTrace}

theorem normalizedIff : (∃ nt, normalizeVisited doc = .ok nt) ↔ Acceptable doc := by
  have root := (Visitor.visitSucceeds traversalAdmits doc.root rootPending .empty).1
  have unseen {names : List UInt64} : Fresh names (fun n => n ∈ Accumulator.empty.seenLogIndices) ↔ names.Nodup := by
    simp [Fresh,Accumulator.empty]
  rw [unseen] at root
  constructor
  · rintro ⟨nt,normalized⟩
    obtain ⟨header,first,rest⟩ := bindOk.mp normalized
    obtain ⟨acc,visited,_⟩ := bindOk.mp rest
    obtain ⟨frames,indices⟩ := root.mp ⟨acc,visited⟩
    exact ⟨headerOk.mp ⟨header,first⟩,frames,indices⟩
  · rintro ⟨header,frames,indices⟩
    obtain ⟨header,first⟩ := headerOk.mpr header
    obtain ⟨acc,visited⟩ := root.mpr ⟨frames,indices⟩
    exact ⟨_,bindOk.mpr ⟨header,first,bindOk.mpr ⟨acc,visited,rfl⟩⟩⟩

theorem attributedItems {β : Type} {part : RawFrame → List β} {start : Nat} {xs : List (Rose.Placed RawFrame)} :
    (attributed part start xs).map Prod.snd = (xs.map Rose.Placed.value).flatMap part := by
  induction xs generalizing start with
  | nil => rfl
  | cons x xs ih =>
    rw [attributed,List.map_append,ih,List.map_cons,List.flatMap_cons,List.map_map]
    exact congrArg (· ++ _) (List.map_id _)

theorem transfersFew {start : Nat} {logs : List NormalizedLog} : (transfersOf start logs).length ≤ logs.length := by
  induction logs generalizing start with
  | nil => exact Nat.le_refl _
  | cons log logs ih =>
    have one : (decodedTransfers start log.address log.topics log.data).length ≤ 1 := by
      unfold decodedTransfers
      split <;> simp
    have split : transfersOf start (log :: logs) =
        decodedTransfers start log.address log.topics log.data ++ transfersOf (start + 1) logs := rfl
    rw [split,List.length_append,List.length_cons]
    have rest := @ih (start + 1)
    omega

theorem normalizedNarrow (fits : Fits doc) (normalized : normalizeVisited doc = .ok nt) : Narrow nt := by
  obtain ⟨header,_,rest⟩ := bindOk.mp normalized
  obtain ⟨acc,visited,last⟩ := bindOk.mp rest
  cases last
  have lists := traversalLists visited
  obtain ⟨calls,sameCalls,frames⟩ := lists.calls
  obtain ⟨changes,sameChanges,slots⟩ := lists.storageChanges
  obtain ⟨logs,sameLogs,events,sameTransfers⟩ := lists.logs
  have sameCalls : acc.calls = calls := sameCalls
  have sameChanges : acc.storageChanges = changes := sameChanges
  have sameLogs : acc.logs = logs := sameLogs
  have sameTransfers : acc.tokenTransfers = transfersOf 0 logs := sameTransfers
  have items {β : Type} (part : RawFrame → List β) :
      (attributed part 0 (doc.root.listing 0 none 0)).length = (doc.root.flatten.flatMap part).length := by
    rw [← Rose.listingValues doc.root 0 none 0,← @attributedItems _ part 0,List.length_map]
  have logCount : logs.length < UInt32.size := by
    rw [← events.length_eq]
    exact items RawFrame.logs ▸ fits.logs
  refine ⟨?_,?_,?_,?_⟩
  · rw [sameCalls,← frames.length_eq,Rose.listingLength]
    exact fits.frames
  · rw [sameChanges,← slots.length_eq]
    exact items RawFrame.storageChanges ▸ fits.changes
  · rw [sameLogs]
    exact logCount
  · rw [sameTransfers]
    exact Nat.lt_of_le_of_lt transfersFew logCount

theorem framesListed {P : RawFrame → Prop} : (∀ x ∈ doc.root.listing 0 none 0, P x.value) ↔ ∀ raw ∈ doc.root, P raw := by
  have values (raw : RawFrame) : raw ∈ doc.root ↔ ∃ x ∈ doc.root.listing 0 none 0, x.value = raw := by
    rw [← Rose.memFlatten,← Rose.listingValues doc.root 0 none 0,List.mem_map]
  simp only [values,forall_exists_index,and_imp]
  exact ⟨fun each raw x mem same => same ▸ each x mem,fun each x mem => each _ x mem rfl⟩

theorem documentAccepted (checks : OverflowChecks) (doc : RawTraceDocument) (source : TraceSource) :
    ((∃ nt, normalize checks doc = some (.ok nt)) ↔ Acceptable doc) ∧
    ((∃ e, normalize checks doc = some (.error (.error e))) ↔ ¬ Acceptable doc) ∧
    (Fits doc → ((∃ trace, ingest checks (.ok doc) source = some (.ok trace)) ↔
      Acceptable doc ∧ ∀ raw ∈ doc.root, staticTransfer raw = false)) := by
  rw [← normalizedIff]
  simp only [ingest,normalizeVisits]
  cases normalized : normalizeVisited doc with
  | error e => simp [raise,bind,Except.bind]
  | ok nt =>
    refine ⟨by simp [raise],by simp [raise],fun fits => ?_⟩
    obtain ⟨sound,carries⟩ := normalizedSound normalized
    have built := @buildIff nt checks sound (normalizedNarrow fits normalized) source
    have static := @framesListed doc fun raw => staticTransfer raw = false
    rw [← static,← carries,← built]
    simp [raise,bind,Except.bind]

end
end RootCause.Ingestion
