import RootCause.FactModel.Trace

/-! The last stage of ingestion: a normalized trace, whose facts refer to each other by
position, becomes a trace of the fact model with the ids that its builder hands out. -/
namespace RootCause.Ingestion
open Library FactModel

inductive IngestionError where
  | sourceUnavailable (reason : String)
  | malformedInput (reason : String)
  | malformedField (field value reason : String)
  | missingRequired (description : String)
  | unsupportedFeature (reason : String)
  | inconsistentStructure (reason : String)
  | invalidStorageOwnership (callPath declared expected : String)
  | duplicateLogIndex (logIndex : UInt64)
  | arenaConstruction (e : FactModelError)
  | traceConstruction (reason : String)
  deriving DecidableEq, Repr

structure NormalizedCall where
  parentIndex : Option Nat
  depth : CallDepth
  kind : CallKind
  sender : Address
  recipient : Option Address
  value : Wei
  gasLimit : Gas
  gasUsed : Gas
  succeeded : Bool
  selector : Option (FixedBytes 4)
  deriving DecidableEq, Repr

structure NormalizedStorageChange where
  callIndex : Nat
  contract : Address
  slot : Word
  before : Word
  after : Word
  deriving DecidableEq, Repr

structure NormalizedLog where
  callIndex : Nat
  address : Address
  topics : List Word
  data : List UInt8
  logIndex : LogIndex
  deriving DecidableEq, Repr

structure NormalizedTokenTransfer where
  logIndexInVec : Nat
  token : Address
  sender : Address
  recipient : Address
  amount : Wei
  deriving DecidableEq, Repr

structure NormalizedTrace where
  transactionHash : TxHash
  transactionFrom : Address
  transactionTo : Option Address
  transactionValue : Wei
  transactionNonce : Nonce
  transactionGasUsed : Gas
  transactionStatus : TxStatus
  blockNumber : BlockNumber
  blockTimestamp : Timestamp
  blockChainId : ChainId
  blockBaseFee : Option Wei
  calls : List NormalizedCall
  storageChanges : List NormalizedStorageChange
  logs : List NormalizedLog
  tokenTransfers : List NormalizedTokenTransfer
  deriving DecidableEq, Repr

def indexed {α : Type} (xs : List α) (i : Nat) : Except (Failure IngestionError) α :=
  unwrap "index out of bounds" xs[i]?

/- The loop bodies. Each threads the builder, and the first and third also the ids
handed out so far. -/
def buildCall (s : FactArenaBuilder × List CallId) (nc : NormalizedCall) :
    Except (Failure IngestionError) (FactArenaBuilder × List CallId) := do
  let id ← s.1.nextCallId
  let parent ← nc.parentIndex.mapM (indexed s.2)
  let call ← raise .traceConstruction (Call.new id parent nc.kind nc.depth nc.sender nc.recipient
    nc.value nc.gasLimit nc.gasUsed nc.succeeded)
  let call := match nc.selector with
    | some selector => call.withSelector selector
    | none => call
  pure ((s.1.addCall call).1,s.2 ++ [id])

def buildStorageChange (callIds : List CallId) (builder : FactArenaBuilder)
    (sc : NormalizedStorageChange) : Except (Failure IngestionError) FactArenaBuilder := do
  let callId ← indexed callIds sc.callIndex
  let added ← builder.addStorageChange ⟨callId,⟨sc.contract,sc.slot⟩,sc.before,sc.after⟩
  pure added.1

def buildLog (callIds : List CallId) (s : FactArenaBuilder × List LogId) (log : NormalizedLog) :
    Except (Failure IngestionError) (FactArenaBuilder × List LogId) := do
  let callId ← indexed callIds log.callIndex
  let logId ← s.1.nextLogId
  let logEvent ← raise .traceConstruction
    (LogEvent.new logId callId log.address log.topics log.data log.logIndex)
  pure ((s.1.addLog logEvent).1,s.2 ++ [logId])

def buildTokenTransfer (logIds : List LogId) (builder : FactArenaBuilder)
    (transfer : NormalizedTokenTransfer) : Except (Failure IngestionError) FactArenaBuilder := do
  let logId ← indexed logIds transfer.logIndexInVec
  let added ← builder.addTokenTransfer
    ⟨logId,transfer.token,transfer.sender,transfer.recipient,transfer.amount⟩
  pure added.1

def build (checks : OverflowChecks) (normalized : NormalizedTrace) (source : TraceSource) :
    Except (Failure IngestionError) Trace := do
  let (builder,callIds) ← normalized.calls.foldlM buildCall (.empty,[])
  let builder ← normalized.storageChanges.foldlM (buildStorageChange callIds) builder
  let (builder,logIds) ← normalized.logs.foldlM (buildLog callIds) (builder,[])
  let builder ← normalized.tokenTransfers.foldlM (buildTokenTransfer logIds) builder
  let arena ← mapFailure .arenaConstruction (builder.build checks)
  let transaction : Transaction := ⟨normalized.transactionHash,normalized.transactionFrom,
    normalized.transactionTo,normalized.transactionValue,normalized.transactionNonce,
    normalized.transactionGasUsed,normalized.transactionStatus⟩
  let block : BlockContext := ⟨normalized.blockNumber,normalized.blockTimestamp,
    normalized.blockChainId,normalized.blockBaseFee⟩
  let metadata : TraceMetadata := ⟨normalized.transactionHash,normalized.blockChainId,
    normalized.blockNumber,source⟩
  raise .traceConstruction (Trace.new metadata block transaction arena)

theorem newId {id : CallId} {parent kind depth sender recipient value gasLimit gasUsed succeeded}
    {call : Call} (made : Call.new id parent kind depth sender recipient value gasLimit gasUsed succeeded =
      .ok call) : call.id = id := by
  unfold Call.new at made
  split at made
  · contradiction
  · cases made
    rfl

theorem newLogId {id : LogId} {callId address topics data logIndex} {l : LogEvent}
    (made : LogEvent.new id callId address topics data logIndex = .ok l) : l.id = id := by
  unfold LogEvent.new at made
  split at made
  · contradiction
  · cases made
    rfl

theorem buildCallPositional {s t : FactArenaBuilder × List CallId} {nc : NormalizedCall}
    (positional : s.1.Positional) (step : buildCall s nc = .ok t) : t.1.Positional := by
  obtain ⟨id,next,rest⟩ := bindOk.mp step
  obtain ⟨parent,_,rest⟩ := bindOk.mp rest
  obtain ⟨call,made,last⟩ := bindOk.mp rest
  cases last
  have same := newId (raiseOk.mp made)
  refine FactArenaBuilder.addCallPositional positional next ?_
  cases nc.selector with
  | none => exact same
  | some selector => exact same

theorem buildStorageChangePositional {callIds : List CallId} {s t : FactArenaBuilder}
    {sc : NormalizedStorageChange} (positional : s.Positional)
    (step : buildStorageChange callIds s sc = .ok t) : t.Positional := by
  obtain ⟨callId,_,rest⟩ := bindOk.mp step
  obtain ⟨added,given,last⟩ := bindOk.mp rest
  cases last
  exact FactArenaBuilder.addStorageChangePositional positional given

theorem buildLogPositional {callIds : List CallId} {s t : FactArenaBuilder × List LogId}
    {log : NormalizedLog} (positional : s.1.Positional) (step : buildLog callIds s log = .ok t) :
    t.1.Positional := by
  obtain ⟨callId,_,rest⟩ := bindOk.mp step
  obtain ⟨id,next,rest⟩ := bindOk.mp rest
  obtain ⟨l,made,last⟩ := bindOk.mp rest
  cases last
  exact FactArenaBuilder.addLogPositional positional next (newLogId (raiseOk.mp made))

theorem buildTokenTransferPositional {logIds : List LogId} {s t : FactArenaBuilder}
    {transfer : NormalizedTokenTransfer} (positional : s.Positional)
    (step : buildTokenTransfer logIds s transfer = .ok t) : t.Positional := by
  obtain ⟨logId,_,rest⟩ := bindOk.mp step
  obtain ⟨added,given,last⟩ := bindOk.mp rest
  cases last
  exact FactArenaBuilder.addTokenTransferPositional positional given

theorem buildStages {checks : OverflowChecks} {normalized : NormalizedTrace} {source : TraceSource}
    {trace : Trace} (built : build checks normalized source = .ok trace) : ∃ first callIds second third logIds,
      normalized.calls.foldlM buildCall (.empty,[]) = .ok (first,callIds) ∧
      normalized.storageChanges.foldlM (buildStorageChange callIds) first = .ok second ∧
      normalized.logs.foldlM (buildLog callIds) (second,[]) = .ok (third,logIds) ∧
      normalized.tokenTransfers.foldlM (buildTokenTransfer logIds) third = .ok trace.arena.facts := by
  obtain ⟨⟨first,callIds⟩,calls,rest⟩ := bindOk.mp built
  obtain ⟨second,changes,rest⟩ := bindOk.mp rest
  obtain ⟨⟨third,logIds⟩,logs,rest⟩ := bindOk.mp rest
  obtain ⟨fourth,transfers,rest⟩ := bindOk.mp rest
  obtain ⟨arena,accepted,last⟩ := bindOk.mp rest
  refine ⟨first,callIds,second,third,logIds,calls,changes,logs,?_⟩
  rw [Trace.newArena (raiseOk.mp last),FactArenaBuilder.buildFacts (mapFailureOk.mp accepted)]
  exact transfers

theorem buildPositional {checks : OverflowChecks} {normalized : NormalizedTrace} {source : TraceSource}
    {trace : Trace} (built : build checks normalized source = .ok trace) : trace.arena.Positional := by
  obtain ⟨first,callIds,second,third,logIds,calls,changes,logs,transfers⟩ := buildStages built
  have afterCalls : first.Positional := foldInvariant (fun _ _ _ => buildCallPositional)
    FactArenaBuilder.positionalEmpty calls
  have afterChanges : second.Positional :=
    foldInvariant (fun _ _ _ => buildStorageChangePositional) afterCalls changes
  have afterLogs : third.Positional := foldInvariant (fun _ _ _ => buildLogPositional) afterChanges logs
  exact foldInvariant (fun _ _ _ => buildTokenTransferPositional) afterLogs transfers

end RootCause.Ingestion
