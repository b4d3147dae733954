import RootCause.Ingestion.Hex
import RootCause.Library.Tree

/-! The raw trace document and its normalization: one walk of the call tree with an
explicit stack parses every field, attributes storage changes and logs to their calls
and decodes transfers. -/
namespace RootCause.Ingestion
open Library FactModel

structure RawStorageChange where
  contract : String
  slot : String
  before : String
  after : String
  deriving DecidableEq, Repr

structure RawLog where
  address : String
  topics : List String
  data : String
  logIndex : String
  deriving DecidableEq, Repr

/- The fields of a raw call but its children, which are those of the tree. -/
structure RawFrame where
  kind : String
  sender : String
  recipient : Option String
  value : String
  gasLimit : String
  gasUsed : String
  succeeded : Bool
  input : Option String
  storageChanges : List RawStorageChange
  logs : List RawLog
  deriving DecidableEq, Repr

abbrev RawCall := Rose RawFrame

structure RawTransaction where
  hash : String
  sender : String
  recipient : Option String
  value : String
  nonce : String
  gasUsed : String
  status : String
  deriving DecidableEq, Repr

structure RawBlock where
  number : String
  timestamp : String
  chainId : String
  baseFee : Option String
  deriving DecidableEq, Repr

structure RawTraceDocument where
  transaction : RawTransaction
  block : RawBlock
  root : RawCall

def maxCallDepth : UInt16 := 1024

/- `keccak256("Transfer(address,address,uint256)")`. -/
def transferEventTopic0 : Word := ⟨⟨[0xdd,0xf2,0x52,0xad,0x1b,0xe2,0xc8,0x9b,0x69,0xc2,0xb0,0x68,0xfc,0x37,
  0x8d,0xaa,0x95,0x2b,0xa7,0xf1,0x63,0xc4,0xa1,0x16,0x28,0xf5,0x5a,0x4d,0xf5,0x23,0xb3,0xef],rfl⟩⟩

structure Accumulator where
  calls : List NormalizedCall
  storageChanges : List NormalizedStorageChange
  logs : List NormalizedLog
  tokenTransfers : List NormalizedTokenTransfer
  seenLogIndices : List UInt64
  deriving DecidableEq, Repr

def Accumulator.empty : Accumulator := ⟨[],[],[],[],[]⟩

def parseCallKind (path raw : String) : Except IngestionError CallKind :=
  match raw.toLower with
  | "call" => .ok .call
  | "staticcall" => .ok .staticCall
  | "delegatecall" => .ok .delegateCall
  | "callcode" => .ok .callCode
  | "create" => .ok .create
  | "create2" => .ok .create2
  | "selfdestruct" => .ok .selfdestruct
  | other => .error (.unsupportedFeature ("unrecognized call kind `" ++ other ++ "` at " ++ path))

def executesInCallerContext (kind : CallKind) : Bool := kind = .delegateCall || kind = .callCode

def extractSelector (calldata : List UInt8) : Option (FixedBytes 4) :=
  if size : (calldata.take 4).length = 4 then some ⟨calldata.take 4,size⟩ else none

/- What a pending call of the stack carries beside its raw node. -/
structure Pending where
  parentIndex : Option Nat
  depth : UInt16
  parentStorageContext : Option Address
  path : String
  deriving DecidableEq, Repr

def parseFrame (item : Pending) (raw : RawFrame) : Except IngestionError NormalizedCall := do
  let kind ← parseCallKind item.path raw.kind
  let sender ← parseAddress "call.from" raw.sender
  let recipient ← raw.recipient.mapM (parseAddress "call.to")
  let value ← parseHexU128 "call.value" raw.value
  let gasLimit ← parseHexU64 "call.gasLimit" raw.gasLimit
  let gasUsed ← parseHexU64 "call.gasUsed" raw.gasUsed
  let input ← raw.input.mapM (parseHexBytes "call.input")
  pure {
    parentIndex := item.parentIndex
    depth := ⟨item.depth⟩
    kind := kind
    sender := sender
    recipient := recipient
    value := ⟨value⟩
    gasLimit := ⟨gasLimit⟩
    gasUsed := ⟨gasUsed⟩
    succeeded := raw.succeeded
    selector := input.bind extractSelector }

def storageContext (item : Pending) (call : NormalizedCall) : Except IngestionError Address :=
  if executesInCallerContext call.kind then
    match item.parentStorageContext with
    | some context => .ok context
    | none => .error (.unsupportedFeature ("call at " ++ item.path ++
        " is a delegatecall/callcode with no parent to inherit a storage context from"))
  else .ok (call.recipient.getD call.sender)

def checkOwner (declared context : Address) (path : String) : Except IngestionError Unit :=
  if declared = context then .ok ()
  else .error (.invalidStorageOwnership path (displayAddress declared) (displayAddress context))

def normalizeChange (context : Address) (path : String) (index : Nat) (change : RawStorageChange) :
    Except IngestionError NormalizedStorageChange := do
  let declared ← parseAddress "storageChange.contract" change.contract
  checkOwner declared context path
  let slot ← parseWord "storageChange.slot" change.slot
  let before ← parseWord "storageChange.before" change.before
  let after ← parseWord "storageChange.after" change.after
  pure ⟨index,declared,slot,before,after⟩

def processStorageChanges (raw : RawFrame) (thisIndex : Nat) (context : Address) (path : String)
    (acc : Accumulator) : Except IngestionError Accumulator :=
  raw.storageChanges.foldlM (fun acc change => do
    let normalized ← normalizeChange context path thisIndex change
    pure { acc with storageChanges := acc.storageChanges ++ [normalized] }) acc

def addressFromTopic (word : Word) : Option Address :=
  if word.raw.bytes.take 12 ≠ List.replicate 12 0 then none
  else some ⟨⟨word.raw.bytes.drop 12,by simp [word.raw.size]⟩⟩

def fromBeBytes (bytes : List UInt8) : BitVec 128 :=
  BitVec.ofNat 128 (bytes.foldl (fun n b => n * 256 + b.toNat) 0)

def tryDecodeTokenTransfer (token : Address) (topics : List Word) (data : List UInt8) :
    Option (Address × Address × Address × Wei) :=
  match topics with
  | [topic0,topic1,topic2] =>
    if topic0 ≠ transferEventTopic0 ∨ data.length ≠ 32 then none
    else do
      let sender ← addressFromTopic topic1
      let recipient ← addressFromTopic topic2
      if data.take 16 ≠ List.replicate 16 0 then none
      some (token,sender,recipient,⟨fromBeBytes (data.drop 16)⟩)
  | _ => none

def decodedTransfers (normalizedLogIndex : Nat) (address : Address) (topics : List Word)
    (data : List UInt8) : List NormalizedTokenTransfer :=
  match tryDecodeTokenTransfer address topics data with
  | some (token,sender,recipient,amount) => [⟨normalizedLogIndex,token,sender,recipient,amount⟩]
  | none => []

def checkFresh (seen : List UInt64) (logIndex : UInt64) : Except IngestionError Unit :=
  if seen.contains logIndex then .error (.duplicateLogIndex logIndex) else .ok ()

def checkTopics (path : String) (topics : List Word) : Except IngestionError Unit :=
  if topics.length > 4 then .error (.unsupportedFeature
    ("log at " ++ path ++ " has more than 4 topics, which the EVM cannot produce"))
  else .ok ()

def narrowLogIndex (logIndex : UInt64) : Except IngestionError LogIndex :=
  if logIndex.toNat < UInt32.size then .ok ⟨UInt32.ofNat logIndex.toNat⟩
  else .error (.unsupportedFeature ("log index " ++ toString logIndex.toNat ++ " exceeds u32::MAX"))

def processLog (thisIndex : Nat) (path : String) (acc : Accumulator) (log : RawLog) :
    Except IngestionError Accumulator := do
  let logIndexRaw ← parseHexU64 "log.logIndex" log.logIndex
  checkFresh acc.seenLogIndices logIndexRaw
  let address ← parseAddress "log.address" log.address
  let topics ← log.topics.mapM (parseWord "log.topics[]")
  checkTopics path topics
  let data ← parseHexBytes "log.data" log.data
  let logIndex ← narrowLogIndex logIndexRaw
  pure { acc with
    logs := acc.logs ++ [⟨thisIndex,address,topics,data,logIndex⟩]
    tokenTransfers := acc.tokenTransfers ++ decodedTransfers acc.logs.length address topics data
    seenLogIndices := logIndexRaw :: acc.seenLogIndices }

def processLogs (raw : RawFrame) (thisIndex : Nat) (path : String) (acc : Accumulator) :
    Except IngestionError Accumulator :=
  raw.logs.foldlM (processLog thisIndex path) acc

/- What a processed call leaves for its children. -/
structure Processed where
  item : Pending
  thisIndex : Nat
  context : Address
  deriving DecidableEq, Repr

def checkDepth (item : Pending) : Except IngestionError Unit :=
  if item.depth > maxCallDepth then .error (.unsupportedFeature ("call tree depth at " ++ item.path ++
    " exceeds the EVM's protocol call-depth limit of " ++ toString maxCallDepth.toNat))
  else .ok ()

def processCall (item : Pending) (raw : RawFrame) (acc : Accumulator) :
    Except IngestionError (Processed × Accumulator) := do
  checkDepth item
  let call ← parseFrame item raw
  let context ← storageContext item call
  let thisIndex := acc.calls.length
  let acc ← processStorageChanges raw thisIndex context item.path { acc with calls := acc.calls ++ [call] }
  let acc ← processLogs raw thisIndex item.path acc
  pure (⟨item,thisIndex,context⟩,acc)

def childPath (path : String) (i : Nat) : String := path ++ ".calls[" ++ toString i ++ "]"

/- The children are pushed last to first; the head of the list is the top of the stack. -/
def pushChildren (checks : OverflowChecks) (parent : Processed) (calls : List RawCall)
    (stack : List (Pending × RawCall)) :
    Except (Failure IngestionError) (List (Pending × RawCall)) :=
  calls.zipIdx.reverse.foldlM (fun stack child => do
    let depth ← unwrap "attempt to add with overflow" (checks.succ parent.item.depth)
    let item : Pending := ⟨some parent.thisIndex,depth,some parent.context,
      childPath parent.item.path child.2⟩
    pure ((item,child.1) :: stack)) stack

/- The loop of `walk_tree`; the outer `none` means that it ran out of fuel. -/
def walkLoop (checks : OverflowChecks) : Nat → List (Pending × RawCall) → Accumulator →
    Option (Except (Failure IngestionError) Accumulator)
  | 0, _, _ => none
  | _ + 1, [], acc => some (.ok acc)
  | fuel + 1, (item,.node raw calls) :: stack, acc =>
    match processCall item raw acc with
    | .error e => some (.error (.error e))
    | .ok (parent,acc) =>
      match pushChildren checks parent calls stack with
      | .error e => some (.error e)
      | .ok stack => walkLoop checks fuel stack acc

def rootPending : Pending := ⟨none,0,none,"root"⟩

/- Every turn takes one node off the stack, so this much fuel is enough. -/
def walkTree (checks : OverflowChecks) (root : RawCall) (acc : Accumulator) :
    Option (Except (Failure IngestionError) Accumulator) :=
  walkLoop checks (root.size + 1) [(rootPending,root)] acc

def parseStatus (status : String) : Except IngestionError TxStatus :=
  match status with
  | "success" => .ok .success
  | "reverted" => .ok .reverted
  | other => .error (.unsupportedFeature ("unrecognized transaction status `" ++ other ++ "`"))

/- The fields of the transaction and of the block, with the facts still to be filled in. -/
def normalizeHeader (doc : RawTraceDocument) : Except IngestionError NormalizedTrace := do
  let hash ← parseWord "transaction.hash" doc.transaction.hash
  let sender ← parseAddress "transaction.from" doc.transaction.sender
  let recipient ← doc.transaction.recipient.mapM (parseAddress "transaction.to")
  let value ← parseHexU128 "transaction.value" doc.transaction.value
  let nonce ← parseHexU64 "transaction.nonce" doc.transaction.nonce
  let gasUsed ← parseHexU64 "transaction.gasUsed" doc.transaction.gasUsed
  let status ← parseStatus doc.transaction.status
  let number ← parseHexU64 "block.number" doc.block.number
  let timestamp ← parseHexU64 "block.timestamp" doc.block.timestamp
  let chainId ← parseHexU64 "block.chainId" doc.block.chainId
  let baseFee ← doc.block.baseFee.mapM (parseHexU128 "block.baseFee")
  pure {
    transactionHash := ⟨hash⟩
    transactionFrom := sender
    transactionTo := recipient
    transactionValue := ⟨value⟩
    transactionNonce := ⟨nonce⟩
    transactionGasUsed := ⟨gasUsed⟩
    transactionStatus := status
    blockNumber := ⟨number⟩
    blockTimestamp := ⟨timestamp⟩
    blockChainId := ⟨chainId⟩
    blockBaseFee := baseFee.map Wei.mk
    calls := []
    storageChanges := []
    logs := []
    tokenTransfers := [] }

def normalize (checks : OverflowChecks) (doc : RawTraceDocument) :
    Option (Except (Failure IngestionError) NormalizedTrace) :=
  match normalizeHeader doc with
  | .error e => some (.error (.error e))
  | .ok header => (walkTree checks doc.root .empty).map fun walked => do
    let acc ← walked
    pure { header with
      calls := acc.calls
      storageChanges := acc.storageChanges
      logs := acc.logs
      tokenTransfers := acc.tokenTransfers }

def ingest (checks : OverflowChecks) (decoded : Except IngestionError RawTraceDocument)
    (provenance : TraceSource) : Option (Except (Failure IngestionError) Trace) :=
  match decoded with
  | .error e => some (.error (.error e))
  | .ok raw => (normalize checks raw).map fun normalized => do
    let normalized ← normalized
    build checks normalized provenance

end RootCause.Ingestion
