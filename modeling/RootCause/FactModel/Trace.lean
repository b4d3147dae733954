import RootCause.FactModel.Arena

/-! The trace of one transaction: its arena, the transaction and the block, kept
together with the agreement of hash, chain and block number. -/
namespace RootCause.FactModel

inductive TxStatus where
  | success
  | reverted
  deriving DecidableEq, Repr

structure Transaction where
  hash : TxHash
  sender : Address
  recipient : Option Address
  value : Wei
  nonce : Nonce
  gasUsed : Gas
  status : TxStatus
  deriving DecidableEq, Repr

structure BlockContext where
  number : BlockNumber
  timestamp : Timestamp
  chainId : ChainId
  baseFee : Option Wei
  deriving DecidableEq, Repr

inductive TraceSource where
  | archiveNodeRpc (endpointLabel : String)
  deriving DecidableEq, Repr

structure TraceMetadata where
  transactionHash : TxHash
  chainId : ChainId
  blockNumber : BlockNumber
  source : TraceSource
  deriving DecidableEq, Repr

structure Trace where
  metadata : TraceMetadata
  block : BlockContext
  transaction : Transaction
  arena : FactArena
  sameHash : metadata.transactionHash = transaction.hash
  sameChain : metadata.chainId = block.chainId
  sameBlock : metadata.blockNumber = block.number

def Trace.new (metadata : TraceMetadata) (block : BlockContext) (transaction : Transaction)
    (arena : FactArena) : Except String Trace :=
  if sameHash : metadata.transactionHash = transaction.hash then
    if sameChain : metadata.chainId = block.chainId then
      if sameBlock : metadata.blockNumber = block.number then
        .ok ⟨metadata,block,transaction,arena,sameHash,sameChain,sameBlock⟩
      else .error "TraceMetadata.block_number does not match BlockContext.number"
    else .error "TraceMetadata.chain_id does not match BlockContext.chain_id"
  else .error "TraceMetadata.transaction_hash does not match Transaction.hash"

theorem Trace.newOf {metadata : TraceMetadata} {block : BlockContext} {transaction : Transaction}
    {arena : FactArena} (sameHash : metadata.transactionHash = transaction.hash)
    (sameChain : metadata.chainId = block.chainId) (sameBlock : metadata.blockNumber = block.number) :
    ∃ trace, Trace.new metadata block transaction arena = .ok trace :=
  ⟨_,by rw [Trace.new,dif_pos sameHash,dif_pos sameChain,dif_pos sameBlock]⟩

theorem Trace.newArena {metadata : TraceMetadata} {block : BlockContext} {transaction : Transaction}
    {arena : FactArena} {trace : Trace} (made : Trace.new metadata block transaction arena = .ok trace) :
    trace.arena = arena := by
  unfold Trace.new at made
  split at made
  · split at made
    · split at made
      · cases made
        rfl
      · contradiction
    · contradiction
  · contradiction

structure ValueFlow where
  callId : CallId
  sender : Address
  recipient : Option Address
  amount : Wei
  deriving DecidableEq, Repr

def ValueFlow.fromCall (call : Call) : Option ValueFlow :=
  if call.value = Wei.zero then none
  else some ⟨call.id,call.sender,call.recipient,call.value⟩

def StorageChange.isNetChange (change : StorageChange) : Bool := change.before != change.after

def FactArena.valueFlows (arena : FactArena) : List ValueFlow :=
  arena.calls.filterMap ValueFlow.fromCall

end RootCause.FactModel
