import RootCause.FactModel.Primitives

/-! The four stored facts. Each constructor checks only what a single fact can
check; what relates facts to each other is checked by the arena. -/
namespace RootCause.FactModel

inductive CallKind where
  | call
  | staticCall
  | delegateCall
  | callCode
  | create
  | create2
  | selfdestruct
  deriving DecidableEq, Repr

def CallKind.canCarryValue (kind : CallKind) : Bool := kind != .staticCall

structure Call where
  id : CallId
  parent : Option CallId
  kind : CallKind
  depth : CallDepth
  sender : Address
  recipient : Option Address
  value : Wei
  gasLimit : Gas
  gasUsed : Gas
  succeeded : Bool
  selector : Option (FixedBytes 4)
  deriving DecidableEq, Repr

def Call.new (id : CallId) (parent : Option CallId) (kind : CallKind) (depth : CallDepth)
    (sender : Address) (recipient : Option Address) (value : Wei) (gasLimit gasUsed : Gas)
    (succeeded : Bool) : Except String Call :=
  if !kind.canCarryValue && value != Wei.zero then
    .error "a StaticCall cannot carry a nonzero value transfer"
  else .ok ⟨id,parent,kind,depth,sender,recipient,value,gasLimit,gasUsed,succeeded,none⟩

def Call.withSelector (call : Call) (selector : FixedBytes 4) : Call :=
  { call with selector := some selector }

structure StorageSlot where
  contract : Address
  key : Word
  deriving DecidableEq, Repr

structure StorageChange where
  callId : CallId
  slot : StorageSlot
  before : Word
  after : Word
  deriving DecidableEq, Repr

structure LogEvent where
  id : LogId
  callId : CallId
  address : Address
  topics : List Word
  data : List UInt8
  logIndex : LogIndex
  deriving DecidableEq, Repr

def LogEvent.new (id : LogId) (callId : CallId) (address : Address) (topics : List Word)
    (data : List UInt8) (logIndex : LogIndex) : Except String LogEvent :=
  if topics.length > 4 then .error "an EVM log can have at most 4 topics (LOG0..LOG4)"
  else .ok ⟨id,callId,address,topics,data,logIndex⟩

structure TokenTransfer where
  logId : LogId
  token : Address
  sender : Address
  recipient : Address
  amount : Wei
  deriving DecidableEq, Repr

end RootCause.FactModel
