import Mathlib.Data.List.Basic

/-! Scalar newtypes and the identities of facts. Fixed-size byte data keep their
length, machine integers their width. -/
namespace RootCause.FactModel

structure FixedBytes (n : Nat) where
  bytes : List UInt8
  size : bytes.length = n
  deriving DecidableEq, Repr

def FixedBytes.replicate (n : Nat) (byte : UInt8) : FixedBytes n :=
  ⟨List.replicate n byte,List.length_replicate⟩

structure Address where
  raw : FixedBytes 20
  deriving DecidableEq, Repr

structure Word where
  raw : FixedBytes 32
  deriving DecidableEq, Repr

structure TxHash where
  word : Word
  deriving DecidableEq, Repr

structure Wei where
  raw : BitVec 128
  deriving DecidableEq, Repr

def Wei.zero : Wei := ⟨0⟩

structure BlockNumber where
  raw : UInt64
  deriving DecidableEq, Repr

structure ChainId where
  raw : UInt64
  deriving DecidableEq, Repr

structure Timestamp where
  raw : UInt64
  deriving DecidableEq, Repr

structure Nonce where
  raw : UInt64
  deriving DecidableEq, Repr

structure Gas where
  raw : UInt64
  deriving DecidableEq, Repr

structure CallDepth where
  raw : UInt16
  deriving DecidableEq, Repr

structure LogIndex where
  raw : UInt32
  deriving DecidableEq, Repr

structure CallId where
  raw : UInt32
  deriving DecidableEq, Repr

structure StorageChangeId where
  raw : UInt32
  deriving DecidableEq, Repr

structure LogId where
  raw : UInt32
  deriving DecidableEq, Repr

structure TokenTransferId where
  raw : UInt32
  deriving DecidableEq, Repr

def CallId.index (id : CallId) : Nat := id.raw.toNat
def StorageChangeId.index (id : StorageChangeId) : Nat := id.raw.toNat
def LogId.index (id : LogId) : Nat := id.raw.toNat
def TokenTransferId.index (id : TokenTransferId) : Nat := id.raw.toNat

inductive FactRef where
  | call (id : CallId)
  | storageChange (id : StorageChangeId)
  | log (id : LogId)
  | tokenTransfer (id : TokenTransferId)
  deriving DecidableEq, Repr

end RootCause.FactModel
