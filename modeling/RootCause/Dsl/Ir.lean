import RootCause.Dsl.Ast
import RootCause.Library.Formula

/-! The compiled pattern. A reference is the declaration position of an evidence
clause; the constraint is a formula over references. -/
namespace RootCause.Dsl
open Library

structure PatternId where
  text : String
  deriving DecidableEq, Repr

structure PatternVersion where
  number : UInt32
  deriving DecidableEq, Repr

inductive Severity where
  | low
  | medium
  | high
  | critical
  deriving DecidableEq, Repr

structure PatternFamily where
  text : String
  deriving DecidableEq, Repr

structure EvidenceRef where
  raw : UInt32
  deriving DecidableEq, Repr

def EvidenceRef.index (r : EvidenceRef) : Nat := r.raw.toNat

/- `EvidenceRef(u32::try_from(idx).unwrap_or(u32::MAX))`. -/
def EvidenceRef.ofIndex (idx : Nat) : EvidenceRef := ⟨UInt32.ofNatClamp idx⟩

theorem EvidenceRef.indexOfIndex {idx : Nat} (small : idx < UInt32.size) :
    (EvidenceRef.ofIndex idx).index = idx := by
  simp only [ofIndex,index]
  exact UInt32.toNat_ofNatClamp_of_lt small

theorem EvidenceRef.ofIndexIndex (r : EvidenceRef) : EvidenceRef.ofIndex r.index = r := by
  have exact : (EvidenceRef.ofIndex r.index).index = r.index := indexOfIndex r.raw.toNat_lt
  exact congrArg EvidenceRef.mk (UInt32.toNat_inj.mp exact)

theorem EvidenceRef.indexInj {r s : EvidenceRef} (same : r.index = s.index) : r = s := by
  rw [← ofIndexIndex r,same,ofIndexIndex s]

inductive AttrValue where
  | ident (name : String)
  | str (text : String)
  | int (number : Int64)
  | bool (flag : Bool)
  deriving DecidableEq, Repr

structure CompiledAttr where
  name : String
  value : AttrValue
  deriving DecidableEq, Repr

structure CompiledPredicate where
  kind : String
  attributes : List CompiledAttr
  deriving DecidableEq, Repr

def CompiledPredicate.attr (p : CompiledPredicate) (name : String) : Option AttrValue :=
  (p.attributes.find? fun a => a.name = name).map CompiledAttr.value

structure CompiledEvidence where
  name : String
  requiredness : Requiredness
  predicate : CompiledPredicate
  deriving DecidableEq, Repr

abbrev CompiledConstraint := Formula EvidenceRef

structure CompiledSequence where
  steps : List EvidenceRef
  withinSeconds : Option UInt32
  deriving DecidableEq, Repr

structure CompiledSameCall where
  members : List EvidenceRef
  deriving DecidableEq, Repr

structure CompiledPattern where
  id : PatternId
  version : PatternVersion
  family : PatternFamily
  severity : Severity
  tags : List String
  references : List String
  evidence : List CompiledEvidence
  constraint : CompiledConstraint
  sequence : Option CompiledSequence
  sameCall : Option CompiledSameCall
  deriving DecidableEq, Repr

def CompiledPattern.resolve (p : CompiledPattern) (r : EvidenceRef) : Option CompiledEvidence :=
  p.evidence[r.index]?

end RootCause.Dsl
