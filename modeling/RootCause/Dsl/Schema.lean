import Mathlib.Data.List.Basic

/-! The table of predicate kinds with their attributes. -/
namespace RootCause.Dsl.Schema

inductive AttrShape where
  | enumeration (values : List String)
  | str
  | int
  | bool
  deriving DecidableEq, Repr

structure AttrSchema where
  name : String
  shape : AttrShape
  required : Bool
  deriving DecidableEq, Repr

structure PredicateSchema where
  kind : String
  attrs : List AttrSchema
  deriving DecidableEq, Repr

def callKindValues : List String :=
  ["External","Internal","Delegate","StaticCall","Create","SelfDestruct"]
def directionValues : List String := ["In","Out"]
def txStatusValues : List String := ["Success","Reverted"]

def call : PredicateSchema := ⟨"call",[
  ⟨"kind",.enumeration callKindValues,true⟩,
  ⟨"reentrant",.bool,false⟩,
  ⟨"value_flow",.enumeration directionValues,false⟩,
  ⟨"min_value",.int,false⟩,
  ⟨"selector",.str,false⟩,
  ⟨"succeeded",.bool,false⟩,
  ⟨"parent_kind",.enumeration callKindValues,false⟩,
  ⟨"ancestor_kind",.enumeration callKindValues,false⟩]⟩

def storage : PredicateSchema := ⟨"storage",[
  ⟨"changed",.bool,true⟩,
  ⟨"role",.enumeration ["PriceOracle","Balance","Accounting","AccessControl"],false⟩,
  ⟨"slot",.str,false⟩,
  ⟨"call_kind",.enumeration callKindValues,false⟩]⟩

def valueFlow : PredicateSchema := ⟨"value_flow",[
  ⟨"direction",.enumeration directionValues,true⟩,
  ⟨"min",.int,false⟩,
  ⟨"max",.int,false⟩]⟩

def tokenTransfer : PredicateSchema := ⟨"token_transfer",[
  ⟨"direction",.enumeration directionValues,true⟩,
  ⟨"unexpected",.bool,false⟩,
  ⟨"token",.str,false⟩]⟩

def transaction : PredicateSchema := ⟨"transaction",[
  ⟨"status",.enumeration txStatusValues,true⟩,
  ⟨"gas_used_min",.int,false⟩]⟩

def log : PredicateSchema := ⟨"log",[
  ⟨"topic0",.str,true⟩,
  ⟨"decoded",.bool,false⟩]⟩

def all : List PredicateSchema := [call,storage,valueFlow,tokenTransfer,transaction,log]

def lookup (kind : String) : Option PredicateSchema := all.find? fun s => s.kind = kind

def severityValues : List String := ["Low","Medium","High","Critical"]

end RootCause.Dsl.Schema
