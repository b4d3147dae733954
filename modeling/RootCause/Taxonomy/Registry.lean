import Mathlib.Data.List.Induction
import Mathlib.Data.String.Basic
import RootCause.Dsl.Ir
import RootCause.Library.Hash
import RootCause.Library.OrderedMap

/-! Mappers from pattern families to the entries of a taxonomy, and the registry that
holds one mapper under the name of each taxonomy. -/
namespace RootCause.Taxonomy
open Library Dsl

structure TaxonomyEntry where
  taxonomy : String
  code : String
  title : String
  referenceUrl : Option String
  deriving DecidableEq, Repr

structure TaxonomyMapper where
  taxonomy : String
  mapFamily : PatternFamily → List TaxonomyEntry

def scweEntry (code title url : String) : List TaxonomyEntry := [⟨"SCWE",code,title,some url⟩]

def scweMapFamily (family : PatternFamily) : List TaxonomyEntry :=
  match family.text with
  | "Reentrancy" => scweEntry "SCWE-046" "Reentrancy Attacks"
      "https://scs.owasp.org/SCWE/SCSVS-CODE/SCWE-046/"
  | "OracleManipulation" => scweEntry "SCWE-028" "Price Oracle Manipulation"
      "https://scs.owasp.org/SCWE/SCSVS-ORACLE/SCWE-028/"
  | "UnauthorizedUpgrade" => scweEntry "SCWE-005" "Insecure Upgradeable Proxy Design"
      "https://scs.owasp.org/SCWE/SCSVS-ARCH/SCWE-005/"
  | "UncheckedExternalCall" => scweEntry "SCWE-048" "Unchecked Call Return Value"
      "https://scs.owasp.org/SCWE/SCSVS-CODE/SCWE-048/"
  | "DelegatecallStorageCollision" => scweEntry "SCWE-150"
      "Storage Slot Collision When Upgrading Implementation"
      "https://scs.owasp.org/SCWE/SCSVS-ARCH/SCWE-150/"
  | "UnsafeSelfdestruct" => scweEntry "SCWE-050" "Unprotected SELFDESTRUCT Instruction"
      "https://scs.owasp.org/SCWE/SCSVS-AUTH/SCWE-050/"
  | "DelegatecallReachableSelfdestruct" => scweEntry "SCWE-038" "Insecure Use of Selfdestruct"
      "https://scs.owasp.org/SCWE/SCSVS-AUTH/SCWE-038/"
  | "SpoofedTransferEvent" => scweEntry "SCWE-063" "Insecure Event Emission"
      "https://scs.owasp.org/SCWE/SCSVS-COMM/SCWE-063/"
  | _ => []

def swcEntry (code title url : String) : List TaxonomyEntry := [⟨"SWC",code,title,some url⟩]

def swcMapFamily (family : PatternFamily) : List TaxonomyEntry :=
  match family.text with
  | "Reentrancy" => swcEntry "SWC-107" "Reentrancy" "https://swcregistry.io/docs/SWC-107/"
  | "UncheckedExternalCall" => swcEntry "SWC-104" "Unchecked Call Return Value"
      "https://swcregistry.io/docs/SWC-104/"
  | "DelegatecallStorageCollision" => swcEntry "SWC-112" "Delegatecall to Untrusted Callee"
      "https://swcregistry.io/docs/SWC-112/"
  | "UnsafeSelfdestruct" | "DelegatecallReachableSelfdestruct" =>
      swcEntry "SWC-106" "Unprotected SELFDESTRUCT Instruction" "https://swcregistry.io/docs/SWC-106/"
  | _ => []

def scweMapper : TaxonomyMapper := ⟨"SCWE",scweMapFamily⟩
def swcMapper : TaxonomyMapper := ⟨"SWC",swcMapFamily⟩

structure TaxonomyRegistry where
  mappers : HashMap String TaxonomyMapper

namespace TaxonomyRegistry

def new : TaxonomyRegistry := ⟨∅⟩

def register (r : TaxonomyRegistry) (mapper : TaxonomyMapper) : TaxonomyRegistry :=
  ⟨r.mappers.insert mapper.taxonomy mapper⟩

def withDefaultMappers : TaxonomyRegistry := (new.register scweMapper).register swcMapper

def get (r : TaxonomyRegistry) (taxonomy : String) : Option TaxonomyMapper := r.mappers.lookup taxonomy

/- The keys of the hash map are sorted; the order of the texts by code points is that of
their bytes. -/
def taxonomies (h : HashOrder) (r : TaxonomyRegistry) : List String :=
  (h.walk r.mappers.keys).insertionSort (· ≤ ·)

def isEmpty (r : TaxonomyRegistry) : Bool := r.mappers.entries.isEmpty

def registered (mappers : List TaxonomyMapper) : TaxonomyRegistry := mappers.foldl register new

end TaxonomyRegistry

def latest (mappers : List TaxonomyMapper) (taxonomy : String) : Option TaxonomyMapper :=
  mappers.reverse.find? fun mapper => mapper.taxonomy = taxonomy

namespace TaxonomyRegistry

theorem registeredSnoc (mappers : List TaxonomyMapper) (mapper : TaxonomyMapper) :
    registered (mappers ++ [mapper]) = (registered mappers).register mapper := by
  rw [registered,List.foldl_append]
  rfl

theorem getRegistered (mappers : List TaxonomyMapper) (taxonomy : String) :
    (registered mappers).get taxonomy = latest mappers taxonomy := by
  induction mappers using List.reverseRecOn with
  | nil => rfl
  | append_singleton mappers mapper ih =>
    rw [registeredSnoc,latest,List.reverse_append,List.reverse_singleton,List.singleton_append]
    by_cases same : mapper.taxonomy = taxonomy
    · subst same
      simp [get,register]
    · rw [List.find?_cons_of_neg (by simpa using same)]
      have other : taxonomy ≠ mapper.taxonomy := fun equal => same equal.symm
      rw [get,register,AList.lookup_insert_ne other]
      exact ih

theorem taxonomiesSame (h h' : HashOrder) (r : TaxonomyRegistry) : r.taxonomies h = r.taxonomies h' :=
  sortSame ((h.perm _).trans (h'.perm _).symm)

theorem taxonomiesIncreasing (h : HashOrder) (r : TaxonomyRegistry) : (r.taxonomies h).Pairwise (· < ·) := by
  have sorted : (r.taxonomies h).Pairwise (· ≤ ·) := List.pairwise_insertionSort _ _
  have distinct : (r.taxonomies h).Nodup :=
    (List.perm_insertionSort _ _).nodup_iff.mpr (h.nodupWalk r.mappers.keys_nodup)
  exact (sorted.and distinct).imp fun both => lt_of_le_of_ne both.1 both.2

theorem memTaxonomies {h : HashOrder} {r : TaxonomyRegistry} {taxonomy : String} :
    taxonomy ∈ r.taxonomies h ↔ ∃ mapper, r.get taxonomy = some mapper := by
  rw [taxonomies,(List.perm_insertionSort _ _).mem_iff,h.memWalk]
  exact HashMap.lookupSome

end TaxonomyRegistry
end RootCause.Taxonomy
