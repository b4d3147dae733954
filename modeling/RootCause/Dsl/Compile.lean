import RootCause.Dsl.Ir
import RootCause.Dsl.Parser
import RootCause.Dsl.Validate

/-! Compilation of a validated tree. Each `expect` of the source is a panic of the
model, whether or not validation excludes it. -/
namespace RootCause.Dsl
open Library Ast

def compileAttr (a : PredicateAttr) : CompiledAttr :=
  ⟨a.name.value,match a.value with
    | .ident s => .ident s.value
    | .str s => .str s.value
    | .int i => .int i.value
    | .bool b => .bool b.value⟩

def compileEvidence (decl : EvidenceDecl) : CompiledEvidence :=
  ⟨decl.name.value,decl.requiredness,
    ⟨decl.predicate.kind.value,decl.predicate.attributes.map compileAttr⟩⟩

def resolveName (pattern : PatternAst) (name : String) : Except (Failure Diagnostics) EvidenceRef := do
  let idx ← unwrap "validate() guarantees every reference names a declared evidence clause"
    (pattern.evidence.findIdx? fun d => d.name.value = name)
  pure (.ofIndex idx)

def implicitRequiredAnd (pattern : PatternAst) : Except (Failure Diagnostics) CompiledConstraint := do
  let refs ← (pattern.evidence.filter fun d => d.requiredness = .required).mapM fun d => do
    let r ← resolveName pattern d.name.value
    pure (Formula.leaf r)
  match refs with
  | [only] => pure only
  | refs => pure (.and refs)

mutual
def compileBoolExpr (pattern : PatternAst) : BoolExpr → Except (Failure Diagnostics) CompiledConstraint
  | .evidenceRef name => do pure (.leaf (← resolveName pattern name.value))
  | .and items _ => do pure (.and (← compileBoolExprs pattern items))
  | .or items _ => do pure (.or (← compileBoolExprs pattern items))
  | .not inner _ => do pure (.not (← compileBoolExpr pattern inner))
def compileBoolExprs (pattern : PatternAst) :
    List BoolExpr → Except (Failure Diagnostics) (List CompiledConstraint)
  | [] => pure []
  | item :: rest => do
    let head ← compileBoolExpr pattern item
    let tail ← compileBoolExprs pattern rest
    pure (head :: tail)
end

def severityFromStr (s : String) : Option Severity :=
  match s with
  | "Low" => some .low
  | "Medium" => some .medium
  | "High" => some .high
  | "Critical" => some .critical
  | _ => none

def metadataValue (pattern : PatternAst) (key : String) : Option MetadataValue :=
  (pattern.metadata.find? fun m => m.key.value = key).map MetadataEntry.value

def stringList (pattern : PatternAst) (key : String) : List String :=
  match metadataValue pattern key with
  | some (.strList items) => items.map (·.value)
  | _ => []

def u32OfI64 (n : Int64) : Option UInt32 :=
  if 0 ≤ n.toInt ∧ n.toInt < UInt32.size then some (UInt32.ofNat n.toInt.toNat) else none

def dedupStrings (seen : List String) : List String → List String
  | [] => []
  | s :: rest =>
    if seen.contains s then dedupStrings seen rest else s :: dedupStrings (s :: seen) rest

def compileConstraint (pattern : PatternAst) : Except (Failure Diagnostics) CompiledConstraint :=
  match pattern.constraint with
  | none => implicitRequiredAnd pattern
  | some expr => compileBoolExpr pattern expr

def compileSequence (pattern : PatternAst) (seq : SequenceConstraint) :
    Except (Failure Diagnostics) CompiledSequence := do
  let steps ← seq.steps.mapM fun s => resolveName pattern s.value
  pure ⟨steps,seq.withinSeconds.bind fun w => u32OfI64 w.value⟩

def compileSameCall (pattern : PatternAst) (sc : SameCallConstraint) :
    Except (Failure Diagnostics) CompiledSameCall := do
  let members ← sc.members.mapM fun m => resolveName pattern m.value
  pure ⟨members⟩

def compileFamily (pattern : PatternAst) : Option String :=
  match metadataValue pattern "family" with
  | some (.ident s) => some s.value
  | _ => none

def compileSeverity (pattern : PatternAst) : Option Severity :=
  match metadataValue pattern "severity" with
  | some (.ident s) => severityFromStr s.value
  | _ => none

def compile (pattern : PatternAst) : Except (Failure Diagnostics) CompiledPattern := do
  let diags := validate pattern
  if diags.hasErrors then throw (.error diags)
  let constraint ← compileConstraint pattern
  let sequence ← pattern.sequence.mapM (compileSequence pattern)
  let sameCall ← pattern.sameCall.mapM (compileSameCall pattern)
  let family ← unwrap "validate() guarantees `family` is present and is an identifier"
    (compileFamily pattern)
  let severity ← unwrap "validate() guarantees `severity` is present and is a recognized value"
    (compileSeverity pattern)
  -- The validator bounds the version from below only.
  let version ← unwrap "validate() guarantees version >= 1" (u32OfI64 pattern.version.value)
  pure {
    id := ⟨pattern.id.value⟩
    version := ⟨version⟩
    family := ⟨family⟩
    severity := severity
    tags := dedupStrings [] (stringList pattern "tags")
    references := dedupStrings [] (stringList pattern "references")
    evidence := pattern.evidence.map compileEvidence
    constraint := constraint
    sequence := sequence
    sameCall := sameCall }

inductive DslError where
  | parse (diags : Diagnostics)
  | validation (diags : Diagnostics)
  deriving DecidableEq, Repr

/- The outer `none` is the lexer or the parser out of fuel. -/
def compileStr (u : UnicodeClasses) (source : String) :
    Option (Except (Failure DslError) CompiledPattern) :=
  (parse u source).map fun parsed => do
    let ast ← mapFailure .parse parsed
    mapFailure .validation (compile ast)

end RootCause.Dsl
