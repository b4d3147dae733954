import RootCause.Dsl.Ast
import RootCause.Dsl.Schema

/-! Validation of a syntax tree. Every pass returns the diagnostics it adds, in
the order of the source; a hash set that is only filled and asked for membership
is a list. -/
namespace RootCause.Dsl
open Ast Schema

def severityLevels : String := ", ".intercalate severityValues

structure MetadataState where
  seen : List (String × Span)
  hasFamily : Bool
  hasSeverity : Bool
  diags : Diagnostics

def validateSeverityValue (entry : MetadataEntry) : Diagnostics :=
  match entry.value with
  | .ident ident =>
    if severityValues.contains ident.value then []
    else [(Diagnostic.error ident.span ("`severity` value `" ++ ident.value ++ "`")
      "not a recognized severity").withSuggestion ("use one of: " ++ severityLevels)]
  | _ => [.error entry.span "`severity` metadata"
      "expected a bare identifier, e.g. `severity: High`"]

def validateMetadataEntry (entry : MetadataEntry) (key : String) (s : MetadataState) :
    MetadataState :=
  match key with
  | "family" => { s with
      hasFamily := true
      diags := s.diags ++ match entry.value with
        | .ident _ => []
        | _ => [.error entry.span "`family` metadata"
            "expected a bare identifier, e.g. `family: OracleManipulation`"] }
  | "severity" => { s with hasSeverity := true, diags := s.diags ++ validateSeverityValue entry }
  | "tags" | "references" => { s with
      diags := s.diags ++ match entry.value with
        | .strList _ => []
        | _ => [.error entry.span ("`" ++ key ++ "` metadata")
            ("expected a string list, e.g. `" ++ key ++ ": [\"a\", \"b\"]`")] }
  | other => { s with
      diags := s.diags ++ [.warning entry.key.span ("metadata key `" ++ other ++ "`")
        "not a recognized metadata key; it will be ignored by compilation"] }

def metadataStep (s : MetadataState) (entry : MetadataEntry) : MetadataState :=
  let key := entry.key.value
  match s.seen.lookup key with
  | some firstSpan => { s with
      diags := s.diags ++ [(Diagnostic.error entry.key.span ("metadata key `" ++ key ++ "`")
        "duplicate metadata key").withSuggestion
          ("remove this entry; `" ++ key ++ "` was already set at " ++ firstSpan.display)] }
  | none => validateMetadataEntry entry key { s with seen := (key,entry.key.span) :: s.seen }

def validateMetadata (pattern : PatternAst) : Diagnostics :=
  let version := if pattern.version.value.toInt < 1 then
    [Diagnostic.error pattern.version.span "pattern version"
      ("version must be a positive integer, found `" ++ toString pattern.version.value ++ "`")]
    else []
  let s := pattern.metadata.foldl metadataStep ⟨[],false,false,version⟩
  s.diags ++
    (if s.hasFamily then [] else [(Diagnostic.error pattern.span "pattern metadata"
      "missing required `family` entry").withSuggestion
        "add `family: <FamilyName>` to the pattern body"]) ++
    (if s.hasSeverity then [] else [(Diagnostic.error pattern.span "pattern metadata"
      "missing required `severity` entry").withSuggestion
        ("add `severity: <level>`, one of: " ++ severityLevels)])

def describeShape : AttrShape → String
  | .enumeration _ => "an identifier"
  | .str => "a string literal"
  | .int => "an integer literal"
  | .bool => "a boolean literal"

def validateAttrShape (attr : PredicateAttr) (shape : AttrShape) : Diagnostics :=
  match attr.value, shape with
  | .str _, .str | .int _, .int | .bool _, .bool => []
  | .ident ident, .enumeration values =>
    if values.contains ident.value then []
    else [(Diagnostic.error ident.span
      ("value `" ++ ident.value ++ "` for `" ++ attr.name.value ++ "`")
      "not a recognized value for this attribute").withSuggestion
        ("use one of: " ++ ", ".intercalate values)]
  | _, _ => [.error attr.span ("attribute `" ++ attr.name.value ++ "`")
      ("value has the wrong shape for this attribute (expected " ++ describeShape shape ++ ")")]

def validatePredicateAttrs (schema : PredicateSchema) (seen : List String) :
    List PredicateAttr → Diagnostics
  | [] => []
  | attr :: rest =>
    if seen.contains attr.name.value then
      .error attr.name.span ("attribute `" ++ attr.name.value ++ "`")
        "duplicate attribute within predicate" :: validatePredicateAttrs schema seen rest
    else
      (match schema.attrs.find? fun a => a.name = attr.name.value with
        | none => [(Diagnostic.error attr.name.span
            ("attribute `" ++ attr.name.value ++ "` on `" ++ schema.kind ++ "`")
            "not a recognized attribute for this predicate kind").withSuggestion
              ("use one of: " ++ ", ".intercalate (schema.attrs.map (·.name)))]
        | some attrSchema => validateAttrShape attr attrSchema.shape) ++
      validatePredicateAttrs schema (attr.name.value :: seen) rest

def validateRequiredAttrsPresent (predicate : Predicate) (schema : PredicateSchema) : Diagnostics :=
  (schema.attrs.filter (·.required)).flatMap fun attrSchema =>
    if predicate.attributes.any fun a => a.name.value = attrSchema.name then []
    else [(Diagnostic.error predicate.span ("predicate `" ++ schema.kind ++ "`")
      ("missing required attribute `" ++ attrSchema.name ++ "`")).withSuggestion
        ("add `" ++ attrSchema.name ++ ": ...` inside `" ++ schema.kind ++ "(...)`")]

def isStaticAttr (a : PredicateAttr) : Bool :=
  a.name.value = "kind" && match a.value with
    | .ident i => i.value = "StaticCall"
    | _ => false

def isReentrantAttr (a : PredicateAttr) : Bool :=
  a.name.value = "reentrant" && match a.value with
    | .bool b => b.value
    | _ => false

def validatePredicateIncompatibilities (predicate : Predicate) (schema : PredicateSchema) :
    Diagnostics :=
  if schema.kind ≠ "call" then []
  else if predicate.attributes.any isStaticAttr && predicate.attributes.any isReentrantAttr then
    [(Diagnostic.error predicate.span "`call` predicate"
      ("`kind: StaticCall` and `reentrant: true` are incompatible: a static call " ++
        "cannot perform a state-changing reentrant call by construction")).withSuggestion
          "drop `reentrant: true`, or change `kind` to `External`/`Delegate`"]
  else []

def validatePredicate (predicate : Predicate) : Diagnostics :=
  match lookup predicate.kind.value with
  | none => [(Diagnostic.error predicate.kind.span
      ("predicate kind `" ++ predicate.kind.value ++ "`")
      "not a recognized predicate kind").withSuggestion
        ("use one of: " ++ ", ".intercalate (all.map (·.kind)))]
  | some schema =>
    validatePredicateAttrs schema [] predicate.attributes ++
      validateRequiredAttrsPresent predicate schema ++
      validatePredicateIncompatibilities predicate schema

def evidenceNames (pattern : PatternAst) : List String := pattern.evidence.map (·.name.value)

def validateEvidenceDecls (names : List String) : List EvidenceDecl → Diagnostics
  | [] => []
  | decl :: rest =>
    (if names.contains decl.name.value then
      [(Diagnostic.error decl.name.span ("evidence name `" ++ decl.name.value ++ "`")
        "duplicate evidence declaration name").withSuggestion
          "evidence names must be unique within a pattern"]
      else []) ++
    validatePredicate decl.predicate ++ validateEvidenceDecls (decl.name.value :: names) rest

def validateEvidence (pattern : PatternAst) : Diagnostics :=
  validateEvidenceDecls [] pattern.evidence ++
    if pattern.evidence.isEmpty then
      [.error pattern.span "pattern"
        ("pattern declares no evidence at all; a pattern with nothing to ground can never " ++
          "produce a classification")]
    else if pattern.evidence.any fun decl => decl.requiredness = .required then []
    else [(Diagnostic.error pattern.span "pattern evidence"
      ("pattern declares only optional evidence; at least one `required` clause is " ++
        "needed, or every match is trivially unfalsifiable")).withSuggestion
          "mark at least one evidence clause `required`"]

/- The same construct and text for a constraint leaf, a sequence step and a group
member, each under its own heading. -/
def undeclared (heading : String) (names : List String) (reference : SpannedString) : Diagnostics :=
  if names.contains reference.value then []
  else [(Diagnostic.error reference.span (heading ++ " `" ++ reference.value ++ "`")
    "references an evidence clause that is not declared in this pattern").withSuggestion
      "check for a typo, or declare this evidence clause"]

mutual
def checkBoolExpr (names : List String) : BoolExpr → Diagnostics
  | .evidenceRef name => undeclared "evidence reference" names name
  | .and items _ | .or items _ => checkBoolExprs names items
  | .not inner _ => checkBoolExpr names inner
def checkBoolExprs (names : List String) : List BoolExpr → Diagnostics
  | [] => []
  | item :: rest => checkBoolExpr names item ++ checkBoolExprs names rest
end

mutual
def referencedNames (names : List String) : BoolExpr → List String
  | .evidenceRef name => if names.contains name.value then [name.value] else []
  | .and items _ | .or items _ => referencedNamesAll names items
  | .not inner _ => referencedNames names inner
def referencedNamesAll (names : List String) : List BoolExpr → List String
  | [] => []
  | item :: rest => referencedNames names item ++ referencedNamesAll names rest
end

def validateConstraint (pattern : PatternAst) (names : List String) : Diagnostics :=
  match pattern.constraint with
  | none => []
  | some constraint =>
    checkBoolExpr names constraint ++ pattern.evidence.flatMap fun decl =>
      if decl.requiredness = .required &&
          !(referencedNames names constraint).contains decl.name.value then
        [(Diagnostic.warning decl.name.span ("required evidence `" ++ decl.name.value ++ "`")
          ("required evidence clause is not referenced by the pattern's `constraint` " ++
            "expression; it will still be enforced, but the constraint expression " ++
            "reads as if it weren't load-bearing")).withSuggestion
              ("reference `" ++ decl.name.value ++ "` inside the `constraint:` expression, " ++
                "or remove `constraint:` to use the implicit AND-of-required default")]
      else []

def validateReferences (heading repeatedReason : String) (names : List String)
    (seen : List String) : List SpannedString → Diagnostics
  | [] => []
  | reference :: rest =>
    undeclared heading names reference ++
      (if seen.contains reference.value then
        [.error reference.span (heading ++ " `" ++ reference.value ++ "`") repeatedReason]
        else []) ++
      validateReferences heading repeatedReason names (reference.value :: seen) rest

def validateSequence (pattern : PatternAst) (names : List String) : Diagnostics :=
  match pattern.sequence with
  | none => []
  | some sequence =>
    (if sequence.steps.length < 2 then
      [(Diagnostic.error sequence.span "sequence constraint"
        "a sequence constraint needs at least two steps to express an ordering").withSuggestion
          "add another step, or remove the `sequence:` section entirely"]
      else []) ++
    validateReferences "sequence step"
      ("the same evidence clause appears more than once in the sequence; a single " ++
        "grounded occurrence cannot satisfy two positions in a temporal ordering")
      names [] sequence.steps ++
    match sequence.withinSeconds with
    | none => []
    | some within =>
      if within.value.toInt ≤ 0 then
        [.error within.span "sequence `within` clause"
          "the time window must be a positive number of seconds"]
      else []

def validateSameCall (pattern : PatternAst) (names : List String) : Diagnostics :=
  match pattern.sameCall with
  | none => []
  | some sameCall =>
    (if sameCall.members.length < 2 then
      [(Diagnostic.error sameCall.span "same_call constraint"
        "a same_call constraint needs at least two members to express a correlation").withSuggestion
          "add another member, or remove the `same_call:` section entirely"]
      else []) ++
    validateReferences "same_call member"
      ("the same evidence clause appears more than once in the same_call group; a " ++
        "single occurrence is trivially the same call as itself")
      names [] sameCall.members

def validate (pattern : PatternAst) : Diagnostics :=
  let names := evidenceNames pattern
  validateMetadata pattern ++ validateEvidence pattern ++ validateConstraint pattern names ++
    validateSequence pattern names ++ validateSameCall pattern names

end RootCause.Dsl
