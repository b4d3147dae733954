import RootCause.Dsl.Rendering
import RootCause.Dsl.Termination

/-! Diagnostics point into the file they are about. Which spans are meant is a parameter:
merging two of them and taking a token's own span stay among them, and the lexer, the
parser and the validator report no others. -/
namespace RootCause.Dsl
open Ast ParserM

section
variable (S : Span → Prop)

def Ast.MetadataValue.Within : MetadataValue → Prop
  | .ident s | .str s => S s.span
  | .strList items => ∀ s ∈ items, S s.span

structure Ast.MetadataEntry.Within (e : MetadataEntry) : Prop where
  key : S e.key.span
  value : e.value.Within S
  own : S e.span

structure Ast.PredicateAttr.Within (a : PredicateAttr) : Prop where
  name : S a.name.span
  value : S a.value.span
  own : S a.span

structure Ast.Predicate.Within (p : Predicate) : Prop where
  kind : S p.kind.span
  attributes : ∀ a ∈ p.attributes, a.Within S
  own : S p.span

structure Ast.EvidenceDecl.Within (d : EvidenceDecl) : Prop where
  name : S d.name.span
  predicate : d.predicate.Within S
  own : S d.span

inductive Ast.BoolExpr.Within : BoolExpr → Prop where
  | evidenceRef {name} (own : S name.span) : Within (.evidenceRef name)
  | and {items span} (own : S span) (each : ∀ e ∈ items, Within e) : Within (.and items span)
  | or {items span} (own : S span) (each : ∀ e ∈ items, Within e) : Within (.or items span)
  | not {inner span} (own : S span) (below : Within inner) : Within (.not inner span)

structure Ast.SequenceConstraint.Within (s : SequenceConstraint) : Prop where
  steps : ∀ step ∈ s.steps, S step.span
  withinSeconds : ∀ n ∈ s.withinSeconds, S n.span
  own : S s.span

structure Ast.SameCallConstraint.Within (s : SameCallConstraint) : Prop where
  members : ∀ m ∈ s.members, S m.span
  own : S s.span

structure Ast.PatternAst.Within (p : PatternAst) : Prop where
  id : S p.id.span
  version : S p.version.span
  metadata : ∀ e ∈ p.metadata, e.Within S
  evidence : ∀ d ∈ p.evidence, d.Within S
  constraint : ∀ e ∈ p.constraint, e.Within S
  sequence : ∀ s ∈ p.sequence, s.Within S
  sameCall : ∀ s ∈ p.sameCall, s.Within S
  own : S p.span

def Diagnostics.At (diags : Diagnostics) : Prop := ∀ d ∈ diags, S d.location

end

section
variable {S : Span → Prop} {xs ys : Diagnostics}

theorem atNone : Diagnostics.At S [] := by simp [Diagnostics.At]

theorem atOne {d : Diagnostic} (here : S d.location) : Diagnostics.At S [d] := by simpa [Diagnostics.At] using here

theorem Diagnostics.At.append (before : xs.At S) (after : ys.At S) : Diagnostics.At S (xs ++ ys) := by
  intro d mem
  rcases List.mem_append.mp mem with mem | mem
  · exact before d mem
  · exact after d mem

theorem atFlatMap {α : Type} {items : List α} {f : α → Diagnostics} (each : ∀ x ∈ items, (f x).At S) :
    Diagnostics.At S (items.flatMap f) := by
  intro d mem
  obtain ⟨x,here,mem⟩ := List.mem_flatMap.mp mem
  exact each x here d mem

theorem atUnless {c : Prop} [Decidable c] {d : Diagnostic} (here : S d.location) :
    Diagnostics.At S (if c then [] else [d]) := iteInduction (fun _ => atNone) fun _ => atOne here

theorem atWhen {c : Prop} [Decidable c] {d : Diagnostic} (here : S d.location) :
    Diagnostics.At S (if c then [d] else []) := iteInduction (fun _ => atOne here) fun _ => atNone

theorem metadataValueAt {e : MetadataEntry} (entry : e.Within S) : (validateSeverityValue e).At S := by
  have value : e.value.Within S := entry.value
  unfold validateSeverityValue
  split
  · rename_i ident written
    rw [written] at value
    exact atUnless value
  · exact atOne entry.own

theorem metadataEntryAt {e : MetadataEntry} {key : String} {s : MetadataState} (entry : e.Within S)
    (before : s.diags.At S) : (validateMetadataEntry e key s).diags.At S := by
  unfold validateMetadataEntry
  split
  · refine before.append ?_
    split
    · exact atNone
    · exact atOne entry.own
  · exact before.append (metadataValueAt entry)
  · refine before.append ?_
    split
    · exact atNone
    · exact atOne entry.own
  · refine before.append ?_
    split
    · exact atNone
    · exact atOne entry.own
  · exact before.append (atOne entry.key)

theorem metadataStepAt {e : MetadataEntry} {s : MetadataState} (entry : e.Within S) (before : s.diags.At S) :
    (metadataStep s e).diags.At S := by
  simp only [metadataStep]
  split
  · exact before.append (atOne entry.key)
  · exact metadataEntryAt entry before

theorem metadataAt {ast : PatternAst} (within : ast.Within S) : (validateMetadata ast).At S := by
  have folded (entries : List MetadataEntry) (each : ∀ e ∈ entries, e.Within S) (s : MetadataState)
      (before : s.diags.At S) : (entries.foldl metadataStep s).diags.At S := by
    induction entries generalizing s with
    | nil => exact before
    | cons e entries ih =>
      obtain ⟨first,others⟩ := List.forall_mem_cons.mp each
      exact ih others _ (metadataStepAt first before)
  refine Diagnostics.At.append (.append (folded _ within.metadata _ ?_) ?_) ?_
  · exact atWhen within.version
  · exact atUnless within.own
  · exact atUnless within.own

theorem attrShapeAt {a : PredicateAttr} {shape : Schema.AttrShape} (attr : a.Within S) :
    (validateAttrShape a shape).At S := by
  have value : S a.value.span := attr.value
  unfold validateAttrShape
  split
  · exact atNone
  · exact atNone
  · exact atNone
  · rename_i written
    rw [written] at value
    exact atUnless value
  · exact atOne attr.own

theorem predicateAttrsAt {schema : Schema.PredicateSchema} {seen : List String} {attrs : List PredicateAttr}
    (each : ∀ a ∈ attrs, a.Within S) : (validatePredicateAttrs schema seen attrs).At S := by
  induction attrs generalizing seen with
  | nil => exact atNone
  | cons a attrs ih =>
    obtain ⟨first,others⟩ := List.forall_mem_cons.mp each
    rw [validatePredicateAttrs]
    split
    · exact (atOne first.name).append (ih others)
    · refine .append ?_ (ih others)
      split
      · exact atOne first.name
      · exact attrShapeAt first

theorem predicateAt {p : Predicate} (within : p.Within S) : (validatePredicate p).At S := by
  unfold validatePredicate
  split
  · exact atOne within.kind
  · refine .append (.append (predicateAttrsAt within.attributes) ?_) ?_
    · exact atFlatMap fun _ _ => atUnless within.own
    · exact iteInduction (fun _ => atNone) fun _ => atWhen within.own

theorem evidenceDeclsAt {names : List String} {decls : List EvidenceDecl} (each : ∀ d ∈ decls, d.Within S) :
    (validateEvidenceDecls names decls).At S := by
  induction decls generalizing names with
  | nil => exact atNone
  | cons d decls ih =>
    obtain ⟨first,others⟩ := List.forall_mem_cons.mp each
    exact ((atWhen first.name).append (predicateAt first.predicate)).append (ih others)

theorem evidenceAt {ast : PatternAst} (within : ast.Within S) : (validateEvidence ast).At S := by
  refine (evidenceDeclsAt within.evidence).append ?_
  exact iteInduction (fun _ => atOne within.own) fun _ => atUnless within.own

theorem undeclaredAt {heading : String} {names : List String} {reference : SpannedString}
    (here : S reference.span) : (undeclared heading names reference).At S := atUnless here

theorem boolExprAt {names : List String} {e : BoolExpr} (within : e.Within S) : (checkBoolExpr names e).At S := by
  have operands {items : List BoolExpr} (each : ∀ e ∈ items, (checkBoolExpr names e).At S) :
      (checkBoolExprs names items).At S := by
    rw [checkBoolExprsEq]
    exact atFlatMap each
  induction within with
  | evidenceRef own => exact undeclaredAt own
  | and own each ih => exact operands ih
  | or own each ih => exact operands ih
  | not own below ih => exact ih

theorem constraintAt {ast : PatternAst} {names : List String} (within : ast.Within S) :
    (validateConstraint ast names).At S := by
  have written := within.constraint
  unfold validateConstraint
  split
  · exact atNone
  · rename_i e here
    refine (boolExprAt (written e here)).append (atFlatMap fun d mem => ?_)
    exact atWhen (within.evidence d mem).name

theorem referencesAt {heading reason : String} {names seen : List String} {refs : List SpannedString}
    (each : ∀ s ∈ refs, S s.span) : (validateReferences heading reason names seen refs).At S := by
  induction refs generalizing seen with
  | nil => exact atNone
  | cons s refs ih =>
    obtain ⟨first,others⟩ := List.forall_mem_cons.mp each
    exact ((undeclaredAt first).append (atWhen first)).append (ih others)

theorem sequenceAt {ast : PatternAst} {names : List String} (within : ast.Within S) :
    (validateSequence ast names).At S := by
  have written := within.sequence
  unfold validateSequence
  split
  · exact atNone
  · rename_i seq here
    have seq := written _ here
    refine ((atWhen seq.own).append (referencesAt seq.steps)).append ?_
    split
    · exact atNone
    · rename_i n window
      exact atWhen (seq.withinSeconds n window)

theorem sameCallAt {ast : PatternAst} {names : List String} (within : ast.Within S) :
    (validateSameCall ast names).At S := by
  have written := within.sameCall
  unfold validateSameCall
  split
  · exact atNone
  · rename_i sc here
    have group := written _ here
    exact (atWhen group.own).append (referencesAt group.members)

theorem validateAt {ast : PatternAst} (within : ast.Within S) : (validate ast).At S :=
  ((((metadataAt within).append (evidenceAt within)).append (constraintAt within)).append
    (sequenceAt within)).append (sameCallAt within)

end
end RootCause.Dsl
