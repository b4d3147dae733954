import RootCause.Dsl.Grammar
import RootCause.Dsl.WellFormed

/-! Compilation reads no span. A tree without its spans has errors exactly when the tree
has, and compiles to the same pattern; the spans are for the diagnostics. -/
namespace RootCause.Dsl
open Library Ast Schema Diagnostics

@[simp] theorem bareValue (s : SpannedString) : s.bare.value = s.value := rfl

theorem errorsAlike {α : Type} {xs : List α} {f g : α → Diagnostics}
    (same : ∀ x ∈ xs, hasErrors (f x) = hasErrors (g x)) : hasErrors (xs.flatMap f) = hasErrors (xs.flatMap g) := by
  induction xs with
  | nil => rfl
  | cons x xs ih =>
    obtain ⟨here,later⟩ := List.forall_mem_cons.mp same
    rw [List.flatMap_cons,List.flatMap_cons,hasErrorsAppend,hasErrorsAppend,here,ih later]

section
variable {names seen : List String}

theorem undeclaredBare {heading : String} (s : SpannedString) :
    hasErrors (undeclared heading names s.bare) = hasErrors (undeclared heading names s) := by
  unfold undeclared
  rw [bareValue]
  split <;> rfl

theorem referencesBare {heading reason : String} (refs : List SpannedString) :
    hasErrors (validateReferences heading reason names seen (refs.map SpannedString.bare)) =
      hasErrors (validateReferences heading reason names seen refs) := by
  induction refs generalizing seen with
  | nil => rfl
  | cons s refs ih =>
    simp only [List.map_cons,validateReferences,hasErrorsAppend,undeclaredBare,bareValue,ih]
    by_cases repeated : s.value ∈ seen <;> simp [repeated]

theorem attrShapeBare {a : PredicateAttr} {shape : AttrShape} :
    hasErrors (validateAttrShape a.bare shape) = hasErrors (validateAttrShape a shape) := by
  unfold validateAttrShape PredicateAttr.bare
  cases a.value with
  | ident ident =>
    cases shape with
    | enumeration values =>
      simp only [AttrValue.bare,bareValue]
      by_cases known : ident.value ∈ values <;> simp [known]
    | _ => rfl
  | _ => cases shape <;> rfl

theorem predicateAttrsBare {schema : PredicateSchema} (attrs : List PredicateAttr) :
    hasErrors (validatePredicateAttrs schema seen (attrs.map PredicateAttr.bare)) =
      hasErrors (validatePredicateAttrs schema seen attrs) := by
  induction attrs generalizing seen with
  | nil => rfl
  | cons a attrs ih =>
    have name : a.bare.name.value = a.name.value := rfl
    simp only [List.map_cons,validatePredicateAttrs,name]
    split
    · rfl
    · rw [hasErrorsAppend,hasErrorsAppend,ih]
      cases schema.attrs.find? fun b => b.name = a.name.value with
      | none => rfl
      | some attrSchema => simp only [attrShapeBare]

theorem requiredAttrsBare {p : Predicate} {schema : PredicateSchema} :
    hasErrors (validateRequiredAttrsPresent p.bare schema) = hasErrors (validateRequiredAttrsPresent p schema) := by
  refine errorsAlike fun attrSchema _ => ?_
  have present : (p.bare.attributes.any fun a => a.name.value = attrSchema.name) =
      p.attributes.any fun a => a.name.value = attrSchema.name := List.any_map
  rw [present]
  split <;> rfl

theorem incompatibleBare {p : Predicate} {schema : PredicateSchema} :
    hasErrors (validatePredicateIncompatibilities p.bare schema) =
      hasErrors (validatePredicateIncompatibilities p schema) := by
  have attr (a : PredicateAttr) :
      isStaticAttr a.bare = isStaticAttr a ∧ isReentrantAttr a.bare = isReentrantAttr a := by
    unfold isStaticAttr isReentrantAttr PredicateAttr.bare
    cases a.value <;> exact ⟨rfl,rfl⟩
  have static : p.bare.attributes.any isStaticAttr = p.attributes.any isStaticAttr := by
    simp [Predicate.bare,List.any_map,Function.comp_def,fun a => (attr a).1]
  have reentrant : p.bare.attributes.any isReentrantAttr = p.attributes.any isReentrantAttr := by
    simp [Predicate.bare,List.any_map,Function.comp_def,fun a => (attr a).2]
  unfold validatePredicateIncompatibilities
  rw [static,reentrant]
  split
  · rfl
  · split <;> rfl

theorem predicateBare (p : Predicate) : hasErrors (validatePredicate p.bare) = hasErrors (validatePredicate p) := by
  unfold validatePredicate
  have kind : p.bare.kind.value = p.kind.value := rfl
  rw [kind]
  cases lookup p.kind.value with
  | none => rfl
  | some schema =>
    simp only [hasErrorsAppend,requiredAttrsBare,incompatibleBare]
    rw [show p.bare.attributes = p.attributes.map PredicateAttr.bare from rfl,predicateAttrsBare]

theorem declsBare (decls : List EvidenceDecl) :
    hasErrors (validateEvidenceDecls names (decls.map EvidenceDecl.bare)) =
      hasErrors (validateEvidenceDecls names decls) := by
  induction decls generalizing names with
  | nil => rfl
  | cons d decls ih =>
    have name : d.bare.name.value = d.name.value := rfl
    have predicate : d.bare.predicate = d.predicate.bare := rfl
    simp only [List.map_cons,validateEvidenceDecls,hasErrorsAppend,name,predicate,predicateBare,ih]
    split <;> rfl

theorem boolExprBare (e : BoolExpr) : hasErrors (checkBoolExpr names e.bare) = hasErrors (checkBoolExpr names e) ∧
    referencedNames names e.bare = referencedNames names e := by
  have checked (items : List BoolExpr) : checkBoolExprs names items = items.flatMap (checkBoolExpr names) := by
    induction items with
    | nil => rfl
    | cons item rest ih => rw [checkBoolExprs,ih,List.flatMap_cons]
  have referenced (items : List BoolExpr) :
      referencedNamesAll names items = items.flatMap (referencedNames names) := by
    induction items with
    | nil => rfl
    | cons item rest ih => rw [referencedNamesAll,ih,List.flatMap_cons]
  have operands {items : List BoolExpr} (each : ∀ e ∈ items,
      hasErrors (checkBoolExpr names e.bare) = hasErrors (checkBoolExpr names e) ∧
        referencedNames names e.bare = referencedNames names e) :
      hasErrors (checkBoolExprs names (BoolExpr.bareAll items)) = hasErrors (checkBoolExprs names items) ∧
        referencedNamesAll names (BoolExpr.bareAll items) = referencedNamesAll names items := by
    rw [checked,checked,referenced,referenced,BoolExpr.bareAllEq,List.flatMap_map,List.flatMap_map]
    exact ⟨errorsAlike fun e mem => (each e mem).1,List.flatMap_congr fun e mem => (each e mem).2⟩
  induction e with
  | evidenceRef name => exact ⟨undeclaredBare name,rfl⟩
  | and items span ih => exact operands ih
  | or items span ih => exact operands ih
  | not inner span ih => exact ih

end

section
variable {ast : PatternAst}

theorem evidenceNamesBare : evidenceNames ast.bare = evidenceNames ast := List.map_map

theorem evidenceBare : hasErrors (validateEvidence ast.bare) = hasErrors (validateEvidence ast) := by
  have decls : ast.bare.evidence = ast.evidence.map EvidenceDecl.bare := rfl
  have required : (ast.bare.evidence.any fun d => d.requiredness = .required) =
      ast.evidence.any fun d => d.requiredness = .required := List.any_map
  simp only [validateEvidence,hasErrorsAppend,required]
  rw [decls,declsBare,List.isEmpty_map]
  congr 1
  split
  · rfl
  · split <;> rfl

theorem constraintBare {names : List String} :
    hasErrors (validateConstraint ast.bare names) = hasErrors (validateConstraint ast names) := by
  have constraint : ast.bare.constraint = ast.constraint.map BoolExpr.bare := rfl
  have evidence : ast.bare.evidence = ast.evidence.map EvidenceDecl.bare := rfl
  unfold validateConstraint
  rw [constraint,evidence]
  cases ast.constraint with
  | none => rfl
  | some e =>
    simp only [Option.map_some,hasErrorsAppend,(boolExprBare e).1,(boolExprBare e).2,List.flatMap_map]
    congr 1
    refine errorsAlike fun d _ => ?_
    have same : d.bare.requiredness = d.requiredness ∧ d.bare.name.value = d.name.value := ⟨rfl,rfl⟩
    rw [same.1,same.2]
    split <;> rfl

theorem sequenceBare {names : List String} :
    hasErrors (validateSequence ast.bare names) = hasErrors (validateSequence ast names) := by
  have sequence : ast.bare.sequence = ast.sequence.map SequenceConstraint.bare := rfl
  unfold validateSequence
  rw [sequence]
  cases ast.sequence with
  | none => rfl
  | some q =>
    have parts : q.bare.steps = q.steps.map SpannedString.bare ∧
      q.bare.withinSeconds = q.withinSeconds.map SpannedInt.bare := ⟨rfl,rfl⟩
    simp only [Option.map_some,hasErrorsAppend,parts.1,parts.2,referencesBare,List.length_map]
    congr 1
    · congr 1
      split <;> rfl
    · cases q.withinSeconds with
      | none => rfl
      | some within =>
        have value : within.bare.value = within.value := rfl
        simp only [Option.map_some,value]
        split <;> rfl

theorem sameCallBare {names : List String} :
    hasErrors (validateSameCall ast.bare names) = hasErrors (validateSameCall ast names) := by
  have sameCall : ast.bare.sameCall = ast.sameCall.map SameCallConstraint.bare := rfl
  unfold validateSameCall
  rw [sameCall]
  cases ast.sameCall with
  | none => rfl
  | some g =>
    have members : g.bare.members = g.members.map SpannedString.bare := rfl
    simp only [Option.map_some,hasErrorsAppend,members,referencesBare,List.length_map]
    congr 1
    split <;> rfl

end

structure Alike (s t : MetadataState) : Prop where
  keys : s.seen.map Prod.fst = t.seen.map Prod.fst
  family : s.hasFamily = t.hasFamily
  severity : s.hasSeverity = t.hasSeverity
  errors : hasErrors s.diags = hasErrors t.diags

theorem lookupKnown {seen : List (String × Span)} {key : String} :
    (seen.lookup key).isSome = (seen.map Prod.fst).contains key := by
  induction seen with
  | nil => rfl
  | cons entry seen ih =>
    rw [List.lookup_cons,List.map_cons,List.contains_cons,← ih]
    cases key == entry.1 <;> rfl

theorem severityValueBare {m : MetadataEntry} :
    hasErrors (validateSeverityValue m.bare) = hasErrors (validateSeverityValue m) := by
  unfold validateSeverityValue MetadataEntry.bare
  cases m.value with
  | ident name =>
    simp only [MetadataValue.bare,bareValue]
    by_cases known : name.value ∈ severityValues <;> simp [known]
  | _ => rfl

theorem metadataEntryAlike {m : MetadataEntry} {key : String} {s t : MetadataState} (alike : Alike s t) :
    Alike (validateMetadataEntry m.bare key s) (validateMetadataEntry m key t) := by
  obtain ⟨keys,family,severity,errors⟩ := alike
  unfold validateMetadataEntry
  split
  · refine ⟨keys,rfl,severity,?_⟩
    cases value : m.value <;> simp [MetadataEntry.bare,MetadataValue.bare,value,errors]
  · exact ⟨keys,family,rfl,by simp [severityValueBare,errors]⟩
  · refine ⟨keys,family,severity,?_⟩
    cases value : m.value <;> simp [MetadataEntry.bare,MetadataValue.bare,value,errors]
  · refine ⟨keys,family,severity,?_⟩
    cases value : m.value <;> simp [MetadataEntry.bare,MetadataValue.bare,value,errors]
  · exact ⟨keys,family,severity,by simp [errors]⟩

theorem metadataStepAlike {m : MetadataEntry} {s t : MetadataState} (alike : Alike s t) :
    Alike (metadataStep s m.bare) (metadataStep t m) := by
  have known : (s.seen.lookup m.key.value).isSome = (t.seen.lookup m.key.value).isSome := by
    rw [lookupKnown,lookupKnown,alike.keys]
  have key : m.bare.key.value = m.key.value := rfl
  unfold metadataStep
  simp only [key]
  cases left : s.seen.lookup m.key.value with
  | none =>
    cases right : t.seen.lookup m.key.value with
    | none => exact metadataEntryAlike ⟨by simp [alike.keys],alike.family,alike.severity,alike.errors⟩
    | some span => simp [left,right] at known
  | some span =>
    cases right : t.seen.lookup m.key.value with
    | none => simp [left,right] at known
    | some other => exact ⟨alike.keys,alike.family,alike.severity,by simp [alike.errors]⟩

theorem metadataFoldAlike {ms : List MetadataEntry} {s t : MetadataState} (alike : Alike s t) :
    Alike ((ms.map MetadataEntry.bare).foldl metadataStep s) (ms.foldl metadataStep t) := by
  induction ms generalizing s t with
  | nil => exact alike
  | cons m ms ih => exact ih (metadataStepAlike alike)

section
variable {ast : PatternAst}

theorem metadataBare : hasErrors (validateMetadata ast.bare) = hasErrors (validateMetadata ast) := by
  have parts : ast.bare.metadata = ast.metadata.map MetadataEntry.bare ∧
    ast.bare.version.value = ast.version.value := ⟨rfl,rfl⟩
  simp only [validateMetadata,parts.1,parts.2,hasErrorsAppend]
  generalize left : (ast.metadata.map MetadataEntry.bare).foldl metadataStep _ = s
  generalize right : ast.metadata.foldl metadataStep _ = t
  have alike : Alike s t := by
    rw [← left,← right]
    refine metadataFoldAlike ⟨rfl,rfl,rfl,?_⟩
    split <;> rfl
  rw [alike.errors,alike.family,alike.severity]
  cases t.hasFamily <;> cases t.hasSeverity <;> rfl

theorem validateBare : hasErrors (validate ast.bare) = hasErrors (validate ast) := by
  simp only [validate,hasErrorsAppend,metadataBare,evidenceBare,constraintBare,sequenceBare,sameCallBare,
    evidenceNamesBare]

theorem resolveNameBare {name : String} : resolveName ast.bare name = resolveName ast name := by
  have evidence : ast.bare.evidence = ast.evidence.map EvidenceDecl.bare := rfl
  unfold resolveName
  rw [evidence,List.findIdx?_map]
  rfl

theorem resolveNamesBare {names : List SpannedString} :
    (names.map SpannedString.bare).mapM (fun s => resolveName ast.bare s.value) =
      names.mapM fun s => resolveName ast s.value := by
  rw [List.mapM_map]
  exact mapMSame fun _ _ => resolveNameBare

theorem compileBoolExprBare (e : BoolExpr) : compileBoolExpr ast.bare e.bare = compileBoolExpr ast e := by
  have operands {items : List BoolExpr} (each : ∀ e ∈ items, compileBoolExpr ast.bare e.bare = compileBoolExpr ast e) :
      compileBoolExprs ast.bare (BoolExpr.bareAll items) = compileBoolExprs ast items := by
    rw [compileBoolExprsEq,compileBoolExprsEq,BoolExpr.bareAllEq,List.mapM_map]
    exact mapMSame each
  induction e with
  | evidenceRef name => simp only [BoolExpr.bare,compileBoolExpr,resolveNameBare,bareValue]
  | and items span ih => simp only [BoolExpr.bare,compileBoolExpr,operands ih]
  | or items span ih => simp only [BoolExpr.bare,compileBoolExpr,operands ih]
  | not inner span ih => simp only [BoolExpr.bare,compileBoolExpr,ih]

theorem implicitBare : implicitRequiredAnd ast.bare = implicitRequiredAnd ast := by
  have evidence : ast.bare.evidence = ast.evidence.map EvidenceDecl.bare := rfl
  unfold implicitRequiredAnd
  rw [evidence,List.filter_map,List.mapM_map]
  simp only [resolveNameBare]
  rfl

theorem compileConstraintBare : compileConstraint ast.bare = compileConstraint ast := by
  have constraint : ast.bare.constraint = ast.constraint.map BoolExpr.bare := rfl
  unfold compileConstraint
  rw [constraint]
  cases ast.constraint with
  | none => exact implicitBare
  | some e => exact compileBoolExprBare e

theorem compileSequenceBare : ast.bare.sequence.mapM (compileSequence ast.bare) =
    ast.sequence.mapM (compileSequence ast) := by
  have sequence : ast.bare.sequence = ast.sequence.map SequenceConstraint.bare := rfl
  have each (q : SequenceConstraint) : compileSequence ast.bare q.bare = compileSequence ast q := by
    unfold compileSequence SequenceConstraint.bare
    rw [resolveNamesBare]
    cases q.withinSeconds <;> rfl
  rw [sequence]
  cases ast.sequence with
  | none => rfl
  | some q => simp only [Option.map_some,Option.mapM_some,each]

theorem compileSameCallBare : ast.bare.sameCall.mapM (compileSameCall ast.bare) =
    ast.sameCall.mapM (compileSameCall ast) := by
  have sameCall : ast.bare.sameCall = ast.sameCall.map SameCallConstraint.bare := rfl
  have each (g : SameCallConstraint) : compileSameCall ast.bare g.bare = compileSameCall ast g := by
    unfold compileSameCall SameCallConstraint.bare
    rw [resolveNamesBare]
  rw [sameCall]
  cases ast.sameCall with
  | none => rfl
  | some g => simp only [Option.map_some,Option.mapM_some,each]

theorem metadataValueBare {key : String} :
    metadataValue ast.bare key = (metadataValue ast key).map MetadataValue.bare := by
  have metadata : ast.bare.metadata = ast.metadata.map MetadataEntry.bare := rfl
  unfold metadataValue
  rw [metadata,List.find?_map,Option.map_map,Option.map_map]
  rfl

theorem stringListBare {key : String} : stringList ast.bare key = stringList ast key := by
  unfold stringList
  rw [metadataValueBare]
  cases metadataValue ast key with
  | none => rfl
  | some value => cases value <;> simp [MetadataValue.bare]

theorem compileFamilyBare : compileFamily ast.bare = compileFamily ast := by
  unfold compileFamily
  rw [metadataValueBare]
  cases metadataValue ast "family" with
  | none => rfl
  | some value => cases value <;> rfl

theorem compileSeverityBare : compileSeverity ast.bare = compileSeverity ast := by
  unfold compileSeverity
  rw [metadataValueBare]
  cases metadataValue ast "severity" with
  | none => rfl
  | some value => cases value <;> rfl

theorem compileEvidenceBare : ast.bare.evidence.map compileEvidence = ast.evidence.map compileEvidence := by
  have evidence : ast.bare.evidence = ast.evidence.map EvidenceDecl.bare := rfl
  have attr (a : PredicateAttr) : compileAttr a.bare = compileAttr a := by
    unfold compileAttr PredicateAttr.bare
    cases a.value <;> rfl
  rw [evidence,List.map_map]
  refine List.map_congr_left fun d _ => ?_
  simp [compileEvidence,EvidenceDecl.bare,Predicate.bare,attr]

theorem compileBare {p : CompiledPattern} : compile ast.bare = .ok p ↔ compile ast = .ok p := by
  have parts : ast.bare.version.value = ast.version.value ∧ ast.bare.id.value = ast.id.value := ⟨rfl,rfl⟩
  simp only [compileOk,validateBare,compileConstraintBare,compileSequenceBare,compileSameCallBare,
    compileFamilyBare,compileSeverityBare,stringListBare,compileEvidenceBare,parts.1,parts.2]

end

theorem compileAlike {ast other : PatternAst} {p : CompiledPattern} (same : ast.bare = other.bare) :
    compile ast = .ok p ↔ compile other = .ok p := by rw [← compileBare,same,compileBare]

end RootCause.Dsl
