import Mathlib.Data.List.Induction
import RootCause.Dsl.Meaning

/-! What an error-free validation promises to the compiler. Every `expect` of the
compiler is reached with a value, except for the one on the version: validation bounds
the version from below only. -/
namespace RootCause.Dsl
open Library Ast Schema

def valueOf (entries : List MetadataEntry) (key : String) : Option MetadataValue :=
  (entries.find? fun m => m.key.value = key).map MetadataEntry.value

structure MetadataKnown (entries : List MetadataEntry) (s : MetadataState) : Prop where
  seen : ∀ key, s.seen.lookup key = none ↔ ∀ e ∈ entries, e.key.value ≠ key
  family : s.hasFamily = true → ∃ name, valueOf entries "family" = some (.ident name)
  severity : s.hasSeverity = true →
    ∃ name, valueOf entries "severity" = some (.ident name) ∧ name.value ∈ severityValues

theorem valueOfAppend {entries : List MetadataEntry} {entry : MetadataEntry} {key : String}
    {value : MetadataValue} (found : valueOf entries key = some value) :
    valueOf (entries ++ [entry]) key = some value := by
  obtain ⟨e,first,rfl⟩ := Option.map_eq_some_iff.mp found
  simp [valueOf,List.find?_append,first]

theorem valueOfLast {entries : List MetadataEntry} {entry : MetadataEntry}
    (fresh : ∀ e ∈ entries, e.key.value ≠ entry.key.value) :
    valueOf (entries ++ [entry]) entry.key.value = some entry.value := by
  have none : entries.find? (fun m => m.key.value = entry.key.value) = none := by
    simpa using fresh
  simp [valueOf,List.find?_append,none]

theorem validateEntryParts (entry : MetadataEntry) (key : String) (s : MetadataState) :
    (validateMetadataEntry entry key s).seen = s.seen ∧
    (validateMetadataEntry entry key s).hasFamily = (s.hasFamily || key = "family") ∧
    (validateMetadataEntry entry key s).hasSeverity = (s.hasSeverity || key = "severity") ∧
    ((validateMetadataEntry entry key s).diags.hasErrors = false → s.diags.hasErrors = false ∧
      (key = "family" → ∃ name, entry.value = .ident name) ∧
      (key = "severity" → ∃ name, entry.value = .ident name ∧ name.value ∈ severityValues)) := by
  unfold validateMetadataEntry
  split
  · refine ⟨rfl,by simp,by simp,fun clean => ?_⟩
    rw [Diagnostics.hasErrorsAppend,Bool.or_eq_false_iff] at clean
    refine ⟨clean.1,fun _ => ?_,by simp⟩
    cases shape : entry.value with
    | ident name => exact ⟨name,rfl⟩
    | str text => simp [shape] at clean
    | strList items => simp [shape] at clean
  · refine ⟨rfl,by simp,by simp,fun clean => ?_⟩
    rw [Diagnostics.hasErrorsAppend,Bool.or_eq_false_iff] at clean
    refine ⟨clean.1,by simp,fun _ => ?_⟩
    have value := clean.2
    unfold validateSeverityValue at value
    split at value
    · rename_i name shape
      refine ⟨name,shape,?_⟩
      by_contra unlisted
      simp [unlisted] at value
    · simp at value
  · refine ⟨rfl,by simp,by simp,fun clean => ?_⟩
    rw [Diagnostics.hasErrorsAppend,Bool.or_eq_false_iff] at clean
    exact ⟨clean.1,by simp,by simp⟩
  · refine ⟨rfl,by simp,by simp,fun clean => ?_⟩
    rw [Diagnostics.hasErrorsAppend,Bool.or_eq_false_iff] at clean
    exact ⟨clean.1,by simp,by simp⟩
  · rename_i family severity _ _
    refine ⟨rfl,by simp [show key ≠ "family" from family],by simp [show key ≠ "severity" from severity],
      fun clean => ?_⟩
    rw [Diagnostics.hasErrorsAppend,Bool.or_eq_false_iff] at clean
    exact ⟨clean.1,fun same => absurd same family,fun same => absurd same severity⟩

theorem metadataStepKnown {entries : List MetadataEntry} {entry : MetadataEntry} {s : MetadataState}
    (known : s.diags.hasErrors = false → MetadataKnown entries s)
    (clean : (metadataStep s entry).diags.hasErrors = false) : s.diags.hasErrors = false ∧
      MetadataKnown (entries ++ [entry]) (metadataStep s entry) := by
  cases unseen : s.seen.lookup entry.key.value with
  | some span => simp [metadataStep,unseen] at clean
  | none =>
    simp only [metadataStep,unseen] at clean ⊢
    obtain ⟨seen,family,severity,checked⟩ := validateEntryParts entry entry.key.value
      { s with seen := (entry.key.value,entry.key.span) :: s.seen }
    obtain ⟨before,asFamily,asSeverity⟩ := checked clean
    have known := known before
    have fresh := (known.seen entry.key.value).mp unseen
    refine ⟨before,?_,?_,?_⟩
    · intro key
      rw [seen,List.lookup_cons]
      cases same : key == entry.key.value with
      | true => simp [eq_of_beq same]
      | false => simp [known.seen key,or_imp,forall_and,Ne.symm (beq_eq_false_iff_ne.mp same)]
    · intro has
      rw [family,Bool.or_eq_true,decide_eq_true_eq] at has
      rcases has with earlier | here
      · obtain ⟨name,found⟩ := known.family earlier
        exact ⟨name,valueOfAppend found⟩
      · obtain ⟨name,shape⟩ := asFamily here
        exact ⟨name,by rw [← here,valueOfLast fresh,shape]⟩
    · intro has
      rw [severity,Bool.or_eq_true,decide_eq_true_eq] at has
      rcases has with earlier | here
      · obtain ⟨name,found,listed⟩ := known.severity earlier
        exact ⟨name,valueOfAppend found,listed⟩
      · obtain ⟨name,shape,listed⟩ := asSeverity here
        exact ⟨name,by rw [← here,valueOfLast fresh,shape],listed⟩

theorem metadataLoopKnown {entries : List MetadataEntry} {version : Diagnostics}
    (clean : (entries.foldl metadataStep ⟨[],false,false,version⟩).diags.hasErrors = false) :
    version.hasErrors = false ∧
      MetadataKnown entries (entries.foldl metadataStep ⟨[],false,false,version⟩) := by
  induction entries using List.reverseRecOn with
  | nil => exact ⟨clean,by simp,by simp,by simp⟩
  | append_singleton entries entry ih =>
    rw [List.foldl_append,List.foldl_cons,List.foldl_nil] at clean ⊢
    obtain ⟨before,known⟩ := metadataStepKnown (fun before => (ih before).2) clean
    exact ⟨(ih before).1,known⟩

theorem severityListed {name : String} (listed : name ∈ severityValues) :
    ∃ severity, severityFromStr name = some severity := by
  simp only [severityValues,List.mem_cons,List.not_mem_nil,or_false] at listed
  rcases listed with rfl | rfl | rfl | rfl
  · exact ⟨.low,rfl⟩
  · exact ⟨.medium,rfl⟩
  · exact ⟨.high,rfl⟩
  · exact ⟨.critical,rfl⟩

theorem metadataClean {ast : PatternAst} (clean : (validateMetadata ast).hasErrors = false) :
    1 ≤ ast.version.value.toInt ∧ (∃ family, compileFamily ast = some family) ∧
      ∃ severity, compileSeverity ast = some severity := by
  simp only [validateMetadata,Diagnostics.hasErrorsAppend,Bool.or_eq_false_iff] at clean
  obtain ⟨⟨entries,family⟩,severity⟩ := clean
  obtain ⟨version,known⟩ := metadataLoopKnown entries
  generalize ast.metadata.foldl metadataStep _ = s at family severity known
  refine ⟨?_,?_,?_⟩
  · by_contra low
    simp [Int.not_le.mp low] at version
  · split at family
    · rename_i has
      obtain ⟨name,found⟩ := known.family has
      have value : metadataValue ast "family" = some (.ident name) := found
      exact ⟨name.value,by rw [compileFamily,value]⟩
    · simp at family
  · split at severity
    · rename_i has
      obtain ⟨name,found,listed⟩ := known.severity has
      have value : metadataValue ast "severity" = some (.ident name) := found
      rw [compileSeverity,value]
      exact severityListed listed
    · simp at severity

theorem declaredResolves {ast : PatternAst} {name : String} (declared : name ∈ evidenceNames ast) :
    ∃ r, resolveName ast name = .ok r := by
  obtain ⟨d,mem,same⟩ := List.mem_map.mp declared
  have found : (ast.evidence.findIdx? fun d => d.name.value = name).isSome := by
    rw [List.findIdx?_isSome]
    exact List.any_eq_true.mpr ⟨d,mem,by simp [same]⟩
  obtain ⟨idx,at'⟩ := Option.isSome_iff_exists.mp found
  exact ⟨.ofIndex idx,by rw [resolveName,at']; rfl⟩

theorem checkBoolExprsEq (names : List String) (items : List BoolExpr) :
    checkBoolExprs names items = items.flatMap (checkBoolExpr names) := by
  induction items with
  | nil => simp [checkBoolExprs]
  | cons item rest ih => simp [checkBoolExprs,ih]

theorem implicitCompiles {ast : PatternAst} : ∃ c, implicitRequiredAnd ast = .ok c := by
  have each : ∀ d ∈ ast.evidence.filter fun d => d.requiredness = .required,
      ∃ c, (do let r ← resolveName ast d.name.value; pure (Formula.leaf r)) =
        (.ok c : Except (Failure Diagnostics) CompiledConstraint) := by
    intro d mem
    have declared : d.name.value ∈ evidenceNames ast :=
      List.mem_map_of_mem (f := fun d => d.name.value) (List.mem_of_mem_filter mem)
    obtain ⟨r,resolved⟩ := declaredResolves declared
    exact ⟨.leaf r,by rw [resolved]; rfl⟩
  obtain ⟨refs,inner⟩ := mapMTotal each
  unfold implicitRequiredAnd
  rw [inner]
  cases refs with
  | nil => exact ⟨_,rfl⟩
  | cons first rest => cases rest with
    | nil => exact ⟨_,rfl⟩
    | cons second rest => exact ⟨_,rfl⟩

theorem expressionCompiles {ast : PatternAst} {e : BoolExpr}
    (clean : Diagnostics.hasErrors (checkBoolExpr (evidenceNames ast) e) = false) :
    ∃ c, compileBoolExpr ast e = .ok c := by
  have operands {items : List BoolExpr}
      (clean : Diagnostics.hasErrors (checkBoolExprs (evidenceNames ast) items) = false)
      (each : ∀ e ∈ items, Diagnostics.hasErrors (checkBoolExpr (evidenceNames ast) e) = false →
        ∃ c, compileBoolExpr ast e = .ok c) : ∃ cs, compileBoolExprs ast items = .ok cs := by
    rw [checkBoolExprsEq,Diagnostics.cleanFlatMap] at clean
    rw [compileBoolExprsEq]
    exact mapMTotal fun e mem => each e mem (clean e mem)
  induction e with
  | evidenceRef name =>
    obtain ⟨r,resolved⟩ := declaredResolves (undeclaredClean clean)
    exact ⟨.leaf r,by rw [compileBoolExpr,resolved]; rfl⟩
  | and items span ih =>
    obtain ⟨cs,compiled⟩ := operands clean ih
    exact ⟨.and cs,by rw [compileBoolExpr,compiled]; rfl⟩
  | or items span ih =>
    obtain ⟨cs,compiled⟩ := operands clean ih
    exact ⟨.or cs,by rw [compileBoolExpr,compiled]; rfl⟩
  | not inner span ih =>
    obtain ⟨c,compiled⟩ := ih clean
    exact ⟨.not c,by rw [compileBoolExpr,compiled]; rfl⟩

theorem referencesResolve {ast : PatternAst} {heading reason : String} {refs : List SpannedString}
    (clean : Diagnostics.hasErrors
      (validateReferences heading reason (evidenceNames ast) [] refs) = false) :
    ∃ out, refs.mapM (fun s => resolveName ast s.value) = .ok out :=
  mapMTotal fun s mem => declaredResolves ((referencesClean clean).2.2 s mem)

theorem compileTotal {ast : PatternAst} (clean : (validate ast).hasErrors = false) :
    (∃ p, compile ast = .ok p) ↔ ∃ version, u32OfI64 ast.version.value = some version := by
  constructor
  · intro given
    obtain ⟨p,compiled⟩ := given
    obtain ⟨_,_,_,_,_,_,version,_,_,_,_,_,narrowed,_⟩ := compileOk.mp compiled
    exact ⟨version,narrowed⟩
  · intro given
    obtain ⟨version,narrowed⟩ := given
    have passes := clean
    simp only [validate,Diagnostics.hasErrorsAppend,Bool.or_eq_false_iff] at passes
    obtain ⟨⟨⟨⟨metadata,evidence⟩,constraint⟩,sequence⟩,sameCall⟩ := passes
    obtain ⟨_,⟨family,hf⟩,severity,hv⟩ := metadataClean metadata
    obtain ⟨c,hc⟩ : ∃ c, compileConstraint ast = .ok c := by
      unfold compileConstraint
      cases written : ast.constraint with
      | none => exact implicitCompiles
      | some e =>
        simp only [validateConstraint,written,Diagnostics.hasErrorsAppend,Bool.or_eq_false_iff] at constraint
        exact expressionCompiles constraint.1
    obtain ⟨seq,hs⟩ : ∃ seq, ast.sequence.mapM (compileSequence ast) = .ok seq := by
      refine optionMapMTotal fun written given => ?_
      rw [Option.mem_def] at given
      simp only [validateSequence,given,Diagnostics.hasErrorsAppend,Bool.or_eq_false_iff] at sequence
      obtain ⟨steps,resolved⟩ := referencesResolve sequence.1.2
      exact ⟨_,by rw [compileSequence,resolved]; rfl⟩
    obtain ⟨sc,hm⟩ : ∃ sc, ast.sameCall.mapM (compileSameCall ast) = .ok sc := by
      refine optionMapMTotal fun written given => ?_
      rw [Option.mem_def] at given
      simp only [validateSameCall,given,Diagnostics.hasErrorsAppend,Bool.or_eq_false_iff] at sameCall
      obtain ⟨members,resolved⟩ := referencesResolve sameCall.2
      exact ⟨_,by rw [compileSameCall,resolved]; rfl⟩
    exact ⟨_,compileOk.mpr ⟨clean,c,seq,sc,family,severity,version,hc,hs,hm,hf,hv,narrowed,rfl⟩⟩

end RootCause.Dsl
