import RootCause.Dsl.Marked

/-! What a pattern has to be, said without a traversal: the validator reports no error for
exactly these trees, and the compiler accepts those among them whose version it can keep. -/
namespace RootCause.Dsl
open Library Ast Schema

structure MetadataEntryOk (e : MetadataEntry) : Prop where
  family : e.key.value = "family" → ∃ name, e.value = .ident name
  severity : e.key.value = "severity" → ∃ name, e.value = .ident name ∧ name.value ∈ severityValues
  list : e.key.value = "tags" ∨ e.key.value = "references" → ∃ items, e.value = .strList items

def metadataKeys (entries : List MetadataEntry) : List String := entries.map fun e => e.key.value

theorem metadataKeysCons {e : MetadataEntry} {entries : List MetadataEntry} :
    metadataKeys (e :: entries) = e.key.value :: metadataKeys entries := rfl

structure MetadataOk (ast : PatternAst) : Prop where
  version : 1 ≤ ast.version.value.toInt
  distinct : (metadataKeys ast.metadata).Nodup
  values : ∀ e ∈ ast.metadata, MetadataEntryOk e
  family : "family" ∈ metadataKeys ast.metadata
  severity : "severity" ∈ metadataKeys ast.metadata

def Schema.AttrShape.Fits : AttrShape → Ast.AttrValue → Prop
  | .str, .str _ | .int, .int _ | .bool, .bool _ => True
  | .enumeration values, .ident name => name.value ∈ values
  | _, _ => False

structure PredicateFits (schema : PredicateSchema) (p : Predicate) : Prop where
  distinct : (p.attributes.map fun a => a.name.value).Nodup
  known : ∀ a ∈ p.attributes, ∃ attr, schema.attrs.find? (fun s => s.name = a.name.value) = some attr ∧
    attr.shape.Fits a.value
  required : ∀ attr ∈ schema.attrs, attr.required = true → ∃ a ∈ p.attributes, a.name.value = attr.name
  compatible : schema.kind = "call" → ¬ ((∃ a ∈ p.attributes, isStaticAttr a) ∧ ∃ a ∈ p.attributes, isReentrantAttr a)

def PredicateOk (p : Predicate) : Prop := ∃ schema, lookup p.kind.value = some schema ∧ PredicateFits schema p

inductive Ast.BoolExpr.Refers (name : String) : BoolExpr → Prop where
  | evidenceRef {s} (same : s.value = name) : Refers name (.evidenceRef s)
  | and {items span e} (mem : e ∈ items) (below : Refers name e) : Refers name (.and items span)
  | or {items span e} (mem : e ∈ items) (below : Refers name e) : Refers name (.or items span)
  | not {inner span} (below : Refers name inner) : Refers name (.not inner span)

structure ReferencesOk (names : List String) (refs : List SpannedString) : Prop where
  two : 2 ≤ refs.length
  distinct : (refs.map SpannedString.value).Nodup
  declared : ∀ s ∈ refs, s.value ∈ names

structure Valid (ast : PatternAst) : Prop where
  metadata : MetadataOk ast
  distinct : (evidenceNames ast).Nodup
  predicates : ∀ d ∈ ast.evidence, PredicateOk d.predicate
  required : ∃ d ∈ ast.evidence, d.requiredness = .required
  constraint : ∀ e ∈ ast.constraint, ∀ name, e.Refers name → name ∈ evidenceNames ast
  sequence : ∀ s ∈ ast.sequence, ReferencesOk (evidenceNames ast) s.steps ∧
    ∀ n ∈ s.withinSeconds, 0 < n.value.toInt
  sameCall : ∀ s ∈ ast.sameCall, ReferencesOk (evidenceNames ast) s.members

section
variable {d : Diagnostic}

theorem cleanUnless {c : Prop} [Decidable c] (severe : d.severity = .error) :
    Diagnostics.hasErrors (if c then [] else [d]) = false ↔ c := by
  split <;> simp_all [Diagnostics.hasErrors]

theorem cleanWhen {c : Prop} [Decidable c] (severe : d.severity = .error) :
    Diagnostics.hasErrors (if c then [d] else []) = false ↔ ¬ c := by
  split <;> simp_all [Diagnostics.hasErrors]

end

section
variable {ast : PatternAst} {entry : MetadataEntry} {s : MetadataState}

theorem severityValueIff : Diagnostics.hasErrors (validateSeverityValue entry) = false ↔
    ∃ name, entry.value = .ident name ∧ name.value ∈ severityValues := by
  unfold validateSeverityValue
  split
  · rename_i name shape
    rw [cleanUnless rfl,List.contains_iff_mem,shape]
    simp
  · rename_i other
    simpa using fun name shape => absurd shape (other name)

theorem entryIff {key : String} (here : entry.key.value = key) :
    (validateMetadataEntry entry key s).diags.hasErrors = false ↔
      s.diags.hasErrors = false ∧ MetadataEntryOk entry := by
  unfold validateMetadataEntry
  split
  · have only : MetadataEntryOk entry ↔ ∃ name, entry.value = .ident name :=
      ⟨fun ok => ok.family here,fun ident => ⟨fun _ => ident,by simp [here],by simp [here]⟩⟩
    rw [only,Diagnostics.hasErrorsAppend,Bool.or_eq_false_iff]
    cases entry.value <;> simp
  · have only : MetadataEntryOk entry ↔ ∃ name, entry.value = .ident name ∧ name.value ∈ severityValues :=
      ⟨fun ok => ok.severity here,fun listed => ⟨by simp [here],fun _ => listed,by simp [here]⟩⟩
    rw [only,← severityValueIff,Diagnostics.hasErrorsAppend,Bool.or_eq_false_iff]
  · have only : MetadataEntryOk entry ↔ ∃ items, entry.value = .strList items :=
      ⟨fun ok => ok.list (.inl here),fun items => ⟨by simp [here],by simp [here],fun _ => items⟩⟩
    rw [only,Diagnostics.hasErrorsAppend,Bool.or_eq_false_iff]
    cases entry.value <;> simp
  · have only : MetadataEntryOk entry ↔ ∃ items, entry.value = .strList items :=
      ⟨fun ok => ok.list (.inr here),fun items => ⟨by simp [here],by simp [here],fun _ => items⟩⟩
    rw [only,Diagnostics.hasErrorsAppend,Bool.or_eq_false_iff]
    cases entry.value <;> simp
  · rename_i family severity tags references
    have free : MetadataEntryOk entry :=
      ⟨fun same => absurd (here.symm.trans same) family,fun same => absurd (here.symm.trans same) severity,
        fun same => by
          rcases same with same | same
          · exact absurd (here.symm.trans same) tags
          · exact absurd (here.symm.trans same) references⟩
    simp [free]

def seenKeys (s : MetadataState) : List String := s.seen.map Prod.fst

theorem unseenIff {key : String} : s.seen.lookup key = none ↔ key ∉ seenKeys s := by
  rw [seenKeys,List.lookup_eq_none_iff,List.mem_map]
  constructor
  · rintro unseen ⟨seen,mem,rfl⟩
    simpa using unseen seen mem
  · intro new seen mem
    simpa using fun same => new ⟨seen,mem,same.symm⟩

theorem metadataStepIff : (metadataStep s entry).diags.hasErrors = false ↔
    s.diags.hasErrors = false ∧ entry.key.value ∉ seenKeys s ∧ MetadataEntryOk entry := by
  cases unseen : s.seen.lookup entry.key.value with
  | some span =>
    have known : entry.key.value ∈ seenKeys s := by
      by_contra new
      rw [unseenIff.mpr new] at unseen
      contradiction
    simp [metadataStep,unseen,known]
  | none =>
    have new := unseenIff.mp unseen
    simp only [metadataStep,unseen,entryIff rfl,new,not_false_eq_true,true_and]

theorem metadataStepParts (new : entry.key.value ∉ seenKeys s) :
    seenKeys (metadataStep s entry) = entry.key.value :: seenKeys s ∧
    (metadataStep s entry).hasFamily = (s.hasFamily || entry.key.value = "family") ∧
    (metadataStep s entry).hasSeverity = (s.hasSeverity || entry.key.value = "severity") := by
  obtain ⟨seen,family,severity,_⟩ := validateEntryParts entry entry.key.value
    { s with seen := (entry.key.value,entry.key.span) :: s.seen }
  simp only [metadataStep,unseenIff.mpr new]
  exact ⟨by rw [seenKeys,seen]; rfl,family,severity⟩

theorem metadataLoopIff {entries : List MetadataEntry} :
    (entries.foldl metadataStep s).diags.hasErrors = false ↔ s.diags.hasErrors = false ∧
      ((metadataKeys entries).Nodup ∧ (metadataKeys entries).Disjoint (seenKeys s)) ∧
      ∀ e ∈ entries, MetadataEntryOk e := by
  induction entries generalizing s with
  | nil => simp [metadataKeys]
  | cons e entries ih =>
    rw [List.foldl_cons,ih,metadataStepIff,metadataKeysCons,freshCons,List.forall_mem_cons]
    by_cases new : e.key.value ∈ seenKeys s
    · simp [new]
    · rw [(metadataStepParts new).1]
      tauto

theorem metadataLoopHas {entries : List MetadataEntry}
    (fresh : (metadataKeys entries).Nodup ∧ (metadataKeys entries).Disjoint (seenKeys s)) :
    ((entries.foldl metadataStep s).hasFamily = true ↔ s.hasFamily = true ∨ "family" ∈ metadataKeys entries) ∧
    ((entries.foldl metadataStep s).hasSeverity = true ↔
      s.hasSeverity = true ∨ "severity" ∈ metadataKeys entries) := by
  induction entries generalizing s with
  | nil => simp [metadataKeys]
  | cons e entries ih =>
    rw [metadataKeysCons] at fresh
    obtain ⟨new,later⟩ := freshCons.mp fresh
    obtain ⟨seen,family,severity⟩ := metadataStepParts new
    obtain ⟨hasFamily,hasSeverity⟩ := ih (s := metadataStep s e) (by rw [seen]; exact later)
    rw [List.foldl_cons,hasFamily,hasSeverity,family,severity,metadataKeysCons]
    simp [or_assoc,eq_comm (a := e.key.value)]

theorem metadataIff : (validateMetadata ast).hasErrors = false ↔ MetadataOk ast := by
  simp only [validateMetadata,Diagnostics.hasErrorsAppend,Bool.or_eq_false_iff]
  rw [cleanUnless rfl,cleanUnless rfl,metadataLoopIff,cleanWhen rfl]
  have start (version : Diagnostics) : seenKeys ⟨[],false,false,version⟩ = [] := rfl
  simp only [start,List.disjoint_nil_right,and_true,Int.not_lt]
  have has (distinct : (metadataKeys ast.metadata).Nodup) (version : Diagnostics) :=
    @metadataLoopHas ⟨[],false,false,version⟩ ast.metadata ⟨distinct,List.disjoint_nil_right _⟩
  constructor
  · rintro ⟨⟨⟨version,distinct,values⟩,family⟩,severity⟩
    exact ⟨version,distinct,values,by simpa using (has distinct _).1.mp family,
      by simpa using (has distinct _).2.mp severity⟩
  · rintro ⟨version,distinct,values,family,severity⟩
    exact ⟨⟨⟨version,distinct,values⟩,(has distinct _).1.mpr (.inr family)⟩,(has distinct _).2.mpr (.inr severity)⟩

end

section
variable {ast : PatternAst} {names : List String}

theorem attrShapeIff {a : PredicateAttr} {shape : AttrShape} :
    Diagnostics.hasErrors (validateAttrShape a shape) = false ↔ shape.Fits a.value := by
  cases value : a.value with
  | ident name =>
    cases shape with
    | enumeration values =>
      simp only [validateAttrShape,value]
      rw [cleanUnless rfl,List.contains_iff_mem]
      rfl
    | _ => simp [validateAttrShape,value,AttrShape.Fits]
  | str text => cases shape <;> simp [validateAttrShape,value,AttrShape.Fits]
  | int number => cases shape <;> simp [validateAttrShape,value,AttrShape.Fits]
  | bool flag => cases shape <;> simp [validateAttrShape,value,AttrShape.Fits]

theorem predicateAttrsIff {schema : PredicateSchema} {seen : List String} {attrs : List PredicateAttr} :
    Diagnostics.hasErrors (validatePredicateAttrs schema seen attrs) = false ↔
      ((attrs.map fun a => a.name.value).Nodup ∧ (attrs.map fun a => a.name.value).Disjoint seen) ∧
      ∀ a ∈ attrs, ∃ attr, schema.attrs.find? (fun s => s.name = a.name.value) = some attr ∧
        attr.shape.Fits a.value := by
  induction attrs generalizing seen with
  | nil => simp [validatePredicateAttrs]
  | cons a attrs ih =>
    rw [validatePredicateAttrs,List.map_cons,freshCons,List.forall_mem_cons]
    split
    · rename_i known
      have repeated : a.name.value ∈ seen := List.contains_iff_mem.mp known
      simp [Diagnostics.hasErrors,Diagnostic.error,repeated]
    · rename_i unknown
      have fresh : a.name.value ∉ seen := fun mem => unknown (List.contains_iff_mem.mpr mem)
      rw [Diagnostics.hasErrorsAppend,Bool.or_eq_false_iff,ih]
      cases found : schema.attrs.find? fun s => s.name = a.name.value with
      | none => simp
      | some attr =>
        simp only [attrShapeIff,Option.some.injEq,exists_eq_left',fresh,not_false_eq_true,true_and]
        tauto

theorem requiredAttrsIff {p : Predicate} {schema : PredicateSchema} :
    Diagnostics.hasErrors (validateRequiredAttrsPresent p schema) = false ↔
      ∀ attr ∈ schema.attrs, attr.required = true → ∃ a ∈ p.attributes, a.name.value = attr.name := by
  unfold validateRequiredAttrsPresent
  rw [Diagnostics.cleanFlatMap]
  simp only [List.mem_filter,and_imp]
  refine forall₂_congr fun attr _ => imp_congr_right fun _ => ?_
  rw [cleanUnless rfl,List.any_eq_true]
  simp

theorem incompatibleIff {p : Predicate} {schema : PredicateSchema} :
    Diagnostics.hasErrors (validatePredicateIncompatibilities p schema) = false ↔ (schema.kind = "call" →
      ¬ ((∃ a ∈ p.attributes, isStaticAttr a) ∧ ∃ a ∈ p.attributes, isReentrantAttr a)) := by
  unfold validatePredicateIncompatibilities
  split
  · rename_i other
    simpa using fun same => absurd same other
  · rename_i call
    rw [cleanWhen rfl,Bool.and_eq_true,List.any_eq_true,List.any_eq_true]
    simp [not_not.mp call]

theorem predicateIff {p : Predicate} : Diagnostics.hasErrors (validatePredicate p) = false ↔ PredicateOk p := by
  unfold validatePredicate PredicateOk
  cases found : lookup p.kind.value with
  | none => simp
  | some schema =>
    simp only [Diagnostics.hasErrorsAppend,Bool.or_eq_false_iff,predicateAttrsIff,requiredAttrsIff,incompatibleIff,
      List.disjoint_nil_right,and_true,Option.some.injEq,exists_eq_left']
    constructor
    · rintro ⟨⟨⟨distinct,known⟩,required⟩,compatible⟩
      exact ⟨distinct,known,required,compatible⟩
    · rintro ⟨distinct,known,required,compatible⟩
      exact ⟨⟨⟨distinct,known⟩,required⟩,compatible⟩

theorem declsIff {decls : List EvidenceDecl} : Diagnostics.hasErrors (validateEvidenceDecls names decls) = false ↔
    ((decls.map fun d => d.name.value).Nodup ∧ (decls.map fun d => d.name.value).Disjoint names) ∧
      ∀ d ∈ decls, PredicateOk d.predicate := by
  induction decls generalizing names with
  | nil => simp [validateEvidenceDecls]
  | cons d decls ih =>
    rw [validateEvidenceDecls,Diagnostics.hasErrorsAppend,Diagnostics.hasErrorsAppend,Bool.or_eq_false_iff,
      Bool.or_eq_false_iff,cleanWhen rfl,predicateIff,ih,List.map_cons,freshCons,List.forall_mem_cons,
      List.contains_iff_mem]
    tauto

theorem evidenceIff : (validateEvidence ast).hasErrors = false ↔ (evidenceNames ast).Nodup ∧
    (∀ d ∈ ast.evidence, PredicateOk d.predicate) ∧ ∃ d ∈ ast.evidence, d.requiredness = .required := by
  rw [validateEvidence,Diagnostics.hasErrorsAppend,Bool.or_eq_false_iff,declsIff]
  have enough : Diagnostics.hasErrors (if ast.evidence.isEmpty then
      [.error ast.span "pattern" ("pattern declares no evidence at all; a pattern with nothing to ground can never " ++
        "produce a classification")]
    else if ast.evidence.any fun decl => decl.requiredness = .required then []
    else [(Diagnostic.error ast.span "pattern evidence"
      ("pattern declares only optional evidence; at least one `required` clause is " ++
        "needed, or every match is trivially unfalsifiable")).withSuggestion
          "mark at least one evidence clause `required`"]) = false ↔
      ∃ d ∈ ast.evidence, d.requiredness = .required := by
    split
    · rename_i none
      simp [List.isEmpty_iff.mp none]
    · rw [cleanUnless rfl,List.any_eq_true]
      simp
  rw [enough,evidenceNames]
  simp only [List.disjoint_nil_right,and_true]
  tauto

theorem undeclaredIff {heading : String} {reference : SpannedString} :
    Diagnostics.hasErrors (undeclared heading names reference) = false ↔ reference.value ∈ names := by
  rw [undeclared,cleanUnless rfl,List.contains_iff_mem]

theorem exprIff {e : BoolExpr} : Diagnostics.hasErrors (checkBoolExpr names e) = false ↔
    ∀ name, e.Refers name → name ∈ names := by
  have operands {items : List BoolExpr} (each : ∀ e ∈ items,
      (Diagnostics.hasErrors (checkBoolExpr names e) = false ↔ ∀ name, e.Refers name → name ∈ names)) :
      Diagnostics.hasErrors (checkBoolExprs names items) = false ↔
        ∀ e ∈ items, ∀ name, e.Refers name → name ∈ names := by
    rw [checkBoolExprsEq,Diagnostics.cleanFlatMap]
    exact forall₂_congr each
  induction e with
  | evidenceRef s =>
    rw [checkBoolExpr,undeclaredIff]
    constructor
    · intro declared name refers
      cases refers with
      | evidenceRef same => exact same ▸ declared
    · intro each
      exact each s.value (.evidenceRef rfl)
  | and items span ih =>
    rw [checkBoolExpr,operands ih]
    constructor
    · intro each name refers
      cases refers with
      | and mem below => exact each _ mem name below
    · intro each e mem name below
      exact each name (.and mem below)
  | or items span ih =>
    rw [checkBoolExpr,operands ih]
    constructor
    · intro each name refers
      cases refers with
      | or mem below => exact each _ mem name below
    · intro each e mem name below
      exact each name (.or mem below)
  | not inner span ih =>
    rw [checkBoolExpr]
    refine ih.trans ?_
    constructor
    · intro each name refers
      cases refers with
      | not below => exact each name below
    · intro each name below
      exact each name (.not below)

theorem constraintIff : (validateConstraint ast names).hasErrors = false ↔
    ∀ e ∈ ast.constraint, ∀ name, e.Refers name → name ∈ names := by
  unfold validateConstraint
  split
  · rename_i none
    simp [none]
  · rename_i e here
    have warnings : Diagnostics.hasErrors (ast.evidence.flatMap fun decl =>
        if decl.requiredness = .required && !(referencedNames names e).contains decl.name.value then
          [(Diagnostic.warning decl.name.span ("required evidence `" ++ decl.name.value ++ "`")
            ("required evidence clause is not referenced by the pattern's `constraint` " ++
              "expression; it will still be enforced, but the constraint expression " ++
              "reads as if it weren't load-bearing")).withSuggestion
                ("reference `" ++ decl.name.value ++ "` inside the `constraint:` expression, " ++
                  "or remove `constraint:` to use the implicit AND-of-required default")]
        else []) = false := by
      rw [Diagnostics.cleanFlatMap]
      intro d _
      split <;> rfl
    rw [Diagnostics.hasErrorsAppend,warnings,Bool.or_false,exprIff,here]
    simp

theorem referencesIff {heading reason : String} {seen : List String} {refs : List SpannedString} :
    Diagnostics.hasErrors (validateReferences heading reason names seen refs) = false ↔
      ((refs.map SpannedString.value).Nodup ∧ (refs.map SpannedString.value).Disjoint seen) ∧
      ∀ s ∈ refs, s.value ∈ names := by
  induction refs generalizing seen with
  | nil => simp [validateReferences]
  | cons s refs ih =>
    rw [validateReferences,Diagnostics.hasErrorsAppend,Diagnostics.hasErrorsAppend,Bool.or_eq_false_iff,
      Bool.or_eq_false_iff,undeclaredIff,cleanWhen rfl,ih,List.map_cons,freshCons,List.forall_mem_cons,
      List.contains_iff_mem]
    tauto

theorem sequenceIff : (validateSequence ast names).hasErrors = false ↔
    ∀ s ∈ ast.sequence, ReferencesOk names s.steps ∧ ∀ n ∈ s.withinSeconds, 0 < n.value.toInt := by
  unfold validateSequence
  split
  · rename_i none
    simp [none]
  · rename_i seq here
    rw [Diagnostics.hasErrorsAppend,Diagnostics.hasErrorsAppend,Bool.or_eq_false_iff,Bool.or_eq_false_iff,here]
    refine Iff.trans (and_congr (and_congr (cleanWhen rfl) referencesIff)
      (d := ∀ n ∈ seq.withinSeconds, 0 < n.value.toInt) ?_) ?_
    · split
      · rename_i none
        simp [none]
      · rename_i n given
        rw [cleanWhen rfl,given]
        simp
    simp only [List.disjoint_nil_right,and_true,Option.mem_def,Option.some.injEq,forall_eq',Nat.not_lt]
    constructor
    · rintro ⟨⟨two,distinct,declared⟩,positive⟩
      exact ⟨⟨two,distinct,declared⟩,positive⟩
    · rintro ⟨⟨two,distinct,declared⟩,positive⟩
      exact ⟨⟨two,distinct,declared⟩,positive⟩

theorem sameCallIff : (validateSameCall ast names).hasErrors = false ↔
    ∀ s ∈ ast.sameCall, ReferencesOk names s.members := by
  unfold validateSameCall
  split
  · rename_i none
    simp [none]
  · rename_i group here
    rw [Diagnostics.hasErrorsAppend,Bool.or_eq_false_iff,cleanWhen rfl,referencesIff,here]
    simp only [List.disjoint_nil_right,and_true,Option.mem_def,Option.some.injEq,forall_eq',Nat.not_lt]
    constructor
    · rintro ⟨two,distinct,declared⟩
      exact ⟨two,distinct,declared⟩
    · rintro ⟨two,distinct,declared⟩
      exact ⟨two,distinct,declared⟩

theorem validIff : (validate ast).hasErrors = false ↔ Valid ast := by
  simp only [validate,Diagnostics.hasErrorsAppend,Bool.or_eq_false_iff,metadataIff,evidenceIff,constraintIff,
    sequenceIff,sameCallIff]
  constructor
  · rintro ⟨⟨⟨⟨metadata,distinct,predicates,required⟩,constraint⟩,sequence⟩,sameCall⟩
    exact ⟨metadata,distinct,predicates,required,constraint,sequence,sameCall⟩
  · rintro ⟨metadata,distinct,predicates,required,constraint,sequence,sameCall⟩
    exact ⟨⟨⟨⟨metadata,distinct,predicates,required⟩,constraint⟩,sequence⟩,sameCall⟩

theorem versionFits (positive : 1 ≤ ast.version.value.toInt) :
    (∃ version, u32OfI64 ast.version.value = some version) ↔ ast.version.value.toInt < UInt32.size := by
  have natural : 0 ≤ ast.version.value.toInt := by omega
  unfold u32OfI64
  split
  · rename_i both
    exact ⟨fun _ => both.2,fun _ => ⟨_,rfl⟩⟩
  · rename_i outside
    exact ⟨fun given => by simp at given,fun small => absurd ⟨natural,small⟩ outside⟩

theorem compileValid (valid : Valid ast) :
    ((∃ p, compile ast = .ok p) ↔ ast.version.value.toInt < UInt32.size) ∧
    ((∃ message, compile ast = .error (.panicked message)) ↔ UInt32.size ≤ ast.version.value.toInt) ∧
    ∀ diags, compile ast ≠ .error (.error diags) := by
  have clean := validIff.mpr valid
  have compiles := (compileTotal clean).trans (versionFits valid.metadata.version)
  have quiet : ∀ diags, compile ast ≠ .error (.error diags) := by
    intro diags failed
    obtain ⟨rfl,errors⟩ := compileReports failed
    simp [clean] at errors
  refine ⟨compiles,?_,quiet⟩
  rcases outcome : compile ast with (diags | message) | p
  · exact absurd outcome (quiet diags)
  · have refused : ¬ ast.version.value.toInt < UInt32.size := by
      intro small
      obtain ⟨p,ok⟩ := compiles.mpr small
      rw [outcome] at ok
      contradiction
    simpa using Int.not_lt.mp refused
  · have small := compiles.mp ⟨p,outcome⟩
    simpa using small

theorem compileInvalid (invalid : ¬ Valid ast) : compile ast = .error (.error (validate ast)) := by
  have errors : (validate ast).hasErrors = true := by
    rw [← Bool.not_eq_false,validIff]
    exact invalid
  simp only [compile,errors]
  rfl

theorem parseQuiet {u : UnicodeClasses} {source : String} {message : String} :
    parse u source ≠ some (.error (.panicked message)) := by
  intro failed
  obtain ⟨lexed,read,rest⟩ := Option.bind_eq_some_iff.mp failed
  cases lexed with
  | error d => simp at rest
  | ok tokens =>
    have rest : parseTokens tokens = some (.error (.panicked message)) := rest
    obtain ⟨result,same,sound⟩ : ∃ result, parseTokens tokens = some result ∧ Sound (fun _ => True) result :=
      parseTokensSound (tokenizeEnded read) (fun _ _ => trivial) fun _ _ _ _ => trivial
    rw [rest] at same
    cases same
    exact sound

end

theorem compileStrExact (u : UnicodeClasses) (source : String) :
    ((∃ p, compileStr u source = some (.ok p)) ↔
      ∃ ast, parse u source = some (.ok ast) ∧ Valid ast ∧ ast.version.value.toInt < UInt32.size) ∧
    ((∃ message, compileStr u source = some (.error (.panicked message))) ↔
      ∃ ast, parse u source = some (.ok ast) ∧ Valid ast ∧ UInt32.size ≤ ast.version.value.toInt) ∧
    ((∃ diags, compileStr u source = some (.error (.error (.validation diags)))) ↔
      ∃ ast, parse u source = some (.ok ast) ∧ ¬ Valid ast) := by
  cases read : parse u source with
  | none => simp [compileStr,read]
  | some parsed =>
    rcases parsed with (diags | message) | ast
    · simp [compileStr,read,mapFailure,bind,Except.bind]
    · exact absurd read parseQuiet
    · have whole : compileStr u source = some (mapFailure .validation (compile ast)) := by
        rw [compileStr,read]
        rfl
      rw [whole]
      simp only [Option.some.injEq,Except.ok.injEq,exists_eq_left']
      by_cases valid : Valid ast
      · obtain ⟨compiles,panics,quiet⟩ := compileValid valid
        rw [← compiles,← panics]
        rcases outcome : compile ast with (diags | message) | p
        · exact absurd outcome (quiet diags)
        · simp [mapFailure,valid]
        · simp [mapFailure,valid]
      · rw [compileInvalid valid]
        simp [mapFailure,valid]

end RootCause.Dsl
