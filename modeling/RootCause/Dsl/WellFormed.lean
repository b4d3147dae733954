import RootCause.Dsl.Compile
import RootCause.Dsl.ParserRuns

/-! What every compiled pattern satisfies: validation without errors, read back
through resolution into facts about references. -/
namespace RootCause.Dsl
open Library Ast Schema

structure WellFormed (p : CompiledPattern) : Prop where
  kinds : ∀ ev ∈ p.evidence, (lookup ev.predicate.kind).isSome
  names : (p.evidence.map CompiledEvidence.name).Nodup
  required : ∃ ev ∈ p.evidence, ev.requiredness = .required
  branching : p.constraint.Branching
  constraintRefs : ∀ r ∈ p.constraint.atoms, r.index < p.evidence.length
  steps : ∀ seq ∈ p.sequence, 2 ≤ seq.steps.length ∧ ∀ r ∈ seq.steps, r.index < p.evidence.length
  members : ∀ sc ∈ p.sameCall, 2 ≤ sc.members.length ∧
    ∀ r ∈ sc.members, r.index < p.evidence.length
  distinctSteps : p.evidence.length ≤ UInt32.size → ∀ seq ∈ p.sequence, seq.steps.Nodup
  distinctMembers : p.evidence.length ≤ UInt32.size → ∀ sc ∈ p.sameCall, sc.members.Nodup

theorem resolveBound {p : CompiledPattern} {r : EvidenceRef} (bound : r.index < p.evidence.length) :
    ∃ clause, p.resolve r = some clause := ⟨_,List.getElem?_eq_getElem bound⟩

theorem WellFormed.leafResolves {p : CompiledPattern} (wf : WellFormed p) {sign : Bool} {r : EvidenceRef}
    (mem : r ∈ p.constraint.leaves sign) : ∃ clause, p.resolve r = some clause :=
  resolveBound (wf.constraintRefs r ((Formula.memAtoms sign).mpr (.inl mem)))

def Accepted (u : UnicodeClasses) (p : CompiledPattern) : Prop :=
  ∃ source, compileStr u source = some (.ok p)

/- Narrowing a declaration position to `u32` is exact, as the compiler takes for
granted of the clauses of a source file. -/
structure Compiled (u : UnicodeClasses) (p : CompiledPattern) : Prop where
  accepted : Accepted u p
  narrow : p.evidence.length ≤ UInt32.size

theorem undeclaredClean {heading names reference}
    (clean : Diagnostics.hasErrors (undeclared heading names reference) = false) :
    reference.value ∈ names := by
  unfold undeclared at clean
  split at clean
  · rename_i declared
    simpa using declared
  · simp at clean

theorem freshCons {key : String} {rest seen : List String} :
    (key :: rest).Nodup ∧ (key :: rest).Disjoint seen ↔
      key ∉ seen ∧ rest.Nodup ∧ rest.Disjoint (key :: seen) := by
  rw [List.nodup_cons,List.disjoint_cons_left,List.disjoint_cons_right]
  tauto

theorem referencesClean {heading reason names seen refs}
    (clean : Diagnostics.hasErrors (validateReferences heading reason names seen refs) = false) :
    (refs.map SpannedString.value).Nodup ∧ (refs.map SpannedString.value).Disjoint seen ∧
      ∀ r ∈ refs, r.value ∈ names := by
  induction refs generalizing seen with
  | nil => simp
  | cons reference rest ih =>
    simp only [validateReferences,Diagnostics.hasErrorsAppend,Bool.or_eq_false_iff] at clean
    obtain ⟨⟨declared,fresh⟩,tail⟩ := clean
    obtain ⟨nodup,unseen,known⟩ := ih tail
    have new : reference.value ∉ seen := by
      intro mem
      simp [mem] at fresh
    obtain ⟨nodup,unseen⟩ := freshCons.mpr ⟨new,nodup,unseen⟩
    exact ⟨nodup,unseen,List.forall_mem_cons.mpr ⟨undeclaredClean declared,known⟩⟩

theorem predicateClean {predicate} (clean : Diagnostics.hasErrors (validatePredicate predicate) = false) :
    (lookup predicate.kind.value).isSome := by
  unfold validatePredicate at clean
  split at clean
  · simp at clean
  · rename_i known
    simp [known]

theorem declsClean {names decls}
    (clean : Diagnostics.hasErrors (validateEvidenceDecls names decls) = false) :
    (decls.map fun d => d.name.value).Nodup ∧ (decls.map fun d => d.name.value).Disjoint names ∧
      ∀ d ∈ decls, (lookup d.predicate.kind.value).isSome := by
  induction decls generalizing names with
  | nil => simp
  | cons decl rest ih =>
    simp only [validateEvidenceDecls,Diagnostics.hasErrorsAppend,Bool.or_eq_false_iff] at clean
    obtain ⟨⟨fresh,predicate⟩,tail⟩ := clean
    obtain ⟨nodup,unseen,known⟩ := ih tail
    have new : decl.name.value ∉ names := by
      intro mem
      simp [mem] at fresh
    obtain ⟨nodup,unseen⟩ := freshCons.mpr ⟨new,nodup,unseen⟩
    exact ⟨nodup,unseen,List.forall_mem_cons.mpr ⟨predicateClean predicate,known⟩⟩

theorem evidenceClean {ast} (clean : Diagnostics.hasErrors (validateEvidence ast) = false) :
    Diagnostics.hasErrors (validateEvidenceDecls [] ast.evidence) = false ∧
      ∃ d ∈ ast.evidence, d.requiredness = .required := by
  simp only [validateEvidence,Diagnostics.hasErrorsAppend,Bool.or_eq_false_iff] at clean
  refine ⟨clean.1,?_⟩
  have counted := clean.2
  split at counted
  · simp at counted
  · split at counted
    · rename_i some
      simpa using some
    · simp at counted

theorem sequenceClean {ast names seq} (given : ast.sequence = some seq)
    (clean : Diagnostics.hasErrors (validateSequence ast names) = false) :
    2 ≤ seq.steps.length ∧ (seq.steps.map SpannedString.value).Nodup := by
  simp only [validateSequence,given,Diagnostics.hasErrorsAppend,Bool.or_eq_false_iff] at clean
  obtain ⟨⟨two,refs⟩,_⟩ := clean
  refine ⟨?_,(referencesClean refs).1⟩
  by_contra short
  simp [Nat.lt_of_not_le short] at two

theorem sameCallClean {ast names sc} (given : ast.sameCall = some sc)
    (clean : Diagnostics.hasErrors (validateSameCall ast names) = false) :
    2 ≤ sc.members.length ∧ (sc.members.map SpannedString.value).Nodup := by
  simp only [validateSameCall,given,Diagnostics.hasErrorsAppend,Bool.or_eq_false_iff] at clean
  obtain ⟨two,refs⟩ := clean
  refine ⟨?_,(referencesClean refs).1⟩
  by_contra short
  simp [Nat.lt_of_not_le short] at two

theorem resolveNameOk {ast : PatternAst} {name r} (resolved : resolveName ast name = .ok r) :
    ∃ idx, r = .ofIndex idx ∧ ∃ d, ast.evidence[idx]? = some d ∧ d.name.value = name := by
  obtain ⟨idx,found,last⟩ := bindOk.mp resolved
  cases last
  obtain ⟨below,same,_⟩ := List.findIdx?_eq_some_iff_getElem.mp (unwrapOk.mp found)
  exact ⟨idx,rfl,_,List.getElem?_eq_getElem below,by simpa using same⟩

theorem EvidenceRef.indexLe (idx : Nat) : (EvidenceRef.ofIndex idx).index ≤ idx := by
  by_cases small : idx < UInt32.size
  · exact Nat.le_of_eq (EvidenceRef.indexOfIndex small)
  · have bound := (EvidenceRef.ofIndex idx).raw.toNat_lt
    exact Nat.le_of_lt (Nat.lt_of_lt_of_le bound (Nat.le_of_not_lt small))

theorem resolveNameBound {ast : PatternAst} {name r} (resolved : resolveName ast name = .ok r) :
    r.index < ast.evidence.length := by
  obtain ⟨idx,rfl,d,found,_⟩ := resolveNameOk resolved
  obtain ⟨below,_⟩ := List.getElem?_eq_some_iff.mp found
  exact Nat.lt_of_le_of_lt (EvidenceRef.indexLe idx) below

theorem resolveNameInj {ast : PatternAst} {name other r} (narrow : ast.evidence.length ≤ UInt32.size)
    (first : resolveName ast name = .ok r) (second : resolveName ast other = .ok r) :
    name = other := by
  obtain ⟨i,rfl,d,hd,rfl⟩ := resolveNameOk first
  obtain ⟨j,same,e,he,rfl⟩ := resolveNameOk second
  obtain ⟨hi,_⟩ := List.getElem?_eq_some_iff.mp hd
  obtain ⟨hj,_⟩ := List.getElem?_eq_some_iff.mp he
  have index := congrArg EvidenceRef.index same
  rw [EvidenceRef.indexOfIndex (by omega),EvidenceRef.indexOfIndex (by omega)] at index
  rw [index,he] at hd
  rw [Option.some.inj hd]

theorem resolveNamesOk {ast : PatternAst} {names : List SpannedString} {refs}
    (resolved : names.mapM (fun s => resolveName ast s.value) = .ok refs) :
    refs.length = names.length ∧ ∀ r ∈ refs, r.index < ast.evidence.length := by
  have each := mapMOk.mp resolved
  refine ⟨each.length_eq.symm,?_⟩
  intro r mem
  obtain ⟨name,_,h⟩ := forall₂Right each mem
  exact resolveNameBound h

theorem resolveNamesDistinct {ast : PatternAst} {names : List SpannedString} {refs}
    (narrow : ast.evidence.length ≤ UInt32.size) (distinct : (names.map SpannedString.value).Nodup)
    (resolved : names.mapM (fun s => resolveName ast s.value) = .ok refs) : refs.Nodup := by
  have each := mapMOk.mp resolved
  clear resolved
  induction each with
  | nil => simp
  | @cons name r names refs head tail ih =>
    simp only [List.map_cons,List.nodup_cons] at distinct
    refine List.nodup_cons.mpr ⟨?_,ih distinct.2⟩
    intro again
    obtain ⟨other,mem,second⟩ := forall₂Right tail again
    exact distinct.1 (List.mem_map.mpr ⟨other,mem,(resolveNameInj narrow head second).symm⟩)

theorem compileBoolExprsEq (ast : PatternAst) (items : List BoolExpr) :
    compileBoolExprs ast items = items.mapM (compileBoolExpr ast) := by
  induction items with
  | nil => simp [compileBoolExprs]
  | cons item rest ih => simp [compileBoolExprs,ih,List.mapM_cons]

def ConstraintOk (bound : Nat) (c : CompiledConstraint) : Prop :=
  c.Branching ∧ ∀ r ∈ c.atoms, r.index < bound

theorem operandsOk {bound : Nat} {items : List CompiledConstraint} (some : items ≠ [])
    (each : ∀ c ∈ items, ConstraintOk bound c) :
    ConstraintOk bound (.and items) ∧ ConstraintOk bound (.or items) := by
  have below : ∀ r ∈ items.flatMap Formula.atoms, r.index < bound := by
    intro r mem
    obtain ⟨c,inside,hr⟩ := List.mem_flatMap.mp mem
    exact (each c inside).2 r hr
  exact ⟨⟨.and some fun c mem => (each c mem).1,by simpa using below⟩,
    ⟨.or some fun c mem => (each c mem).1,by simpa using below⟩⟩

theorem compileOperandsOk {ast : PatternAst} {items : List BoolExpr} {out : List CompiledConstraint}
    (two : 2 ≤ items.length) (compiled : compileBoolExprs ast items = .ok out)
    (each : ∀ e ∈ items, ∀ c, compileBoolExpr ast e = .ok c → ConstraintOk ast.evidence.length c) :
    ConstraintOk ast.evidence.length (.and out) ∧ ConstraintOk ast.evidence.length (.or out) := by
  rw [compileBoolExprsEq] at compiled
  have pairs := mapMOk.mp compiled
  refine operandsOk ?_ ?_
  · intro empty
    have length := pairs.length_eq
    rw [empty,List.length_nil] at length
    omega
  · intro c mem
    obtain ⟨e,inside,h⟩ := forall₂Right pairs mem
    exact each e inside c h

theorem compileBoolExprOk {ast : PatternAst} {e : BoolExpr} (full : e.Full) {c}
    (compiled : compileBoolExpr ast e = .ok c) : ConstraintOk ast.evidence.length c := by
  induction full generalizing c with
  | evidenceRef name =>
    obtain ⟨r,resolved,last⟩ := bindOk.mp compiled
    cases last
    exact ⟨.leaf r,by simpa using resolveNameBound resolved⟩
  | and two each ih =>
    obtain ⟨out,inner,last⟩ := bindOk.mp compiled
    cases last
    exact (compileOperandsOk two inner fun e mem c h => ih e mem h).1
  | or two each ih =>
    obtain ⟨out,inner,last⟩ := bindOk.mp compiled
    cases last
    exact (compileOperandsOk two inner fun e mem c h => ih e mem h).2
  | not below ih =>
    obtain ⟨out,inner,last⟩ := bindOk.mp compiled
    cases last
    exact ⟨.not (ih inner).1,by simpa using (ih inner).2⟩

theorem implicitRequiredAndOk {ast : PatternAst} {c}
    (some : ∃ d ∈ ast.evidence, d.requiredness = .required)
    (compiled : implicitRequiredAnd ast = .ok c) : ConstraintOk ast.evidence.length c := by
  obtain ⟨refs,inner,last⟩ := bindOk.mp compiled
  have pairs := mapMOk.mp inner
  have each : ∀ c ∈ refs, ConstraintOk ast.evidence.length c := by
    intro c mem
    obtain ⟨d,_,h⟩ := forall₂Right pairs mem
    obtain ⟨r,resolved,same⟩ := bindOk.mp h
    cases same
    exact ⟨.leaf r,by simpa using resolveNameBound resolved⟩
  have nonempty : refs ≠ [] := by
    intro empty
    subst empty
    obtain ⟨d,mem,required⟩ := some
    have none := List.eq_nil_of_length_eq_zero pairs.length_eq
    have kept : d ∈ ast.evidence.filter fun d => d.requiredness = .required := by simp [mem,required]
    simp [none] at kept
  split at last
  · cases last
    exact each _ List.mem_cons_self
  · cases last
    exact (operandsOk nonempty each).1

theorem compileOk {ast : PatternAst} {p} : compile ast = .ok p ↔
    (validate ast).hasErrors = false ∧ ∃ constraint sequence sameCall family severity version,
      compileConstraint ast = .ok constraint ∧
      ast.sequence.mapM (compileSequence ast) = .ok sequence ∧
      ast.sameCall.mapM (compileSameCall ast) = .ok sameCall ∧
      compileFamily ast = some family ∧ compileSeverity ast = some severity ∧
      u32OfI64 ast.version.value = some version ∧
      p = ⟨⟨ast.id.value⟩,⟨version⟩,⟨family⟩,severity,dedupStrings [] (stringList ast "tags"),
        dedupStrings [] (stringList ast "references"),ast.evidence.map compileEvidence,constraint,
        sequence,sameCall⟩ := by
  unfold compile
  cases clean : (validate ast).hasErrors with
  | true => simp [clean,throw,throwThe,MonadExceptOf.throw,bind,Except.bind]
  | false =>
    simp only [clean,Bool.false_eq_true,if_false,true_and]
    constructor
    · intro compiled
      obtain ⟨constraint,hc,rest⟩ := bindOk.mp compiled
      obtain ⟨sequence,hs,rest⟩ := bindOk.mp rest
      obtain ⟨sameCall,hm,rest⟩ := bindOk.mp rest
      obtain ⟨family,hf,rest⟩ := bindOk.mp rest
      obtain ⟨severity,hv,rest⟩ := bindOk.mp rest
      obtain ⟨version,hn,last⟩ := bindOk.mp rest
      cases last
      exact ⟨constraint,sequence,sameCall,family,severity,version,hc,hs,hm,unwrapOk.mp hf,
        unwrapOk.mp hv,unwrapOk.mp hn,rfl⟩
    · intro given
      obtain ⟨constraint,sequence,sameCall,family,severity,version,hc,hs,hm,hf,hv,hn,rfl⟩ := given
      rw [hc,hs,hm,hf,hv,hn]
      rfl

theorem compileParts {ast : PatternAst} {p} (compiled : compile ast = .ok p) :
    (validate ast).hasErrors = false ∧ compileConstraint ast = .ok p.constraint ∧
      ast.sequence.mapM (compileSequence ast) = .ok p.sequence ∧
      ast.sameCall.mapM (compileSameCall ast) = .ok p.sameCall ∧
      p.evidence = ast.evidence.map compileEvidence := by
  obtain ⟨clean,_,_,_,_,_,_,constraint,sequence,sameCall,_,_,_,rfl⟩ := compileOk.mp compiled
  exact ⟨clean,constraint,sequence,sameCall,rfl⟩

theorem optionMapMOk {ε α β : Type} {f : α → Except ε β} {o : Option α} {b : β}
    (mapped : o.mapM f = .ok (some b)) : ∃ a, o = some a ∧ f a = .ok b := by
  cases o with
  | none =>
    have none : Except.ok none = (Except.ok (some b) : Except ε (Option β)) := mapped
    cases none
  | some a =>
    obtain ⟨c,hf,last⟩ := bindOk.mp mapped
    cases last
    exact ⟨a,rfl,hf⟩

theorem compileSequenceOk {ast : PatternAst} {p} (compiled : compile ast = .ok p) {seq}
    (given : p.sequence = some seq) : ∃ names : List SpannedString, 2 ≤ names.length ∧
      (names.map SpannedString.value).Nodup ∧
      names.mapM (fun s => resolveName ast s.value) = .ok seq.steps := by
  obtain ⟨clean,_,hs,_,_⟩ := compileParts compiled
  simp only [validate,Diagnostics.hasErrorsAppend,Bool.or_eq_false_iff] at clean
  rw [given] at hs
  obtain ⟨source,present,compiledSeq⟩ := optionMapMOk hs
  obtain ⟨steps,resolved,last⟩ := bindOk.mp compiledSeq
  cases last
  obtain ⟨two,distinct⟩ := sequenceClean present clean.1.2
  exact ⟨source.steps,two,distinct,resolved⟩

theorem compileSameCallOk {ast : PatternAst} {p} (compiled : compile ast = .ok p) {sc}
    (given : p.sameCall = some sc) : ∃ names : List SpannedString, 2 ≤ names.length ∧
      (names.map SpannedString.value).Nodup ∧
      names.mapM (fun s => resolveName ast s.value) = .ok sc.members := by
  obtain ⟨clean,_,_,hm,_⟩ := compileParts compiled
  simp only [validate,Diagnostics.hasErrorsAppend,Bool.or_eq_false_iff] at clean
  rw [given] at hm
  obtain ⟨source,present,compiledGroup⟩ := optionMapMOk hm
  obtain ⟨members,resolved,last⟩ := bindOk.mp compiledGroup
  cases last
  obtain ⟨two,distinct⟩ := sameCallClean present clean.2
  exact ⟨source.members,two,distinct,resolved⟩

theorem compileWellFormed {ast : PatternAst} {p} (full : ∀ e ∈ ast.constraint, e.Full)
    (compiled : compile ast = .ok p) : WellFormed p := by
  obtain ⟨clean,hc,_,_,evidence⟩ := compileParts compiled
  simp only [validate,Diagnostics.hasErrorsAppend,Bool.or_eq_false_iff] at clean
  obtain ⟨cleanDecls,d,mem,required⟩ := evidenceClean clean.1.1.1.2
  obtain ⟨nodup,_,kinds⟩ := declsClean cleanDecls
  have length : p.evidence.length = ast.evidence.length := by simp [evidence]
  have constraint : ConstraintOk ast.evidence.length p.constraint := by
    unfold compileConstraint at hc
    split at hc
    · exact implicitRequiredAndOk ⟨d,mem,required⟩ hc
    · rename_i e given
      exact compileBoolExprOk (full e given) hc
  refine ⟨?_,?_,?_,constraint.1,?_,?_,?_,?_,?_⟩
  · intro ev inside
    rw [evidence] at inside
    obtain ⟨decl,member,rfl⟩ := List.mem_map.mp inside
    exact kinds decl member
  · rw [evidence,List.map_map]
    exact nodup
  · exact ⟨compileEvidence d,by rw [evidence]; exact List.mem_map_of_mem mem,required⟩
  · rw [length]
    exact constraint.2
  · intro seq given
    obtain ⟨names,two,_,resolved⟩ := compileSequenceOk compiled given
    rw [length]
    obtain ⟨same,bound⟩ := resolveNamesOk resolved
    exact ⟨by omega,bound⟩
  · intro sc given
    obtain ⟨names,two,_,resolved⟩ := compileSameCallOk compiled given
    rw [length]
    obtain ⟨same,bound⟩ := resolveNamesOk resolved
    exact ⟨by omega,bound⟩
  · intro narrow seq given
    obtain ⟨names,_,distinct,resolved⟩ := compileSequenceOk compiled given
    exact resolveNamesDistinct (length ▸ narrow) distinct resolved
  · intro narrow sc given
    obtain ⟨names,_,distinct,resolved⟩ := compileSameCallOk compiled given
    exact resolveNamesDistinct (length ▸ narrow) distinct resolved

theorem compileStrOk {u : UnicodeClasses} {source : String} {p} :
    compileStr u source = some (.ok p) ↔ ∃ ast, parse u source = some (.ok ast) ∧ compile ast = .ok p := by
  constructor
  · intro accepted
    obtain ⟨parsed,hp,compiled⟩ := Option.map_eq_some_iff.mp accepted
    obtain ⟨ast,hs,mapped⟩ := bindOk.mp compiled
    rw [mapFailureOk] at hs mapped
    subst hs
    exact ⟨ast,hp,mapped⟩
  · intro given
    obtain ⟨ast,parsed,compiled⟩ := given
    rw [compileStr,parsed,Option.map_some,Option.some.injEq]
    exact bindOk.mpr ⟨ast,rfl,mapFailureOk.mpr compiled⟩

theorem compileStrTree {u : UnicodeClasses} {source : String} {p}
    (accepted : compileStr u source = some (.ok p)) :
    ∃ ast, (∀ e ∈ ast.constraint, e.Full) ∧ compile ast = .ok p := by
  obtain ⟨ast,parsed,compiled⟩ := compileStrOk.mp accepted
  exact ⟨ast,parseFull parsed,compiled⟩

theorem Accepted.wellFormed {u p} (accepted : Accepted u p) : WellFormed p := by
  obtain ⟨source,compiled⟩ := accepted
  obtain ⟨ast,full,done⟩ := compileStrTree compiled
  exact compileWellFormed full done

end RootCause.Dsl
