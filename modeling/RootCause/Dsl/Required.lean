import RootCause.Dsl.WellFormed

/-! The constraint of a pattern that states none: the conjunction of its required
clauses, in declaration order. -/
namespace RootCause.Dsl
open Library Ast

def requiredRefs (p : CompiledPattern) : List EvidenceRef :=
  (p.evidence.zipIdx.filter fun entry => entry.1.requiredness = .required).map fun entry =>
    .ofIndex entry.2

def requiredAnd (p : CompiledPattern) : CompiledConstraint :=
  match requiredRefs p with
  | [only] => .leaf only
  | refs => .and (refs.map .leaf)

theorem memRequiredRefs {p : CompiledPattern} {e : EvidenceRef} {clause : CompiledEvidence}
    (resolved : p.resolve e = some clause) (required : clause.requiredness = .required) :
    e ∈ requiredRefs p := by
  refine List.mem_map.mpr ⟨(clause,e.index),List.mem_filter.mpr ⟨?_,by simp [required]⟩,?_⟩
  · exact List.mem_zipIdx_iff_getElem?.mpr resolved
  · exact EvidenceRef.ofIndexIndex e

theorem requiredRefsNonempty {p : CompiledPattern} (wf : WellFormed p) : requiredRefs p ≠ [] := by
  obtain ⟨clause,mem,required⟩ := wf.required
  obtain ⟨i,at'⟩ := List.mem_iff_getElem?.mp mem
  have kept : (clause,i) ∈ p.evidence.zipIdx.filter fun entry => entry.1.requiredness = .required :=
    List.mem_filter.mpr ⟨List.mem_zipIdx_iff_getElem?.mpr at',by simp [required]⟩
  exact List.ne_nil_of_mem (List.mem_map_of_mem kept)

theorem requiredAndEval {p : CompiledPattern} {v : EvidenceRef → Bool} :
    (requiredAnd p).eval v = true ↔ ∀ e ∈ requiredRefs p, v e = true := by
  unfold requiredAnd
  split
  · rename_i only same
    simp [same]
  · simp

theorem requiredAndAtoms {p : CompiledPattern} : (requiredAnd p).atoms = requiredRefs p := by
  unfold requiredAnd
  split
  · rename_i only same
    simp [same]
  · simp [List.flatMap_map]

theorem requiredAndLeaves {p : CompiledPattern} (sign : Bool) :
    (requiredAnd p).leaves sign = if sign then requiredRefs p else [] := by
  unfold requiredAnd
  split
  · rename_i only same
    simp [same]
  · cases sign <;> simp [List.flatMap_map]

theorem resolveNameAt {ast : PatternAst} (distinct : (ast.evidence.map fun d => d.name.value).Nodup)
    {d : EvidenceDecl} {i : Nat} (at' : ast.evidence[i]? = some d) {r}
    (resolved : resolveName ast d.name.value = .ok r) : r = .ofIndex i := by
  obtain ⟨j,rfl,other,found,same⟩ := resolveNameOk resolved
  have first : (ast.evidence.map fun d => d.name.value)[j]? = some d.name.value := by
    simp [found,same]
  have second : (ast.evidence.map fun d => d.name.value)[i]? = some d.name.value := by simp [at']
  obtain ⟨below,_⟩ := List.getElem?_eq_some_iff.mp first
  rw [(List.getElem?_inj below distinct).mp (first.trans second.symm)]

theorem implicitConstraint {ast : PatternAst} {p} (compiled : compile ast = .ok p)
    (implicit : ast.constraint = none) : p.constraint = requiredAnd p := by
  obtain ⟨clean,constraint,_,_,evidence⟩ := compileParts compiled
  simp only [validate,Diagnostics.hasErrorsAppend,Bool.or_eq_false_iff] at clean
  obtain ⟨cleanDecls,_⟩ := evidenceClean clean.1.1.1.2
  obtain ⟨distinct,_,_⟩ := declsClean cleanDecls
  rw [compileConstraint,implicit] at constraint
  obtain ⟨refs,inner,last⟩ := bindOk.mp constraint
  have split : (ast.evidence.filter fun d => d.requiredness = .required) =
      (ast.evidence.zipIdx.filter fun entry => entry.1.requiredness = .required).map Prod.fst := by
    conv_lhs => rw [← List.zipIdx_map_fst 0 ast.evidence,List.filter_map]
    rfl
  rw [split,mapMOk,List.forall₂_map_left_iff] at inner
  have located : refs = (ast.evidence.zipIdx.filter fun entry => entry.1.requiredness = .required).map
      fun entry => Formula.leaf (EvidenceRef.ofIndex entry.2) := by
    rw [eq_comm,← List.forall₂_eq_eq_eq,List.forall₂_map_left_iff]
    refine ((List.forall₂_and_left _ _).mpr ⟨fun entry mem => List.mem_of_mem_filter mem,inner⟩).imp ?_
    intro entry c found
    obtain ⟨listed,compiledName⟩ := found
    obtain ⟨r,resolved,same⟩ := bindOk.mp compiledName
    cases same
    rw [resolveNameAt distinct (List.mem_zipIdx_iff_getElem?.mp listed) resolved]
  have listed : refs = (requiredRefs p).map .leaf := by
    rw [located,requiredRefs,evidence,List.zipIdx_map,List.filter_map,List.map_map,List.map_map]
    rfl
  unfold requiredAnd
  rw [listed] at last
  cases shape : requiredRefs p with
  | nil => simpa [shape,pure,Except.pure,eq_comm] using last
  | cons first rest =>
    cases rest with
    | nil => simpa [shape,pure,Except.pure,eq_comm] using last
    | cons second rest => simpa [shape,pure,Except.pure,eq_comm] using last

end RootCause.Dsl
