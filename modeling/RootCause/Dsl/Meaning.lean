import RootCause.Dsl.Required

/-! What compilation keeps of a tree. A reference of the compiled pattern is read as the
name of the clause at its index; read so, the constraint, the steps and the members are
those of the tree. -/
namespace RootCause.Dsl
open Library Ast

mutual
def Ast.BoolExpr.formula : BoolExpr → Formula String
  | .evidenceRef name => .leaf name.value
  | .and items _ => .and (formulas items)
  | .or items _ => .or (formulas items)
  | .not inner _ => .not (formula inner)
def Ast.BoolExpr.formulas : List BoolExpr → List (Formula String)
  | [] => []
  | e :: es => formula e :: formulas es
end

theorem formulasEq (items : List BoolExpr) : BoolExpr.formulas items = items.map BoolExpr.formula := by
  induction items with
  | nil => simp [BoolExpr.formulas]
  | cons e es ih => simp [BoolExpr.formulas,ih]

def requiredNames (ast : PatternAst) : List String :=
  (ast.evidence.filter fun d => d.requiredness = .required).map fun d => d.name.value

/- The truth of the tree's condition: of its expression, or of all required clauses. -/
def meaning (ast : PatternAst) (v : String → Bool) : Bool :=
  match ast.constraint with
  | some e => e.formula.eval v
  | none => (requiredNames ast).all v

def CompiledPattern.nameAt (p : CompiledPattern) (r : EvidenceRef) : Option String :=
  (p.resolve r).map CompiledEvidence.name

def CompiledPattern.reading (p : CompiledPattern) (v : String → Bool) (r : EvidenceRef) : Bool :=
  (p.nameAt r).any v

section
variable {ast : PatternAst} {p : CompiledPattern}

theorem nameBelow {r : EvidenceRef} {name : String} (found : p.nameAt r = some name) :
    r.index < p.evidence.length := by
  obtain ⟨clause,resolved,_⟩ := Option.map_eq_some_iff.mp found
  exact (List.getElem?_eq_some_iff.mp resolved).1

theorem resolvedName (evidence : p.evidence = ast.evidence.map compileEvidence)
    (narrow : ast.evidence.length < UInt32.size) {name : String} {r : EvidenceRef}
    (resolved : resolveName ast name = .ok r) : p.nameAt r = some name := by
  obtain ⟨idx,rfl,d,found,rfl⟩ := resolveNameOk resolved
  obtain ⟨below,_⟩ := List.getElem?_eq_some_iff.mp found
  have exact : (EvidenceRef.ofIndex idx).index = idx :=
    EvidenceRef.indexOfIndex (Nat.lt_trans below narrow)
  simp [CompiledPattern.nameAt,CompiledPattern.resolve,exact,evidence,found,compileEvidence]

theorem resolvedNames (evidence : p.evidence = ast.evidence.map compileEvidence)
    (narrow : ast.evidence.length < UInt32.size) {names : List SpannedString} {refs : List EvidenceRef}
    (resolved : names.mapM (fun s => resolveName ast s.value) = .ok refs) :
    refs.map p.nameAt = names.map fun s => some s.value := by
  have each := mapMOk.mp resolved
  clear resolved
  induction each with
  | nil => rfl
  | cons head tail ih => rw [List.map_cons,List.map_cons,resolvedName evidence narrow head,ih]

theorem compiledFormula (evidence : p.evidence = ast.evidence.map compileEvidence)
    (narrow : ast.evidence.length < UInt32.size) {e : BoolExpr} {c : CompiledConstraint}
    (compiled : compileBoolExpr ast e = .ok c) : c.map p.nameAt = e.formula.map some := by
  have operands {items : List BoolExpr} {out : List CompiledConstraint}
      (inner : compileBoolExprs ast items = .ok out)
      (each : ∀ e ∈ items, ∀ {c}, compileBoolExpr ast e = .ok c → c.map p.nameAt = e.formula.map some) :
      out.map (Formula.map p.nameAt) = (items.map BoolExpr.formula).map (Formula.map some) := by
    rw [compileBoolExprsEq] at inner
    have pairs := mapMOk.mp inner
    clear inner
    induction pairs with
    | nil => rfl
    | cons head tail ih =>
      simp only [List.map_cons,each _ List.mem_cons_self head]
      rw [ih fun e mem => each e (List.mem_cons_of_mem _ mem)]
  induction e generalizing c with
  | evidenceRef name =>
    obtain ⟨r,resolved,last⟩ := bindOk.mp compiled
    cases last
    simp [BoolExpr.formula,resolvedName evidence narrow resolved]
  | and items span ih =>
    obtain ⟨out,inner,last⟩ := bindOk.mp compiled
    cases last
    simp only [BoolExpr.formula,formulasEq,Formula.mapAnd,operands inner ih]
  | or items span ih =>
    obtain ⟨out,inner,last⟩ := bindOk.mp compiled
    cases last
    simp only [BoolExpr.formula,formulasEq,Formula.mapOr,operands inner ih]
  | not inner span ih =>
    obtain ⟨out,below,last⟩ := bindOk.mp compiled
    cases last
    simp only [BoolExpr.formula,Formula.mapNot,ih below]

theorem requiredRefNames (narrow : p.evidence.length < UInt32.size) :
    (requiredRefs p).map p.nameAt =
      (p.evidence.filter fun ev => ev.requiredness = .required).map fun ev => some ev.name := by
  have split : (p.evidence.filter fun ev => ev.requiredness = .required) =
      (p.evidence.zipIdx.filter fun entry => entry.1.requiredness = .required).map Prod.fst := by
    conv_lhs => rw [← List.zipIdx_map_fst 0 p.evidence,List.filter_map]
    rfl
  rw [split,requiredRefs,List.map_map,List.map_map]
  refine List.map_congr_left fun entry mem => ?_
  have at' := List.mem_zipIdx_iff_getElem?.mp (List.mem_of_mem_filter mem)
  obtain ⟨below,_⟩ := List.getElem?_eq_some_iff.mp at'
  have exact : (EvidenceRef.ofIndex entry.2).index = entry.2 :=
    EvidenceRef.indexOfIndex (Nat.lt_trans below narrow)
  simp [CompiledPattern.nameAt,CompiledPattern.resolve,exact,at']

def CompiledPattern.refs (p : CompiledPattern) : List EvidenceRef :=
  p.constraint.atoms ++ (p.sequence.map CompiledSequence.steps).getD [] ++
    (p.sameCall.map CompiledSameCall.members).getD []

/- Every place of the tree that names a clause is a reference to that clause, and the
constraint has the truth of the tree's condition. -/
structure Preserved (ast : PatternAst) (p : CompiledPattern) : Prop where
  truth : ∀ v, p.constraint.eval (p.reading v) = meaning ast v
  expression : ∀ e ∈ ast.constraint, p.constraint.map p.nameAt = e.formula.map some
  implicit : ast.constraint = none → p.constraint.atoms.map p.nameAt = (requiredNames ast).map some
  steps : p.sequence.map (fun seq => seq.steps.map p.nameAt) =
    ast.sequence.map fun seq => seq.steps.map fun s => some s.value
  members : p.sameCall.map (fun sc => sc.members.map p.nameAt) =
    ast.sameCall.map fun sc => sc.members.map fun s => some s.value
  bounded : ∀ r ∈ p.refs, r.index < p.evidence.length

theorem namedBelow {refs : List EvidenceRef} {names : List String}
    (named : refs.map p.nameAt = names.map some) : ∀ r ∈ refs, r.index < p.evidence.length := by
  intro r mem
  have listed : p.nameAt r ∈ names.map some := named ▸ List.mem_map_of_mem mem
  obtain ⟨name,_,same⟩ := List.mem_map.mp listed
  exact nameBelow same.symm

theorem sectionBelow {α β : Type} {section' : Option α} {written : Option β} {refs : α → List EvidenceRef}
    {names : β → List SpannedString} (named : section'.map (fun x => (refs x).map p.nameAt) =
      written.map fun y => (names y).map fun s => some s.value) :
    ∀ r ∈ (section'.map refs).getD [], r.index < p.evidence.length := by
  intro r inside
  cases given : section' with
  | none => simp [given] at inside
  | some x =>
    rw [given,Option.map_some] at named
    obtain ⟨y,_,same⟩ := Option.map_eq_some_iff.mp named.symm
    have listed : (refs x).map p.nameAt = ((names y).map SpannedString.value).map some := by
      simp [← same]
    exact namedBelow listed r (by simpa [given] using inside)

section
variable (compiled : compile ast = .ok p) (narrow : ast.evidence.length < UInt32.size)
include compiled narrow

theorem compiledExpression : ∀ e ∈ ast.constraint, p.constraint.map p.nameAt = e.formula.map some := by
  obtain ⟨_,constraint,_,_,evidence⟩ := compileParts compiled
  intro e given
  rw [compileConstraint,given] at constraint
  exact compiledFormula evidence narrow constraint

theorem compiledRequired : (requiredRefs p).map p.nameAt = (requiredNames ast).map some := by
  obtain ⟨_,_,_,_,evidence⟩ := compileParts compiled
  rw [requiredRefNames (by simpa [evidence] using narrow),evidence,List.filter_map,requiredNames,
    List.map_map,List.map_map]
  rfl

theorem compiledSteps : p.sequence.map (fun seq => seq.steps.map p.nameAt) =
    ast.sequence.map fun seq => seq.steps.map fun s => some s.value := by
  obtain ⟨_,_,sequence,_,evidence⟩ := compileParts compiled
  refine optionMapped sequence fun written _ seq built => ?_
  obtain ⟨steps,resolved,last⟩ := bindOk.mp built
  cases last
  exact resolvedNames evidence narrow resolved

theorem compiledMembers : p.sameCall.map (fun sc => sc.members.map p.nameAt) =
    ast.sameCall.map fun sc => sc.members.map fun s => some s.value := by
  obtain ⟨_,_,_,sameCall,evidence⟩ := compileParts compiled
  refine optionMapped sameCall fun written _ sc built => ?_
  obtain ⟨members,resolved,last⟩ := bindOk.mp built
  cases last
  exact resolvedNames evidence narrow resolved

theorem compiledTruth (v : String → Bool) : p.constraint.eval (p.reading v) = meaning ast v := by
  unfold meaning
  split
  · rename_i e given
    have named := congrArg (Formula.eval fun name => name.any v) (compiledExpression compiled narrow e given)
    rw [Formula.evalMap,Formula.evalMap] at named
    exact named
  · rename_i none
    have named := congrArg (List.all · fun name => name.any v) (compiledRequired compiled narrow)
    simp only [List.all_map] at named
    apply Bool.eq_iff_iff.mpr
    rw [implicitConstraint compiled none,requiredAndEval,← List.all_eq_true]
    exact Bool.eq_iff_iff.mp named

theorem compilePreserved : Preserved ast p := by
  have expression := compiledExpression compiled narrow
  have implied (none : ast.constraint = none) :
      p.constraint.atoms.map p.nameAt = (requiredNames ast).map some := by
    rw [implicitConstraint compiled none,requiredAndAtoms,compiledRequired compiled narrow]
  have steps := compiledSteps compiled narrow
  have members := compiledMembers compiled narrow
  refine ⟨compiledTruth compiled narrow,expression,implied,steps,members,?_⟩
  intro r mem
  rw [CompiledPattern.refs,List.mem_append,List.mem_append] at mem
  rcases mem with (inside | inside) | inside
  · cases given : ast.constraint with
    | none => exact namedBelow (implied given) r inside
    | some e =>
      have named := congrArg Formula.atoms (expression e given)
      rw [Formula.atomsMap,Formula.atomsMap] at named
      exact namedBelow named r inside
  · exact sectionBelow steps r inside
  · exact sectionBelow members r inside

end
end
end RootCause.Dsl
