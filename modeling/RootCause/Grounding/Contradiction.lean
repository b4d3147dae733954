import RootCause.Grounding.Soundness

/-! When a pattern is refused for its polarities. The refusal looks at the signs of the
occurrences and not at the truth of the constraint: it meets every constraint that no
assignment satisfies, and some that many do. -/
namespace RootCause.Grounding
open Library FactModel Dsl Matcher

/- A clause that occurs under an even and under an odd number of negations. -/
def TwoSigned (constraint : CompiledConstraint) (e : EvidenceRef) : Prop :=
  e ∈ constraint.leaves true ∧ e ∈ constraint.leaves false

/- The candidate names the pattern and cites facts of the trace. -/
structure Belongs (c : CandidateMatch) (trace : Trace) (p : CompiledPattern) : Prop where
  named : c.patternId = p.id ∧ c.patternVersion = p.version
  cites : ∀ binding ∈ c.bindings, factResolves trace binding.fact = true

theorem belongsOk {c : CandidateMatch} {trace : Trace} {p : CompiledPattern} : Belongs c trace p ↔
    checkCandidateMatchesPattern c p = .ok () ∧ checkBindingsResolve c trace = .ok () := by
  have named : checkCandidateMatchesPattern c p = .ok () ↔
      c.patternId = p.id ∧ c.patternVersion = p.version := by
    unfold checkCandidateMatchesPattern
    split <;> simp_all
  have cites : checkBindingsResolve c trace = .ok () ↔
      ∀ binding ∈ c.bindings, factResolves trace binding.fact = true := by
    rw [checkBindingsResolve,forMOk]
    simp only [ite_eq_left_iff,reduceCtorEq,imp_false,Bool.not_eq_true,Bool.not_eq_false]
  rw [named,cites]
  exact ⟨fun belongs => ⟨belongs.named,belongs.cites⟩,fun both => ⟨both.1,both.2⟩⟩

theorem analyzeRefuses {h : HashOrder} {constraint : CompiledConstraint} {e : EvidenceRef}
    (refused : analyze h constraint = .error e) : TwoSigned constraint e := by
  unfold analyze at refused
  simp only at refused
  split at refused
  · rename_i first
    cases refused
    have mem := h.memIntersection.mp (List.mem_of_mem_head? first)
    exact ⟨List.mem_dedup.mp mem.1,List.mem_dedup.mp mem.2⟩
  · contradiction

theorem analyzeRefusesIff {h : HashOrder} {constraint : CompiledConstraint} :
    (∃ e, analyze h constraint = .error e) ↔ ∃ e, TwoSigned constraint e := by
  constructor
  · intro given
    obtain ⟨e,refused⟩ := given
    exact ⟨e,analyzeRefuses refused⟩
  · intro given
    obtain ⟨e,above,below⟩ := given
    cases signs : analyze h constraint with
    | error other => exact ⟨other,rfl⟩
    | ok analyzed => exact absurd below ((analyzeSigned signs).disjoint e above)

section
variable {u : UnicodeClasses} {h : HashOrder} {trace : Trace} {p : CompiledPattern} {c : CandidateMatch}

theorem groundRefuses (wf : WellFormed p) {e : EvidenceRef} :
    ground h c trace p = .error (.verificationFailure e) ↔
      Belongs c trace p ∧ analyze h p.constraint = .error e := by
  rw [belongsOk]
  unfold ground GroundingEngine.ground
  cases pattern : checkCandidateMatchesPattern c p with
  | error other =>
    unfold checkCandidateMatchesPattern at pattern
    split at pattern <;> cases pattern
    simp [bind,Except.bind]
  | ok _ => cases bindings : checkBindingsResolve c trace with
    | error other =>
      obtain ⟨binding,_,failed⟩ := forMError bindings
      split at failed <;> cases failed
      simp [bind,Except.bind]
    | ok _ => cases signs : analyze h p.constraint with
      | error evidence => simp [bind,Except.bind]
      | ok analyzed => simp [bind,Except.bind,pure,Except.pure,verifyChain wf]

theorem verificationFailureExact (accepted : Accepted u p) :
    ((∃ e, ground h c trace p = .error (.verificationFailure e)) ↔
      Belongs c trace p ∧ ∃ e, TwoSigned p.constraint e) ∧
    (∀ e, ground h c trace p = .error (.verificationFailure e) → TwoSigned p.constraint e) ∧
    ((∀ e, ¬ TwoSigned p.constraint e) → ∃ v, p.constraint.eval v = true) := by
  have wf := accepted.wellFormed
  refine ⟨?_,?_,?_⟩
  · simp only [groundRefuses wf,exists_and_left,analyzeRefusesIff]
  · intro e refused
    exact analyzeRefuses ((groundRefuses wf).mp refused).2
  · intro apart
    exact Formula.satisfiable wf.branching fun e above below => apart e ⟨above,below⟩

end

set_option maxRecDepth 4000

def branchesSource : String := "pattern p version 1 \x7b family: F severity: Low evidence \x7b
  required a: call(kind: External) required b: storage(changed: true) \x7d
  constraint: OR(AND(a, b), AND(NOT(a), b)) \x7d"

def refusals (source : String) (trace : Trace) : List (CandidateMatch × EvidenceRef) :=
  (patternOf source).toList.flatMap fun p => (candidatesOf source trace).filterMap fun c =>
    match ground .insertion c trace p with
    | .error (.verificationFailure e) => some (c,e)
    | _ => none

theorem refusalsFound {source : String} {trace : Trace} {c : CandidateMatch} {e : EvidenceRef}
    (mem : (c,e) ∈ refusals source trace) : ∃ p cs, patternOf source = some p ∧
      findCandidates .insertion trace (.build trace) p = .ok cs ∧ c ∈ cs ∧
      ground .insertion c trace p = .error (.verificationFailure e) := by
  obtain ⟨p,listed,refused⟩ := List.mem_flatMap.mp mem
  have source := Option.mem_toList.mp listed
  obtain ⟨c',inside,given⟩ := List.mem_filterMap.mp refused
  obtain ⟨q,cs,same,found,member⟩ := candidatesOfFound inside
  cases Option.some.inj (source.symm.trans same)
  split at given
  · rename_i e' failed
    cases given
    exact ⟨p,cs,source,found,member,failed⟩
  · contradiction

theorem branchesPattern : (∃ p ∈ patternOf branchesSource, p.constraint.eval (fun _ => true) = true) ∧
    refusals branchesSource writingTrace ≠ [] := by
  rw [show branchesSource = String.ofList _ from rfl,refusals,candidatesOf,patternOfList]
  decide +kernel

theorem verificationFailureBranches : ∃ p c, patternOf branchesSource = some p ∧
    ((∃ e, ground .insertion c writingTrace p = .error (.verificationFailure e)) ↔
      Belongs c writingTrace p ∧ ∃ e, TwoSigned p.constraint e) ∧
    (∀ e, ground .insertion c writingTrace p = .error (.verificationFailure e) →
      TwoSigned p.constraint e) ∧
    ((∀ e, ¬ TwoSigned p.constraint e) → ∃ v, p.constraint.eval v = true) := by
  obtain ⟨⟨p,source,_⟩,_⟩ := branchesPattern
  exact ⟨p,bareCandidate p,source,verificationFailureExact (patternOfAccepted source)⟩

/- A candidate of a pattern whose constraint holds as soon as both clauses do is refused. -/
theorem satisfiableRefused : ∃ p cs c e, patternOf branchesSource = some p ∧
    findCandidates .insertion writingTrace (.build writingTrace) p = .ok cs ∧ c ∈ cs ∧
    ground .insertion c writingTrace p = .error (.verificationFailure e) ∧
    p.constraint.eval (fun _ => true) = true := by
  obtain ⟨⟨p,source,satisfied⟩,nonempty⟩ := branchesPattern
  obtain ⟨⟨c,e⟩,mem⟩ := List.exists_mem_of_ne_nil _ nonempty
  obtain ⟨q,cs,same,found,member,refused⟩ := refusalsFound mem
  cases Option.some.inj (source.symm.trans same)
  exact ⟨p,cs,c,e,source,found,member,refused,satisfied⟩

end RootCause.Grounding
