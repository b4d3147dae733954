import RootCause.Grounding.Verdicts
import RootCause.Matcher.Facts

/-! What a grounded result says about the trace, whoever made the candidate: the
clauses, the order, the common call and the constraint. -/
namespace RootCause.Grounding
open Library FactModel Dsl Matcher

def GroundingResult.entryOf (r : GroundingResult) (e : EvidenceRef) : Option EvidenceVerification :=
  r.evidenceChain.find? fun entry => entry.evidence = e

/- The entry of a clause cites one fact, and the fact matches the clause's predicate. -/
structure Cites (trace : Trace) (p : CompiledPattern) (r : GroundingResult) (e : EvidenceRef)
    (fact : FactRef) : Prop where
  cited : ∃ entry, r.entryOf e = some entry ∧ entry.facts = [fact]
  matched : ∃ b ∈ clauseMatches trace p e, b.fact = fact

structure GroundedRun (trace : Trace) (p : CompiledPattern) (c : CandidateMatch) (r : GroundingResult)
    (analyzed : List (EvidenceRef × Polarity)) : Prop where
  signed : Signed p.constraint analyzed
  chain : r.evidenceChain = chainOf trace p c analyzed
  required : ∀ e clause, p.resolve e = some clause → clause.requiredness = .required →
    (clauseVerdict trace c analyzed e clause).outcome = .verified
  sequence : ∀ o ∈ verifySequence trace p r.evidenceChain, o = .verified
  sameCall : ∀ o ∈ verifySameCall trace p r.evidenceChain, o = .verified

section
variable {u : UnicodeClasses} {h : HashOrder} {trace : Trace} {p : CompiledPattern}
  {c : CandidateMatch} {r : GroundingResult} {analyzed : List (EvidenceRef × Polarity)}

theorem chainOfMem {e : EvidenceRef} {clause : CompiledEvidence} (resolved : p.resolve e = some clause) :
    clauseEntry trace c analyzed e clause ∈ chainOf trace p c analyzed := by
  refine List.mem_map.mpr ⟨(clause,e.index),List.mem_zipIdx_iff_getElem?.mpr resolved,?_⟩
  rw [EvidenceRef.ofIndexIndex]

theorem groundedRun (accepted : Accepted u p) (found : ground h c trace p = .ok r)
    (grounded : r.status = .grounded) : ∃ analyzed, GroundedRun trace p c r analyzed := by
  obtain ⟨_,_,analyzed,signs,rfl⟩ := (groundOk accepted.wellFormed).mp found
  obtain ⟨entries,sequence,sameCall⟩ := groundedIff.mp grounded
  refine ⟨analyzed,analyzeSigned signs,rfl,?_,sequence,sameCall⟩
  intro e clause resolved required
  exact entries _ (chainOfMem resolved) required

namespace GroundedRun
variable (run : GroundedRun trace p c r analyzed)
include run

theorem entry {e : EvidenceRef} {clause : CompiledEvidence}
    (resolved : p.resolve e = some clause) :
    r.entryOf e = some (clauseEntry trace c analyzed e clause) := by
  rw [GroundingResult.entryOf,run.chain]
  exact chainFind resolved

theorem cites {e : EvidenceRef} {clause : CompiledEvidence}
    (resolved : p.resolve e = some clause) (present : polarityOf analyzed e ≠ .negative)
    (verified : (clauseVerdict trace c analyzed e clause).outcome = .verified) :
    ∃ fact, Cites trace p r e fact := by
  obtain ⟨b,mem,cited,_⟩ := presentFact present verified
  refine ⟨b.fact,⟨_,run.entry resolved,?_⟩,b,?_,rfl⟩
  · simp [clauseEntry,clauseVerdict,cited]
  · exact clauseMatchesMem.mpr ⟨clause,resolved,mem⟩

theorem citesRead {e : EvidenceRef} {entry : EvidenceVerification} {fact : FactRef}
    (bound : e.index < p.evidence.length)
    (found : r.evidenceChain.find? (fun x => x.evidence = e) = some entry)
    (verified : entry.outcome = .verified) (read : entry.facts.head? = some fact) :
    Cites trace p r e fact := by
  obtain ⟨clause,resolved⟩ := resolveBound bound
  have same := (run.entry resolved).symm.trans found
  cases Option.some.inj same
  have present : polarityOf analyzed e ≠ .negative := by
    intro negative
    simp only [clauseEntry,clauseVerdict,negative] at verified read
    rw [absentFact verified] at read
    contradiction
  obtain ⟨other,⟨_,found',facts⟩,matched⟩ := run.cites resolved present verified
  cases Option.some.inj (found'.symm.trans found)
  rw [facts] at read
  cases Option.some.inj read
  exact ⟨⟨_,found,facts⟩,matched⟩

end GroundedRun
end

structure GroundedSound (trace : Trace) (p : CompiledPattern) (r : GroundingResult) : Prop where
  present : ∀ e clause, p.resolve e = some clause → clause.requiredness = .required →
    e ∈ p.constraint.leaves true ∨ e ∉ p.constraint.atoms → ∃ fact, Cites trace p r e fact
  absent : ∀ e clause, p.resolve e = some clause → clause.requiredness = .required →
    e ∈ p.constraint.leaves false → e ∉ p.constraint.leaves true →
    evaluate trace (.build trace) clause.predicate = []
  ordered : ∀ seq, p.sequence = some seq → ∃ facts, List.Forall₂ (Cites trace p r) seq.steps facts ∧
    (facts.map (orderKey trace)).reduceOption.Pairwise (· ≤ ·) ∧
    (trace.arena.Positional → ∀ fact ∈ facts, (orderKey trace fact).isSome)
  grouped : ∀ sc, p.sameCall = some sc → ∃ call, ∀ m ∈ sc.members, ∃ fact,
    Cites trace p r m fact ∧ producingCall trace fact = some call

section
variable {u : UnicodeClasses} {h : HashOrder} {trace : Trace} {p : CompiledPattern}
  {c : CandidateMatch} {r : GroundingResult} {analyzed : List (EvidenceRef × Polarity)}

theorem groundedOrdered (accepted : Accepted u p) (run : GroundedRun trace p c r analyzed)
    {seq : CompiledSequence} (given : p.sequence = some seq) :
    ∃ facts, List.Forall₂ (Cites trace p r) seq.steps facts ∧
      (facts.map (orderKey trace)).reduceOption.Pairwise (· ≤ ·) := by
  have bound := (accepted.wellFormed.steps seq given).2
  obtain ⟨keys,views,sorted⟩ := (sequenceVerified given).mp run.sequence
  have each : List.Forall₂ (fun e key => ∃ fact, Cites trace p r e fact ∧ orderKey trace fact = key)
      seq.steps keys := by
    refine ((List.forall₂_and_left _ _).mpr ⟨bound,collectViewsOk.mp views⟩).imp ?_
    intro e key seen
    obtain ⟨below,entry,fact,found,verified,read,same⟩ := seen
    exact ⟨fact,run.citesRead below found verified read,Except.ok.inj same⟩
  obtain ⟨facts,cites,read⟩ := forall₂Middle each
  have same : facts.map (orderKey trace) = keys := by
    rw [← List.forall₂_eq_eq_eq,List.forall₂_map_left_iff]
    exact read
  exact ⟨facts,cites,same ▸ sorted⟩

theorem groundedGrouped (accepted : Accepted u p) (run : GroundedRun trace p c r analyzed)
    {sc : CompiledSameCall} (given : p.sameCall = some sc) :
    ∃ call, ∀ m ∈ sc.members, ∃ fact, Cites trace p r m fact ∧ producingCall trace fact = some call := by
  obtain ⟨two,bound⟩ := accepted.wellFormed.members sc given
  obtain ⟨calls,views,same⟩ := (sameCallVerified given).mp run.sameCall
  have each := collectViewsOk.mp views
  obtain ⟨call,first⟩ := List.exists_mem_of_length_pos (l := calls) (by have := each.length_eq; omega)
  refine ⟨call,?_⟩
  intro m mem
  obtain ⟨other,inside,entry,fact,found,verified,read,seen⟩ := forall₂Right each.flip mem
  cases same call first other inside
  exact ⟨fact,run.citesRead (bound m mem) found verified read,callViewOk.mp seen⟩

theorem groundedSound (accepted : Accepted u p) (found : ground h c trace p = .ok r)
    (grounded : r.status = .grounded) : GroundedSound trace p r := by
  obtain ⟨analyzed,run⟩ := groundedRun accepted found grounded
  refine ⟨?_,?_,?_,fun sc given => groundedGrouped accepted run given⟩
  · intro e clause resolved required asked
    refine run.cites resolved ?_ (run.required e clause resolved required)
    intro negative
    have below := (run.signed.negative e).mp negative
    rcases asked with positive | unreferenced
    · exact run.signed.disjoint e positive below
    · exact unreferenced ((Formula.memAtoms false).mpr (.inl below))
  · intro e clause resolved required below _
    have verified := run.required e clause resolved required
    rw [clauseVerdict,(run.signed.negative e).mpr below] at verified
    exact absentVerified.mp verified
  · intro seq given
    obtain ⟨facts,cites,sorted⟩ := groundedOrdered accepted run given
    refine ⟨facts,cites,sorted,?_⟩
    intro positional fact mem
    obtain ⟨e,_,cited⟩ := forall₂Right cites mem
    obtain ⟨b,matched,rfl⟩ := cited.matched
    obtain ⟨clause,_,evaluated⟩ := clauseMatchesMem.mp matched
    exact (evaluateKey positional evaluated).2

end

def bareCandidate (p : CompiledPattern) : CandidateMatch :=
  ⟨p.id,p.version,p.family,p.severity,[],⟨[],p.sequence.isSome⟩⟩

def bareResult (source : String) (trace : Trace) : Option GroundingResult :=
  (patternOf source).bind fun p => (ground .insertion (bareCandidate p) trace p).toOption

theorem bareResultFound {source : String} {trace : Trace} {r : GroundingResult}
    (found : bareResult source trace = some r) : ∃ p, patternOf source = some p ∧
      ground .insertion (bareCandidate p) trace p = .ok r := by
  obtain ⟨p,compiled,result⟩ := Option.bind_eq_some_iff.mp found
  exact ⟨p,compiled,toOptionOk.mp result⟩

set_option maxRecDepth 4000

def guardedSource : String := "pattern p version 1 \x7b family: F severity: Low evidence \x7b
  required a: call(kind: StaticCall) required b: storage(changed: true)
  required c: call(kind: Delegate) \x7d constraint: AND(a, b, NOT(c))
  sequence: [a, b] same_call: [a, b] \x7d"

theorem guardedResult : ∃ r ∈ bareResult guardedSource writingTrace, r.status = .grounded := by
  rw [show guardedSource = String.ofList _ from rfl,bareResult,patternOfList]
  decide +kernel

theorem groundedSoundGuarded : ∃ p r, patternOf guardedSource = some p ∧
    ground .insertion (bareCandidate p) writingTrace p = .ok r ∧ r.status = .grounded ∧
    GroundedSound writingTrace p r := by
  obtain ⟨r,result,grounded⟩ := guardedResult
  obtain ⟨p,source,found⟩ := bareResultFound result
  exact ⟨p,r,source,found,grounded,groundedSound (patternOfAccepted source) found grounded⟩

/- A clause is as the signs of its occurrences ask. -/
def AsAsked (trace : Trace) (p : CompiledPattern) (e : EvidenceRef) : Prop :=
  (e ∈ p.constraint.leaves true → clauseMatches trace p e ≠ []) ∧
    (e ∈ p.constraint.leaves false → clauseMatches trace p e = [])

/- The optional clauses read on the trace and every other clause taken as asked. -/
def optionalReading (trace : Trace) (p : CompiledPattern) (e : EvidenceRef) : Bool :=
  if (p.resolve e).any fun clause => clause.requiredness = .optional then
    !(clauseMatches trace p e).isEmpty
  else decide (e ∈ p.constraint.leaves true)

section
variable {u : UnicodeClasses} {h : HashOrder} {trace : Trace} {p : CompiledPattern}
  {c : CandidateMatch} {r : GroundingResult} {analyzed : List (EvidenceRef × Polarity)}

theorem requiredAsked (run : GroundedRun trace p c r analyzed) {e : EvidenceRef}
    {clause : CompiledEvidence} (resolved : p.resolve e = some clause)
    (required : clause.requiredness = .required) : AsAsked trace p e := by
  have verified := run.required e clause resolved required
  rw [AsAsked,clauseMatchesAt resolved]
  constructor
  · intro above
    have present : polarityOf analyzed e ≠ .negative := by
      rw [(run.signed.positive e).mpr above]
      simp
    obtain ⟨b,mem,_⟩ := presentFact present verified
    exact List.ne_nil_of_mem mem
  · intro below
    rw [clauseVerdict,(run.signed.negative e).mpr below] at verified
    exact absentVerified.mp verified

theorem groundedConstraint (accepted : Accepted u p) (found : ground h c trace p = .ok r)
    (grounded : r.status = .grounded) :
    (∀ e clause, p.resolve e = some clause → clause.requiredness = .required → AsAsked trace p e) ∧
    (ConstraintHolds trace p ↔ holds p.constraint (optionalReading trace p) = true) ∧
    ((∀ e clause, p.resolve e = some clause → clause.requiredness = .optional → AsAsked trace p e) →
      ConstraintHolds trace p) := by
  obtain ⟨analyzed,run⟩ := groundedRun accepted found grounded
  have wf := accepted.wellFormed
  refine ⟨fun e clause => requiredAsked run,?_,?_⟩
  · unfold ConstraintHolds holds
    -- Both sides read an optional leaf on the trace, and a required one is as asked.
    rw [Formula.evalCongr]
    intro sign e mem
    obtain ⟨clause,resolved⟩ := wf.leafResolves mem
    unfold optionalReading
    cases requiredness : clause.requiredness with
    | optional => simp [resolved,requiredness]
    | required =>
      obtain ⟨above,below⟩ := requiredAsked run resolved requiredness
      cases sign with
      | true => simpa [resolved,requiredness,mem] using above mem
      | false =>
        have unsigned : e ∉ p.constraint.leaves true := fun positive =>
          run.signed.disjoint e positive mem
        simpa [resolved,requiredness,unsigned] using below mem
  · intro optional
    have asked {sign : Bool} {e : EvidenceRef} (mem : e ∈ p.constraint.leaves sign) :
        AsAsked trace p e := by
      obtain ⟨clause,resolved⟩ := wf.leafResolves mem
      cases requiredness : clause.requiredness with
      | optional => exact optional e _ resolved requiredness
      | required => exact requiredAsked run resolved requiredness
    refine Formula.evalOfSigns wf.branching ?_ ?_
    · intro e mem
      simpa using (asked mem).1 mem
    · intro e mem
      simpa using (asked mem).2 mem

end

def optionalSource : String := "pattern p version 1 \x7b family: F severity: Low evidence \x7b
  required a: call(kind: External) optional b: call(kind: Delegate) \x7d constraint: AND(a, b) \x7d"

theorem optionalResult : (∃ p ∈ patternOf optionalSource, ¬ ConstraintHolds writingTrace p) ∧
    ∃ r ∈ bareResult optionalSource writingTrace, r.status = .grounded := by
  rw [show optionalSource = String.ofList _ from rfl,bareResult,patternOfList]
  decide +kernel

theorem groundedConstraintOptional : ∃ p r, patternOf optionalSource = some p ∧
    ground .insertion (bareCandidate p) writingTrace p = .ok r ∧ r.status = .grounded ∧
    (∀ e clause, p.resolve e = some clause → clause.requiredness = .required → AsAsked writingTrace p e) ∧
    (ConstraintHolds writingTrace p ↔ holds p.constraint (optionalReading writingTrace p) = true) ∧
    ((∀ e clause, p.resolve e = some clause → clause.requiredness = .optional →
      AsAsked writingTrace p e) → ConstraintHolds writingTrace p) := by
  obtain ⟨_,r,result,grounded⟩ := optionalResult
  obtain ⟨p,source,found⟩ := bareResultFound result
  exact ⟨p,r,source,found,grounded,groundedConstraint (patternOfAccepted source) found grounded⟩

/- An optional operand of the constraint is absent and the result is grounded. -/
theorem optionalAbsent : ∃ p r, patternOf optionalSource = some p ∧
    ground .insertion (bareCandidate p) writingTrace p = .ok r ∧ r.status = .grounded ∧
    ¬ ConstraintHolds writingTrace p := by
  obtain ⟨⟨p,source,fails⟩,r,result,grounded⟩ := optionalResult
  obtain ⟨q,same,found⟩ := bareResultFound result
  cases Option.some.inj (source.symm.trans same)
  exact ⟨p,r,source,found,grounded,fails⟩

end RootCause.Grounding
