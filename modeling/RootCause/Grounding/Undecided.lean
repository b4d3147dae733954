import RootCause.Grounding.Soundness

/-! The clauses whose predicate cannot be decided: an attribute that no fact records,
which keeps a result from being grounded, and a literal that does not parse, which
matches nothing and so passes for an absence. -/
namespace RootCause.Grounding
open Library FactModel Dsl Matcher

/- A literal attribute of the predicate's kind whose text does not parse. -/
inductive Undecodable (p : CompiledPredicate) : Prop where
  | slot {s} (kind : p.kind = "storage") (literal : strAttr p "slot" = some s)
      (malformed : parseHexWord s = none)
  | selector {s} (kind : p.kind = "call") (literal : strAttr p "selector" = some s)
      (malformed : parseHexSelector s = none)
  | topic0 {s} (kind : p.kind = "log") (literal : strAttr p "topic0" = some s)
      (malformed : parseHexWord s = none)
  | token {s} (kind : p.kind = "token_transfer") (literal : strAttr p "token" = some s)
      (malformed : parseAddress s = none)

section
variable {trace : Trace} {index : TraceIndex} {p : CompiledPredicate} {polarity : Polarity}
  {cited : Option FactRef}

theorem undecodableUnmatched (bad : Undecodable p) : evaluate trace index p = [] := by
  rw [evaluateNil,collectBindings]
  cases bad with
  | slot kind literal malformed =>
    simp [kind,evaluateStorage,storageAdmits,literal,malformed,literalAdmits]
  | selector kind literal malformed =>
    simp [kind,evaluateCall,callAdmits,literal,malformed,literalAdmits]
  | topic0 kind literal malformed =>
    simp [kind,evaluateLog,logAdmits,literal,malformed,literalAdmits]
  | token kind literal malformed =>
    simp [kind,evaluateTokenTransfer,tokenTransferAdmits,literal,malformed,literalAdmits]

theorem undecodableUnverified (bad : Undecodable p) :
    (verifyViaMatcherPredicate trace index p polarity cited).outcome ≠ .verified ↔
      polarity ≠ .negative := by
  have none : evaluate trace index p = [] := undecodableUnmatched bad
  constructor
  · intro unverified negative
    subst negative
    exact unverified (absentVerified.mpr none)
  · intro present verified
    obtain ⟨⟨first,head,_⟩,_⟩ := (presentVerified present).mp verified
    simp [none] at head

end

set_option maxRecDepth 4000

def malformedSource : String := "pattern p version 1 \x7b family: F severity: Low evidence \x7b
  required a: call(kind: External) required b: storage(changed: true, slot: \"0xzz\")
  \x7d constraint: AND(a, NOT(b)) \x7d"

def malformedPredicate : CompiledPredicate :=
  ⟨"storage",[⟨"changed",.bool true⟩,⟨"slot",.str "0xzz"⟩]⟩

theorem malformedUndecodable : Undecodable malformedPredicate :=
  .slot rfl rfl (by decide +kernel)

theorem undecodableUnverifiedSlot : (verifyViaMatcherPredicate writingTrace (.build writingTrace)
    malformedPredicate .positive none).outcome ≠ .verified ↔ Polarity.positive ≠ .negative :=
  undecodableUnverified malformedUndecodable

/- The absence of a slot that cannot be read is verified, and with it the pattern. -/
theorem malformedAbsenceVerified : ∃ p clause, patternOf malformedSource = some p ∧
    p.resolve ⟨1⟩ = some clause ∧ Undecodable clause.predicate ∧
    (verifyViaMatcherPredicate writingTrace (.build writingTrace) clause.predicate .negative
      none).outcome = .verified ∧
    ∃ r, ground .insertion (bareCandidate p) writingTrace p = .ok r ∧ r.status = .grounded := by
  have second : ∃ p ∈ patternOf malformedSource, (p.resolve ⟨1⟩).map CompiledEvidence.predicate =
      some malformedPredicate := by
    rw [show malformedSource = String.ofList _ from rfl,patternOfList]
    decide +kernel
  have result : ∃ r ∈ bareResult malformedSource writingTrace, r.status = .grounded := by
    rw [show malformedSource = String.ofList _ from rfl,bareResult,patternOfList]
    decide +kernel
  obtain ⟨p,source,same⟩ := second
  obtain ⟨clause,resolved,predicate⟩ := Option.map_eq_some_iff.mp same
  obtain ⟨r,given,grounded⟩ := result
  obtain ⟨q,other,found⟩ := bareResultFound given
  cases Option.some.inj (source.symm.trans other)
  have bad : Undecodable clause.predicate := predicate ▸ malformedUndecodable
  exact ⟨p,clause,source,resolved,bad,absentVerified.mpr (undecodableUnmatched bad),r,found,grounded⟩

def unresolvable (p : CompiledPredicate) : Option String :=
  match p.kind with
  | "storage" => if (p.attr "role").isSome then some "role" else none
  | "token_transfer" => if (p.attr "unexpected").isSome then some "unexpected" else none
  | _ => none

def ignoring (p : CompiledPredicate) (name : String) : CompiledPredicate :=
  { p with attributes := p.attributes.filter fun a => a.name ≠ name }

theorem ignoringAttr {p : CompiledPredicate} {name other : String} (different : other ≠ name) :
    (ignoring p name).attr other = p.attr other := by
  unfold CompiledPredicate.attr ignoring
  rw [List.find?_filter]
  congr 2
  funext a
  by_cases same : a.name = other
  · simp [same,different]
  · simp [same]

section
variable {trace : Trace} {index : TraceIndex} {p : CompiledPredicate} {name : String}

theorem unresolvableCases (uses : unresolvable p = some name) :
    (p.kind = "storage" ∧ (p.attr "role").isSome ∧ name = "role") ∨
      (p.kind = "token_transfer" ∧ (p.attr "unexpected").isSome ∧ name = "unexpected") := by
  unfold unresolvable at uses
  split at uses
  · rename_i kind
    split at uses
    · exact .inl ⟨kind,‹_›,(Option.some.inj uses).symm⟩
    · contradiction
  · rename_i kind
    split at uses
    · exact .inr ⟨kind,‹_›,(Option.some.inj uses).symm⟩
    · contradiction
  · contradiction

theorem unresolvedMatch (uses : unresolvable p = some name) {b : Binding}
    (mem : b ∈ evaluate trace index p) : b.unresolvedAttrs ≠ [] := by
  rw [memEvaluate,collectBindings] at mem
  rcases unresolvableCases uses with ⟨kind,given,rfl⟩ | ⟨kind,given,rfl⟩
  · simp only [kind,evaluateStorage,given] at mem
    obtain ⟨entry,_,rfl⟩ := List.mem_map.mp mem
    simp
  · simp only [kind,evaluateTokenTransfer,given] at mem
    obtain ⟨entry,_,rfl⟩ := List.mem_map.mp mem
    simp

theorem ignoringUnmatched (uses : unresolvable p = some name) :
    evaluate trace index (ignoring p name) = [] ↔ evaluate trace index p = [] := by
  rw [evaluateNil,evaluateNil]
  have kept : (ignoring p name).kind = p.kind := rfl
  unfold collectBindings
  rw [kept]
  rcases unresolvableCases uses with ⟨kind,_,rfl⟩ | ⟨kind,_,rfl⟩
  · have admits : storageAdmits trace (ignoring p "role") = storageAdmits trace p := by
      funext change
      simp [storageAdmits,boolAttr,strAttr,ident,ignoringAttr]
    simp only [kind,evaluateStorage,List.map_eq_nil_iff,admits]
  · have admits : tokenTransferAdmits trace (ignoring p "unexpected") = tokenTransferAdmits trace p := by
      funext transfer
      simp [tokenTransferAdmits,strAttr,ident,ignoringAttr]
    simp only [kind,evaluateTokenTransfer,List.map_eq_nil_iff,admits]

end

theorem unresolvableAbstains {u : UnicodeClasses} {h : HashOrder} {trace : Trace} {p : CompiledPattern}
    {c : CandidateMatch} {r : GroundingResult} {e : EvidenceRef} {clause : CompiledEvidence} {name : String}
    (accepted : Accepted u p) (resolved : p.resolve e = some clause)
    (required : clause.requiredness = .required) (uses : unresolvable clause.predicate = some name)
    (found : ground h c trace p = .ok r) :
    (e ∉ p.constraint.leaves false → r.status ≠ .grounded) ∧
    (e ∈ p.constraint.leaves false → ∀ entry, r.entryOf e = some entry → entry.outcome = .verified →
      evaluate trace (.build trace) (ignoring clause.predicate name) = []) := by
  constructor
  · intro unnegated grounded
    obtain ⟨analyzed,run⟩ := groundedRun accepted found grounded
    have present : polarityOf analyzed e ≠ .negative := fun negative =>
      unnegated ((run.signed.negative e).mp negative)
    have verified := run.required e clause resolved required
    obtain ⟨⟨first,head,resolvable⟩,_⟩ := (presentVerified present).mp verified
    exact unresolvedMatch uses (List.mem_of_mem_head? head) resolvable
  · intro negated entry listed verified
    obtain ⟨_,_,analyzed,signs,rfl⟩ := (groundOk accepted.wellFormed).mp found
    have same := (chainFind resolved).symm.trans listed
    cases Option.some.inj same
    simp only [clauseEntry,clauseVerdict,((analyzeSigned signs).negative e).mpr negated] at verified
    exact (ignoringUnmatched uses).mpr (absentVerified.mp verified)

def roleSource : String := "pattern p version 1 \x7b family: F severity: Low evidence \x7b
  required a: storage(changed: true, role: Balance) required b: token_transfer(direction: Out, unexpected: true) \x7d
  constraint: AND(a, NOT(b)) \x7d"

theorem rolePattern : (∃ p ∈ patternOf roleSource,
      (p.resolve ⟨0⟩).map CompiledEvidence.requiredness = some .required ∧
      (p.resolve ⟨0⟩).bind (fun clause => unresolvable clause.predicate) = some "role" ∧
      ⟨0⟩ ∉ p.constraint.leaves false ∧
      (p.resolve ⟨1⟩).map CompiledEvidence.requiredness = some .required ∧
      (p.resolve ⟨1⟩).bind (fun clause => unresolvable clause.predicate) = some "unexpected" ∧
      ⟨1⟩ ∈ p.constraint.leaves false) ∧
    ∃ r ∈ bareResult roleSource writingTrace,
      (r.entryOf ⟨1⟩).map EvidenceVerification.outcome = some .verified := by
  rw [show roleSource = String.ofList _ from rfl,bareResult,patternOfList]
  decide +kernel

theorem unresolvableAbstainsRole : ∃ p r clause, patternOf roleSource = some p ∧
    ground .insertion (bareCandidate p) writingTrace p = .ok r ∧ r.status ≠ .grounded ∧
    p.resolve ⟨1⟩ = some clause ∧
    (r.entryOf ⟨1⟩).map EvidenceVerification.outcome = some .verified ∧
    evaluate writingTrace (.build writingTrace) (ignoring clause.predicate "unexpected") = [] := by
  obtain ⟨⟨p,source,asked,role,unnegated,negatedRequired,unexpected,negated⟩,r,result,outcome⟩ := rolePattern
  obtain ⟨q,same,found⟩ := bareResultFound result
  cases Option.some.inj (source.symm.trans same)
  obtain ⟨first,resolved,required⟩ := Option.map_eq_some_iff.mp asked
  obtain ⟨second,resolved',required'⟩ := Option.map_eq_some_iff.mp negatedRequired
  obtain ⟨entry,listed,verified⟩ := Option.map_eq_some_iff.mp outcome
  have uses : unresolvable first.predicate = some "role" := by simpa [resolved] using role
  have uses' : unresolvable second.predicate = some "unexpected" := by simpa [resolved'] using unexpected
  have accepted := patternOfAccepted source
  exact ⟨p,r,second,source,found,(unresolvableAbstains accepted resolved required uses found).1 unnegated,resolved',
    outcome,(unresolvableAbstains accepted resolved' required' uses' found).2 negated entry listed verified⟩

end RootCause.Grounding
