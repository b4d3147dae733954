import RootCause.Grounding.Soundness

/-! The status against the verdicts it is made of: those of the required clauses and of
the two structural checks. The reasons, the chain and the confidence come from loops of
their own and agree with it. -/
namespace RootCause.Grounding
open Library FactModel Dsl Matcher

def EvidenceOutcome.Uncertain (o : EvidenceOutcome) : Prop := o = .unavailable ∨ o = .unsupported

def deciding (trace : Trace) (p : CompiledPattern) (chain : List EvidenceVerification) : List EvidenceOutcome :=
  ((p.evidence.zip chain).filter fun e => e.1.requiredness = .required).map (fun e => e.2.outcome) ++
    ((verifySequence trace p chain).toList ++ (verifySameCall trace p chain).toList)

structure Reflects (f : Findings) (verdicts : List EvidenceOutcome) : Prop where
  uncertain : f.uncertain = true ↔ ∃ o ∈ verdicts, o.Uncertain
  failed : f.failed = true ↔ ∃ o ∈ verdicts, o = .failed
  reasons : f.reasons = [] ↔ ∀ o ∈ verdicts, o = .verified

theorem reflectsNone : Reflects ⟨false,false,[]⟩ [] := ⟨by simp,by simp,by simp⟩

theorem Reflects.append {a b : Findings} {left right : List EvidenceOutcome} (first : Reflects a left)
    (second : Reflects b right) : Reflects (a.append b) (left ++ right) := by
  refine ⟨?_,?_,?_⟩
  · simp only [Findings.append,Bool.or_eq_true,first.uncertain,second.uncertain,List.mem_append,
      or_and_right,exists_or]
  · simp only [Findings.append,Bool.or_eq_true,first.failed,second.failed,List.mem_append,
      or_and_right,exists_or]
  · simp only [Findings.append,List.append_eq_nil_iff,first.reasons,second.reasons,List.forall_mem_append]

theorem entryReflects (entry : EvidenceVerification) : Reflects (entryFindings entry) [entry.outcome] := by
  unfold entryFindings
  cases outcome : entry.outcome with
  | verified => exact ⟨by simp [EvidenceOutcome.Uncertain],by simp,by simp⟩
  | failed => exact ⟨by simp [EvidenceOutcome.Uncertain],by simp,by simp⟩
  | unavailable => exact ⟨by simp [EvidenceOutcome.Uncertain],by simp,by simp⟩
  | unsupported => exact ⟨by simp [EvidenceOutcome.Uncertain],by simp,by simp⟩

theorem checkReflects (unconfirmed refuted : String) (outcome : Option EvidenceOutcome) :
    Reflects (checkFindings unconfirmed refuted outcome) outcome.toList := by
  cases outcome with
  | none => exact reflectsNone
  | some o =>
    cases o with
    | verified => exact ⟨by simp [checkFindings,EvidenceOutcome.Uncertain],by simp [checkFindings],
        by simp [checkFindings]⟩
    | failed => exact ⟨by simp [checkFindings,EvidenceOutcome.Uncertain],by simp [checkFindings],
        by simp [checkFindings]⟩
    | unavailable => exact ⟨by simp [checkFindings,EvidenceOutcome.Uncertain],by simp [checkFindings],
        by simp [checkFindings]⟩
    | unsupported => exact ⟨by simp [checkFindings,EvidenceOutcome.Uncertain],by simp [checkFindings],
        by simp [checkFindings]⟩

theorem foldReflects {start : Findings} {verdicts : List EvidenceOutcome} (before : Reflects start verdicts)
    (entries : List EvidenceVerification) : Reflects ((entries.map entryFindings).foldl Findings.append start)
      (verdicts ++ entries.map EvidenceVerification.outcome) := by
  induction entries generalizing start verdicts with
  | nil => simpa using before
  | cons entry rest ih =>
    have next := ih (before.append (entryReflects entry))
    rwa [List.append_assoc] at next

structure Aggregated (verdicts : List EvidenceOutcome) (status : GroundingStatus)
    (reasons : List AbstainReason) : Prop where
  abstain : status = .abstain ↔ ∃ o ∈ verdicts, o.Uncertain
  ungrounded : status = .ungrounded ↔ (¬ ∃ o ∈ verdicts, o.Uncertain) ∧ ∃ o ∈ verdicts, o = .failed
  grounded : status = .grounded ↔ ∀ o ∈ verdicts, o = .verified
  reasoned : reasons ≠ [] ↔ status = .abstain

theorem Reflects.aggregated {f : Findings} {verdicts : List EvidenceOutcome} (reflects : Reflects f verdicts) :
    let status := if f.uncertain then .abstain else if f.failed then .ungrounded else .grounded
    Aggregated verdicts status (if status = .abstain then f.reasons else []) := by
  have verified : (∀ o ∈ verdicts, o = .verified) ↔
      (¬ ∃ o ∈ verdicts, o.Uncertain) ∧ ¬ ∃ o ∈ verdicts, o = .failed := by
    simp only [not_exists,not_and,← forall₂_and]
    refine forall₂_congr fun o _ => ?_
    cases o <;> simp [EvidenceOutcome.Uncertain]
  by_cases unsure : f.uncertain = true
  · have some := reflects.uncertain.mp unsure
    have stated : f.reasons ≠ [] := fun none => (verified.mp (reflects.reasons.mp none)).1 some
    simp only [unsure,↓reduceIte]
    exact ⟨iff_of_true rfl some,iff_of_false (by decide) fun both => both.1 some,
      iff_of_false (by decide) fun all => (verified.mp all).1 some,iff_of_true stated rfl⟩
  · have none : ¬ ∃ o ∈ verdicts, o.Uncertain := fun some => unsure (reflects.uncertain.mpr some)
    by_cases refuted : f.failed = true
    · have some := reflects.failed.mp refuted
      simp only [unsure,refuted,↓reduceIte]
      exact ⟨iff_of_false (by decide) none,iff_of_true rfl ⟨none,some⟩,
        iff_of_false (by decide) fun all => (verified.mp all).2 some,by simp⟩
    · have neither : ¬ ∃ o ∈ verdicts, o = .failed := fun some => refuted (reflects.failed.mpr some)
      simp only [unsure,refuted]
      exact ⟨iff_of_false (by decide) none,iff_of_false (by decide) fun both => neither both.2,
        iff_of_true rfl (verified.mpr ⟨none,neither⟩),by simp⟩

structure EntryFor (engine : GroundingEngine) (trace : Trace) (c : CandidateMatch)
    (analyzed : List (EvidenceRef × Polarity)) (clause : CompiledEvidence × Nat)
    (entry : EvidenceVerification) : Prop where
  evidence : entry.evidence = .ofIndex clause.2
  name : entry.name = clause.1.name
  requiredness : entry.requiredness = clause.1.requiredness
  verdict : ∃ verdict, engine.verifyOne trace (.build trace) clause.1.predicate.kind clause.1
    (polarityOf analyzed entry.evidence) (c.factFor entry.evidence) = .ok verdict ∧
    entry.outcome = verdict.outcome

section
variable {engine : GroundingEngine} {h : HashOrder} {trace : Trace} {p : CompiledPattern}
  {c : CandidateMatch} {r : GroundingResult} {analyzed : List (EvidenceRef × Polarity)}

theorem entryVerified {clause : CompiledEvidence × Nat} {entry : EvidenceVerification}
    (made : engine.verifyEntry trace (.build trace) c analyzed clause = .ok entry) :
    EntryFor engine trace c analyzed clause entry := by
  obtain ⟨verdict,outcome,last⟩ := bindOk.mp made
  cases last
  exact ⟨rfl,rfl,rfl,verdict,outcome,rfl⟩

theorem groundChain (found : engine.ground h c trace p = .ok r) : ∃ analyzed chain,
    analyze h p.constraint = .ok analyzed ∧
    List.Forall₂ (EntryFor engine trace c analyzed) p.evidence.zipIdx chain ∧
    r = buildResult c p chain (verifySequence trace p chain) (verifySameCall trace p chain) := by
  unfold GroundingEngine.ground at found
  obtain ⟨_,_,found⟩ := bindOk.mp found
  obtain ⟨_,_,found⟩ := bindOk.mp found
  cases signs : analyze h p.constraint with
  | error evidence =>
    rw [signs] at found
    contradiction
  | ok analyzed =>
    rw [signs] at found
    obtain ⟨_,same,found⟩ := bindOk.mp found
    cases same
    obtain ⟨chain,verified,last⟩ := bindOk.mp found
    cases last
    exact ⟨analyzed,chain,rfl,(mapMOk.mp verified).imp fun _ _ made => entryVerified made,rfl⟩

theorem requiredOutcomes {clauses : List CompiledEvidence} {start : Nat} {chain : List EvidenceVerification}
    (entries : List.Forall₂ (EntryFor engine trace c analyzed) (clauses.zipIdx start) chain) :
    (chain.filter fun e => e.requiredness = .required).map EvidenceVerification.outcome =
      ((clauses.zip chain).filter fun e => e.1.requiredness = .required).map fun e => e.2.outcome := by
  induction clauses generalizing start chain with
  | nil => cases entries; rfl
  | cons clause rest ih =>
    cases entries with
    | cons entry later =>
      rename_i first tail
      rw [List.zip_cons_cons,List.filter_cons,List.filter_cons,entry.requiredness]
      by_cases required : clause.requiredness = .required
      · simp only [required,decide_true,↓reduceIte,List.map_cons,ih later]
      · simp only [required,decide_false,Bool.false_eq_true,↓reduceIte,ih later]

theorem aggregateStatusExact {chain : List EvidenceVerification}
    (entries : List.Forall₂ (EntryFor engine trace c analyzed) p.evidence.zipIdx chain) :
    Aggregated (deciding trace p chain)
      (aggregateStatus chain (verifySequence trace p chain) (verifySameCall trace p chain)).1
      (aggregateStatus chain (verifySequence trace p chain) (verifySameCall trace p chain)).2 := by
  have clauses := foldReflects reflectsNone (chain.filter fun e => e.requiredness = .required)
  rw [requiredOutcomes entries,List.nil_append] at clauses
  exact (clauses.append ((checkReflects _ _ (verifySequence trace p chain)).append
    (checkReflects _ _ (verifySameCall trace p chain)))).aggregated

theorem statusExact (found : engine.ground h c trace p = .ok r) :
    (r.status = .abstain ↔ ∃ o ∈ deciding trace p r.evidenceChain, o.Uncertain) ∧
    (r.status = .ungrounded ↔ (¬ ∃ o ∈ deciding trace p r.evidenceChain, o.Uncertain) ∧
      ∃ o ∈ deciding trace p r.evidenceChain, o = .failed) ∧
    (r.status = .grounded ↔ ∀ o ∈ deciding trace p r.evidenceChain, o = .verified) ∧
    (r.abstainReasons ≠ [] ↔ r.status = .abstain) ∧
    (∃ analyzed, analyze h p.constraint = .ok analyzed ∧
      List.Forall₂ (EntryFor engine trace c analyzed) p.evidence.zipIdx r.evidenceChain) ∧
    (r.status = .grounded → r.confidence.requiredVerified = r.confidence.requiredTotal) := by
  obtain ⟨analyzed,chain,signs,entries,rfl⟩ := groundChain found
  have status := aggregateStatusExact entries
  refine ⟨status.abstain,status.ungrounded,status.grounded,status.reasoned,⟨analyzed,signs,entries⟩,?_⟩
  intro grounded
  have all := status.grounded.mp grounded
  refine List.countP_eq_length.mpr ?_
  intro entry required
  exact decide_eq_true (all _ (List.mem_append_left _ (List.mem_map_of_mem required)))

end

set_option maxRecDepth 4000

def delegatedSource : String := "pattern p version 1 \x7b family: F severity: Low evidence \x7b
  required a: call(kind: Delegate) required b: call(kind: External) \x7d constraint: AND(a, b) \x7d"

theorem delegatedResult : ∃ r ∈ bareResult delegatedSource writingTrace, r.status = .abstain := by
  rw [show delegatedSource = String.ofList _ from rfl,bareResult,patternOfList]
  decide +kernel

theorem statusExactDelegated : ∃ p r, patternOf delegatedSource = some p ∧
    ground .insertion (bareCandidate p) writingTrace p = .ok r ∧ r.abstainReasons ≠ [] ∧
    (∃ o ∈ deciding writingTrace p r.evidenceChain, o.Uncertain) ∧
    r.evidenceChain.length = p.evidence.length := by
  obtain ⟨r,result,abstains⟩ := delegatedResult
  obtain ⟨p,source,found⟩ := bareResultFound result
  obtain ⟨abstain,_,_,reasoned,⟨_,_,entries⟩,_⟩ := statusExact found
  refine ⟨p,r,source,found,reasoned.mpr abstains,abstain.mp abstains,?_⟩
  rw [← entries.length_eq,List.length_zipIdx]

end RootCause.Grounding
