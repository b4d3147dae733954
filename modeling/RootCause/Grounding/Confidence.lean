import RootCause.Grounding.Status

/-! The parts of a result that are computed apart from each other: the counts of its
confidence, the reasons of an abstention, the attributes left unresolved and the text. All of
them are about the one chain of verdicts. -/
namespace RootCause.Grounding
open Library FactModel Dsl Matcher

def clauseCount (p : CompiledPattern) (requiredness : Requiredness) : Nat :=
  p.evidence.countP fun clause => clause.requiredness = requiredness

def attributeKey (a : UnresolvedAttribute) : EvidenceRef × String := (a.evidence,a.attr)

def unverifiedRequired (chain : List EvidenceVerification) : List EvidenceRef :=
  (chain.filter fun e => e.requiredness = .required && e.outcome ≠ .verified).map EvidenceVerification.evidence

def confidenceNote (confirmed unconfirmed : String) : Option Bool → String
  | some true => confirmed
  | some false => unconfirmed
  | none => ""

def summaryLine (p : PatternId) (version : PatternVersion) (status : GroundingStatus) (verified total : Nat)
    (sequenceVerified sameCallVerified : Option Bool) : String :=
  "pattern `" ++ p.text ++ "` v" ++ toString version.number.toNat ++ ": " ++ status.display ++ " (" ++
    toString verified ++ "/" ++ toString total ++ " required evidence clauses verified)." ++
    confidenceNote " sequence ordering confirmed." " sequence ordering could not be confirmed." sequenceVerified ++
    confidenceNote " same_call correlation confirmed." " same_call correlation could not be confirmed."
      sameCallVerified

section
variable {attrs merged : List UnresolvedAttribute}

theorem mergeDistinct (distinct : (merged.map attributeKey).Nodup) :
    ((attrs.foldl mergeStep merged).map attributeKey).Nodup := by
  induction attrs generalizing merged with
  | nil => exact distinct
  | cons a rest ih =>
    refine ih ?_
    unfold mergeStep
    split
    · exact distinct
    · rename_i new
      rw [List.map_append,List.nodup_append]
      refine ⟨distinct,by simp,?_⟩
      rintro key mem _ single rfl
      obtain ⟨m,inside,same⟩ := List.mem_map.mp mem
      rw [List.map_singleton,List.mem_singleton] at single
      refine new (List.any_eq_true.mpr ⟨m,inside,?_⟩)
      have equal := same.trans single
      simpa [attributeKey] using equal

theorem mergeKeys {key : EvidenceRef × String} : key ∈ (attrs.foldl mergeStep merged).map attributeKey ↔
    key ∈ merged.map attributeKey ∨ key ∈ attrs.map attributeKey := by
  induction attrs generalizing merged with
  | nil => simp
  | cons a rest ih =>
    have step : key ∈ (mergeStep merged a).map attributeKey ↔
        key ∈ merged.map attributeKey ∨ key = attributeKey a := by
      unfold mergeStep
      split
      · rename_i old
        obtain ⟨m,inside,same⟩ := List.any_eq_true.mp old
        have equal : attributeKey m = attributeKey a := by simpa [attributeKey] using same
        refine ⟨.inl,fun either => either.elim id fun here => ?_⟩
        rw [here,← equal]
        exact List.mem_map_of_mem inside
      · simp
    rw [List.foldl_cons,ih,step,List.map_cons,List.mem_cons,or_assoc]

end

section
variable {engine : GroundingEngine} {h : HashOrder} {trace : Trace} {p : CompiledPattern} {c : CandidateMatch}
  {r : GroundingResult} {analyzed : List (EvidenceRef × Polarity)} {chain : List EvidenceVerification}

theorem pairedRequiredness (entries : List.Forall₂ (EntryFor engine trace c analyzed) p.evidence.zipIdx chain) :
    List.Forall₂ (fun clause entry => entry.requiredness = clause.requiredness) p.evidence chain := by
  rw [← List.zipIdx_map_fst 0 p.evidence,List.forall₂_map_left_iff]
  exact entries.imp fun _ _ entry => entry.requiredness

theorem pairedCount {clauses : List CompiledEvidence} (paired : List.Forall₂
    (fun clause entry => entry.requiredness = clause.requiredness) clauses chain) (requiredness : Requiredness) :
    ((clauses.zip chain).filter fun e => e.1.requiredness = requiredness).length =
      clauses.countP (fun clause => clause.requiredness = requiredness) ∧
    (((clauses.zip chain).filter fun e => e.1.requiredness = requiredness).countP fun e => e.2.outcome = .verified) =
      chain.countP fun entry => entry.requiredness = requiredness && entry.outcome = .verified := by
  induction paired with
  | nil => simp
  | @cons clause entry clauses chain same _ ih =>
    obtain ⟨total,verified⟩ := ih
    by_cases here : clause.requiredness = requiredness
    · simp [here,same,total,verified,List.countP_cons]
    · simp [here,same,total,verified]

theorem verifiedSplit : (chain.countP fun e => e.outcome = .verified) =
    (chain.countP fun e => e.requiredness = .required && e.outcome = .verified) +
      chain.countP fun e => e.requiredness = .optional && e.outcome = .verified := by
  induction chain with
  | nil => rfl
  | cons entry rest ih =>
    simp only [List.countP_cons,ih]
    cases entry.requiredness <;> simp <;> omega

theorem reasonsFold {start : Findings} {entries : List EvidenceVerification} :
    ((entries.map entryFindings).foldl Findings.append start).reasons =
      start.reasons ++ entries.flatMap fun entry => (entryFindings entry).reasons := by
  induction entries generalizing start with
  | nil => simp
  | cons entry rest ih => rw [List.map_cons,List.foldl_cons,ih,List.flatMap_cons,Findings.append,List.append_assoc]

theorem checkCitesNone {unconfirmed refuted : String} {outcome : Option EvidenceOutcome} :
    (checkFindings unconfirmed refuted outcome).reasons.filterMap AbstainReason.evidence = [] := by
  rcases outcome with _ | o
  · rfl
  · cases o <;> rfl

theorem reasonsCite {sequenceOutcome sameCallOutcome : Option EvidenceOutcome} :
    (aggregateStatus chain sequenceOutcome sameCallOutcome).2.filterMap AbstainReason.evidence =
      if (aggregateStatus chain sequenceOutcome sameCallOutcome).1 = .abstain then unverifiedRequired chain else [] := by
  have cited (entry : EvidenceVerification) : (entryFindings entry).reasons.filterMap AbstainReason.evidence =
      if entry.outcome = .verified then [] else [entry.evidence] := by
    unfold entryFindings
    cases entry.outcome <;> rfl
  have required : ((chain.filter fun e => e.requiredness = .required).flatMap fun entry =>
      (entryFindings entry).reasons).filterMap AbstainReason.evidence = unverifiedRequired chain := by
    rw [List.filterMap_flatMap]
    simp only [cited,unverifiedRequired]
    induction chain with
    | nil => rfl
    | cons entry rest ih =>
      by_cases needed : entry.requiredness = .required <;> by_cases verified : entry.outcome = .verified <;>
        simp [needed,verified,ih]
  have whole : (((chain.filter fun e => e.requiredness = .required).map entryFindings).foldl Findings.append
      ⟨false,false,[]⟩ |>.append ((sequenceFindings sequenceOutcome).append
        (sameCallFindings sameCallOutcome))).reasons.filterMap AbstainReason.evidence = unverifiedRequired chain := by
    simp only [Findings.append,reasonsFold,List.filterMap_append,required,sequenceFindings,sameCallFindings,
      checkCitesNone,List.nil_append,List.append_nil]
  simp only [aggregateStatus,apply_ite (List.filterMap AbstainReason.evidence),whole,List.filterMap_nil]
  rfl

structure Consistent (p : CompiledPattern) (c : CandidateMatch) (r : GroundingResult) : Prop where
  totals : r.confidence.requiredTotal = clauseCount p .required ∧ r.confidence.optionalTotal = clauseCount p .optional
  bounded : r.confidence.requiredVerified ≤ r.confidence.requiredTotal ∧
    r.confidence.optionalVerified ≤ r.confidence.optionalTotal
  verified : r.verifiedEvidence.length = r.confidence.requiredVerified + r.confidence.optionalVerified
  checked : r.confidence.sequenceVerified.isSome = p.sequence.isSome ∧
    r.confidence.sameCallVerified.isSome = p.sameCall.isSome
  grounded : r.status = .grounded ↔ r.confidence.requiredVerified = r.confidence.requiredTotal ∧
    r.confidence.sequenceVerified ≠ some false ∧ r.confidence.sameCallVerified ≠ some false
  reasons : r.abstainReasons.filterMap AbstainReason.evidence =
    if r.status = .abstain then unverifiedRequired r.evidenceChain else []
  unresolved : (r.unresolvedAttributes.map attributeKey).Nodup ∧ ∀ a ∈ c.metadata.unresolvedAttributes,
    attributeKey a ∈ r.unresolvedAttributes.map attributeKey
  explanation : r.explanation = summaryLine r.patternId r.patternVersion r.status r.confidence.requiredVerified
    r.confidence.requiredTotal r.confidence.sequenceVerified r.confidence.sameCallVerified

theorem checkConfirmed {outcome : Option EvidenceOutcome} :
    (outcome.map fun o => decide (o = .verified)) ≠ some false ↔ ∀ o ∈ outcome.toList, o = .verified := by
  rcases outcome with _ | o
  · simp
  · cases o <;> simp

theorem checkNoted {confirmed unconfirmed : String} {outcome : Option EvidenceOutcome} :
    checkNote confirmed unconfirmed outcome =
      confidenceNote confirmed unconfirmed (outcome.map fun o => decide (o = .verified)) := by
  rcases outcome with _ | o
  · rfl
  · cases o <;> rfl

theorem explained (entries : List.Forall₂ (EntryFor engine trace c analyzed) p.evidence.zipIdx chain)
    {status : GroundingStatus} {sequenceOutcome sameCallOutcome : Option EvidenceOutcome}
    {confidence : ConfidenceMetadata} (computed : confidence = computeConfidence p chain sequenceOutcome sameCallOutcome) :
    explain p status chain sequenceOutcome sameCallOutcome = summaryLine p.id p.version status
      confidence.requiredVerified confidence.requiredTotal confidence.sequenceVerified confidence.sameCallVerified := by
  have outcomes := requiredOutcomes entries
  have total := congrArg List.length outcomes
  have verified := congrArg (List.countP fun o => o = .verified) outcomes
  simp only [List.length_map,List.countP_map,Function.comp_def] at total verified
  calc explain p status chain sequenceOutcome sameCallOutcome
      = summaryLine p.id p.version status
          ((chain.filter fun e => e.requiredness = .required).countP fun e => e.outcome = .verified)
          (chain.filter fun e => e.requiredness = .required).length
          (sequenceOutcome.map fun o => decide (o = .verified))
          (sameCallOutcome.map fun o => decide (o = .verified)) := by
        unfold explain summaryLine
        rw [checkNoted,checkNoted]
    _ = _ := by
        rw [total,verified,computed]
        rfl

theorem resultConsistent (found : engine.ground h c trace p = .ok r) : Consistent p c r := by
  obtain ⟨analyzed,chain,_,entries,rfl⟩ := groundChain found
  have paired := pairedRequiredness entries
  obtain ⟨requiredTotal,requiredVerified⟩ := pairedCount paired .required
  obtain ⟨optionalTotal,optionalVerified⟩ := pairedCount paired .optional
  have status := (aggregateStatusExact entries).grounded
  refine ⟨⟨requiredTotal,optionalTotal⟩,⟨List.countP_le_length,List.countP_le_length⟩,?_,?_,?_,reasonsCite,?_,?_⟩
  · simp only [buildResult,computeConfidence,requiredVerified,optionalVerified,evidenceWith,List.length_map]
    rw [← List.countP_eq_length_filter,verifiedSplit]
  · simp [buildResult,computeConfidence,verifySequence,verifySameCall]
  · refine status.trans ?_
    simp only [deciding,List.forall_mem_append,← checkConfirmed,List.forall_mem_map,buildResult,computeConfidence,
      List.countP_eq_length,decide_eq_true_eq]
  · refine ⟨mergeDistinct (by simp),fun a mem => mergeKeys.mpr (.inr ?_)⟩
    exact List.mem_map_of_mem (List.mem_append_left _ mem)
  · exact explained entries rfl

end

theorem resultConsistentDelegated : ∃ p r, patternOf delegatedSource = some p ∧
    ground .insertion (bareCandidate p) writingTrace p = .ok r ∧ Consistent p (bareCandidate p) r := by
  obtain ⟨r,result,_⟩ := delegatedResult
  obtain ⟨p,source,found⟩ := bareResultFound result
  exact ⟨p,r,source,found,resultConsistent found⟩

end RootCause.Grounding
