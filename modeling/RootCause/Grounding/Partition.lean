import RootCause.Dsl.Required
import RootCause.Grounding.Status

/-! The four evidence lists of a result against the required clauses. The lists are read
off the whole chain, so they cover every clause, the optional ones with the others. -/
namespace RootCause.Grounding
open Library FactModel Dsl Matcher

def GroundingResult.listed (r : GroundingResult) : List EvidenceRef :=
  r.verifiedEvidence ++ (r.failedEvidence ++ (r.unavailableEvidence ++ r.unsupportedEvidence))

structure Partitions (p : CompiledPattern) (r : GroundingResult) : Prop where
  once : r.listed.Nodup
  required : ∀ e, e ∈ r.listed ↔ e ∈ requiredRefs p

theorem outcomesPerm (chain : List EvidenceVerification) :
    (evidenceWith .verified chain ++ (evidenceWith .failed chain ++
      (evidenceWith .unavailable chain ++ evidenceWith .unsupported chain))).Perm
        (chain.map EvidenceVerification.evidence) := by
  induction chain with
  | nil => exact .nil
  | cons entry rest ih =>
    have kept (o : EvidenceOutcome) : evidenceWith o (entry :: rest) =
        (if entry.outcome = o then [entry.evidence] else []) ++ evidenceWith o rest := by
      unfold evidenceWith
      by_cases here : entry.outcome = o <;> simp [here]
    have placed := ih.cons entry.evidence
    simp only [kept,List.map_cons]
    cases entry.outcome with
    | verified => exact placed
    | failed => exact List.perm_middle.trans placed
    | unavailable =>
      simp only [reduceCtorEq,if_false,if_true,List.nil_append,List.singleton_append]
      rw [← List.append_assoc] at placed ⊢
      exact List.perm_middle.trans placed
    | unsupported =>
      simp only [reduceCtorEq,if_false,if_true,List.nil_append,List.singleton_append]
      simp only [← List.append_assoc] at placed ⊢
      exact List.perm_middle.trans placed

theorem refsDistinct {n : Nat} : ((List.range n).map EvidenceRef.ofIndex).Nodup ↔ n ≤ UInt32.size := by
  constructor
  · intro distinct
    by_contra long
    have last : UInt32.size - 1 ∈ List.range n := List.mem_range.mpr (by omega)
    have next : UInt32.size ∈ List.range n := List.mem_range.mpr (by omega)
    exact absurd (List.inj_on_of_nodup_map distinct last next (by decide)) (by decide)
  · intro narrow
    refine List.Nodup.map_on ?_ List.nodup_range
    intro i hi j hj same
    have small (k : Nat) (mem : k ∈ List.range n) : (EvidenceRef.ofIndex k).index = k :=
      EvidenceRef.indexOfIndex (Nat.lt_of_lt_of_le (List.mem_range.mp mem) narrow)
    rw [← small i hi,← small j hj,same]

section
variable {engine : GroundingEngine} {h : HashOrder} {trace : Trace} {p : CompiledPattern}
  {c : CandidateMatch} {r : GroundingResult}

theorem clauseRefs (p : CompiledPattern) : (p.evidence.zipIdx.map fun e => EvidenceRef.ofIndex e.2) =
    (List.range p.evidence.length).map .ofIndex := by
  have positions : p.evidence.zipIdx.map Prod.snd = List.range p.evidence.length := by
    rw [List.zipIdx_map_snd,List.range_eq_range']
  rw [← positions,List.map_map]
  rfl

theorem listedPerm (found : engine.ground h c trace p = .ok r) :
    r.listed.Perm ((List.range p.evidence.length).map .ofIndex) := by
  obtain ⟨analyzed,chain,_,entries,rfl⟩ := groundChain found
  have refs : p.evidence.zipIdx.map (fun e => EvidenceRef.ofIndex e.2) =
      chain.map EvidenceVerification.evidence := by
    rw [← List.forall₂_eq_eq_eq,List.forall₂_map_left_iff,List.forall₂_map_right_iff]
    exact entries.imp fun _ _ entry => entry.evidence.symm
  rw [← clauseRefs,refs]
  exact outcomesPerm chain

theorem partitionsIff (found : engine.ground h c trace p = .ok r) : Partitions p r ↔
    (∀ clause ∈ p.evidence, clause.requiredness = .required) ∧ p.evidence.length ≤ UInt32.size := by
  have perm := listedPerm found
  constructor
  · intro partition
    have distinct := perm.nodup_iff.mp partition.once
    refine ⟨?_,refsDistinct.mp distinct⟩
    intro clause mem
    obtain ⟨i,inside,rfl⟩ := List.mem_iff_getElem.mp mem
    have listed : EvidenceRef.ofIndex i ∈ r.listed :=
      perm.mem_iff.mpr (List.mem_map_of_mem (List.mem_range.mpr inside))
    obtain ⟨⟨other,j⟩,kept,same⟩ := List.mem_map.mp ((partition.required _).mp listed)
    obtain ⟨at',required⟩ := List.mem_filter.mp kept
    obtain ⟨below,here⟩ := List.getElem?_eq_some_iff.mp (List.mem_zipIdx_iff_getElem?.mp at')
    have position : j = i :=
      List.inj_on_of_nodup_map distinct (List.mem_range.mpr below) (List.mem_range.mpr inside) same
    subst position
    rw [show p.evidence[j] = other from here]
    exact of_decide_eq_true required
  · intro given
    obtain ⟨all,narrow⟩ := given
    refine ⟨perm.nodup_iff.mpr (refsDistinct.mpr narrow),fun e => ?_⟩
    have kept : p.evidence.zipIdx.filter (fun entry => entry.1.requiredness = .required) =
        p.evidence.zipIdx := by
      refine List.filter_eq_self.mpr fun entry mem => ?_
      exact decide_eq_true (all _ (List.fst_mem_of_mem_zipIdx mem))
    rw [perm.mem_iff,requiredRefs,kept,clauseRefs]

end

set_option maxRecDepth 4000

theorem partitionsIffGuarded : ∃ p r, patternOf guardedSource = some p ∧
    ground .insertion (bareCandidate p) writingTrace p = .ok r ∧ Partitions p r := by
  have all : ∃ p ∈ patternOf guardedSource, (∀ clause ∈ p.evidence, clause.requiredness = .required) ∧
      p.evidence.length ≤ UInt32.size := by
    rw [show guardedSource = String.ofList _ from rfl,patternOfList]
    decide +kernel
  obtain ⟨r,result,_⟩ := guardedResult
  obtain ⟨p,source,found⟩ := bareResultFound result
  obtain ⟨q,same,required⟩ := all
  cases Option.some.inj (source.symm.trans same)
  exact ⟨p,r,source,found,(partitionsIff found).mpr required⟩

theorem optionalListed : ∃ p r, patternOf optionalSource = some p ∧
    ground .insertion (bareCandidate p) writingTrace p = .ok r ∧
    (∃ e ∈ r.listed, e ∉ requiredRefs p) ∧ ¬ Partitions p r := by
  have second : (∃ p ∈ patternOf optionalSource, EvidenceRef.ofIndex 1 ∉ requiredRefs p) ∧
      ∃ r ∈ bareResult optionalSource writingTrace, EvidenceRef.ofIndex 1 ∈ r.listed := by
    rw [show optionalSource = String.ofList _ from rfl,bareResult,patternOfList]
    decide +kernel
  obtain ⟨⟨p,source,optional⟩,r,result,listed⟩ := second
  obtain ⟨q,same,found⟩ := bareResultFound result
  cases Option.some.inj (source.symm.trans same)
  exact ⟨p,r,source,found,⟨_,listed,optional⟩,fun partition => optional ((partition.required _).mp listed)⟩

end RootCause.Grounding
