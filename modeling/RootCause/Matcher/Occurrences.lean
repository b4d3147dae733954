import RootCause.Matcher.Exact

/-! Candidates against the occurrences of the anchor: each attempt keeps the occurrence it
started from, whatever the sequence and the group choose, so no occurrence is reported
twice and the candidates stand in the order of the matches. -/
namespace RootCause.Matcher
open Library FactModel Dsl

namespace Attempt
variable {h : HashOrder} {a : Attempt} {seqB scB : HashMap Nat Binding} {c : CandidateMatch}

theorem builtPhases (built : a.tryBuildCandidate h = some c) : ∃ seqB scB,
    a.sequenceBindings = some seqB ∧ a.sameCallBindings h seqB = some scB ∧
      c = a.assemble h seqB scB := by
  obtain ⟨seqB,sequence,rest⟩ := Option.bind_eq_some_iff.mp built
  split at rest
  · obtain ⟨scB,group,last⟩ := Option.bind_eq_some_iff.mp rest
    exact ⟨seqB,scB,sequence,group,(Option.some.inj last).symm⟩
  · contradiction

theorem sequenceRefs (sequence : a.sequenceBindings = some seqB) {idx : Nat} (mem : idx ∈ seqB.keys) :
    ∃ r : EvidenceRef, r.index = idx := by
  unfold sequenceBindings at sequence
  cases given : a.pattern.sequence with
  | none =>
    rw [given] at sequence
    cases sequence
    simp at mem
  | some seq =>
    rw [given] at sequence
    obtain ⟨resolved,_,rfl⟩ := Option.map_eq_some_iff.mp sequence
    obtain ⟨pair,listed,rfl⟩ := List.mem_map.mp (HashMap.keysCollect mem)
    obtain ⟨r,_,same⟩ := List.mem_map.mp (List.of_mem_zip listed).1
    exact ⟨r,same⟩

theorem groupRefs (group : a.sameCallBindings h seqB = some scB) {idx : Nat} (mem : idx ∈ scB.keys) :
    ∃ r : EvidenceRef, r.index = idx := by
  unfold sameCallBindings at group
  cases given : a.pattern.sameCall with
  | none =>
    rw [given] at group
    cases group
    simp at mem
  | some sc =>
    rw [given] at group
    obtain ⟨target,_,bound⟩ := resolveSameCallSome group
    obtain ⟨b,found⟩ := HashMap.lookupSome.mp mem
    rw [bound] at found
    split at found
    · rename_i member
      obtain ⟨r,_,same⟩ := List.mem_map.mp member
      exact ⟨r,same⟩
    · contradiction

theorem fromRefs {walked : HashOrder} (anchored : ∃ r : EvidenceRef, r.index = a.anchorIdx)
    (sequence : a.sequenceBindings = some seqB) (group : a.sameCallBindings h seqB = some scB) :
    a.FromRefs walked seqB scB := by
  intro idx mem
  simp only [referenced,walked.memWalk,List.mem_dedup,List.mem_append,List.mem_singleton] at mem
  rcases mem with ((leaf | rfl) | step) | member
  · obtain ⟨r,_,same⟩ := List.mem_map.mp leaf
    exact ⟨r,same⟩
  · exact anchored
  · exact sequenceRefs sequence step
  · exact groupRefs group member

theorem builtAnchor {r : EvidenceRef} (anchored : r.index = a.anchorIdx)
    (built : a.tryBuildCandidate h = some c) : c.factFor r = some a.anchorBinding.fact := by
  obtain ⟨seqB,scB,sequence,group,rfl⟩ := builtPhases built
  have refs : a.FromRefs h seqB scB := fromRefs ⟨r,anchored⟩ sequence group
  refine (factForMem (assembledIncreasing refs)).mpr ((memAssembled refs).mpr ⟨?_,a.anchorBinding,?_,rfl⟩)
  · simp [referenced,h.memWalk,anchored]
  · simp [chosen,anchored]

end Attempt

theorem sublistFilterMap {α β γ : Type} {f : α → Option β} {g : β → γ} {k : α → γ}
    (same : ∀ a b, f a = some b → g b = k a) (xs : List α) : ((xs.filterMap f).map g).Sublist (xs.map k) := by
  induction xs with
  | nil => exact .slnil
  | cons a rest ih =>
    cases found : f a with
    | none =>
      rw [List.filterMap_cons_none found]
      exact ih.cons _
    | some b =>
      rw [List.filterMap_cons_some found,List.map_cons,List.map_cons,same a b found]
      exact ih.cons_cons _

theorem mapFilterMap {α β γ : Type} {f : α → Option β} {g : β → γ} {k : α → γ} {xs : List α}
    (total : ∀ a ∈ xs, ∃ b, f a = some b ∧ g b = k a) : (xs.filterMap f).map g = xs.map k := by
  induction xs with
  | nil => rfl
  | cons a rest ih =>
    obtain ⟨b,found,same⟩ := total a List.mem_cons_self
    rw [List.filterMap_cons_some found,List.map_cons,List.map_cons,same,
      ih fun x mem => total x (List.mem_cons_of_mem _ mem)]

theorem plainAttempt {h : HashOrder} {trace : Trace} {p : CompiledPattern} (wf : WellFormed p)
    {r : EvidenceRef} (noSequence : p.sequence = none) (noGroup : p.sameCall = none) {b : Binding}
    (occurrence : b ∈ clauseMatches trace p r) :
    (∃ c, (attemptAt trace p r b).tryBuildCandidate h = some c) ↔ ConstraintHolds trace p := by
  have valid := attemptValid wf (by simp [noSequence]) occurrence
  rw [Attempt.tryBuildExists valid,← holdsOnClause]
  refine and_iff_left ⟨[],?_,?_⟩
  · rw [Attempt.EarliestSteps,attemptNoSteps noSequence]
    exact .nil
  · intro sc given
    rw [show (attemptAt trace p r b).pattern = p from rfl,noGroup] at given
    contradiction

theorem occurrencesExact {u : UnicodeClasses} {trace : Trace} {p : CompiledPattern} {r : EvidenceRef}
    (positional : trace.arena.Positional) (accepted : Accepted u p) (anchored : anchorRef p = some r)
    (h : HashOrder) : ∃ cs, findCandidates h trace (.build trace) p = .ok cs ∧
      (cs.map fun c => c.factFor r).Nodup ∧
      (cs.map fun c => c.factFor r).Sublist ((clauseMatches trace p r).map fun b => some b.fact) ∧
      (p.sequence = none → p.sameCall = none →
        (ConstraintHolds trace p →
          (cs.map fun c => c.factFor r) = (clauseMatches trace p r).map fun b => some b.fact) ∧
        (¬ ConstraintHolds trace p → cs = [])) := by
  have wf := accepted.wellFormed
  have ordered := sublistFilterMap (f := fun b => (attemptAt trace p r b).tryBuildCandidate h)
    (g := fun c => c.factFor r) (k := fun b => some b.fact)
    (fun b c built => Attempt.builtAnchor rfl built) (clauseMatches trace p r)
  have distinct : ((clauseMatches trace p r).map fun b => some b.fact).Nodup := by
    unfold clauseMatches
    cases p.resolve r with
    | none => exact .nil
    | some clause =>
      have facts : ((evaluate trace (.build trace) clause.predicate).map (·.fact)).Nodup :=
        evaluateDistinct positional
      have wrapped := facts.map (Option.some_injective _)
      rwa [List.map_map] at wrapped
  refine ⟨_,findCandidatesAnchored wf anchored,distinct.sublist ordered,ordered,?_⟩
  intro noSequence noGroup
  constructor
  · intro holds
    refine mapFilterMap (fun b occurrence => ?_)
    obtain ⟨c,built⟩ := (plainAttempt wf noSequence noGroup occurrence).mpr holds
    exact ⟨c,built,Attempt.builtAnchor rfl built⟩
  · intro fails
    refine List.filterMap_eq_nil_iff.mpr (fun b occurrence => Option.eq_none_iff_forall_ne_some.mpr ?_)
    intro c built
    exact fails ((plainAttempt wf noSequence noGroup occurrence).mp ⟨c,built⟩)

set_option maxRecDepth 4000

def writesSource : String := "pattern p version 1 \x7b family: F severity: Low evidence \x7b
  required a: storage(changed: true) \x7d constraint: a \x7d"

theorem occurrencesExactWrites : ∃ p r cs, patternOf writesSource = some p ∧
    findCandidates .insertion writingTrace (.build writingTrace) p = .ok cs ∧
    cs.map (fun c => c.factFor r) = [some (.storageChange ⟨0⟩),some (.storageChange ⟨1⟩)] ∧
    (cs.map fun c => c.factFor r).Nodup := by
  have plain : ∃ p ∈ patternOf writesSource, anchorRef p = some ⟨0⟩ ∧ p.sequence = none ∧
      p.sameCall = none ∧ ConstraintHolds writingTrace p ∧ (clauseMatches writingTrace p ⟨0⟩).map
        (fun b => some b.fact) = [some (.storageChange ⟨0⟩),some (.storageChange ⟨1⟩)] := by
    rw [show writesSource = String.ofList _ from rfl,patternOfList]
    decide +kernel
  obtain ⟨p,source,anchored,noSequence,noGroup,holds,facts⟩ := plain
  obtain ⟨cs,found,distinct,_,all⟩ :=
    occurrencesExact writingPositional (patternOfAccepted source) anchored .insertion
  exact ⟨p,⟨0⟩,cs,source,found,((all noSequence noGroup).1 holds).trans facts,distinct⟩

end RootCause.Matcher
