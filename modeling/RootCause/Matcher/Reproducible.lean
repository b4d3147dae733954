import RootCause.Library.Stable
import RootCause.Matcher.Occurrences

/-! Matching does not depend on the order in which hash sets and maps are walked: the
group's target is the same from every order of its fixed members, and the sorts by
clause put back whatever the walk over the referenced clauses shuffled. -/
namespace RootCause.Matcher
open Library FactModel Dsl

namespace Attempt

theorem commonCallSwap {trace : Trace} (b c : Binding) (rest : List Binding) (target : Option CallId) :
    commonCall trace target (b :: c :: rest) = commonCall trace target (c :: b :: rest) := by
  cases first : producingCall trace b.fact with
  | none => cases second : producingCall trace c.fact <;> cases target <;> simp [commonCall,first,second]
  | some x =>
    cases second : producingCall trace c.fact with
    | none => cases target <;> simp [commonCall,first,second]
    | some y =>
      by_cases same : x = y
      · subst same
        cases target <;> simp [commonCall,first,second]
      · have other : y ≠ x := Ne.symm same
        cases target with
        | none => simp [commonCall,first,second,same,other]
        | some t =>
          by_cases meets : t = x
          · subst meets
            simp [commonCall,first,second,same]
          · simp [commonCall,first,second,meets]

theorem commonCallPerm {trace : Trace} {xs ys : List Binding} (perm : xs.Perm ys) (target : Option CallId) :
    commonCall trace target xs = commonCall trace target ys := by
  induction perm generalizing target with
  | nil => rfl
  | cons b _ ih => simp only [commonCall,ih]
  | swap b c rest => exact commonCallSwap c b rest target
  | trans _ _ first second => exact (first target).trans (second target)

variable {a : Attempt} {seqB scB : HashMap Nat Binding}

theorem groupReproducible (h h' : HashOrder) (seqB : HashMap Nat Binding) :
    a.sameCallBindings h seqB = a.sameCallBindings h' seqB := by
  unfold sameCallBindings
  cases a.pattern.sameCall with
  | none => rfl
  | some sc =>
    have walks := (h.perm (a.fixedMembers seqB (sc.members.map EvidenceRef.index)).values).trans
      (h'.perm _).symm
    simp only [resolveSameCall,commonCallPerm walks]

theorem referencedPerm (h h' : HashOrder) : (a.referenced h seqB scB).Perm (a.referenced h' seqB scB) := by
  refine (List.perm_ext_iff_of_nodup referencedDistinct referencedDistinct).mpr ?_
  intro idx
  simp only [referenced,HashOrder.memWalk,List.mem_dedup,List.mem_append]

def picks (a : Attempt) (seqB scB : HashMap Nat Binding) (idx : Nat) : List (EvidenceRef × Binding) :=
  ((a.chosen seqB scB idx).map fun b => (EvidenceRef.ofIndex idx,b)).toList

theorem pickedIndex {h : HashOrder} (refs : a.FromRefs h seqB scB) {idx : Nat}
    (mem : idx ∈ a.referenced h seqB scB) {entry : EvidenceRef × Binding}
    (picked : entry ∈ a.picks seqB scB idx) : entry.1.index = idx := by
  obtain ⟨r,rfl⟩ := refs idx mem
  obtain ⟨b,_,rfl⟩ := Option.map_eq_some_iff.mp (Option.mem_toList.mp picked)
  rw [EvidenceRef.ofIndexIndex]

theorem sortedReproducible {β : Type} (h h' : HashOrder) (refs : a.FromRefs h seqB scB)
    (f : EvidenceRef × Binding → List β) (key : β → Nat)
    (keyed : ∀ entry, ∀ x ∈ f entry, key x = entry.1.index) :
    ((a.referenced h seqB scB).flatMap fun idx => (a.picks seqB scB idx).flatMap f).insertionSort (ByKey key) =
      ((a.referenced h' seqB scB).flatMap fun idx =>
        (a.picks seqB scB idx).flatMap f).insertionSort (ByKey key) := by
  have keyAt (idx : Nat) (mem : idx ∈ a.referenced h seqB scB) (x : β)
      (inside : x ∈ (a.picks seqB scB idx).flatMap f) : key x = idx := by
    obtain ⟨entry,picked,produced⟩ := List.mem_flatMap.mp inside
    rw [keyed entry x produced,pickedIndex refs mem picked]
  refine sortStable (referencedPerm h h') ?_
  intro i hi j hj apart x hx y hy same
  rw [keyAt i hi x hx,keyAt j hj y hy] at same
  exact apart same

theorem assembleReproducible (h h' : HashOrder) (refs : a.FromRefs h seqB scB) :
    a.assemble h seqB scB = a.assemble h' seqB scB := by
  have bindings := sortedReproducible h h' refs
    (fun entry => [EvidenceBinding.mk entry.1 entry.2.fact]) (fun b => b.evidence.index) (by simp)
  have attrs := sortedReproducible h h' refs
    (fun entry => entry.2.unresolvedAttrs.map fun attr => UnresolvedAttribute.mk entry.1 attr unresolvedReason)
    (fun u => u.evidence.index) (by simp)
  have blocks (h : HashOrder) : (a.referenced h seqB scB).filterMap (fun idx =>
      (a.chosen seqB scB idx).map fun b => (EvidenceRef.ofIndex idx,b)) =
        (a.referenced h seqB scB).flatMap (a.picks seqB scB) := List.filterMap_eq_flatMap_toList _ _
  simp only [assemble,blocks,List.map_eq_flatMap,List.flatMap_assoc]
  simp only [List.map_eq_flatMap] at attrs
  rw [bindings,attrs]

theorem attemptReproducible (h h' : HashOrder) (anchored : ∃ r : EvidenceRef, r.index = a.anchorIdx) :
    a.tryBuildCandidate h = a.tryBuildCandidate h' := by
  unfold tryBuildCandidate
  cases sequence : a.sequenceBindings with
  | none => rfl
  | some seqB =>
    simp only [Option.bind_eq_bind,Option.bind_some]
    split
    · rw [groupReproducible h h' seqB]
      cases group : a.sameCallBindings h' seqB with
      | none => rfl
      | some scB =>
        simp only [Option.bind_some]
        rw [assembleReproducible h h' (fromRefs anchored sequence group)]
    · rfl

end Attempt

/- The engine with an order of its own at every occurrence of the anchor. -/
def findCandidatesFrom (orders : Binding → HashOrder) (trace : Trace) (index : TraceIndex)
    (pattern : CompiledPattern) : Except MatcherError (List CandidateMatch) := do
  checkInBounds pattern
  let evidenceMatches := evidenceMatches trace index pattern
  match anchorIndex pattern with
  | none => pure (globalCandidate pattern evidenceMatches).toList
  | some anchorIdx => pure ((matchesAt evidenceMatches anchorIdx).filterMap fun anchorBinding =>
      Attempt.tryBuildCandidate (orders anchorBinding) ⟨trace,pattern,evidenceMatches,anchorIdx,anchorBinding⟩)

theorem candidatesReproducible (orders : Binding → HashOrder) (h : HashOrder) (trace : Trace)
    (index : TraceIndex) (p : CompiledPattern) :
    findCandidatesFrom orders trace index p = findCandidates h trace index p := by
  unfold findCandidatesFrom findCandidates
  rw [anchorIndexRef]
  cases anchorRef p with
  | none => rfl
  | some r =>
    simp only [Option.map_some]
    have attempts (b : Binding) := Attempt.attemptReproducible
      (a := ⟨trace,p,evidenceMatches trace index p,r.index,b⟩) (orders b) h ⟨r,rfl⟩
    simp only [attempts]

end RootCause.Matcher
