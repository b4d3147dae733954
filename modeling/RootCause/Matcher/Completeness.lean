import RootCause.Matcher.Candidates

/-! When a trace that satisfies the pattern gets a candidate. The engine looks for
candidates only at the occurrences of one anchor clause and never reconsiders
its earliest choices; both show in the exact conditions below. -/
namespace RootCause.Matcher
open Library FactModel Dsl

def EmitsAt (h : HashOrder) (trace : Trace) (p : CompiledPattern) (r : EvidenceRef) (b : Binding) : Prop :=
  ∃ cs c, findCandidates h trace (.build trace) p = .ok cs ∧ c ∈ cs ∧
    (attemptAt trace p r b).tryBuildCandidate h = some c

theorem emitsAtIff {h : HashOrder} {trace : Trace} {p : CompiledPattern} (wf : WellFormed p)
    (distinct : ∀ seq ∈ p.sequence, seq.steps.Nodup) {r : EvidenceRef} {b : Binding}
    (anchored : anchorRef p = some r) (occurrence : b ∈ clauseMatches trace p r) :
    EmitsAt h trace p r b ↔ ConstraintHolds trace p ∧ (attemptAt trace p r b).EarliestAgrees := by
  have valid := attemptValid wf distinct occurrence
  rw [← holdsOnClause]
  refine Iff.trans ?_ (Attempt.tryBuildExists (h := h) valid)
  constructor
  · intro given
    obtain ⟨_,c,_,_,built⟩ := given
    exact ⟨c,built⟩
  · intro given
    obtain ⟨c,built⟩ := given
    exact ⟨_,c,findCandidatesAnchored wf anchored,List.mem_filterMap.mpr ⟨b,occurrence,built⟩,built⟩

theorem someCandidateIff {h : HashOrder} {trace : Trace} {p : CompiledPattern} (wf : WellFormed p)
    (distinct : ∀ seq ∈ p.sequence, seq.steps.Nodup) :
    (∃ cs, findCandidates h trace (.build trace) p = .ok cs ∧ cs ≠ []) ↔ ConstraintHolds trace p ∧
      ∀ r, anchorRef p = some r →
        ∃ b ∈ clauseMatches trace p r, (attemptAt trace p r b).EarliestAgrees := by
  cases anchored : anchorRef p with
  | none =>
    rw [findCandidatesGlobal wf anchored,← holdsOnClause]
    simp only [Except.ok.injEq,exists_eq_left',ne_eq,Option.toList_eq_nil_iff,reduceCtorEq,
      IsEmpty.forall_iff,implies_true,and_true]
    unfold globalCandidate Attempt.HoldsOn
    split <;> simp_all
  | some r =>
    rw [findCandidatesAnchored wf anchored]
    simp only [Except.ok.injEq,exists_eq_left',Option.some.injEq,forall_eq']
    constructor
    · intro nonempty
      obtain ⟨c,mem⟩ := List.exists_mem_of_ne_nil _ nonempty
      obtain ⟨b,occurrence,built⟩ := List.mem_filterMap.mp mem
      have valid := attemptValid wf distinct occurrence
      obtain ⟨held,agrees⟩ := (Attempt.tryBuildExists valid).mp ⟨c,built⟩
      exact ⟨holdsOnClause.mp held,b,occurrence,agrees⟩
    · intro given
      obtain ⟨held,b,occurrence,agrees⟩ := given
      have valid := attemptValid wf distinct occurrence
      obtain ⟨c,built⟩ := (Attempt.tryBuildExists (h := h) valid).mpr ⟨holdsOnClause.mpr held,agrees⟩
      exact List.ne_nil_of_mem (List.mem_filterMap.mpr ⟨b,occurrence,built⟩)

theorem earliestNone {trace : Trace} {p : CompiledPattern} {r : EvidenceRef} {b : Binding}
    (noSequence : p.sequence = none) : (attemptAt trace p r b).EarliestSteps [] := by
  rw [Attempt.EarliestSteps,attemptNoSteps noSequence]
  exact .nil

theorem plainCompleteIff {u : UnicodeClasses} {h : HashOrder} {trace : Trace} {p : CompiledPattern}
    (accepted : Accepted u p) (noSequence : p.sequence = none) (noGroup : p.sameCall = none) :
    ((∃ cs, findCandidates h trace (.build trace) p = .ok cs ∧ cs ≠ []) ↔ ConstraintHolds trace p) ↔
      (ConstraintHolds trace p → ∀ r, (positiveLeaves p.constraint).head? = some r →
        clauseMatches trace p r ≠ []) := by
  have anchor : anchorRef p = (positiveLeaves p.constraint).head? := by simp [anchorRef,noSequence]
  have agrees (r : EvidenceRef) (b : Binding) : (attemptAt trace p r b).EarliestAgrees := by
    refine ⟨[],earliestNone noSequence,?_⟩
    intro sc given
    simp [attemptAt,noGroup] at given
  rw [someCandidateIff accepted.wellFormed (by simp [noSequence]),anchor]
  simp only [agrees,and_true]
  constructor
  · intro same held r first
    obtain ⟨b,mem⟩ := (same.mpr held).2 r first
    exact List.ne_nil_of_mem mem
  · intro covered
    refine ⟨And.left,fun held => ⟨held,?_⟩⟩
    intro r first
    exact List.exists_mem_of_ne_nil _ (covered held r first)

set_option maxRecDepth 4000

def eitherSource : String := "pattern p version 1 \x7b family: F severity: Low evidence \x7b
  required a: call(kind: Delegate) required b: call(kind: External) \x7d constraint: OR(a, b) \x7d"

theorem plainCompleteEither : ∃ p, patternOf eitherSource = some p ∧
    (((∃ cs, findCandidates .insertion writingTrace (.build writingTrace) p = .ok cs ∧ cs ≠ []) ↔
        ConstraintHolds writingTrace p) ↔
      (ConstraintHolds writingTrace p → ∀ r, (positiveLeaves p.constraint).head? = some r →
        clauseMatches writingTrace p r ≠ [])) := by
  have plain : ∃ p ∈ patternOf eitherSource, p.sequence = none ∧ p.sameCall = none := by
    rw [show eitherSource = String.ofList _ from rfl,patternOfList]
    decide +kernel
  obtain ⟨p,source,noSequence,noGroup⟩ := plain
  exact ⟨p,source,plainCompleteIff (patternOfAccepted source) noSequence noGroup⟩

theorem secondBranchMissed : ∃ p ∈ patternOf eitherSource, p.sequence = none ∧ p.sameCall = none ∧
    ConstraintHolds writingTrace p ∧
    findCandidates .insertion writingTrace (.build writingTrace) p = .ok [] := by
  rw [show eitherSource = String.ofList _ from rfl,patternOfList]
  decide +kernel

/- An assignment of one matching fact to every step and every member that gives the
anchor its occurrence, is in order along the sequence and keeps the group in one call. -/
structure Joint (trace : Trace) (p : CompiledPattern) (r : EvidenceRef) (b : Binding)
    (f : EvidenceRef → Binding) : Prop where
  anchored : f r = b
  steps : ∀ seq, p.sequence = some seq → (∀ s ∈ seq.steps, f s ∈ clauseMatches trace p s) ∧
    ((seq.steps.map f).map Binding.order).reduceOption.Pairwise (· ≤ ·)
  members : ∀ sc, p.sameCall = some sc → (∀ m ∈ sc.members, f m ∈ clauseMatches trace p m) ∧
    ∃ call, ∀ m ∈ sc.members, producingCall trace (f m).fact = some call

theorem earliestUnique {a : Attempt} {out other : List Binding} (first : a.EarliestSteps out)
    (second : a.EarliestSteps other) : out = other :=
  Option.some.inj ((greedyEarliest.mpr first).symm.trans (greedyEarliest.mpr second))

/- A joint assignment never leaves the sequence without its earliest choices: this is
the exchange argument, with the anchor's list narrowed to its occurrence. -/
theorem jointEarliest {trace : Trace} {p : CompiledPattern} {r : EvidenceRef} {b : Binding}
    {f : EvidenceRef → Binding} (valid : (attemptAt trace p r b).Valid) (joint : Joint trace p r b f) :
    ∃ out, (attemptAt trace p r b).EarliestSteps out := by
  cases given : p.sequence with
  | none => exact ⟨[],earliestNone given⟩
  | some seq =>
    obtain ⟨matched,ordered⟩ := joint.steps seq given
    have sorted : ∀ options ∈ (attemptAt trace p r b).stepIndices.map
        (matchesAt (attemptAt trace p r b).narrowed),
        options.Pairwise fun x y => keyLe x.order y.order = true := by
      intro options mem
      obtain ⟨idx,_,rfl⟩ := List.mem_map.mp mem
      exact Attempt.narrowedSorted valid idx
    have member : List.Forall₂ (· ∈ ·) (seq.steps.map f)
        ((attemptAt trace p r b).stepIndices.map (matchesAt (attemptAt trace p r b).narrowed)) := by
      rw [attemptSteps given,List.map_map,List.forall₂_map_left_iff,List.forall₂_map_right_iff]
      refine List.forall₂_same.mpr ?_
      intro s mem
      simp only [Function.comp_apply]
      -- The list of the anchor holds its occurrence alone.
      rw [Attempt.narrowedAt valid]
      split
      · rename_i same
        have exact' : s = r := EvidenceRef.indexInj same
        rw [exact',joint.anchored]
        exact List.mem_singleton_self b
      · exact matchesAtClause ▸ matched s mem
    obtain ⟨out,chosen⟩ := greedyComplete (keyLeRefl none) sorted member (chainFromNone.mpr ordered)
    exact ⟨out,greedyEarliest.mp chosen⟩

theorem jointCompleteIff {u : UnicodeClasses} {h : HashOrder} {trace : Trace} {p : CompiledPattern}
    {sc : CompiledSameCall} {r : EvidenceRef} {b : Binding} (compiled : Compiled u p)
    (group : p.sameCall = some sc) (held : ConstraintHolds trace p) (anchored : anchorRef p = some r)
    (occurrence : b ∈ clauseMatches trace p r) :
    ((∃ f, Joint trace p r b f) → EmitsAt h trace p r b) ↔
      ((∃ f, Joint trace p r b f) → ∀ out, (attemptAt trace p r b).EarliestSteps out →
        ∃ target, (attemptAt trace p r b).GroupAgrees ((attemptAt trace p r b).fixedBy out)
          (sc.members.map EvidenceRef.index) target) := by
  have wf := compiled.accepted.wellFormed
  have distinct := wf.distinctSteps compiled.narrow
  have valid := attemptValid wf distinct occurrence
  have emits := emitsAtIff wf distinct anchored occurrence (h := h)
  constructor
  · intro complete some out earliest
    obtain ⟨_,other,chosen,agrees⟩ := emits.mp (complete some)
    rw [earliestUnique earliest chosen]
    exact agrees sc group
  · intro agrees given
    obtain ⟨f,joint⟩ := given
    obtain ⟨out,earliest⟩ := jointEarliest valid joint
    refine emits.mpr ⟨held,out,earliest,?_⟩
    intro given same
    cases Option.some.inj (group.symm.trans same)
    exact agrees ⟨f,joint⟩ out earliest

def twoWritersTrace : Trace :=
  exampleTrace ⟨[exampleCall 0 none .call 0,exampleCall 1 (some 0) .delegateCall 1,
    exampleCall 2 (some 0) .create 1],[exampleChange 1,exampleChange 2],[],[]⟩ (by decide)

def entangledSource : String := "pattern p version 1 \x7b family: F severity: Low evidence \x7b
  required a: call(kind: External) required b: storage(changed: true)
  required c: call(kind: Create) \x7d sequence: [a, b] same_call: [b, c] \x7d"

def rootOccurrence : Binding := ⟨.call ⟨0⟩,some 0,[]⟩

theorem entangledPattern : ∃ p ∈ patternOf entangledSource, p.evidence.length ≤ UInt32.size ∧
    p.sequence = some ⟨[⟨0⟩,⟨1⟩],none⟩ ∧ p.sameCall = some ⟨[⟨1⟩,⟨2⟩]⟩ ∧
    ConstraintHolds twoWritersTrace p ∧
    findCandidates .insertion twoWritersTrace (.build twoWritersTrace) p = .ok [] ∧
    clauseMatches twoWritersTrace p ⟨0⟩ = [rootOccurrence] ∧
    clauseMatches twoWritersTrace p ⟨1⟩ =
      [⟨.storageChange ⟨0⟩,some 1,[]⟩,⟨.storageChange ⟨1⟩,some 2,[]⟩] ∧
    clauseMatches twoWritersTrace p ⟨2⟩ = [⟨.call ⟨2⟩,some 2,[]⟩] := by
  rw [show entangledSource = String.ofList _ from rfl,patternOfList]
  decide +kernel

theorem jointCompleteEntangled : ∃ p, patternOf entangledSource = some p ∧
    (((∃ f, Joint twoWritersTrace p ⟨0⟩ rootOccurrence f) →
        EmitsAt .insertion twoWritersTrace p ⟨0⟩ rootOccurrence) ↔
      ((∃ f, Joint twoWritersTrace p ⟨0⟩ rootOccurrence f) → ∀ out,
        (attemptAt twoWritersTrace p ⟨0⟩ rootOccurrence).EarliestSteps out →
        ∃ target, (attemptAt twoWritersTrace p ⟨0⟩ rootOccurrence).GroupAgrees
          ((attemptAt twoWritersTrace p ⟨0⟩ rootOccurrence).fixedBy out) [1,2] target)) := by
  obtain ⟨p,source,narrow,sequence,group,held,_,root,_,_⟩ := entangledPattern
  have anchored : anchorRef p = some ⟨0⟩ := by rw [anchorRef,sequence]; rfl
  exact ⟨p,source,jointCompleteIff ⟨patternOfAccepted source,narrow⟩ group held anchored
    (by rw [root]; exact List.mem_cons_self)⟩

theorem laterWriteMissed : ∃ p, patternOf entangledSource = some p ∧ p.sameCall.isSome ∧
    ConstraintHolds twoWritersTrace p ∧ anchorRef p = some ⟨0⟩ ∧
    rootOccurrence ∈ clauseMatches twoWritersTrace p ⟨0⟩ ∧
    (∃ f, Joint twoWritersTrace p ⟨0⟩ rootOccurrence f) ∧
    ¬ EmitsAt .insertion twoWritersTrace p ⟨0⟩ rootOccurrence := by
  obtain ⟨p,source,_,sequence,group,held,none,root,writes,creates⟩ := entangledPattern
  have anchored : anchorRef p = some ⟨0⟩ := by rw [anchorRef,sequence]; rfl
  have joint : Joint twoWritersTrace p ⟨0⟩ rootOccurrence fun r =>
      if r = ⟨0⟩ then rootOccurrence
      else if r = ⟨1⟩ then ⟨.storageChange ⟨1⟩,some 2,[]⟩ else ⟨.call ⟨2⟩,some 2,[]⟩ := by
    refine ⟨rfl,?_,?_⟩
    · intro seq given
      cases Option.some.inj (sequence.symm.trans given)
      exact ⟨by simp [root,writes],by decide⟩
    · intro sc given
      cases Option.some.inj (group.symm.trans given)
      exact ⟨by simp [writes,creates],⟨2⟩,by decide⟩
  refine ⟨p,source,by simp [group],held,anchored,by simp [root],⟨_,joint⟩,?_⟩
  intro given
  obtain ⟨cs,c,found,mem,_⟩ := given
  rw [none] at found
  cases found
  simp at mem

end RootCause.Matcher
