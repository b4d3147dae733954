import RootCause.Matcher.Completeness

/-! What the emitted candidates guarantee beyond their own bindings: the group in one
call, and a match for every required clause. Both fail on the paths that do not
look at them, and the theorems say exactly when. -/
namespace RootCause.Matcher
open Library FactModel Dsl

def GroupBound (trace : Trace) (sc : CompiledSameCall) (c : CandidateMatch) : Prop :=
  ∃ call, ∀ m ∈ sc.members, ∃ fact, c.factFor m = some fact ∧ producingCall trace fact = some call

theorem anchoredGroupBound {h : HashOrder} {trace : Trace} {p : CompiledPattern} {sc : CompiledSameCall}
    {r : EvidenceRef} {b : Binding} {out : List Binding} {scB : HashMap Nat Binding} {target : CallId}
    (given : p.sameCall = some sc) (res : (attemptAt trace p r b).Resolved out scB target) :
    GroupBound trace sc ((attemptAt trace p r b).assemble h
      (HashMap.collect ((attemptAt trace p r b).stepIndices.zip out)) scB) := by
  refine ⟨target,?_⟩
  intro m mem
  have member : m.index ∈ (attemptAt trace p r b).memberIndices := by
    simp only [Attempt.memberIndices,Attempt.memberRefs,attemptAt,given]
    exact List.mem_map_of_mem mem
  obtain ⟨chosen,picked,produced⟩ := res.chosenMember member
  refine ⟨chosen.fact,?_,produced⟩
  rw [factForMem (Attempt.bindingsIncreasing res)]
  refine (Attempt.memBindings res).mpr ⟨?_,chosen,picked,rfl⟩
  exact (Attempt.memReferenced res).mpr (.inr (.inr (.inr member)))

theorem groupBoundIff {u : UnicodeClasses} {h : HashOrder} {trace : Trace} {p : CompiledPattern}
    {sc : CompiledSameCall} (compiled : Compiled u p) (given : p.sameCall = some sc) :
    (∀ cs, findCandidates h trace (.build trace) p = .ok cs → ∀ c ∈ cs, GroupBound trace sc c) ↔
      (p.sequence = none → positiveLeaves p.constraint = [] → ¬ ConstraintHolds trace p) := by
  have wf := compiled.accepted.wellFormed
  have distinct := wf.distinctSteps compiled.narrow
  constructor
  · intro bound noSequence noLeaf held
    have free : anchorRef p = none := by simp [anchorRef,noSequence,noLeaf]
    obtain ⟨cs,found,nonempty⟩ := (someCandidateIff (h := h) wf distinct).mpr
      ⟨held,by simp [free]⟩
    obtain ⟨c,mem⟩ := List.exists_mem_of_ne_nil cs nonempty
    obtain ⟨_,emitted⟩ := candidateEmitted wf distinct found mem
    cases emitted with
    | anchored anchored _ _ _ => simp [free] at anchored
    | global _ built =>
      obtain ⟨call,members⟩ := bound cs found c mem
      have two := (wf.members sc given).1
      obtain ⟨m,inside⟩ := List.exists_mem_of_length_pos (Nat.lt_of_lt_of_le Nat.zero_lt_two two)
      obtain ⟨fact,cited,_⟩ := members m inside
      simp [CandidateMatch.factFor,globalBindings built] at cited
  · intro condition cs found c mem
    obtain ⟨held,emitted⟩ := candidateEmitted wf distinct found mem
    cases emitted with
    | anchored _ _ res built =>
      rw [built]
      exact anchoredGroupBound given res
    | global free _ =>
      obtain ⟨noSequence,noLeaf⟩ := unanchored wf free
      exact absurd held (condition noSequence noLeaf)

set_option maxRecDepth 4000

def absentPairSource : String := "pattern p version 1 \x7b family: F severity: Low evidence \x7b
  required a: call(kind: Delegate) required b: call(kind: Create)
  \x7d constraint: AND(NOT(a), NOT(b)) same_call: [a, b] \x7d"

theorem absentPairPattern : ∃ p ∈ patternOf absentPairSource, p.evidence.length ≤ UInt32.size ∧
    p.sameCall = some ⟨[⟨0⟩,⟨1⟩]⟩ := by
  rw [show absentPairSource = String.ofList _ from rfl,patternOfList]
  decide +kernel

theorem absentPairCandidate : ∃ c ∈ candidatesOf absentPairSource writingTrace, c.bindings = [] := by
  rw [show absentPairSource = String.ofList _ from rfl,candidatesOf,patternOfList]
  decide +kernel

theorem groupBoundAbsentPair : ∃ p, patternOf absentPairSource = some p ∧
    ((∀ cs, findCandidates .insertion writingTrace (.build writingTrace) p = .ok cs →
        ∀ c ∈ cs, GroupBound writingTrace ⟨[⟨0⟩,⟨1⟩]⟩ c) ↔
      (p.sequence = none → positiveLeaves p.constraint = [] → ¬ ConstraintHolds writingTrace p)) := by
  obtain ⟨p,source,narrow,group⟩ := absentPairPattern
  exact ⟨p,source,groupBoundIff ⟨patternOfAccepted source,narrow⟩ group⟩

theorem absentGroupUnbound : ∃ p cs c, patternOf absentPairSource = some p ∧
    p.sameCall = some ⟨[⟨0⟩,⟨1⟩]⟩ ∧
    findCandidates .insertion writingTrace (.build writingTrace) p = .ok cs ∧ c ∈ cs ∧
    ¬ GroupBound writingTrace ⟨[⟨0⟩,⟨1⟩]⟩ c := by
  obtain ⟨p,source,_,group⟩ := absentPairPattern
  obtain ⟨c,mem,unbound⟩ := absentPairCandidate
  obtain ⟨q,cs,same,found,inside⟩ := candidatesOfFound mem
  cases Option.some.inj (same.symm.trans source)
  refine ⟨_,cs,c,source,group,found,inside,?_⟩
  intro given
  obtain ⟨call,members⟩ := given
  obtain ⟨fact,cited,_⟩ := members ⟨0⟩ (by simp)
  simp [CandidateMatch.factFor,unbound] at cited

/- Every required clause that is not negated has a matching fact. -/
def RequiredMatched (trace : Trace) (p : CompiledPattern) : Prop :=
  ∀ r clause, p.resolve r = some clause → clause.requiredness = .required →
    r ∉ p.constraint.leaves false → clauseMatches trace p r ≠ []

/- The clauses that an attempt looks at whatever the constraint says: none in the single
check without an anchor. -/
def structuralRefs (p : CompiledPattern) : List EvidenceRef :=
  match anchorRef p with
  | none => []
  | some r => r :: (p.sequence.map CompiledSequence.steps).getD [] ++
      (p.sameCall.map CompiledSameCall.members).getD []

/- No choice of matching clauses satisfies the constraint without `r`. -/
def Forced (p : CompiledPattern) (r : EvidenceRef) : Prop :=
  ∀ hasMatch, holds p.constraint hasMatch = true → hasMatch r = true

/- What the engine checks, in terms of the trace: the constraint holds, and when there is
an anchor, some occurrence of it has earliest choices that agree with the group. -/
def Gate (trace : Trace) (p : CompiledPattern) : Prop :=
  ConstraintHolds trace p ∧ ∀ r, anchorRef p = some r →
    ∃ b ∈ clauseMatches trace p r, (attemptAt trace p r b).EarliestAgrees

theorem structuralMatched {trace : Trace} {p : CompiledPattern} {r : EvidenceRef} {b : Binding}
    (valid : (attemptAt trace p r b).Valid) (anchored : anchorRef p = some r)
    (agrees : (attemptAt trace p r b).EarliestAgrees) {s : EvidenceRef} (mem : s ∈ structuralRefs p) :
    clauseMatches trace p s ≠ [] := by
  obtain ⟨out,earliest,group⟩ := agrees
  simp only [structuralRefs,anchored,List.cons_append,List.mem_cons,List.mem_append] at mem
  rw [← matchesAtClause]
  rcases mem with rfl | step | member
  · exact List.ne_nil_of_mem valid.anchorMem
  · have index : s.index ∈ (attemptAt trace p r b).stepIndices := List.mem_map_of_mem step
    obtain ⟨chosen,_,matched⟩ := forall₂Right earliest.sound.1 index
    exact List.ne_nil_of_mem (Attempt.narrowedMem valid matched)
  · cases given : p.sameCall with
    | none => simp [given] at member
    | some sc =>
      rw [given] at member
      obtain ⟨target,agreed⟩ := group sc given
      have index : s.index ∈ sc.members.map EvidenceRef.index := List.mem_map_of_mem member
      cases fixed : (attemptAt trace p r b).fixedBy out s.index with
      | some chosen => exact List.ne_nil_of_mem (Attempt.fixedByMem valid earliest fixed)
      | none =>
        obtain ⟨chosen,matched,_⟩ := agreed.others s.index index fixed
        exact List.ne_nil_of_mem matched

theorem forcedMatched {trace : Trace} {p : CompiledPattern} {r : EvidenceRef}
    (held : ConstraintHolds trace p) (forced : Forced p r) : clauseMatches trace p r ≠ [] := by
  simpa using forced _ held

theorem requiredMatchedIff {u : UnicodeClasses} {h : HashOrder} {trace : Trace} {source : String}
    {p : CompiledPattern} (accepted : compileStr u source = some (.ok p))
    (narrow : p.evidence.length ≤ UInt32.size) :
    (∀ cs, findCandidates h trace (.build trace) p = .ok cs → ∀ c ∈ cs, RequiredMatched trace p) ↔
      (Gate trace p → ∀ r clause, p.resolve r = some clause → clause.requiredness = .required →
        r ∉ p.constraint.leaves false → r ∉ structuralRefs p → ¬ Forced p r →
        clauseMatches trace p r ≠ []) := by
  have wf := Accepted.wellFormed ⟨source,accepted⟩
  have distinct := wf.distinctSteps narrow
  have gateIff : (∃ cs, findCandidates h trace (.build trace) p = .ok cs ∧ cs ≠ []) ↔ Gate trace p :=
    someCandidateIff wf distinct
  constructor
  · intro gated gate r clause resolved required unnegated _ _
    obtain ⟨cs,found,nonempty⟩ := gateIff.mpr gate
    obtain ⟨c,mem⟩ := List.exists_mem_of_ne_nil cs nonempty
    exact gated cs found c mem r clause resolved required unnegated
  · intro condition cs found c mem r clause resolved required unnegated
    have gate : Gate trace p := gateIff.mp ⟨cs,found,List.ne_nil_of_mem mem⟩
    by_cases structural : r ∈ structuralRefs p
    · cases anchored : anchorRef p with
      | none => simp [structuralRefs,anchored] at structural
      | some anchor =>
        obtain ⟨b,occurrence,agrees⟩ := gate.2 anchor anchored
        exact structuralMatched (attemptValid wf distinct occurrence) anchored agrees structural
    · by_cases forced : Forced p r
      · exact forcedMatched gate.1 forced
      · exact condition gate r clause resolved required unnegated structural forced

def unmentionedSource : String := "pattern p version 1 \x7b family: F severity: Low evidence \x7b
  required a: call(kind: External) required b: call(kind: Delegate) \x7d constraint: a \x7d"

theorem unmentionedPattern : ∃ p ∈ patternOf unmentionedSource, p.evidence.length ≤ UInt32.size ∧
    (p.resolve ⟨1⟩).map CompiledEvidence.requiredness = some .required ∧
    ⟨1⟩ ∉ p.constraint.leaves false ∧ clauseMatches writingTrace p ⟨1⟩ = [] := by
  rw [show unmentionedSource = String.ofList _ from rfl,patternOfList]
  decide +kernel

theorem unmentionedCandidate : ∃ c ∈ candidatesOf unmentionedSource writingTrace,
    c.factFor ⟨0⟩ = some (.call ⟨0⟩) := by
  rw [show unmentionedSource = String.ofList _ from rfl,candidatesOf,patternOfList]
  decide +kernel

theorem requiredMatchedUnmentioned : ∃ p, compileStr .ascii unmentionedSource = some (.ok p) ∧
    ((∀ cs, findCandidates .insertion writingTrace (.build writingTrace) p = .ok cs →
        ∀ c ∈ cs, RequiredMatched writingTrace p) ↔
      (Gate writingTrace p → ∀ r clause, p.resolve r = some clause → clause.requiredness = .required →
        r ∉ p.constraint.leaves false → r ∉ structuralRefs p → ¬ Forced p r →
        clauseMatches writingTrace p r ≠ [])) := by
  obtain ⟨p,found,narrow,_⟩ := unmentionedPattern
  have compiled := patternOfCompiled found
  exact ⟨p,compiled,requiredMatchedIff compiled narrow⟩

theorem unmentionedRequired : ∃ p cs c, compileStr .ascii unmentionedSource = some (.ok p) ∧
    findCandidates .insertion writingTrace (.build writingTrace) p = .ok cs ∧ c ∈ cs ∧
    ¬ RequiredMatched writingTrace p := by
  obtain ⟨p,found,_,second,unnegated,unmatched⟩ := unmentionedPattern
  obtain ⟨clause,resolved,required⟩ := Option.map_eq_some_iff.mp second
  obtain ⟨c,mem,_⟩ := unmentionedCandidate
  obtain ⟨q,cs,same,emitted,inside⟩ := candidatesOfFound mem
  cases Option.some.inj (same.symm.trans found)
  refine ⟨_,cs,c,patternOfCompiled found,emitted,inside,?_⟩
  intro matched
  exact matched ⟨1⟩ clause resolved required unnegated unmatched

end RootCause.Matcher
