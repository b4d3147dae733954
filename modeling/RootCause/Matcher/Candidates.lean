import RootCause.Dsl.WellFormed
import RootCause.Matcher.Attempt

/-! What a built candidate binds, and which attempts the engine makes. -/
namespace RootCause.Matcher
open Library FactModel Dsl
namespace Attempt

def FromRefs (h : HashOrder) (a : Attempt) (seqB scB : HashMap Nat Binding) : Prop :=
  ∀ idx ∈ a.referenced h seqB scB, ∃ r : EvidenceRef, r.index = idx

section
variable {h : HashOrder} {a : Attempt} {seqB scB : HashMap Nat Binding}

theorem memAssembled (refs : a.FromRefs h seqB scB) {r : EvidenceRef} {fact : FactRef} :
    EvidenceBinding.mk r fact ∈ (a.assemble h seqB scB).bindings ↔
      r.index ∈ a.referenced h seqB scB ∧ ∃ b, a.chosen seqB scB r.index = some b ∧ b.fact = fact := by
  unfold assemble
  simp only [List.mem_insertionSort,List.mem_map,List.mem_filterMap,Option.map_eq_some_iff,
    EvidenceBinding.mk.injEq]
  constructor
  · intro given
    obtain ⟨entry,⟨idx,mem,b,picked,rfl⟩,same,rfl⟩ := given
    obtain ⟨s,rfl⟩ := refs idx mem
    simp only [EvidenceRef.ofIndexIndex] at same
    subst same
    exact ⟨mem,b,picked,rfl⟩
  · intro given
    obtain ⟨mem,b,picked,rfl⟩ := given
    exact ⟨_,⟨r.index,mem,b,picked,rfl⟩,EvidenceRef.ofIndexIndex r,rfl⟩

theorem referencedDistinct : (a.referenced h seqB scB).Nodup := h.nodupWalk (List.nodup_dedup _)

theorem assembledIncreasing (refs : a.FromRefs h seqB scB) :
    (a.assemble h seqB scB).bindings.Pairwise fun x y => x.evidence.index < y.evidence.index := by
  unfold assemble
  have : Std.Total fun x y : EvidenceBinding => x.evidence.index ≤ y.evidence.index :=
    ⟨fun _ _ => Nat.le_total _ _⟩
  have : IsTrans EvidenceBinding fun x y => x.evidence.index ≤ y.evidence.index :=
    ⟨fun _ _ _ => Nat.le_trans⟩
  refine ((List.pairwise_insertionSort (fun x y : EvidenceBinding =>
    x.evidence.index ≤ y.evidence.index) _).and ?_).imp fun le => Nat.lt_of_le_of_ne le.1 le.2
  rw [(List.perm_insertionSort _ _).pairwise_iff fun ne => Ne.symm ne,List.pairwise_map,
    List.pairwise_filterMap]
  refine referencedDistinct.imp_of_mem ?_
  intro i j hi hj ne x hx y hy same
  obtain ⟨b,_,rfl⟩ := Option.map_eq_some_iff.mp hx
  obtain ⟨c,_,rfl⟩ := Option.map_eq_some_iff.mp hy
  obtain ⟨r,rfl⟩ := refs i hi
  obtain ⟨s,rfl⟩ := refs j hj
  simp only [EvidenceRef.ofIndexIndex] at same
  exact ne same

end

theorem sameCallLookup {h : HashOrder} {a : Attempt} (valid : a.Valid) {out : List Binding}
    {scB : HashMap Nat Binding}
    (group : a.sameCallBindings h (HashMap.collect (a.stepIndices.zip out)) = some scB) :
    ∃ target, (∀ sc, a.pattern.sameCall = some sc →
        a.GroupAgrees (a.fixedBy out) a.memberIndices target) ∧
      ∀ idx, scB.lookup idx =
        if idx ∈ a.memberIndices then a.memberAt (a.fixedBy out) target idx else none := by
  unfold sameCallBindings at group
  unfold memberIndices memberRefs
  cases given : a.pattern.sameCall with
  | none =>
    rw [given] at group
    cases Option.some.inj group
    exact ⟨⟨0⟩,by simp,by simp⟩
  | some sc =>
    rw [given] at group
    obtain ⟨target,agrees,lookups⟩ := resolveSameCallSome group
    rw [fixedAtEq valid] at agrees lookups
    exact ⟨target,fun _ _ => agrees,lookups⟩

theorem fixedByMem {a : Attempt} (valid : a.Valid) {out : List Binding} (earliest : a.EarliestSteps out)
    {idx : Nat} {b : Binding} (fixed : a.fixedBy out idx = some b) :
    b ∈ matchesAt a.evidenceMatches idx := by
  unfold fixedBy at fixed
  split at fixed
  · rename_i same
    cases Option.some.inj fixed
    rw [same]
    exact valid.anchorMem
  · exact narrowedMem valid (stepAtMem valid earliest fixed).2

structure Resolved (a : Attempt) (out : List Binding) (scB : HashMap Nat Binding) (target : CallId) :
    Prop where
  valid : a.Valid
  earliest : a.EarliestSteps out
  agrees : ∀ sc, a.pattern.sameCall = some sc →
    a.GroupAgrees (a.fixedBy out) a.memberIndices target
  group : ∀ idx, scB.lookup idx =
    if idx ∈ a.memberIndices then a.memberAt (a.fixedBy out) target idx else none

variable {h : HashOrder} {a : Attempt} {out : List Binding} {scB : HashMap Nat Binding} {target : CallId}

theorem builtResolved (valid : a.Valid) {c : CandidateMatch} (built : a.tryBuildCandidate h = some c) :
    HoldsOn a.evidenceMatches a.pattern.constraint ∧ ∃ out scB target, a.Resolved out scB target ∧
      c = a.assemble h (HashMap.collect (a.stepIndices.zip out)) scB := by
  obtain ⟨held,out,scB,earliest,group,same⟩ := (tryBuildSome valid).mp built
  obtain ⟨target,agrees,lookups⟩ := sameCallLookup valid group
  exact ⟨held,out,scB,target,⟨valid,earliest,agrees,lookups⟩,same⟩

theorem Resolved.memberBound (res : a.Resolved out scB target) {idx : Nat} (mem : idx ∈ a.memberIndices) :
    ∃ b, a.memberAt (a.fixedBy out) target idx = some b ∧
      producingCall a.trace b.fact = some target := by
  cases given : a.pattern.sameCall with
  | none => simp [memberIndices,memberRefs,given] at mem
  | some sc =>
    have agrees := res.agrees sc given
    unfold memberAt
    cases fixed : a.fixedBy out idx with
    | some b => exact ⟨b,rfl,agrees.fixedFrom idx mem b fixed⟩
    | none =>
      obtain ⟨b,found⟩ := matchFromIsSome.mpr (agrees.others idx mem fixed)
      exact ⟨b,by simpa using found,(matchFromSome found).2⟩

theorem Resolved.earliestAgrees (res : a.Resolved out scB target) : a.EarliestAgrees := by
  refine ⟨out,res.earliest,?_⟩
  intro sc given
  have agrees := res.agrees sc given
  simp only [memberIndices,memberRefs,given,Option.map_some,Option.getD_some] at agrees
  exact ⟨target,agrees⟩

theorem Resolved.chosenEq (res : a.Resolved out scB target) (idx : Nat) :
    a.chosen (HashMap.collect (a.stepIndices.zip out)) scB idx =
      (a.fixedBy out idx).or ((if idx ∈ a.memberIndices then a.matchFrom target idx else none).or
        (matchesAt a.evidenceMatches idx).head?) := by
  unfold chosen fixedBy
  split
  · rfl
  · rename_i other
    rw [collectStepAt res.valid,res.group]
    cases found : a.stepAt out idx with
    | some b => rfl
    | none =>
      by_cases mem : idx ∈ a.memberIndices
      · simp [mem,memberAt,fixedBy,other,found]
      · simp [mem]

theorem Resolved.chosenMem (res : a.Resolved out scB target) {idx : Nat} {b : Binding}
    (picked : a.chosen (HashMap.collect (a.stepIndices.zip out)) scB idx = some b) :
    b ∈ matchesAt a.evidenceMatches idx := by
  rw [res.chosenEq] at picked
  rcases Option.or_eq_some_iff.mp picked with fixed | ⟨_,later⟩
  · exact fixedByMem res.valid res.earliest fixed
  · rcases Option.or_eq_some_iff.mp later with found | ⟨_,first⟩
    · split at found
      · exact (matchFromSome found).1
      · contradiction
    · exact List.mem_of_mem_head? first

theorem Resolved.chosenMember (res : a.Resolved out scB target) {idx : Nat}
    (mem : idx ∈ a.memberIndices) : ∃ b,
      a.chosen (HashMap.collect (a.stepIndices.zip out)) scB idx = some b ∧
      producingCall a.trace b.fact = some target := by
  obtain ⟨b,bound,produced⟩ := res.memberBound mem
  refine ⟨b,?_,produced⟩
  rw [res.chosenEq,if_pos mem,← Option.or_assoc]
  unfold memberAt at bound
  simp [bound]

theorem Resolved.chosenStep (res : a.Resolved out scB target) {idx : Nat} {b : Binding}
    (step : a.stepAt out idx = some b) :
    a.chosen (HashMap.collect (a.stepIndices.zip out)) scB idx = some b := by
  rw [res.chosenEq]
  have fixed : a.fixedBy out idx = some b := by
    unfold fixedBy
    split
    · rename_i same
      have mem := (stepAtMem res.valid res.earliest step).2
      rw [narrowedAt res.valid,if_pos same,List.mem_singleton] at mem
      rw [mem]
    · exact step
  simp [fixed]

theorem memStepKeys (res : a.Resolved out scB target) {idx : Nat} :
    idx ∈ (HashMap.collect (a.stepIndices.zip out)).keys ↔ idx ∈ a.stepIndices := by
  rw [HashMap.lookupSome]
  simp only [collectStepAt res.valid]
  constructor
  · intro given
    obtain ⟨b,found⟩ := given
    exact (stepAtMem res.valid res.earliest found).1
  · intro mem
    have paired := (stepAtStep res.valid res.earliest).flip
    obtain ⟨b,_,found⟩ := forall₂Right paired mem
    exact ⟨b,found⟩

theorem memReferenced (res : a.Resolved out scB target) {idx : Nat} :
    idx ∈ a.referenced h (HashMap.collect (a.stepIndices.zip out)) scB ↔
      idx ∈ (positiveLeaves a.pattern.constraint).map EvidenceRef.index ∨ idx = a.anchorIdx ∨
        idx ∈ a.stepIndices ∨ idx ∈ a.memberIndices := by
  have groupKeys : idx ∈ scB.keys ↔ idx ∈ a.memberIndices := by
    rw [HashMap.lookupSome]
    simp only [res.group]
    constructor
    · intro given
      obtain ⟨b,found⟩ := given
      by_contra outside
      simp [outside] at found
    · intro mem
      obtain ⟨b,bound,_⟩ := res.memberBound mem
      exact ⟨b,by rw [if_pos mem,bound]⟩
  unfold referenced
  simp only [h.memWalk,List.mem_dedup,List.mem_append,memStepKeys res,groupKeys,List.mem_singleton,
    or_assoc]

theorem referencedRef (res : a.Resolved out scB target) {idx : Nat}
    (mem : idx ∈ a.referenced h (HashMap.collect (a.stepIndices.zip out)) scB) :
    ∃ r : EvidenceRef, r.index = idx := by
  rcases (memReferenced res).mp mem with leaf | rfl | step | member
  · obtain ⟨r,_,same⟩ := List.mem_map.mp leaf
    exact ⟨r,same⟩
  · exact res.valid.anchorRef
  · obtain ⟨r,_,same⟩ := List.mem_map.mp step
    exact ⟨r,same⟩
  · obtain ⟨r,_,same⟩ := List.mem_map.mp member
    exact ⟨r,same⟩

theorem memBindings (res : a.Resolved out scB target) {r : EvidenceRef} {fact : FactRef} :
    EvidenceBinding.mk r fact ∈ (a.assemble h (HashMap.collect (a.stepIndices.zip out)) scB).bindings ↔
      r.index ∈ a.referenced h (HashMap.collect (a.stepIndices.zip out)) scB ∧
        ∃ b, a.chosen (HashMap.collect (a.stepIndices.zip out)) scB r.index = some b ∧ b.fact = fact :=
  memAssembled fun _ => referencedRef res

theorem bindingsIncreasing (res : a.Resolved out scB target) :
    (a.assemble h (HashMap.collect (a.stepIndices.zip out)) scB).bindings.Pairwise
      fun x y => x.evidence.index < y.evidence.index := assembledIncreasing fun _ => referencedRef res

end Attempt

theorem factForMem {c : CandidateMatch}
    (increasing : c.bindings.Pairwise fun x y => x.evidence.index < y.evidence.index)
    {r : EvidenceRef} {fact : FactRef} :
    c.factFor r = some fact ↔ EvidenceBinding.mk r fact ∈ c.bindings := by
  unfold CandidateMatch.factFor
  generalize c.bindings = bindings at increasing
  induction bindings with
  | nil => simp
  | cons first rest ih =>
    obtain ⟨evidence,cited⟩ := first
    obtain ⟨above,later⟩ := List.pairwise_cons.mp increasing
    by_cases same : evidence = r
    · subst same
      have absent : EvidenceBinding.mk evidence fact ∉ rest := fun mem =>
        Nat.lt_irrefl evidence.index (above _ mem)
      simp [absent,eq_comm]
    · rw [List.find?_cons_of_neg (by simpa using same),ih later]
      simp [Ne.symm same]

def clauseMatches (trace : Trace) (p : CompiledPattern) (r : EvidenceRef) : List Binding :=
  ((p.resolve r).map fun clause => evaluate trace (.build trace) clause.predicate).getD []

theorem clauseMatchesAt {trace : Trace} {p : CompiledPattern} {r : EvidenceRef} {clause : CompiledEvidence}
    (resolved : p.resolve r = some clause) :
    clauseMatches trace p r = evaluate trace (.build trace) clause.predicate := by
  simp [clauseMatches,resolved]

theorem matchesAtClause {trace : Trace} {p : CompiledPattern} {r : EvidenceRef} :
    matchesAt (evidenceMatches trace (.build trace) p) r.index = clauseMatches trace p r := by
  simp [matchesAt,evidenceMatches,clauseMatches,CompiledPattern.resolve,List.getElem?_map]

def ConstraintHolds (trace : Trace) (p : CompiledPattern) : Prop :=
  p.constraint.eval (fun r => !(clauseMatches trace p r).isEmpty) = true

instance (trace : Trace) (p : CompiledPattern) : Decidable (ConstraintHolds trace p) := by
  unfold ConstraintHolds; infer_instance

theorem holdsOnClause {trace : Trace} {p : CompiledPattern} :
    Attempt.HoldsOn (evidenceMatches trace (.build trace) p) p.constraint ↔ ConstraintHolds trace p := by
  simp only [Attempt.HoldsOn,holds,matchesAtClause,ConstraintHolds]

def anchorRef (p : CompiledPattern) : Option EvidenceRef :=
  match p.sequence with
  | some seq => seq.steps.head?
  | none => (positiveLeaves p.constraint).head?

theorem anchorIndexRef {p : CompiledPattern} : anchorIndex p = (anchorRef p).map EvidenceRef.index := by
  unfold anchorIndex anchorRef
  cases p.sequence <;> rfl

def attemptAt (trace : Trace) (p : CompiledPattern) (r : EvidenceRef) (b : Binding) : Attempt :=
  ⟨trace,p,evidenceMatches trace (.build trace) p,r.index,b⟩

theorem checkInBoundsOk {p : CompiledPattern} : checkInBounds p = .ok () ↔
    (∀ r ∈ p.constraint.atoms, r.index < p.evidence.length) ∧
    (∀ seq ∈ p.sequence, ∀ r ∈ seq.steps, r.index < p.evidence.length) ∧
    ∀ sc ∈ p.sameCall, ∀ r ∈ sc.members, r.index < p.evidence.length := by
  have ok {refs : List EvidenceRef} :
      refs.forM (checkRef p) = .ok () ↔ ∀ r ∈ refs, r.index < p.evidence.length := by
    rw [forMOk]
    refine forall₂_congr fun r _ => ?_
    unfold checkRef
    split <;> simp_all
  unfold checkInBounds
  rw [thenOk,thenOk,ok,ok,ok]
  cases p.sequence <;> cases p.sameCall <;> simp

theorem boundsOk {p : CompiledPattern} (wf : WellFormed p) : checkInBounds p = .ok () :=
  checkInBoundsOk.mpr ⟨wf.constraintRefs,fun seq given => (wf.steps seq given).2,
    fun sc given => (wf.members sc given).2⟩

theorem findCandidatesAnchored {h : HashOrder} {trace : Trace} {p : CompiledPattern} (wf : WellFormed p)
    {r : EvidenceRef} (anchored : anchorRef p = some r) :
    findCandidates h trace (.build trace) p = .ok ((clauseMatches trace p r).filterMap fun b =>
      (attemptAt trace p r b).tryBuildCandidate h) := by
  unfold findCandidates
  rw [boundsOk wf]
  simp only [anchorIndexRef,anchored,Option.map_some,matchesAtClause,attemptAt]
  rfl

theorem findCandidatesGlobal {h : HashOrder} {trace : Trace} {p : CompiledPattern} (wf : WellFormed p)
    (free : anchorRef p = none) : findCandidates h trace (.build trace) p =
      .ok (globalCandidate p (evidenceMatches trace (.build trace) p)).toList := by
  unfold findCandidates
  rw [boundsOk wf]
  simp only [anchorIndexRef,free,Option.map_none]
  rfl

theorem attemptSteps {trace : Trace} {p : CompiledPattern} {r : EvidenceRef} {b : Binding}
    {seq : CompiledSequence} (given : p.sequence = some seq) :
    (attemptAt trace p r b).stepIndices = seq.steps.map EvidenceRef.index := by
  simp [Attempt.stepIndices,Attempt.stepRefs,attemptAt,given]

theorem attemptNoSteps {trace : Trace} {p : CompiledPattern} {r : EvidenceRef} {b : Binding}
    (noSequence : p.sequence = none) : (attemptAt trace p r b).stepIndices = [] := by
  simp [Attempt.stepIndices,Attempt.stepRefs,attemptAt,noSequence]

theorem attemptValid {trace : Trace} {p : CompiledPattern} (wf : WellFormed p)
    (distinct : ∀ seq ∈ p.sequence, seq.steps.Nodup) {r : EvidenceRef} {b : Binding}
    (occurrence : b ∈ clauseMatches trace p r) : (attemptAt trace p r b).Valid := by
  refine ⟨⟨r,rfl⟩,by simpa [attemptAt,matchesAtClause] using occurrence,?_,?_,?_⟩
  · cases given : p.sequence with
    | none => simp [attemptNoSteps given]
    | some seq =>
      rw [attemptSteps given]
      exact (distinct seq given).map fun _ _ same => EvidenceRef.indexInj same
  · intro idx mem
    cases given : p.sequence with
    | none => simp [attemptNoSteps given] at mem
    | some seq =>
      rw [attemptSteps given] at mem
      obtain ⟨s,inside,rfl⟩ := List.mem_map.mp mem
      simpa [attemptAt,evidenceMatches] using (wf.steps seq given).2 s inside
  · intro idx
    unfold matchesAt attemptAt evidenceMatches
    rw [List.getElem?_map]
    cases p.evidence[idx]? with
    | none => exact List.Pairwise.nil
    | some clause => exact evaluateSorted

/- Where a candidate comes from: the global check, or a resolved attempt at one
occurrence of the anchor. -/
inductive Emitted (h : HashOrder) (trace : Trace) (p : CompiledPattern) (c : CandidateMatch) : Prop where
  | global (free : anchorRef p = none)
      (built : globalCandidate p (evidenceMatches trace (.build trace) p) = some c)
  | anchored {r b out scB target} (anchored : anchorRef p = some r)
      (occurrence : b ∈ clauseMatches trace p r)
      (res : (attemptAt trace p r b).Resolved out scB target)
      (built : c = (attemptAt trace p r b).assemble h
        (HashMap.collect ((attemptAt trace p r b).stepIndices.zip out)) scB)

theorem candidateEmitted {h : HashOrder} {trace : Trace} {p : CompiledPattern} {cs c} (wf : WellFormed p)
    (distinct : ∀ seq ∈ p.sequence, seq.steps.Nodup)
    (found : findCandidates h trace (.build trace) p = .ok cs) (mem : c ∈ cs) :
    ConstraintHolds trace p ∧ Emitted h trace p c := by
  cases anchored : anchorRef p with
  | none =>
    rw [findCandidatesGlobal wf anchored] at found
    cases found
    have built := Option.mem_toList.mp mem
    refine ⟨?_,.global anchored built⟩
    simp only [globalCandidate] at built
    split at built
    · rename_i held
      exact holdsOnClause.mp held
    · contradiction
  | some r =>
    rw [findCandidatesAnchored wf anchored] at found
    cases found
    obtain ⟨b,occurrence,built⟩ := List.mem_filterMap.mp mem
    obtain ⟨held,_,_,_,res,same⟩ := Attempt.builtResolved (attemptValid wf distinct occurrence) built
    exact ⟨holdsOnClause.mp held,.anchored anchored occurrence res same⟩

theorem globalBindings {p : CompiledPattern} {ms : List (List Binding)} {c : CandidateMatch}
    (built : globalCandidate p ms = some c) : c.bindings = [] := by
  unfold globalCandidate at built
  split at built
  · cases Option.some.inj built
    rfl
  · contradiction

theorem sequenceAnchored {p : CompiledPattern} (wf : WellFormed p) {seq : CompiledSequence}
    (given : p.sequence = some seq) : ∃ r, anchorRef p = some r ∧ r ∈ seq.steps := by
  have two := (wf.steps seq given).1
  unfold anchorRef
  rw [given]
  cases steps : seq.steps with
  | nil => simp [steps] at two
  | cons first rest => exact ⟨first,by simp [steps],List.mem_cons_self⟩

theorem unanchored {p : CompiledPattern} (wf : WellFormed p) (free : anchorRef p = none) :
    p.sequence = none ∧ positiveLeaves p.constraint = [] := by
  cases given : p.sequence with
  | none => exact ⟨rfl,by simpa [anchorRef,given] using free⟩
  | some seq =>
    obtain ⟨r,anchored,_⟩ := sequenceAnchored wf given
    rw [free] at anchored
    contradiction

/- What a candidate guarantees: distinct clauses in order, each bound to a match of its
own predicate, a constraint that holds, and a sequence bound in order. -/
structure CandidateSound (trace : Trace) (p : CompiledPattern) (c : CandidateMatch) : Prop where
  increasing : c.bindings.Pairwise fun x y => x.evidence.index < y.evidence.index
  matched : ∀ e ∈ c.bindings, ∃ clause, p.resolve e.evidence = some clause ∧
    ∃ b ∈ evaluate trace (.build trace) clause.predicate, b.fact = e.fact
  constraint : ConstraintHolds trace p
  ordered : ∀ seq, p.sequence = some seq → ∃ bs : List Binding,
    List.Forall₂ (fun step b => c.factFor step = some b.fact ∧ ∃ clause, p.resolve step = some clause ∧
      b ∈ evaluate trace (.build trace) clause.predicate) seq.steps bs ∧
    (bs.map Binding.order).reduceOption.Pairwise (· ≤ ·)

theorem clauseMatchesMem {trace : Trace} {p : CompiledPattern} {r : EvidenceRef} {b : Binding} :
    b ∈ clauseMatches trace p r ↔ ∃ clause, p.resolve r = some clause ∧
      b ∈ evaluate trace (.build trace) clause.predicate := by
  unfold clauseMatches
  cases p.resolve r <;> simp

theorem anchoredSteps {h : HashOrder} {trace : Trace} {p : CompiledPattern} {r : EvidenceRef} {b : Binding}
    {out : List Binding} {scB : HashMap Nat Binding} {target : CallId} {seq : CompiledSequence}
    (given : p.sequence = some seq) (res : (attemptAt trace p r b).Resolved out scB target) :
    List.Forall₂ (fun step chosen =>
      ((attemptAt trace p r b).assemble h (HashMap.collect ((attemptAt trace p r b).stepIndices.zip out))
        scB).factFor step = some chosen.fact ∧ chosen ∈ clauseMatches trace p step) seq.steps out := by
  have steps := Attempt.stepAtStep res.valid res.earliest
  rw [attemptSteps given,List.forall₂_map_left_iff] at steps
  obtain ⟨length,each⟩ := List.forall₂_iff_get.mp steps
  refine List.forall₂_iff_get.mpr ⟨length,?_⟩
  intro k hs hb
  have picked := res.chosenStep (each k hs hb)
  have referenced : (seq.steps.get ⟨k,hs⟩).index ∈ (attemptAt trace p r b).stepIndices := by
    rw [attemptSteps given]
    exact List.mem_map_of_mem (List.get_mem _ _)
  refine ⟨(factForMem (Attempt.bindingsIncreasing res)).mpr
    ((Attempt.memBindings res).mpr ⟨?_,_,picked,rfl⟩),matchesAtClause ▸ res.chosenMem picked⟩
  exact (Attempt.memReferenced res).mpr (.inr (.inr (.inl referenced)))

theorem emittedSound {h : HashOrder} {trace : Trace} {p : CompiledPattern} {c : CandidateMatch}
    (wf : WellFormed p) (held : ConstraintHolds trace p) (emitted : Emitted h trace p c) :
    CandidateSound trace p c := by
  cases emitted with
  | global free built =>
    have none := globalBindings built
    refine ⟨by simp [none],by simp [none],held,?_⟩
    intro seq given
    rw [(unanchored wf free).1] at given
    contradiction
  | @anchored r b out scB target anchored occurrence res built =>
    have increasing := Attempt.bindingsIncreasing (h := h) res
    subst built
    refine ⟨increasing,?_,held,?_⟩
    · intro e inside
      obtain ⟨_,chosen,picked,same⟩ := (Attempt.memBindings res).mp inside
      have member := res.chosenMem picked
      obtain ⟨clause,resolved,matched⟩ := clauseMatchesMem.mp (matchesAtClause ▸ member)
      exact ⟨clause,resolved,chosen,matched,same⟩
    · intro seq given
      refine ⟨out,(anchoredSteps (h := h) given res).imp ?_,res.earliest.sound.2⟩
      intro step chosen bound
      exact ⟨bound.1,clauseMatchesMem.mp bound.2⟩

theorem candidateSound {u : UnicodeClasses} {h : HashOrder} {trace : Trace} {p : CompiledPattern} {cs c}
    (compiled : Compiled u p) (found : findCandidates h trace (.build trace) p = .ok cs)
    (mem : c ∈ cs) : CandidateSound trace p c := by
  have wf := compiled.accepted.wellFormed
  obtain ⟨held,emitted⟩ := candidateEmitted wf (wf.distinctSteps compiled.narrow) found mem
  exact emittedSound wf held emitted

def exampleAddress : Address := ⟨.replicate 20 1⟩

def exampleCall (id : UInt32) (parent : Option UInt32) (kind : CallKind) (depth : UInt16) : Call :=
  ⟨⟨id⟩,parent.map CallId.mk,kind,⟨depth⟩,exampleAddress,some exampleAddress,Wei.zero,⟨0⟩,⟨0⟩,true,none⟩

def exampleChange (callId : UInt32) : StorageChange :=
  ⟨⟨callId⟩,⟨exampleAddress,⟨.replicate 32 0⟩⟩,⟨.replicate 32 0⟩,⟨.replicate 32 1⟩⟩

def exampleTrace (facts : FactArenaBuilder) (accepted : facts.validate .on = .ok ()) : Trace :=
  let hash : TxHash := ⟨⟨.replicate 32 0⟩⟩
  { metadata := ⟨hash,⟨1⟩,⟨1⟩,.archiveNodeRpc ""⟩
    block := ⟨⟨1⟩,⟨0⟩,⟨1⟩,none⟩
    transaction := ⟨hash,exampleAddress,some exampleAddress,Wei.zero,⟨0⟩,⟨0⟩,.success⟩
    arena := ⟨facts,.on,accepted⟩
    sameHash := rfl
    sameChain := rfl
    sameBlock := rfl }

def patternOf (source : String) : Option CompiledPattern :=
  match compileStr .ascii source with
  | some (.ok p) => some p
  | _ => none

/- The same on the characters of the source: a literal is evaluated through them, since
reading them back from its bytes takes far longer. -/
def patternOfChars (cs : List Char) : Option CompiledPattern := do
  match ← Lexer.run .ascii (cs.length + 1) ⟨cs,0,[]⟩ with
  | .error _ => none
  | .ok tokens =>
    match ← parseTokens tokens with
    | .error _ => none
    | .ok ast => (compile ast).toOption

theorem patternOfList {cs : List Char} : patternOf (String.ofList cs) = patternOfChars cs := by
  simp only [patternOf,compileStr,parse,tokenize,Lexer.new,String.toList_ofList,patternOfChars]
  cases Lexer.run .ascii (cs.length + 1) ⟨cs,0,[]⟩ with
  | none => rfl
  | some lexed =>
    cases lexed with
    | error d => rfl
    | ok tokens =>
      cases parsed : parseTokens tokens with
      | none => simp [parsed]
      | some result =>
        cases result with
        | error failure => cases failure <;> simp [parsed,mapFailure,bind,Except.bind]
        | ok ast =>
          cases compiled : compile ast with
          | error failure =>
            cases failure <;> simp [parsed,compiled,mapFailure,bind,Except.bind,Except.toOption]
          | ok p => simp [parsed,compiled,mapFailure,bind,Except.bind,Except.toOption]

theorem patternOfCompiled {source : String} {p : CompiledPattern} (found : patternOf source = some p) :
    compileStr .ascii source = some (.ok p) := by
  unfold patternOf at found
  split at found
  · rename_i compiled
    cases Option.some.inj found
    exact compiled
  · contradiction

theorem patternOfAccepted {source : String} {p : CompiledPattern} (found : patternOf source = some p) :
    Accepted .ascii p := ⟨source,patternOfCompiled found⟩

def candidatesOf (source : String) (trace : Trace) : List CandidateMatch :=
  match (patternOf source).map (findCandidates .insertion trace (.build trace)) with
  | some (.ok cs) => cs
  | _ => []

theorem candidatesOfFound {source : String} {trace : Trace} {c : CandidateMatch}
    (mem : c ∈ candidatesOf source trace) : ∃ p cs, patternOf source = some p ∧
      findCandidates .insertion trace (.build trace) p = .ok cs ∧ c ∈ cs := by
  unfold candidatesOf at mem
  split at mem
  · rename_i cs found
    obtain ⟨p,compiled,result⟩ := Option.map_eq_some_iff.mp found
    exact ⟨p,cs,compiled,result,mem⟩
  · simp at mem

set_option maxRecDepth 4000

def writingTrace : Trace :=
  exampleTrace ⟨[exampleCall 0 none .call 0,exampleCall 1 (some 0) .staticCall 1,
    exampleCall 2 (some 0) .call 1],[exampleChange 1,exampleChange 2],[],[]⟩ (by decide)

def orderedSource : String := "pattern p version 1 \x7b family: F severity: Low evidence \x7b
  required a: call(kind: StaticCall) required b: storage(changed: true) \x7d sequence: [a, b] \x7d"

theorem candidateSoundOrdered : ∃ p cs c, patternOf orderedSource = some p ∧
    findCandidates .insertion writingTrace (.build writingTrace) p = .ok cs ∧ c ∈ cs ∧
    c.bindings.length = 2 ∧ CandidateSound writingTrace p c := by
  have some : ∃ c ∈ candidatesOf orderedSource writingTrace, c.bindings.length = 2 := by
    rw [show orderedSource = String.ofList _ from rfl,candidatesOf,patternOfList]
    decide +kernel
  have narrow : ∀ p ∈ patternOf orderedSource, p.evidence.length ≤ UInt32.size := by
    rw [show orderedSource = String.ofList _ from rfl,patternOfList]
    decide +kernel
  obtain ⟨c,mem,two⟩ := some
  obtain ⟨p,cs,source,found,inside⟩ := candidatesOfFound mem
  exact ⟨p,cs,c,source,found,inside,two,
    candidateSound ⟨patternOfAccepted source,narrow p source⟩ found inside⟩

end RootCause.Matcher
