import RootCause.Dsl.Required
import RootCause.Grounding.Undecided
import RootCause.Ingestion.Build
import RootCause.Matcher.Guarantees

/-! The matcher and the grounding engine on the candidates of the matcher. They read the
same matches and the same calls; they differ in the order of a `transaction` clause,
which fits anywhere for the matcher and is at the root call for the engine. -/
namespace RootCause.Grounding
open Library FactModel Dsl Matcher

theorem resolvedMatch {trace : Trace} {index : TraceIndex} {p : CompiledPredicate} {b : Binding}
    (plain : unresolvable p = none) (mem : b ∈ evaluate trace index p) : b.unresolvedAttrs = [] := by
  rw [memEvaluate] at mem
  unfold collectBindings at mem
  unfold unresolvable at plain
  split at mem
  · obtain ⟨_,_,rfl⟩ := List.mem_map.mp mem
    rfl
  · rename_i kind
    obtain ⟨_,_,rfl⟩ := List.mem_map.mp mem
    simpa [kind] using plain
  · obtain ⟨_,_,rfl⟩ := List.mem_map.mp mem
    rfl
  · rename_i kind
    obtain ⟨_,_,rfl⟩ := List.mem_map.mp mem
    simpa [kind] using plain
  · unfold evaluateTransaction at mem
    split at mem
    · cases List.mem_singleton.mp mem
      rfl
    · simp at mem
  · obtain ⟨_,_,rfl⟩ := List.mem_map.mp mem
    rfl
  · simp at mem

theorem keyResolves {trace : Trace} {fact : FactRef} (present : (orderKey trace fact).isSome) :
    factResolves trace fact = true := by
  cases fact with
  | call id => simpa [orderKey,callOrder,factResolves] using present
  | storageChange id => exact Option.isSome_of_isSome_bind present
  | log id => exact Option.isSome_of_isSome_bind present
  | tokenTransfer id => exact Option.isSome_of_isSome_bind present

def isTransaction (p : CompiledPattern) (e : EvidenceRef) : Bool :=
  (p.resolve e).any fun clause => clause.predicate.kind = "transaction"

theorem stepOrder {trace : Trace} {p : CompiledPattern} {e : EvidenceRef} {b : Binding}
    (positional : trace.arena.Positional) (mem : b ∈ clauseMatches trace p e) :
    (orderKey trace b.fact).isSome ∧
      orderKey trace b.fact = if isTransaction p e then some 0 else b.order := by
  obtain ⟨clause,resolved,matched⟩ := clauseMatchesMem.mp mem
  obtain ⟨same,present⟩ := evaluateKey positional matched
  refine ⟨present,?_⟩
  rw [same]
  simp [factKey,isTransaction,resolved]

theorem stepUnordered {trace : Trace} {p : CompiledPattern} {e : EvidenceRef} {b : Binding}
    (marked : isTransaction p e = true) (mem : b ∈ clauseMatches trace p e) : b.order = none := by
  obtain ⟨clause,resolved,matched⟩ := clauseMatchesMem.mp mem
  have kind : clause.predicate.kind = "transaction" := by
    simpa [isTransaction,resolved] using marked
  exact transactionUnordered kind matched

/- Before a step with a `transaction` clause only facts of the root call are bound. -/
def RootBeforeTransaction (trace : Trace) (p : CompiledPattern) (c : CandidateMatch) : Prop :=
  ∀ seq, p.sequence = some seq → seq.steps.Pairwise fun s t => isTransaction p t = true →
    ∀ fact, c.factFor s = some fact → orderKey trace fact = some 0

structure Agreeable (trace : Trace) (p : CompiledPattern) (c : CandidateMatch) : Prop where
  positional : trace.arena.Positional
  wf : WellFormed p
  narrow : p.evidence.length ≤ UInt32.size
  implicit : p.constraint = requiredAnd p
  plain : ∀ clause ∈ p.evidence, unresolvable clause.predicate = none
  sound : CandidateSound trace p c
  grouped : ∀ sc, p.sameCall = some sc → GroupBound trace sc c

namespace Agreeable
variable {trace : Trace} {p : CompiledPattern} {c : CandidateMatch}
  {analyzed : List (EvidenceRef × Polarity)} (agreeable : Agreeable trace p c)
include agreeable

theorem citedMatch {e : EvidenceRef} {fact : FactRef} (cited : c.factFor e = some fact) :
    ∃ b ∈ clauseMatches trace p e, b.fact = fact := by
  have bound := (factForMem agreeable.sound.increasing).mp cited
  obtain ⟨clause,resolved,b,mem,same⟩ := agreeable.sound.matched _ bound
  exact ⟨b,clauseMatchesMem.mpr ⟨clause,resolved,mem⟩,same⟩

theorem unnegated : p.constraint.leaves false = [] := by
  rw [agreeable.implicit,requiredAndLeaves]
  rfl

theorem present (signed : Signed p.constraint analyzed) (e : EvidenceRef) :
    polarityOf analyzed e ≠ .negative := by
  intro negative
  have below := (signed.negative e).mp negative
  simp [agreeable.unnegated] at below

theorem verified (signed : Signed p.constraint analyzed) {e : EvidenceRef} {clause : CompiledEvidence}
    (resolved : p.resolve e = some clause) (matched : clauseMatches trace p e ≠ []) :
    (clauseVerdict trace c analyzed e clause).outcome = .verified := by
  refine (presentVerified (agreeable.present signed e)).mpr ⟨?_,?_⟩
  · obtain ⟨first,rest,shape⟩ := List.exists_cons_of_ne_nil matched
    have listed : first ∈ evaluate trace (.build trace) clause.predicate := by
      rw [← clauseMatchesAt resolved,shape]
      exact List.mem_cons_self
    have plain := agreeable.plain clause (List.mem_of_getElem? resolved)
    rw [← clauseMatchesAt resolved,shape]
    exact ⟨first,rfl,resolvedMatch plain listed⟩
  · intro fact cited
    rw [← clauseMatchesAt resolved]
    exact agreeable.citedMatch cited

theorem cites (signed : Signed p.constraint analyzed) {e : EvidenceRef} {fact : FactRef}
    (cited : c.factFor e = some fact) : ∃ entry,
      (chainOf trace p c analyzed).find? (fun x => x.evidence = e) = some entry ∧
      entry.outcome = .verified ∧ entry.facts.head? = some fact := by
  obtain ⟨b,mem,rfl⟩ := agreeable.citedMatch cited
  obtain ⟨clause,resolved,_⟩ := clauseMatchesMem.mp mem
  have verified := agreeable.verified signed resolved (List.ne_nil_of_mem mem)
  obtain ⟨_,_,given,same⟩ := presentFact (agreeable.present signed e) verified
  refine ⟨_,chainFind resolved,verified,?_⟩
  rw [same _ cited] at given
  simp [clauseEntry,clauseVerdict,given]

theorem sequenceAgrees (signed : Signed p.constraint analyzed) :
    (∀ o ∈ verifySequence trace p (chainOf trace p c analyzed), o = .verified) ↔
      RootBeforeTransaction trace p c := by
  unfold RootBeforeTransaction
  cases given : p.sequence with
  | none => simp [verifySequence,given]
  | some seq =>
    obtain ⟨bs,each,sorted⟩ := agreeable.sound.ordered seq given
    obtain ⟨xs,steps,bindings⟩ : ∃ xs : List (EvidenceRef × Binding),
        seq.steps = xs.map Prod.fst ∧ bs = xs.map Prod.snd :=
      ⟨seq.steps.zip bs,(List.map_fst_zip each.length_eq.le).symm,
        (List.map_snd_zip each.length_eq.ge).symm⟩
    rw [steps,bindings,List.forall₂_map_left_iff,List.forall₂_map_right_iff,List.forall₂_same] at each
    rw [bindings,reduceOptionPairwise,List.map_map,List.pairwise_map] at sorted
    have views : collectViews (chainOf trace p c analyzed) (fun fact => .ok (orderKey trace fact))
        seq.steps = .ok (xs.map fun x => orderKey trace x.2.fact) := by
      rw [steps,collectViewsOk,List.forall₂_map_left_iff,List.forall₂_map_right_iff,List.forall₂_same]
      intro x mem
      obtain ⟨entry,found,verified,read⟩ := agreeable.cites signed (each x mem).1
      exact ⟨entry,x.2.fact,found,verified,read,rfl⟩
    have key {x : EvidenceRef × Binding} (mem : x ∈ xs) :
        (orderKey trace x.2.fact).isSome ∧ orderKey trace x.2.fact =
          if isTransaction p x.1 then some 0 else x.2.order :=
      stepOrder agreeable.positional (clauseMatchesMem.mpr (each x mem).2)
    rw [sequenceVerified given,views]
    simp only [Except.ok.injEq,exists_eq_left',Option.some.injEq,forall_eq']
    rw [reduceOptionPairwise,List.pairwise_map,steps,List.pairwise_map]
    refine (markedPairwise (fun x => isTransaction p x.1 = true) Nat.zero_le
      (fun x mem => (key mem).1) (fun x mem mark => by simp [(key mem).2,mark])
      (fun x mem mark => by simp [(key mem).2,mark]) sorted).trans ?_
    refine List.Pairwise.iff_of_mem ?_
    intro x y hx _
    simp [(each x hx).1]

theorem sameCallAgrees (signed : Signed p.constraint analyzed) :
    ∀ o ∈ verifySameCall trace p (chainOf trace p c analyzed), o = .verified := by
  cases given : p.sameCall with
  | none => simp [verifySameCall,given]
  | some sc =>
    obtain ⟨call,members⟩ := agreeable.grouped sc given
    refine (sameCallVerified given).mpr ⟨sc.members.map fun _ => call,?_,by simp⟩
    rw [collectViewsOk,List.forall₂_map_right_iff,List.forall₂_same]
    intro m mem
    obtain ⟨fact,cited,produced⟩ := members m mem
    obtain ⟨entry,found,verified,read⟩ := agreeable.cites signed cited
    exact ⟨entry,fact,found,verified,read,callViewOk.mpr produced⟩

theorem bindingsResolve : checkBindingsResolve c trace = .ok () := by
  refine forMOk.mpr ?_
  intro bound mem
  obtain ⟨clause,_,b,matched,same⟩ := agreeable.sound.matched bound mem
  have present := (evaluateKey agreeable.positional matched).2
  rw [same] at present
  rw [if_pos (keyResolves present)]

theorem analyzeOk (h : HashOrder) : ∃ analyzed, analyze h p.constraint = .ok analyzed := by
  have none : (h.intersection (p.constraint.leaves true).dedup (p.constraint.leaves false).dedup).head? =
      none := by
    refine List.head?_eq_none_iff.mpr (List.eq_nil_iff_forall_not_mem.mpr ?_)
    intro e both
    have negated := (h.memIntersection.mp both).2
    simp [agreeable.unnegated] at negated
  unfold analyze
  simp only [none]
  exact ⟨_,rfl⟩

theorem requiredMatched {e : EvidenceRef} {clause : CompiledEvidence}
    (resolved : p.resolve e = some clause) (required : clause.requiredness = .required) :
    clauseMatches trace p e ≠ [] := by
  have held := agreeable.sound.constraint
  rw [ConstraintHolds,agreeable.implicit,requiredAndEval] at held
  simpa using held e (memRequiredRefs resolved required)

theorem groundedIffRoot (h : HashOrder) (id : c.patternId = p.id) (version : c.patternVersion = p.version) :
    (∃ r, ground h c trace p = .ok r ∧ r.status = .grounded) ↔ RootBeforeTransaction trace p c := by
  obtain ⟨analyzed,signs⟩ := agreeable.analyzeOk h
  have signed := analyzeSigned signs
  have named : checkCandidateMatchesPattern c p = .ok () := by
    rw [checkCandidateMatchesPattern,if_pos ⟨id,version⟩]
  have run := (groundOk agreeable.wf).mpr ⟨named,agreeable.bindingsResolve,analyzed,signs,rfl⟩
  have entries : ∀ entry ∈ chainOf trace p c analyzed, entry.requiredness = .required →
      entry.outcome = .verified := by
    intro entry mem required
    obtain ⟨⟨clause,i⟩,listed,rfl⟩ := List.mem_map.mp mem
    have at' := List.mem_zipIdx_iff_getElem?.mp listed
    obtain ⟨below,_⟩ := List.getElem?_eq_some_iff.mp at'
    have resolved : p.resolve (.ofIndex i) = some clause := by
      rw [CompiledPattern.resolve,EvidenceRef.indexOfIndex (Nat.lt_of_lt_of_le below agreeable.narrow),at']
    exact agreeable.verified signed resolved (agreeable.requiredMatched resolved required)
  rw [run]
  simp only [Except.ok.injEq,exists_eq_left']
  refine groundedIff.trans ?_
  rw [agreeable.sequenceAgrees signed]
  exact ⟨fun all => all.2.1,fun before => ⟨entries,before,agreeable.sameCallAgrees signed⟩⟩

end Agreeable

/- Before a step with a `transaction` clause every step of another kind can take a match
in the root call, the anchor only its occurrence `b`. -/
def RootAvailable (trace : Trace) (p : CompiledPattern) (r : EvidenceRef) (b : Binding) : Prop :=
  ∀ seq, p.sequence = some seq → seq.steps.Pairwise fun s t => isTransaction p t = true →
    ¬ isTransaction p s = true → ∃ m ∈ clauseMatches trace p s, (s = r → m = b) ∧ m.order = some 0

theorem narrowedClause {trace : Trace} {p : CompiledPattern} {r s : EvidenceRef} {b m : Binding}
    (valid : (attemptAt trace p r b).Valid) :
    m ∈ matchesAt (attemptAt trace p r b).narrowed s.index ↔
      m ∈ clauseMatches trace p s ∧ (s = r → m = b) := by
  have occurrence : b ∈ clauseMatches trace p r := matchesAtClause ▸ valid.anchorMem
  rw [Attempt.narrowedAt valid]
  by_cases same : s = r
  · subst same
    simp only [attemptAt,if_true,List.mem_singleton,forall_const]
    exact ⟨fun equal => ⟨equal ▸ occurrence,equal⟩,And.right⟩
  · have other : s.index ≠ (attemptAt trace p r b).anchorIdx := fun equal =>
      same (EvidenceRef.indexInj equal)
    rw [if_neg other]
    simp [same,attemptAt,matchesAtClause]

theorem rootAvailableIff {h : HashOrder} {trace : Trace} {p : CompiledPattern} {r : EvidenceRef}
    {b : Binding} {out : List Binding} {scB : HashMap Nat Binding} {target : CallId}
    (positional : trace.arena.Positional) (res : (attemptAt trace p r b).Resolved out scB target) :
    RootBeforeTransaction trace p ((attemptAt trace p r b).assemble h
      (HashMap.collect ((attemptAt trace p r b).stepIndices.zip out)) scB) ↔ RootAvailable trace p r b := by
  unfold RootBeforeTransaction RootAvailable
  refine forall_congr' fun seq => forall_congr' fun given => ?_
  obtain ⟨length,cited⟩ := List.forall₂_iff_zip.mp (anchoredSteps (h := h) given res)
  have member := res.earliest.sound.1.flip
  rw [attemptSteps given,List.forall₂_map_left_iff] at member
  obtain ⟨_,chosen⟩ := List.forall₂_iff_zip.mp member
  have steps : seq.steps = (seq.steps.zip out).map Prod.fst := (List.map_fst_zip length.le).symm
  -- Both sides say it of the choices of the attempt.
  have choices : ((seq.steps.zip out).Pairwise fun x y => isTransaction p y.1 = true →
      ¬ isTransaction p x.1 = true → x.2.order = some 0) ↔ seq.steps.Pairwise fun s t =>
        isTransaction p t = true → ∀ fact, ((attemptAt trace p r b).assemble h (HashMap.collect
          ((attemptAt trace p r b).stepIndices.zip out)) scB).factFor s = some fact →
            orderKey trace fact = some 0 := by
    conv_rhs => rw [steps,List.pairwise_map]
    refine List.Pairwise.iff_of_mem ?_
    intro x y hx _
    obtain ⟨bound,matched⟩ := cited hx
    rw [bound]
    simp only [Option.some.injEq,forall_eq',(stepOrder positional matched).2]
    by_cases marked : isTransaction p x.1 = true <;> simp [marked]
  rw [← choices]
  constructor
  · intro sorted
    rw [steps,List.pairwise_map]
    refine sorted.imp_of_mem ?_
    intro x y hx _ first mark plain
    obtain ⟨mem,held⟩ := (narrowedClause res.valid).mp (chosen hx)
    exact ⟨x.2,mem,held,first mark plain⟩
  · intro available
    have earliest := res.earliest
    rw [Attempt.EarliestSteps,attemptSteps given,List.map_map] at earliest
    refine earliestMarked Nat.zero_le (fun s => isTransaction p s = true) (by simp) earliest
      (fun s _ => Attempt.narrowedSorted res.valid s.index) ?_ ?_ (available.imp ?_)
    · intro s _ mark m mem
      exact stepUnordered mark ((narrowedClause res.valid).mp mem).1
    · intro s _ plain m mem
      obtain ⟨present,same⟩ := stepOrder positional ((narrowedClause res.valid).mp mem).1
      rwa [same,if_neg plain] at present
    · intro s t found mark plain
      obtain ⟨m,mem,held,first⟩ := found mark plain
      exact ⟨m,(narrowedClause res.valid).mpr ⟨mem,held⟩,first⟩

section
variable {u : UnicodeClasses} {h other : HashOrder} {trace : Trace} {p : CompiledPattern}

theorem anchoredAgreeable {r : EvidenceRef} {b : Binding} {out : List Binding} {scB : HashMap Nat Binding}
    {target : CallId} (positional : trace.arena.Positional) (compiled : Compiled u p)
    (implicit : p.constraint = requiredAnd p)
    (plain : ∀ clause ∈ p.evidence, unresolvable clause.predicate = none) (held : ConstraintHolds trace p)
    (anchored : anchorRef p = some r) (occurrence : b ∈ clauseMatches trace p r)
    (res : (attemptAt trace p r b).Resolved out scB target) :
    Agreeable trace p ((attemptAt trace p r b).assemble h
      (HashMap.collect ((attemptAt trace p r b).stepIndices.zip out)) scB) where
  positional := positional
  wf := compiled.accepted.wellFormed
  narrow := compiled.narrow
  implicit := implicit
  plain := plain
  sound := emittedSound compiled.accepted.wellFormed held (.anchored anchored occurrence res rfl)
  grouped := fun _ given => anchoredGroupBound given res

/- The two layers agree on all candidates exactly when, for each occurrence of the anchor
that has one, nothing but facts of the root call has to come before a `transaction`
step. -/
theorem emittedGroundedIff {checks : OverflowChecks} {normalized : Ingestion.NormalizedTrace}
    {source : TraceSource} (built : Ingestion.build checks normalized source = .ok trace)
    (compiled : Compiled u p) (implicit : p.constraint = requiredAnd p)
    (plain : ∀ clause ∈ p.evidence, unresolvable clause.predicate = none) :
    (∀ cs, findCandidates h trace (.build trace) p = .ok cs →
        ∀ c ∈ cs, ∃ g, ground other c trace p = .ok g ∧ g.status = .grounded) ↔
      (ConstraintHolds trace p → ∀ r, anchorRef p = some r → ∀ b ∈ clauseMatches trace p r,
        (attemptAt trace p r b).EarliestAgrees → RootAvailable trace p r b) := by
  have positional := Ingestion.buildPositional built
  have wf := compiled.accepted.wellFormed
  have distinct := wf.distinctSteps compiled.narrow
  constructor
  · intro grounded held r anchored b occurrence agrees
    obtain ⟨cs,c,found,mem,attempted⟩ :=
      (emitsAtIff (h := h) wf distinct anchored occurrence).mpr ⟨held,agrees⟩
    obtain ⟨_,out,scB,target,res,same⟩ :=
      Attempt.builtResolved (attemptValid wf distinct occurrence) attempted
    have agreeable := anchoredAgreeable (h := h) positional compiled implicit plain held anchored
      occurrence res
    have result := grounded cs found c mem
    rw [same,agreeable.groundedIffRoot other rfl rfl] at result
    exact (rootAvailableIff positional res).mp result
  · intro available cs found c mem
    obtain ⟨held,emitted⟩ := candidateEmitted wf distinct found mem
    cases emitted with
    | global free _ =>
      -- The implicit conjunction has a positive leaf, so there is an anchor.
      have noLeaf := (unanchored wf free).2
      rw [positiveLeaves,implicit,requiredAndLeaves] at noLeaf
      exact absurd noLeaf (requiredRefsNonempty wf)
    | anchored anchored occurrence res same =>
      subst same
      have agreeable := anchoredAgreeable (h := h) positional compiled implicit plain held anchored
        occurrence res
      rw [agreeable.groundedIffRoot other rfl rfl,rootAvailableIff positional res]
      exact available held _ anchored _ occurrence res.earliestAgrees

end

set_option maxRecDepth 4000

def nestedNormalized : Ingestion.NormalizedTrace where
  transactionHash := ⟨⟨.replicate 32 0⟩⟩
  transactionFrom := exampleAddress
  transactionTo := some exampleAddress
  transactionValue := Wei.zero
  transactionNonce := ⟨0⟩
  transactionGasUsed := ⟨0⟩
  transactionStatus := .success
  blockNumber := ⟨1⟩
  blockTimestamp := ⟨0⟩
  blockChainId := ⟨1⟩
  blockBaseFee := none
  calls := [
    ⟨none,⟨0⟩,.call,exampleAddress,some exampleAddress,Wei.zero,⟨0⟩,⟨0⟩,true,none⟩,
    ⟨some 0,⟨1⟩,.staticCall,exampleAddress,some exampleAddress,Wei.zero,⟨0⟩,⟨0⟩,true,none⟩]
  storageChanges := []
  logs := []
  tokenTransfers := []

def nestedTrace : Option Trace :=
  (Ingestion.build .on nestedNormalized (.archiveNodeRpc "")).toOption

theorem nestedTraceBuilt {trace : Trace} (found : nestedTrace = some trace) :
    Ingestion.build .on nestedNormalized (.archiveNodeRpc "") = .ok trace := toOptionOk.mp found

def lateTransactionSource : String := "pattern p version 1 \x7b family: F severity: Low evidence \x7b
  required a: call(kind: StaticCall) required b: transaction(status: Success)
  \x7d sequence: [a, b] \x7d"

theorem lateTransactionPattern : ∃ p ∈ patternOf lateTransactionSource,
    p.evidence.length ≤ UInt32.size ∧ p.constraint = requiredAnd p ∧
    ∀ clause ∈ p.evidence, unresolvable clause.predicate = none := by
  rw [show lateTransactionSource = String.ofList _ from rfl,patternOfList]
  decide +kernel

theorem lateTransactionCandidate : ∃ trace ∈ nestedTrace,
    ∃ c ∈ candidatesOf lateTransactionSource trace, ∃ p ∈ patternOf lateTransactionSource,
    (ground .insertion c trace p).toOption.map GroundingResult.status = some .ungrounded := by
  unfold candidatesOf
  rw [show lateTransactionSource = String.ofList _ from rfl,patternOfList]
  decide +kernel

theorem emittedGroundedLate : ∃ trace p, nestedTrace = some trace ∧
    patternOf lateTransactionSource = some p ∧
    ((∀ cs, findCandidates .insertion trace (.build trace) p = .ok cs →
        ∀ c ∈ cs, ∃ g, ground .insertion c trace p = .ok g ∧ g.status = .grounded) ↔
      (ConstraintHolds trace p → ∀ r, anchorRef p = some r → ∀ b ∈ clauseMatches trace p r,
        (attemptAt trace p r b).EarliestAgrees → RootAvailable trace p r b)) := by
  obtain ⟨p,pattern,narrow,implicit,plain⟩ := lateTransactionPattern
  obtain ⟨trace,given,_⟩ := lateTransactionCandidate
  exact ⟨trace,p,given,pattern,emittedGroundedIff (nestedTraceBuilt given)
    ⟨patternOfAccepted pattern,narrow⟩ implicit plain⟩

/- The matcher lets the transaction follow a nested call; grounding puts it at the root
call and refutes the order. -/
theorem lateTransactionUngrounded : ∃ trace p cs c r,
    Ingestion.build .on nestedNormalized (.archiveNodeRpc "") = .ok trace ∧
    patternOf lateTransactionSource = some p ∧ p.constraint = requiredAnd p ∧
    (∀ clause ∈ p.evidence, unresolvable clause.predicate = none) ∧
    findCandidates .insertion trace (.build trace) p = .ok cs ∧ c ∈ cs ∧
    ground .insertion c trace p = .ok r ∧ r.status = .ungrounded := by
  obtain ⟨p,pattern,_,implicit,plain⟩ := lateTransactionPattern
  obtain ⟨trace,given,c,mem,q,other,status⟩ := lateTransactionCandidate
  obtain ⟨_,cs,same,found,inside⟩ := candidatesOfFound mem
  cases Option.some.inj (same.symm.trans pattern)
  cases Option.some.inj (other.symm.trans pattern)
  obtain ⟨r,result,ungrounded⟩ := Option.map_eq_some_iff.mp status
  exact ⟨trace,_,cs,c,r,nestedTraceBuilt given,pattern,implicit,plain,found,inside,
    toOptionOk.mp result,ungrounded⟩

end RootCause.Grounding
