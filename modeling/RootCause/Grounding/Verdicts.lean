import RootCause.Dsl.WellFormed
import RootCause.Grounding.Engine
import RootCause.Matcher.Candidates

/-! What the parts of a grounding run establish: the verdict on one clause, the
chain of all verdicts, the two checks on the chain and the status over them. -/
namespace RootCause.Grounding
open Library FactModel Dsl Matcher

section
variable {trace : Trace} {index : TraceIndex} {p : CompiledPredicate} {polarity : Polarity}
  {cited : Option FactRef}

theorem absentVerified : (verifyViaMatcherPredicate trace index p .negative cited).outcome = .verified ↔
    evaluate trace index p = [] := by
  unfold verifyViaMatcherPredicate
  cases found : evaluate trace index p with
  | nil => simp
  | cons first rest => by_cases resolved : first.unresolvedAttrs = [] <;> simp [resolved]

theorem absentFact (verified :
    (verifyViaMatcherPredicate trace index p .negative cited).outcome = .verified) :
    (verifyViaMatcherPredicate trace index p .negative cited).fact = none := by
  have none := absentVerified.mp verified
  simp [verifyViaMatcherPredicate,none]

theorem presentVerified (present : polarity ≠ .negative) :
    (verifyViaMatcherPredicate trace index p polarity cited).outcome = .verified ↔
      (∃ first ∈ (evaluate trace index p).head?, first.unresolvedAttrs = []) ∧
      ∀ fact ∈ cited, ∃ b ∈ evaluate trace index p, b.fact = fact := by
  unfold verifyViaMatcherPredicate
  cases found : evaluate trace index p with
  | nil => simp [present]
  | cons first rest =>
    by_cases resolved : first.unresolvedAttrs = []
    · cases cited with
      | none => simp [present,resolved]
      | some fact =>
        have confirmed : ((first :: rest).any fun b => b.fact = fact) = true ↔
            ∃ b ∈ first :: rest, b.fact = fact := by simp
        simp only [List.head?_cons,Option.mem_some_iff,exists_eq_left',resolved,true_and,forall_eq']
        rw [← confirmed]
        cases (first :: rest).any fun b => b.fact = fact <;> simp [present]
    · simp [resolved]

theorem presentFact (present : polarity ≠ .negative)
    (verified : (verifyViaMatcherPredicate trace index p polarity cited).outcome = .verified) :
    ∃ b ∈ evaluate trace index p,
      (verifyViaMatcherPredicate trace index p polarity cited).fact = some b.fact ∧
      ∀ fact ∈ cited, b.fact = fact := by
  obtain ⟨⟨first,head,resolved⟩,matched⟩ := (presentVerified present).mp verified
  obtain ⟨rest,found⟩ := List.head?_eq_some_iff.mp head
  unfold verifyViaMatcherPredicate
  rw [found] at matched ⊢
  cases cited with
  | none => exact ⟨first,List.mem_cons_self,by simp [present,resolved],by simp⟩
  | some fact =>
    obtain ⟨b,mem,rfl⟩ := matched fact rfl
    have confirmed : ((first :: rest).any fun x => x.fact = b.fact) = true :=
      List.any_eq_true.mpr ⟨b,mem,by simp⟩
    exact ⟨b,mem,by simp [present,resolved,confirmed],by simp⟩

end

structure Signed (constraint : CompiledConstraint) (analyzed : List (EvidenceRef × Polarity)) : Prop where
  positive : ∀ e, polarityOf analyzed e = .positive ↔ e ∈ constraint.leaves true
  negative : ∀ e, polarityOf analyzed e = .negative ↔ e ∈ constraint.leaves false
  disjoint : ∀ e, e ∈ constraint.leaves true → e ∉ constraint.leaves false

theorem polarityFound {analyzed : List (EvidenceRef × Polarity)} {e : EvidenceRef} {polarity : Polarity}
    (mem : (e,polarity) ∈ analyzed) (unique : ∀ other, (e,other) ∈ analyzed → other = polarity) :
    polarityOf analyzed e = polarity := by
  unfold polarityOf
  cases found : analyzed.find? fun entry => entry.1 = e with
  | none => simpa using List.find?_eq_none.mp found _ mem
  | some entry =>
    have same : entry.1 = e := by simpa using List.find?_some found
    subst same
    exact unique entry.2 (List.mem_of_find?_eq_some found)

theorem polarityMem {analyzed : List (EvidenceRef × Polarity)} {e : EvidenceRef} {polarity : Polarity}
    (found : polarityOf analyzed e = polarity) (referenced : polarity ≠ .unreferenced) :
    (e,polarity) ∈ analyzed := by
  unfold polarityOf at found
  cases first : analyzed.find? fun entry => entry.1 = e with
  | none => simp [first,Ne.symm referenced] at found
  | some entry =>
    have same : entry.1 = e := by simpa using List.find?_some first
    have mem := List.mem_of_find?_eq_some first
    simp only [first,Option.map_some,Option.getD_some] at found
    rwa [← same,← found]

theorem analyzeSigned {h : HashOrder} {constraint : CompiledConstraint}
    {analyzed : List (EvidenceRef × Polarity)} (ok : analyze h constraint = .ok analyzed) :
    Signed constraint analyzed := by
  unfold analyze at ok
  simp only at ok
  split at ok
  · contradiction
  · rename_i free
    cases ok
    have disjoint : ∀ e, e ∈ constraint.leaves true → e ∉ constraint.leaves false := by
      intro e positive negative
      have both := h.memIntersection.mpr ⟨List.mem_dedup.mpr positive,List.mem_dedup.mpr negative⟩
      rw [List.head?_eq_none_iff.mp free] at both
      exact absurd both List.not_mem_nil
    have mem {e : EvidenceRef} {polarity : Polarity} :
        (e,polarity) ∈ (((h.walk (constraint.leaves true).dedup).map (fun e => (e,Polarity.positive)) ++
          (h.walk (constraint.leaves false).dedup).map (fun e => (e,Polarity.negative))).insertionSort
            fun x y => x.1.index ≤ y.1.index) ↔
        (e ∈ constraint.leaves true ∧ polarity = .positive) ∨
          (e ∈ constraint.leaves false ∧ polarity = .negative) := by
      simp [h.memWalk,eq_comm]
    refine ⟨?_,?_,disjoint⟩
    · intro e
      constructor
      · intro found
        simpa using mem.mp (polarityMem found (by simp))
      · intro positive
        refine polarityFound (mem.mpr (.inl ⟨positive,rfl⟩)) ?_
        intro other inside
        rcases mem.mp inside with ⟨_,same⟩ | ⟨negative,_⟩
        · exact same
        · exact absurd negative (disjoint e positive)
    · intro e
      constructor
      · intro found
        simpa using mem.mp (polarityMem found (by simp))
      · intro negative
        refine polarityFound (mem.mpr (.inr ⟨negative,rfl⟩)) ?_
        intro other inside
        rcases mem.mp inside with ⟨positive,_⟩ | ⟨_,same⟩
        · exact absurd negative (disjoint e positive)
        · exact same

theorem kindListed {kind : String} (known : (Schema.lookup kind).isSome) :
    kind ∈ ["call","storage","value_flow","token_transfer","transaction","log"] := by
  obtain ⟨schema,found⟩ := Option.isSome_iff_exists.mp known
  have mem := List.mem_of_find?_eq_some found
  have same : schema.kind = kind := by simpa using List.find?_some found
  rw [← same]
  exact List.mem_map_of_mem (f := Schema.PredicateSchema.kind) mem

theorem defaultVerifier {kind : String} (known : (Schema.lookup kind).isSome) :
    withDefaultVerifiers.lookup kind = some verifyViaMatcherPredicate := by
  have listed := kindListed known
  simp only [List.mem_cons,List.not_mem_nil,or_false] at listed
  rcases listed with rfl | rfl | rfl | rfl | rfl | rfl <;> rfl

def clauseVerdict (trace : Trace) (c : CandidateMatch) (analyzed : List (EvidenceRef × Polarity))
    (e : EvidenceRef) (clause : CompiledEvidence) : VerifierOutcome :=
  verifyViaMatcherPredicate trace (.build trace) clause.predicate (polarityOf analyzed e) (c.factFor e)

def clauseEntry (trace : Trace) (c : CandidateMatch) (analyzed : List (EvidenceRef × Polarity))
    (e : EvidenceRef) (clause : CompiledEvidence) : EvidenceVerification :=
  let verdict := clauseVerdict trace c analyzed e clause
  ⟨e,clause.name,clause.requiredness,polarityOf analyzed e,verdict.outcome,verdict.fact.toList,
    verdict.reason,verdict.unresolvedAttrs.map fun a =>
      "attribute `" ++ a ++ "` could not be structurally resolved"⟩

def chainOf (trace : Trace) (p : CompiledPattern) (c : CandidateMatch)
    (analyzed : List (EvidenceRef × Polarity)) : List EvidenceVerification :=
  p.evidence.zipIdx.map fun entry => clauseEntry trace c analyzed (.ofIndex entry.2) entry.1

theorem verifyChain {trace : Trace} {p : CompiledPattern} {c : CandidateMatch}
    {analyzed : List (EvidenceRef × Polarity)} (wf : WellFormed p) :
    GroundingEngine.new.verifyAllEvidence trace (.build trace) p c analyzed =
      .ok (chainOf trace p c analyzed) := by
  unfold GroundingEngine.verifyAllEvidence chainOf
  refine mapMOk.mpr ((List.forall₂_map_right_iff).mpr (List.forall₂_same.mpr ?_))
  intro entry mem
  have known := wf.kinds entry.1 (List.fst_mem_of_mem_zipIdx mem)
  simp only [GroundingEngine.verifyEntry,GroundingEngine.verifyOne,GroundingEngine.new,
    defaultVerifier known]
  rfl

theorem groundOk {h : HashOrder} {trace : Trace} {p : CompiledPattern} {c : CandidateMatch}
    {r : GroundingResult} (wf : WellFormed p) : ground h c trace p = .ok r ↔
      checkCandidateMatchesPattern c p = .ok () ∧ checkBindingsResolve c trace = .ok () ∧
      ∃ analyzed, analyze h p.constraint = .ok analyzed ∧
        r = buildResult c p (chainOf trace p c analyzed)
          (verifySequence trace p (chainOf trace p c analyzed))
          (verifySameCall trace p (chainOf trace p c analyzed)) := by
  unfold ground GroundingEngine.ground
  cases pattern : checkCandidateMatchesPattern c p with
  | error e => simp [bind,Except.bind]
  | ok _ => cases bindings : checkBindingsResolve c trace with
    | error e => simp [bind,Except.bind]
    | ok _ => cases signs : analyze h p.constraint with
      | error evidence => simp [bind,Except.bind]
      | ok analyzed => simp [bind,Except.bind,pure,Except.pure,verifyChain wf,eq_comm]

theorem chainFind {trace : Trace} {p : CompiledPattern} {c : CandidateMatch}
    {analyzed : List (EvidenceRef × Polarity)} {e : EvidenceRef} {clause : CompiledEvidence}
    (resolved : p.resolve e = some clause) :
    (chainOf trace p c analyzed).find? (fun entry => entry.evidence = e) =
      some (clauseEntry trace c analyzed e clause) := by
  obtain ⟨below,at'⟩ := List.getElem?_eq_some_iff.mp resolved
  have small : e.index < UInt32.size := e.raw.toNat_lt
  refine List.find?_eq_some_iff_getElem.mpr ⟨by simp [clauseEntry],e.index,by simpa [chainOf],?_,?_⟩
  · simp [chainOf,at',EvidenceRef.ofIndexIndex]
  · intro j earlier
    have distinct : EvidenceRef.ofIndex j ≠ e := by
      intro same
      have index := congrArg EvidenceRef.index same
      rw [EvidenceRef.indexOfIndex (by omega)] at index
      omega
    simpa [chainOf,clauseEntry] using distinct

def citedFact (chain : List EvidenceVerification) (e : EvidenceRef) : Except EvidenceOutcome FactRef :=
  match chain.find? fun x => x.evidence = e with
  | none => .error .unsupported
  | some entry =>
    match entry.outcome with
    | .verified => match entry.facts.head? with
      | none => .error .unsupported
      | some fact => .ok fact
    | other => .error other

theorem collectViewsCons {α : Type} {chain : List EvidenceVerification}
    {view : FactRef → Except EvidenceOutcome α} {e : EvidenceRef} {rest : List EvidenceRef} :
    collectViews chain view (e :: rest) = (do
      let fact ← citedFact chain e
      let key ← view fact
      let tail ← collectViews chain view rest
      pure (key :: tail)) := by
  rw [collectViews,citedFact]
  cases chain.find? fun x => x.evidence = e with
  | none => rfl
  | some entry =>
    dsimp only
    cases entry.outcome with
    | verified => cases entry.facts.head? <;> rfl
    | failed | unavailable | unsupported => rfl

theorem citedFactOk {chain : List EvidenceVerification} {e : EvidenceRef} {fact : FactRef} :
    citedFact chain e = .ok fact ↔ ∃ entry, chain.find? (fun x => x.evidence = e) = some entry ∧
      entry.outcome = .verified ∧ entry.facts.head? = some fact := by
  unfold citedFact
  cases chain.find? fun x => x.evidence = e with
  | none => simp
  | some entry =>
    simp only [Option.some.injEq,exists_eq_left']
    cases entry.outcome with
    | verified => cases entry.facts.head? <;> simp
    | failed | unavailable | unsupported => simp

theorem citedFactError {chain : List EvidenceVerification} {e : EvidenceRef} :
    citedFact chain e ≠ .error .verified := by
  unfold citedFact
  cases chain.find? fun x => x.evidence = e with
  | none => simp
  | some entry =>
    dsimp only
    cases entry.outcome with
    | verified => cases entry.facts.head? <;> simp
    | failed | unavailable | unsupported => simp

theorem collectViewsOk {α : Type} {chain : List EvidenceVerification}
    {view : FactRef → Except EvidenceOutcome α} {refs : List EvidenceRef} {keys : List α} :
    collectViews chain view refs = .ok keys ↔
      List.Forall₂ (fun e key => ∃ entry fact, chain.find? (fun x => x.evidence = e) = some entry ∧
        entry.outcome = .verified ∧ entry.facts.head? = some fact ∧ view fact = .ok key) refs keys := by
  induction refs generalizing keys with
  | nil => cases keys <;> simp [collectViews]
  | cons e rest ih =>
    rw [List.forall₂_cons_left_iff,collectViewsCons]
    constructor
    · intro run
      obtain ⟨fact,cited,run⟩ := bindOk.mp run
      obtain ⟨key,seen,run⟩ := bindOk.mp run
      obtain ⟨tail,later,last⟩ := bindOk.mp run
      cases last
      obtain ⟨entry,found,outcome,cites⟩ := citedFactOk.mp cited
      exact ⟨key,tail,⟨entry,fact,found,outcome,cites,seen⟩,ih.mp later,rfl⟩
    · intro each
      obtain ⟨key,tail,⟨entry,fact,found,outcome,cites,seen⟩,later,rfl⟩ := each
      have cited : citedFact chain e = .ok fact := citedFactOk.mpr ⟨entry,found,outcome,cites⟩
      exact bindOk.mpr ⟨fact,cited,bindOk.mpr ⟨key,seen,bindOk.mpr ⟨tail,ih.mpr later,rfl⟩⟩⟩

theorem collectViewsError {α : Type} {chain : List EvidenceVerification}
    {view : FactRef → Except EvidenceOutcome α} (never : ∀ fact, view fact ≠ .error .verified)
    {refs : List EvidenceRef} : collectViews chain view refs ≠ .error .verified := by
  induction refs with
  | nil => simp [collectViews]
  | cons e rest ih =>
    rw [collectViewsCons]
    intro run
    rcases bindError.mp run with cited | ⟨fact,_,run⟩
    · exact citedFactError cited
    · rcases bindError.mp run with seen | ⟨key,_,run⟩
      · exact never fact seen
      · rcases bindError.mp run with later | ⟨_,_,last⟩
        · exact ih later
        · cases last

theorem viewsVerified {α : Type} {chain : List EvidenceVerification}
    {view : FactRef → Except EvidenceOutcome α} (never : ∀ fact, view fact ≠ .error .verified)
    {refs : List EvidenceRef} {test : List α → Bool} :
    checkViews test (collectViews chain view refs) = .verified ↔
      ∃ keys, collectViews chain view refs = .ok keys ∧ test keys = true := by
  have error : collectViews chain view refs ≠ .error .verified := collectViewsError never
  unfold checkViews
  cases views : collectViews chain view refs with
  | error outcome =>
    rw [views] at error
    simpa using error
  | ok keys => simp

theorem nonDecreasingFrom {bound : Nat} {keys : List Nat} :
    nonDecreasing (some bound) keys = true ↔ (bound :: keys).Pairwise (· ≤ ·) := by
  induction keys generalizing bound with
  | nil => simp [nonDecreasing]
  | cons k rest ih =>
    unfold nonDecreasing
    simp only [Option.any_some,decide_eq_true_eq]
    split
    · rename_i below
      simp only [Bool.false_eq_true,false_iff]
      intro sorted
      have le := List.rel_of_pairwise_cons sorted List.mem_cons_self
      omega
    · rename_i above
      have le : bound ≤ k := by omega
      rw [ih,List.pairwise_cons (a := bound)]
      constructor
      · intro sorted
        refine ⟨?_,sorted⟩
        intro key mem
        rcases List.mem_cons.mp mem with rfl | later
        · exact le
        · exact Nat.le_trans le (List.rel_of_pairwise_cons sorted later)
      · exact And.right

theorem nonDecreasingIff {keys : List Nat} :
    nonDecreasing none keys = true ↔ keys.Pairwise (· ≤ ·) := by
  cases keys with
  | nil => simp [nonDecreasing]
  | cons k rest => simpa [nonDecreasing] using nonDecreasingFrom

theorem allSameIff {calls : List CallId} :
    allSame calls = true ↔ ∀ a ∈ calls, ∀ b ∈ calls, a = b := by
  induction calls with
  | nil => simp [allSame]
  | cons a rest ih =>
    cases rest with
    | nil => simp [allSame]
    | cons b rest =>
      simp only [allSame,Bool.and_eq_true,decide_eq_true_eq,ih]
      constructor
      · intro same x hx y hy
        obtain ⟨rfl,all⟩ := same
        have inside {z : CallId} (mem : z ∈ a :: a :: rest) : z ∈ a :: rest := by simpa using mem
        exact all x (inside hx) y (inside hy)
      · intro all
        refine ⟨all a (by simp) b (by simp),?_⟩
        intro x hx y hy
        exact all x (List.mem_cons_of_mem a hx) y (List.mem_cons_of_mem a hy)

theorem sequenceVerified {trace : Trace} {p : CompiledPattern} {chain : List EvidenceVerification}
    {seq : CompiledSequence} (given : p.sequence = some seq) :
    (∀ o ∈ verifySequence trace p chain, o = .verified) ↔
      ∃ keys, collectViews chain (fun fact => .ok (orderKey trace fact)) seq.steps = .ok keys ∧
        keys.reduceOption.Pairwise (· ≤ ·) := by
  unfold verifySequence
  simp only [given,Option.map_some,Option.mem_some_iff,forall_eq',← nonDecreasingIff]
  exact viewsVerified (by simp)

theorem callViewOk {trace : Trace} {fact : FactRef} {call : CallId} :
    callView trace fact = .ok call ↔ producingCall trace fact = some call := by
  unfold callView
  cases producingCall trace fact <;> simp

theorem sameCallVerified {trace : Trace} {p : CompiledPattern} {chain : List EvidenceVerification}
    {sc : CompiledSameCall} (given : p.sameCall = some sc) :
    (∀ o ∈ verifySameCall trace p chain, o = .verified) ↔
      ∃ calls, collectViews chain (callView trace) sc.members = .ok calls ∧
        ∀ a ∈ calls, ∀ b ∈ calls, a = b := by
  have never (fact : FactRef) : callView trace fact ≠ .error .verified := by
    unfold callView
    cases producingCall trace fact <;> simp
  unfold verifySameCall
  simp only [given,Option.map_some,Option.mem_some_iff,forall_eq',← allSameIff]
  exact viewsVerified never

def Findings.Clean (f : Findings) : Prop := f.uncertain = false ∧ f.failed = false

theorem appendClean {a b : Findings} : (a.append b).Clean ↔ a.Clean ∧ b.Clean := by
  simp only [Findings.Clean,Findings.append,Bool.or_eq_false_iff]
  exact and_and_and_comm

theorem foldClean {start : Findings} {found : List Findings} :
    (found.foldl Findings.append start).Clean ↔ start.Clean ∧ ∀ f ∈ found, f.Clean := by
  induction found generalizing start with
  | nil => simp
  | cons f rest ih => rw [List.foldl_cons,ih,appendClean,List.forall_mem_cons,and_assoc]

theorem entryClean {entry : EvidenceVerification} :
    (entryFindings entry).Clean ↔ entry.outcome = .verified := by
  unfold entryFindings Findings.Clean
  cases entry.outcome <;> simp

theorem checkClean {unconfirmed refuted : String} {outcome : Option EvidenceOutcome} :
    (checkFindings unconfirmed refuted outcome).Clean ↔ ∀ o ∈ outcome, o = .verified := by
  unfold Findings.Clean
  cases outcome with
  | none => simp [checkFindings]
  | some o => cases o <;> simp [checkFindings]

theorem groundedIff {chain : List EvidenceVerification} {sequence sameCall : Option EvidenceOutcome} :
    (aggregateStatus chain sequence sameCall).1 = .grounded ↔
      (∀ entry ∈ chain, entry.requiredness = .required → entry.outcome = .verified) ∧
      (∀ o ∈ sequence, o = .verified) ∧ ∀ o ∈ sameCall, o = .verified := by
  have status {f : Findings} : (if f.uncertain then GroundingStatus.abstain
      else if f.failed then .ungrounded else .grounded) = .grounded ↔ f.Clean := by
    unfold Findings.Clean
    cases f.uncertain <;> cases f.failed <;> simp
  have start : Findings.Clean ⟨false,false,[]⟩ := ⟨rfl,rfl⟩
  refine status.trans ?_
  simp only [appendClean,foldClean,start,true_and,List.forall_mem_map,List.mem_filter,
    decide_eq_true_eq,and_imp,entryClean,sequenceFindings,sameCallFindings,checkClean]

end RootCause.Grounding
