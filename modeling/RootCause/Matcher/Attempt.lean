import RootCause.Matcher.Engine

/-! What one attempt of the engine resolves. The group is feasible exactly when
what is fixed before it agrees on a call and every other member has a match from
that call; the sequence takes the earliest allowed match of each step. -/
namespace RootCause.Matcher
open Library FactModel Dsl
namespace Attempt

theorem commonCallSome {trace : Trace} {bs : List Binding} {t : CallId} :
    commonCall trace (some t) bs =
      if ∀ b ∈ bs, producingCall trace b.fact = some t then some (some t) else none := by
  induction bs with
  | nil => simp [commonCall]
  | cons b rest ih =>
    cases h : producingCall trace b.fact with
    | none => simp [commonCall,h]
    | some callId =>
      by_cases same : t = callId
      · subst same
        simp [commonCall,h,ih]
      · simp [commonCall,h,same,Ne.symm same]

theorem commonCallFound {trace : Trace} {bs : List Binding} {target : CallId} :
    commonCall trace none bs = some (some target) ↔
      bs ≠ [] ∧ ∀ b ∈ bs, producingCall trace b.fact = some target := by
  cases bs with
  | nil => simp [commonCall]
  | cons b rest =>
    cases h : producingCall trace b.fact with
    | none => simp [commonCall,h]
    | some callId =>
      have step : commonCall trace none (b :: rest) = commonCall trace (some callId) rest := by
        simp [commonCall,h]
      rw [step,commonCallSome,List.forall_mem_cons,h]
      by_cases same : callId = target
      · subst same
        simp
      · simp [same]

theorem commonCallFree {trace : Trace} {bs : List Binding} :
    commonCall trace none bs = some none ↔ bs = [] := by
  cases bs with
  | nil => simp [commonCall]
  | cons b rest =>
    cases h : producingCall trace b.fact with
    | none => simp [commonCall,h]
    | some callId => simp [commonCall,h,commonCallSome]

theorem matchFromSome {a : Attempt} {target : CallId} {idx : Nat} {b : Binding}
    (found : a.matchFrom target idx = some b) :
    b ∈ matchesAt a.evidenceMatches idx ∧ producingCall a.trace b.fact = some target :=
  ⟨List.mem_of_find?_eq_some found,by simpa using List.find?_some found⟩

theorem matchFromIsSome {a : Attempt} {target : CallId} {idx : Nat} :
    (∃ b, a.matchFrom target idx = some b) ↔
      ∃ b ∈ matchesAt a.evidenceMatches idx, producingCall a.trace b.fact = some target := by
  rw [← Option.isSome_iff_exists,matchFrom,List.find?_isSome]
  simp

theorem fillGroupLookup {a : Attempt} {target : CallId} {members : List Nat}
    {resolved out : HashMap Nat Binding} (filled : a.fillGroup target members resolved = some out)
    (idx : Nat) : out.lookup idx =
      (resolved.lookup idx).or (if idx ∈ members then a.matchFrom target idx else none) := by
  induction members generalizing resolved with
  | nil =>
    cases Option.some.inj filled
    simp
  | cons first rest ih =>
    unfold fillGroup at filled
    split at filled
    · rename_i present
      rw [ih filled]
      by_cases same : idx = first
      · subst same
        obtain ⟨b,hb⟩ := Option.isSome_iff_exists.mp present
        simp [hb]
      · simp [same]
    · rename_i absent
      obtain ⟨chosen,found,rest⟩ := Option.bind_eq_some_iff.mp filled
      rw [ih rest]
      by_cases same : idx = first
      · subst same
        have none : resolved.lookup idx = none := by simpa using absent
        simp [none,found]
      · simp [same]

theorem fillGroupIsSome {a : Attempt} {target : CallId} {members : List Nat}
    {resolved : HashMap Nat Binding} : (∃ out, a.fillGroup target members resolved = some out) ↔
      ∀ idx ∈ members, resolved.lookup idx = none → ∃ b, a.matchFrom target idx = some b := by
  induction members generalizing resolved with
  | nil => simp [fillGroup]
  | cons first rest ih =>
    unfold fillGroup
    split
    · rename_i present
      obtain ⟨b,hb⟩ := Option.isSome_iff_exists.mp present
      rw [ih,List.forall_mem_cons]
      simp [hb]
    · rename_i absent
      have none : resolved.lookup first = none := by simpa using absent
      rw [List.forall_mem_cons]
      cases found : a.matchFrom target first with
      | none => simp [none]
      | some chosen =>
        simp only [none,forall_const,Option.some.injEq,exists_eq',true_and,bind,Option.bind_some]
        rw [ih]
        constructor
        · intro all idx mem free
          by_cases same : idx = first
          · exact ⟨chosen,by rw [same,found]⟩
          · exact all idx mem (by rw [AList.lookup_insert_ne same,free])
        · intro all idx mem free
          by_cases same : idx = first
          · exact ⟨chosen,by rw [same,found]⟩
          · rw [AList.lookup_insert_ne same] at free
            exact all idx mem free

/- What is fixed before the group agrees with `target`: every fixed member's fact
was produced by it, and without one the lowest member's first match was. -/
structure GroupAgrees (a : Attempt) (fixed : Nat → Option Binding) (members : List Nat)
    (target : CallId) : Prop where
  fixedFrom : ∀ idx ∈ members, ∀ b, fixed idx = some b → producingCall a.trace b.fact = some target
  seeded : (∀ idx ∈ members, fixed idx = none) → ∃ first, members.min? = some first ∧
    ∃ b, (matchesAt a.evidenceMatches first).head? = some b ∧ producingCall a.trace b.fact = some target
  others : ∀ idx ∈ members, fixed idx = none →
    ∃ b ∈ matchesAt a.evidenceMatches idx, producingCall a.trace b.fact = some target

theorem fixedLookup {a : Attempt} {seqB : HashMap Nat Binding} {members : List Nat} {idx : Nat} :
    (a.fixedMembers seqB members).lookup idx = if idx ∈ members then a.fixedAt seqB idx else none :=
  HashMap.lookupInsertSome

theorem fixedValues {a : Attempt} {seqB : HashMap Nat Binding} {members : List Nat} {b : Binding} :
    b ∈ (a.fixedMembers seqB members).values ↔ ∃ idx ∈ members, a.fixedAt seqB idx = some b := by
  rw [HashMap.memValues]
  simp [fixedLookup]

theorem walkedValues {h : HashOrder} {a : Attempt} {seqB : HashMap Nat Binding} {members : List Nat} :
    h.walk (a.fixedMembers seqB members).values = [] ↔ ∀ idx ∈ members, a.fixedAt seqB idx = none := by
  simp only [List.eq_nil_iff_forall_not_mem,h.memWalk,fixedValues]
  constructor
  · intro free idx mem
    rw [Option.eq_none_iff_forall_ne_some]
    exact fun b fixed => free b ⟨idx,mem,fixed⟩
  · intro free b given
    obtain ⟨idx,mem,fixed⟩ := given
    rw [free idx mem] at fixed
    contradiction

theorem seededFirst {a : Attempt} {target : CallId} {first : Nat} {b : Binding}
    (head : (matchesAt a.evidenceMatches first).head? = some b)
    (from' : producingCall a.trace b.fact = some target) : a.matchFrom target first = some b := by
  obtain ⟨rest,same⟩ := List.head?_eq_some_iff.mp head
  simp [matchFrom,same,from']

def memberAt (a : Attempt) (fixed : Nat → Option Binding) (target : CallId) (idx : Nat) :
    Option Binding := (fixed idx).or (a.matchFrom target idx)

/- The group is resolved: it agrees on the target, and every member keeps what is fixed or
takes its match from the target. -/
structure GroupResolved (a : Attempt) (fixed : Nat → Option Binding) (members : List Nat)
    (out : HashMap Nat Binding) (target : CallId) : Prop where
  agrees : a.GroupAgrees fixed members target
  bound : ∀ idx, out.lookup idx = if idx ∈ members then a.memberAt fixed target idx else none

section
variable {a : Attempt} {seqB out : HashMap Nat Binding} {members : List Nat} {target : CallId}

theorem fixedResolved {h : HashOrder}
    (agreed : commonCall a.trace none (h.walk (a.fixedMembers seqB members).values) = some (some target))
    (fill : a.fillGroup target members (a.fixedMembers seqB members) = some out) :
    GroupResolved a (a.fixedAt seqB) members out target := by
  have complete := fillGroupIsSome.mp ⟨out,fill⟩
  obtain ⟨some,all⟩ := commonCallFound.mp agreed
  refine ⟨⟨?_,?_,?_⟩,?_⟩
  · intro idx mem b fixed
    exact all b (h.memWalk.mpr (fixedValues.mpr ⟨idx,mem,fixed⟩))
  · intro free
    exact absurd (walkedValues.mpr free) some
  · intro idx mem free
    exact matchFromIsSome.mp (complete idx mem (by simp [fixedLookup,free]))
  · intro idx
    rw [fillGroupLookup fill,fixedLookup]
    by_cases mem : idx ∈ members <;> simp [mem,memberAt]

theorem seededResolved {first : Nat} {b : Binding} (free : ∀ idx ∈ members, a.fixedAt seqB idx = none)
    (least : members.min? = some first) (head : (matchesAt a.evidenceMatches first).head? = some b)
    (produced : producingCall a.trace b.fact = some target)
    (fill : a.fillGroup target members ((a.fixedMembers seqB members).insert first b) = some out) :
    GroupResolved a (a.fixedAt seqB) members out target := by
  have complete := fillGroupIsSome.mp ⟨out,fill⟩
  have seeded := seededFirst head produced
  refine ⟨⟨?_,?_,?_⟩,?_⟩
  · intro idx mem b fixed
    rw [free idx mem] at fixed
    contradiction
  · exact fun _ => ⟨first,least,b,head,produced⟩
  · intro idx mem _
    by_cases same : idx = first
    · subst same
      exact ⟨b,(matchFromSome seeded).1,produced⟩
    · refine matchFromIsSome.mp (complete idx mem ?_)
      rw [AList.lookup_insert_ne same,fixedLookup,if_pos mem,free idx mem]
  · intro idx
    rw [fillGroupLookup fill]
    by_cases same : idx = first
    · subst same
      have mem := List.min?_mem least
      simp [mem,memberAt,free idx mem,seeded]
    · rw [AList.lookup_insert_ne same,fixedLookup]
      by_cases mem : idx ∈ members <;> simp [mem,memberAt]

end

theorem resolveSameCallSome {h : HashOrder} {a : Attempt} {sc : CompiledSameCall}
    {seqB out : HashMap Nat Binding} (resolved : a.resolveSameCall h sc seqB = some out) :
    ∃ target, a.GroupAgrees (a.fixedAt seqB) (sc.members.map EvidenceRef.index) target ∧
      ∀ idx, out.lookup idx = if idx ∈ sc.members.map EvidenceRef.index
        then a.memberAt (a.fixedAt seqB) target idx else none := by
  unfold resolveSameCall at resolved
  generalize sc.members.map EvidenceRef.index = members at resolved ⊢
  obtain ⟨common,agreed,rest⟩ := Option.bind_eq_some_iff.mp resolved
  obtain ⟨⟨target,start⟩,seed,fill⟩ := Option.bind_eq_some_iff.mp rest
  cases common with
  | some found =>
    cases Option.some.inj seed
    obtain ⟨agrees,bound⟩ := fixedResolved agreed fill
    exact ⟨target,agrees,bound⟩
  | none =>
    have free := walkedValues.mp (commonCallFree.mp agreed)
    simp only [seedGroup,Option.bind_eq_bind,Option.bind_eq_some_iff] at seed
    obtain ⟨first,least,b,head,callId,produced,last⟩ := seed
    cases Option.some.inj last
    obtain ⟨agrees,bound⟩ := seededResolved free least head produced fill
    exact ⟨target,agrees,bound⟩

theorem resolveSameCallExists {h : HashOrder} {a : Attempt} {sc : CompiledSameCall}
    {seqB : HashMap Nat Binding} {target : CallId}
    (agrees : a.GroupAgrees (a.fixedAt seqB) (sc.members.map EvidenceRef.index) target) :
    ∃ out, a.resolveSameCall h sc seqB = some out := by
  unfold resolveSameCall
  generalize sc.members.map EvidenceRef.index = members at agrees ⊢
  by_cases free : ∀ idx ∈ members, a.fixedAt seqB idx = none
  · have agreed : commonCall a.trace none (h.walk (a.fixedMembers seqB members).values) = some none :=
      commonCallFree.mpr (walkedValues.mpr free)
    obtain ⟨first,least,b,head,produced⟩ := agrees.seeded free
    have complete : ∃ out, a.fillGroup target members ((a.fixedMembers seqB members).insert first b) =
        some out := by
      refine fillGroupIsSome.mpr ?_
      intro idx mem _
      exact matchFromIsSome.mpr (agrees.others idx mem (free idx mem))
    obtain ⟨out,filled⟩ := complete
    exact ⟨out,by simp [agreed,seedGroup,least,head,produced,filled]⟩
  · have agreed : commonCall a.trace none (h.walk (a.fixedMembers seqB members).values) =
        some (some target) := by
      refine commonCallFound.mpr ⟨fun none => free (walkedValues.mp none),?_⟩
      intro b mem
      obtain ⟨idx,member,fixed⟩ := fixedValues.mp (h.memWalk.mp mem)
      exact agrees.fixedFrom idx member b fixed
    have complete : ∃ out, a.fillGroup target members (a.fixedMembers seqB members) = some out := by
      refine fillGroupIsSome.mpr ?_
      intro idx mem absent
      rw [fixedLookup,if_pos mem] at absent
      exact matchFromIsSome.mpr (agrees.others idx mem absent)
    obtain ⟨out,filled⟩ := complete
    exact ⟨out,by simp [agreed,seedGroup,filled]⟩

def stepRefs (a : Attempt) : List EvidenceRef := (a.pattern.sequence.map CompiledSequence.steps).getD []
def stepIndices (a : Attempt) : List Nat := a.stepRefs.map EvidenceRef.index
def memberRefs (a : Attempt) : List EvidenceRef :=
  (a.pattern.sameCall.map CompiledSameCall.members).getD []
def memberIndices (a : Attempt) : List Nat := a.memberRefs.map EvidenceRef.index

structure Valid (a : Attempt) : Prop where
  anchorRef : ∃ r : EvidenceRef, r.index = a.anchorIdx
  anchorMem : a.anchorBinding ∈ matchesAt a.evidenceMatches a.anchorIdx
  stepsDistinct : a.stepIndices.Nodup
  stepsBound : ∀ idx ∈ a.stepIndices, idx < a.evidenceMatches.length
  sorted : ∀ idx, (matchesAt a.evidenceMatches idx).Pairwise fun x y => keyLe x.order y.order = true

theorem narrowedAt {a : Attempt} (valid : a.Valid) (idx : Nat) :
    matchesAt a.narrowed idx =
      if idx = a.anchorIdx then [a.anchorBinding] else matchesAt a.evidenceMatches idx := by
  unfold matchesAt narrowed
  rw [List.getElem?_set]
  by_cases same : a.anchorIdx = idx
  · subst same
    have bound : a.anchorIdx < a.evidenceMatches.length := by
      have mem := valid.anchorMem
      by_contra outside
      rw [matchesAt,List.getElem?_eq_none (Nat.le_of_not_lt outside)] at mem
      simp at mem
    simp [bound]
  · simp [same,Ne.symm same]

theorem narrowedMem {a : Attempt} (valid : a.Valid) {idx : Nat} {b : Binding}
    (mem : b ∈ matchesAt a.narrowed idx) : b ∈ matchesAt a.evidenceMatches idx := by
  rw [narrowedAt valid] at mem
  split at mem
  · rename_i same
    cases List.mem_singleton.mp mem
    rw [same]
    exact valid.anchorMem
  · exact mem

theorem narrowedSorted {a : Attempt} (valid : a.Valid) (idx : Nat) :
    (matchesAt a.narrowed idx).Pairwise fun x y => keyLe x.order y.order = true := by
  rw [narrowedAt valid]
  split
  · exact List.pairwise_singleton _ _
  · exact valid.sorted idx

def EarliestSteps (a : Attempt) (out : List Binding) : Prop :=
  Earliest Binding.order none (a.stepIndices.map (matchesAt a.narrowed)) out

theorem mapMMatches {ms : List (List Binding)} {steps : List EvidenceRef} {options : List (List Binding)} :
    steps.mapM (fun step => ms[step.index]?) = some options ↔
      (∀ r ∈ steps, r.index < ms.length) ∧ options = steps.map fun r => matchesAt ms r.index := by
  induction steps generalizing options with
  | nil => simp [eq_comm]
  | cons r rest ih =>
    rw [List.mapM_cons]
    simp only [Option.bind_eq_bind,Option.bind_eq_some_iff,ih,Option.pure_def,Option.some.injEq]
    constructor
    · intro given
      obtain ⟨first,found,tail,⟨bound,rfl⟩,rfl⟩ := given
      obtain ⟨below,same⟩ := List.getElem?_eq_some_iff.mp found
      refine ⟨List.forall_mem_cons.mpr ⟨below,bound⟩,?_⟩
      simp [matchesAt,found]
    · intro given
      obtain ⟨bound,rfl⟩ := given
      obtain ⟨below,bound⟩ := List.forall_mem_cons.mp bound
      exact ⟨_,List.getElem?_eq_getElem below,_,⟨bound,rfl⟩,by simp [matchesAt,below]⟩

theorem resolveIff {seq : CompiledSequence} {ms : List (List Binding)} {out : List Binding}
    (bound : ∀ r ∈ seq.steps, r.index < ms.length) : resolve seq ms = some out ↔
      Earliest Binding.order none (seq.steps.map fun r => matchesAt ms r.index) out := by
  have options := mapMMatches.mpr ⟨bound,rfl⟩
  rw [resolve,options,← greedyEarliest]
  rfl

theorem sequenceBindingsIff {a : Attempt} (valid : a.Valid) {seqB : HashMap Nat Binding} :
    a.sequenceBindings = some seqB ↔
      ∃ out, a.EarliestSteps out ∧ seqB = HashMap.collect (a.stepIndices.zip out) := by
  have bound := valid.stepsBound
  unfold sequenceBindings EarliestSteps
  unfold stepIndices stepRefs at *
  cases h : a.pattern.sequence with
  | none =>
    constructor
    · intro same
      cases Option.some.inj same
      exact ⟨[],.nil,rfl⟩
    · intro given
      obtain ⟨out,_,rfl⟩ := given
      rfl
  | some seq =>
    have inside : ∀ r ∈ seq.steps, r.index < a.narrowed.length := by
      intro r mem
      rw [narrowed,List.length_set]
      exact bound _ (by rw [h]; exact List.mem_map_of_mem mem)
    simp only [Option.map_some,Option.getD_some,List.map_map,Function.comp_def,
      Option.map_eq_some_iff,resolveIff inside]
    exact exists_congr fun out => and_congr_right fun _ => eq_comm

theorem EarliestSteps.sound {a : Attempt} {out : List Binding} (earliest : a.EarliestSteps out) :
    List.Forall₂ (fun b idx => b ∈ matchesAt a.narrowed idx) out a.stepIndices ∧
      (out.map Binding.order).reduceOption.Pairwise (· ≤ ·) := by
  obtain ⟨member,chain⟩ := greedySound (greedyEarliest.mpr earliest)
  exact ⟨List.forall₂_map_right_iff.mp member,chainFromNone.mp chain⟩

theorem zipDistinct {a : Attempt} (valid : a.Valid) (out : List Binding) :
    ((a.stepIndices.zip out).map Prod.fst).Nodup := zipKeysDistinct valid.stepsDistinct

def stepAt (a : Attempt) (out : List Binding) (idx : Nat) : Option Binding :=
  (a.stepIndices.zip out).lookup idx

theorem stepAtSome {a : Attempt} (valid : a.Valid) {out : List Binding} {idx : Nat} {b : Binding} :
    a.stepAt out idx = some b ↔ (idx,b) ∈ a.stepIndices.zip out := by
  rw [← HashMap.lookupCollect (zipDistinct valid out),HashMap.collect,
    HashMap.lookupFold (zipDistinct valid out)]
  simp [stepAt]

theorem collectStepAt {a : Attempt} (valid : a.Valid) (out : List Binding) (idx : Nat) :
    (HashMap.collect (a.stepIndices.zip out)).lookup idx = a.stepAt out idx := by
  rw [HashMap.collect,HashMap.lookupFold (zipDistinct valid out)]
  simp [stepAt]

theorem stepAtMem {a : Attempt} (valid : a.Valid) {out : List Binding} (earliest : a.EarliestSteps out)
    {idx : Nat} {b : Binding} (found : a.stepAt out idx = some b) :
    idx ∈ a.stepIndices ∧ b ∈ matchesAt a.narrowed idx := by
  have mem := (stepAtSome valid).mp found
  refine ⟨(List.of_mem_zip mem).1,?_⟩
  obtain ⟨k,below,same⟩ := List.mem_iff_getElem.mp mem
  rw [List.length_zip] at below
  rw [List.getElem_zip,Prod.mk.injEq] at same
  have member := earliest.sound.1.get (i := k) (by omega) (by omega)
  simpa [same.1,same.2] using member

theorem stepAtStep {a : Attempt} (valid : a.Valid) {out : List Binding} (earliest : a.EarliestSteps out) :
    List.Forall₂ (fun idx b => a.stepAt out idx = some b) a.stepIndices out := by
  have length := earliest.sound.1.length_eq
  refine List.forall₂_iff_get.mpr ⟨length.symm,?_⟩
  intro k hk hb
  refine (stepAtSome valid).mpr (List.mem_iff_getElem.mpr ⟨k,by rw [List.length_zip]; omega,?_⟩)
  simp [List.getElem_zip]

def fixedBy (a : Attempt) (out : List Binding) (idx : Nat) : Option Binding :=
  if idx = a.anchorIdx then some a.anchorBinding else a.stepAt out idx

def EarliestAgrees (a : Attempt) : Prop :=
  ∃ out, a.EarliestSteps out ∧ ∀ sc, a.pattern.sameCall = some sc →
    ∃ target, a.GroupAgrees (a.fixedBy out) (sc.members.map EvidenceRef.index) target

def HoldsOn (ms : List (List Binding)) (constraint : CompiledConstraint) : Prop :=
  holds constraint (fun r => !(matchesAt ms r.index).isEmpty) = true

theorem hasMatchEq {a : Attempt} (valid : a.Valid) {out : List Binding} (earliest : a.EarliestSteps out)
    (r : EvidenceRef) : a.hasMatch (HashMap.collect (a.stepIndices.zip out)) r =
      !(matchesAt a.evidenceMatches r.index).isEmpty := by
  have nonempty {b} (mem : b ∈ matchesAt a.evidenceMatches r.index) :
      (matchesAt a.evidenceMatches r.index).isEmpty = false := by
    rw [List.isEmpty_eq_false_iff]
    exact List.ne_nil_of_mem mem
  unfold hasMatch
  rw [collectStepAt valid]
  by_cases same : r.index = a.anchorIdx
  · have mem := valid.anchorMem
    rw [← same] at mem
    rw [nonempty mem]
    simp [same]
  · cases found : a.stepAt out r.index with
    | none => simp [same]
    | some b =>
      have mem := narrowedMem valid (stepAtMem valid earliest found).2
      simp [same,nonempty mem]

theorem fixedAtEq {a : Attempt} (valid : a.Valid) (out : List Binding) :
    a.fixedAt (HashMap.collect (a.stepIndices.zip out)) = a.fixedBy out := by
  funext idx
  simp only [fixedAt,fixedBy,collectStepAt valid]

theorem tryBuildSome {h : HashOrder} {a : Attempt} (valid : a.Valid) {c : CandidateMatch} :
    a.tryBuildCandidate h = some c ↔ HoldsOn a.evidenceMatches a.pattern.constraint ∧
      ∃ out scB, a.EarliestSteps out ∧
        a.sameCallBindings h (HashMap.collect (a.stepIndices.zip out)) = some scB ∧
        c = a.assemble h (HashMap.collect (a.stepIndices.zip out)) scB := by
  unfold tryBuildCandidate
  rw [Option.bind_eq_bind,Option.bind_eq_some_iff]
  constructor
  · intro given
    obtain ⟨seqB,sequence,rest⟩ := given
    obtain ⟨out,earliest,rfl⟩ := (sequenceBindingsIff valid).mp sequence
    split at rest
    · rename_i held
      obtain ⟨scB,group,last⟩ := Option.bind_eq_some_iff.mp rest
      rw [funext (hasMatchEq valid earliest)] at held
      exact ⟨held,out,scB,earliest,group,(Option.some.inj last).symm⟩
    · contradiction
  · intro given
    obtain ⟨held,out,scB,earliest,group,rfl⟩ := given
    refine ⟨_,(sequenceBindingsIff valid).mpr ⟨out,earliest,rfl⟩,?_⟩
    rw [HoldsOn,← funext (hasMatchEq valid earliest)] at held
    simp [held,group]

theorem tryBuildExists {h : HashOrder} {a : Attempt} (valid : a.Valid) :
    (∃ c, a.tryBuildCandidate h = some c) ↔
      HoldsOn a.evidenceMatches a.pattern.constraint ∧ a.EarliestAgrees := by
  simp only [tryBuildSome valid]
  constructor
  · intro given
    obtain ⟨c,held,out,scB,earliest,group,rfl⟩ := given
    refine ⟨held,out,earliest,?_⟩
    intro sc given
    simp only [sameCallBindings,given] at group
    obtain ⟨target,agrees,_⟩ := resolveSameCallSome group
    rw [fixedAtEq valid] at agrees
    exact ⟨target,agrees⟩
  · intro given
    obtain ⟨held,out,earliest,agrees⟩ := given
    cases given : a.pattern.sameCall with
    | none => exact ⟨_,held,out,∅,earliest,by simp [sameCallBindings,given],rfl⟩
    | some sc =>
      obtain ⟨target,agreed⟩ := agrees sc given
      rw [← fixedAtEq valid] at agreed
      obtain ⟨scB,group⟩ := resolveSameCallExists (h := h) agreed
      exact ⟨_,held,out,scB,earliest,by simpa [sameCallBindings,given] using group,rfl⟩

end Attempt
end RootCause.Matcher
