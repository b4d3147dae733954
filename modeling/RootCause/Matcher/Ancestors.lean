import RootCause.Library.Ascent
import RootCause.Matcher.Candidates

/-! Strict ancestors along the parent links, the search for one of a given kind, and the
index of reentrant calls, which one pass fills from the results of the parents. On an
arena whose call ids are positions the search stops, and the index is the walk from each
call to the root. -/
namespace RootCause.Matcher
open Library FactModel

def parentOf (arena : FactArena) (c : Call) : Option Call := c.parent.bind arena.call

def Ancestor (arena : FactArena) (c a : Call) : Prop := Above (parentOf arena) c a

def Reentrant (arena : FactArena) (c : Call) : Prop :=
  ∃ target ∈ c.recipient, ∃ a, Ancestor arena c a ∧ a.recipient = some target

def naiveLoop (arena : FactArena) (target : Address) : Nat → Option CallId → Bool
  | 0, _ => false
  | _, none => false
  | fuel + 1, some id =>
    match arena.call id with
    | none => false
    | some ancestor => ancestor.recipient = some target || naiveLoop arena target fuel ancestor.parent

def naiveIsReentrant (trace : Trace) (id : CallId) : Bool :=
  match trace.arena.call id with
  | none => false
  | some call =>
    match call.recipient with
    | none => false
    | some target => naiveLoop trace.arena target (trace.arena.calls.length + 1) call.parent

def CallsPlaced (arena : FactArena) : Prop := ∀ i (c : Call), arena.calls[i]? = some c → c.id.index = i

theorem linkEarlier {arena : FactArena} {c : Call} (mem : c ∈ arena.calls) {id : CallId}
    (link : c.parent = some id) : ∃ p, arena.call id = some p ∧ id.index < c.id.index := by
  obtain ⟨checks,valid⟩ := arena.accepted
  obtain ⟨_,_,_,_,_,each⟩ := FactArenaBuilder.callTreeOk.mp (FactArenaBuilder.validateOk.mp valid).1
  obtain ⟨p,found,earlier,_⟩ := FactArenaBuilder.validateCallOk.mp (each c mem) id link
  exact ⟨p,found,earlier⟩

section
variable {arena : FactArena} (placed : CallsPlaced arena)
include placed

theorem placedAt {c : Call} (mem : c ∈ arena.calls) : arena.call c.id = some c := by
  obtain ⟨i,at'⟩ := List.mem_iff_getElem?.mp mem
  rw [FactArena.call,placed i c at',at']

theorem placedBelow {c : Call} (mem : c ∈ arena.calls) : c.id.index < arena.calls.length :=
  (List.getElem?_eq_some_iff.mp (placedAt placed mem)).1

theorem foundId {id : CallId} {c : Call} (found : arena.call id = some c) : c.id = id := by
  have raw : c.id.raw = id.raw := UInt32.toNat_inj.mp (placed _ c found)
  exact congrArg CallId.mk raw

theorem parentEarlier : Ranked (parentOf arena) (· ∈ arena.calls) fun c => c.id.index := by
  intro c mem p link
  obtain ⟨id,parent,found⟩ := Option.bind_eq_some_iff.mp link
  obtain ⟨_,_,earlier⟩ := linkEarlier mem parent
  have lower : p.id.index < c.id.index := by
    rw [placed _ p found]
    exact earlier
  exact ⟨List.mem_of_getElem? found,lower⟩

end

theorem ancestorLoopClimbs {arena : FactArena} {ident : String} {fuel : Nat} {start : Option CallId} :
    ancestorLoop arena ident fuel start =
      climb (parentOf arena) (fun c => callKindMatches c.kind ident) fuel (start.bind arena.call) := by
  induction fuel generalizing start with
  | zero => rfl
  | succ fuel ih =>
    cases start with
    | none => rfl
    | some id =>
      simp only [ancestorLoop,Option.bind_some]
      cases arena.call id with
      | none => rfl
      | some c => simp only [climb,ih,parentOf]

theorem naiveLoopClimbs {arena : FactArena} {target : Address} {fuel : Nat} {start : Option CallId} :
    naiveLoop arena target fuel start =
      climb (parentOf arena) (fun c => c.recipient = some target) fuel (start.bind arena.call) := by
  induction fuel generalizing start with
  | zero => rfl
  | succ fuel ih =>
    cases start with
    | none => rfl
    | some id =>
      simp only [naiveLoop,Option.bind_some]
      cases arena.call id with
      | none => rfl
      | some c => simp only [climb,ih,parentOf]

theorem hasAncestorIff {trace : Trace} (placed : CallsPlaced trace.arena) {c : Call}
    (mem : c ∈ trace.arena.calls) {ident : String} : hasAncestorOfKind trace c.id ident = true ↔
      ∃ a, Ancestor trace.arena c a ∧ callKindMatches a.kind ident = true := by
  rw [hasAncestorOfKind,placedAt placed mem,Option.bind_some,ancestorLoopClimbs]
  exact climbAbove (parentEarlier placed) mem
    (Nat.le_succ_of_le (Nat.le_of_lt (placedBelow placed mem)))

def ancestorRound (arena : FactArena) (ident : String) : Option CallId → Bool ⊕ Option CallId
  | none => .inl false
  | some callId =>
    match arena.call callId with
    | none => .inl false
    | some call => if callKindMatches call.kind ident then .inl true else .inr call.parent

theorem roundGoesOn {arena : FactArena} {ident : String} {current further : Option CallId} :
    ancestorRound arena ident current = .inr further ↔ ∃ callId ∈ current, ∃ call ∈ arena.call callId,
      callKindMatches call.kind ident = false ∧ call.parent = further := by
  cases current with
  | none => simp [ancestorRound]
  | some callId =>
    simp only [ancestorRound,Option.mem_def,Option.some.injEq,exists_eq_left']
    cases arena.call callId with
    | none => simp
    | some call =>
      simp only [Option.some.injEq,exists_eq_left']
      cases callKindMatches call.kind ident <;> simp

theorem ancestorLoopRound {arena : FactArena} {ident : String} {fuel : Nat} {current : Option CallId} :
    ancestorLoop arena ident (fuel + 1) current =
      Sum.elim id (ancestorLoop arena ident fuel) (ancestorRound arena ident current) := by
  cases current with
  | none => rfl
  | some callId =>
    simp only [ancestorLoop,ancestorRound]
    cases arena.call callId with
    | none => rfl
    | some call =>
      dsimp only
      cases callKindMatches call.kind ident <;> rfl

theorem ancestorLoopStops {arena : FactArena} {ident : String} {n fuel : Nat} {current : Option CallId}
    {answer : Bool} (stops : Stops (ancestorRound arena ident) n current answer) (enough : n ≤ fuel) :
    ancestorLoop arena ident fuel current = answer := by
  induction stops generalizing fuel with
  | last returned =>
    obtain ⟨fuel,rfl⟩ := Nat.exists_eq_add_of_le' enough
    rw [ancestorLoopRound,returned,Sum.elim_inl,id]
  | next goes _ ih =>
    obtain ⟨fuel,rfl⟩ := Nat.exists_eq_add_of_le' (Nat.le_trans (Nat.le_add_left 1 _) enough)
    rw [ancestorLoopRound,goes,Sum.elim_inr]
    exact ih (Nat.le_of_succ_le_succ enough)

def positionBound (current : Option CallId) : Nat := (current.map fun id => id.index + 1).getD 0

theorem parentBound {arena : FactArena} {c : Call} (mem : c ∈ arena.calls) :
    positionBound c.parent ≤ c.id.index := by
  cases link : c.parent with
  | none => exact Nat.zero_le _
  | some id =>
    obtain ⟨_,_,earlier⟩ := linkEarlier mem link
    exact earlier

theorem roundEarlier {arena : FactArena} (placed : CallsPlaced arena) {ident : String}
    (current further : Option CallId) (goes : ancestorRound arena ident current = .inr further) :
    positionBound further < positionBound current := by
  obtain ⟨callId,rfl,call,found,_,rfl⟩ := roundGoesOn.mp goes
  have bound := parentBound (List.mem_of_getElem? found)
  rw [foundId placed found] at bound
  exact Nat.lt_succ_of_le bound

theorem ancestorSearchStops {trace : Trace} (placed : CallsPlaced trace.arena) {c : Call}
    (mem : c ∈ trace.arena.calls) (ident : String) : ∃ n ≤ c.id.index + 1,
      Stops (ancestorRound trace.arena ident) n ((trace.arena.call c.id).bind Call.parent)
        (hasAncestorOfKind trace c.id ident) := by
  obtain ⟨answer,n,within,stops⟩ := stopsWithin positionBound (roundEarlier placed)
    ((trace.arena.call c.id).bind Call.parent)
  have first : positionBound ((trace.arena.call c.id).bind Call.parent) ≤ c.id.index := by
    rw [placedAt placed mem]
    exact parentBound mem
  have rounds : n ≤ c.id.index + 1 := Nat.le_trans within (Nat.succ_le_succ first)
  have enough : n ≤ trace.arena.calls.length + 1 :=
    Nat.le_trans rounds (Nat.succ_le_succ (Nat.le_of_lt (placedBelow placed mem)))
  refine ⟨n,rounds,?_⟩
  rw [hasAncestorOfKind,ancestorLoopStops stops enough]
  exact stops

theorem naiveIff {trace : Trace} (placed : CallsPlaced trace.arena) {c : Call}
    (mem : c ∈ trace.arena.calls) : naiveIsReentrant trace c.id = true ↔ Reentrant trace.arena c := by
  unfold naiveIsReentrant Reentrant
  simp only [placedAt placed mem]
  cases c.recipient with
  | none => simp
  | some target =>
    simp only [naiveLoopClimbs,Option.mem_def,Option.some.injEq,exists_eq_left']
    rw [← parentOf,climbAbove (parentEarlier placed) mem
      (Nat.le_succ_of_le (Nat.le_of_lt (placedBelow placed mem)))]
    simp only [decide_eq_true_eq,Ancestor]

theorem ancestorSearchExact (trace : Trace) (placed : CallsPlaced trace.arena) :
    ∀ c ∈ trace.arena.calls, ∀ ident,
      (∃ n ≤ c.id.index + 1, Stops (ancestorRound trace.arena ident) n
        ((trace.arena.call c.id).bind Call.parent) (hasAncestorOfKind trace c.id ident)) ∧
      (hasAncestorOfKind trace c.id ident = true ↔
        ∃ a, Ancestor trace.arena c a ∧ callKindMatches a.kind ident = true) := by
  intro c mem ident
  exact ⟨ancestorSearchStops placed mem ident,hasAncestorIff placed mem⟩

theorem writingPlaced : CallsPlaced writingTrace.arena := by
  intro i c found
  match i with
  | 0 | 1 | 2 => cases found; rfl
  | i + 3 => simp [writingTrace,exampleTrace,FactArena.calls] at found

theorem ancestorSearchWriting : (∃ n ≤ 2, Stops (ancestorRound writingTrace.arena "External") n (some ⟨0⟩) true) ∧
    (∃ a, Ancestor writingTrace.arena (exampleCall 1 (some 0) .staticCall 1) a ∧
      callKindMatches a.kind "External" = true) ∧
    ¬ ∃ a, Ancestor writingTrace.arena (exampleCall 1 (some 0) .staticCall 1) a ∧
      callKindMatches a.kind "StaticCall" = true := by
  have listed : exampleCall 1 (some 0) .staticCall 1 ∈ writingTrace.arena.calls := by decide
  have search := ancestorSearchExact writingTrace writingPlaced _ listed
  obtain ⟨stops,found⟩ := search "External"
  obtain ⟨_,missed⟩ := search "StaticCall"
  have answer : hasAncestorOfKind writingTrace ⟨1⟩ "External" = true := by decide
  have silent : hasAncestorOfKind writingTrace ⟨1⟩ "StaticCall" = false := by decide
  refine ⟨?_,found.mp answer,fun given => ?_⟩
  · rw [← answer]
    exact stops
  · exact Bool.false_ne_true (silent.symm.trans (missed.mpr given))

structure Indexed (arena : FactArena) (before : List Call) (s : Ancestry) : Prop where
  targets : ∀ c ∈ before, ∃ ts, s.ancestorTargets.lookup c.id = some ts ∧
    ∀ t, t ∈ ts ↔ ∃ a, Ancestor arena c a ∧ a.recipient = some t
  reentrant : ∀ id, id ∈ s.reentrantCalls ↔ ∃ c ∈ before, c.id = id ∧ Reentrant arena c

def callsById (arena : FactArena) : HashMap CallId Call :=
  HashMap.collect (arena.calls.map fun call => (call.id,call))

section
variable {arena : FactArena} (placed : CallsPlaced arena)
include placed

theorem callIdsDistinct : (arena.calls.map Call.id).Nodup := idsDistinct placed

theorem callsByIdLookup (id : CallId) : (callsById arena).lookup id = arena.call id := by
  have keys : ((arena.calls.map fun call => (call.id,call)).map Prod.fst).Nodup := by
    rw [List.map_map]
    exact callIdsDistinct placed
  refine Option.ext fun c => ?_
  rw [callsById,HashMap.lookupCollect keys,List.mem_map]
  constructor
  · intro given
    obtain ⟨call,mem,same⟩ := given
    cases same
    exact placedAt placed mem
  · intro found
    exact ⟨c,List.mem_of_getElem? found,by rw [foundId placed found]⟩

theorem parentBefore {before rest : List Call} {c : Call} (split : arena.calls = before ++ c :: rest)
    {id : CallId} (link : c.parent = some id) :
    ∃ p ∈ before, parentOf arena c = some p ∧ p.id = id ∧ arena.call id = some p := by
  have mem : c ∈ arena.calls := by simp [split]
  obtain ⟨p,found,_⟩ := linkEarlier mem link
  have up : parentOf arena c = some p := by rw [parentOf,link,Option.bind_some,found]
  have lower : p.id.index < before.length := by
    have index : c.id.index = before.length := placed before.length c (by simp [split])
    rw [← index]
    exact (parentEarlier placed c mem p up).2
  have own := placedAt placed (List.mem_of_getElem? found)
  rw [FactArena.call,split,List.getElem?_append_left lower] at own
  exact ⟨p,List.mem_of_getElem? own,up,foundId placed found,found⟩

def targetsAbove (callsById : HashMap CallId Call) (s : Ancestry) (c : Call) : List Address :=
  let inherited := (c.parent.bind fun parentId => s.ancestorTargets.lookup parentId).getD []
  match (c.parent.bind fun p => callsById.lookup p).bind Call.recipient with
  | some parentTo => inherited.insert parentTo
  | none => inherited

omit placed in
theorem ancestryStepEq {callsById : HashMap CallId Call} {s : Ancestry} {c : Call} :
    ancestryStep callsById s c = ⟨s.ancestorTargets.insert c.id (targetsAbove callsById s c),
      if c.recipient.any fun target => (targetsAbove callsById s c).contains target
      then s.reentrantCalls.insert c.id else s.reentrantCalls⟩ := by
  unfold ancestryStep targetsAbove
  cases c.recipient <;> rfl

theorem memTargetsAbove {before rest : List Call} {c : Call} (split : arena.calls = before ++ c :: rest)
    {s : Ancestry} (indexed : Indexed arena before s) {t : Address} :
    t ∈ targetsAbove (callsById arena) s c ↔ ∃ a, Ancestor arena c a ∧ a.recipient = some t := by
  unfold targetsAbove
  simp only [callsByIdLookup placed,Ancestor]
  cases link : c.parent with
  | none =>
    have root : parentOf arena c = none := by rw [parentOf,link,Option.bind_none]
    simp [aboveRoot root]
  | some id =>
    obtain ⟨p,mem,up,same,found⟩ := parentBefore placed split link
    obtain ⟨ts,stored,each⟩ := indexed.targets p mem
    rw [same] at stored
    simp only [Option.bind_some,stored,found,Option.getD_some]
    have above : (∃ a, Above (parentOf arena) c a ∧ a.recipient = some t) ↔
        p.recipient = some t ∨ t ∈ ts := by
      simp only [aboveIff (a := c),up,Option.mem_def,Option.some.injEq,exists_eq_left',each t]
      constructor
      · intro given
        obtain ⟨a,rfl | further,target⟩ := given
        · exact .inl target
        · exact .inr ⟨a,further,target⟩
      · intro given
        rcases given with target | ⟨a,further,target⟩
        · exact ⟨p,.inl rfl,target⟩
        · exact ⟨a,.inr further,target⟩
    rw [above]
    cases p.recipient with
    | none => simp
    | some target => simp [eq_comm]

theorem indexedStep {before rest : List Call} {c : Call} (split : arena.calls = before ++ c :: rest)
    {s : Ancestry} (indexed : Indexed arena before s) :
    Indexed arena (before ++ [c]) (ancestryStep (callsById arena) s c) := by
  have distinct : ∀ b ∈ before, b.id ≠ c.id := by
    have ids := callIdsDistinct placed
    rw [split,List.map_append,List.map_cons,List.nodup_append] at ids
    intro b mem
    exact ids.2.2 b.id (List.mem_map_of_mem mem) c.id List.mem_cons_self
  have targets := fun t => memTargetsAbove placed split indexed (t := t)
  have here : c.recipient.any (fun target => (targetsAbove (callsById arena) s c).contains target) = true ↔
      Reentrant arena c := by
    unfold Reentrant
    cases c.recipient with
    | none => simp
    | some target => simp [targets]
  rw [ancestryStepEq]
  constructor
  · intro b mem
    rcases List.mem_append.mp mem with earlier | last
    · obtain ⟨others,stored,each⟩ := indexed.targets b earlier
      exact ⟨others,by rw [AList.lookup_insert_ne (distinct b earlier),stored],each⟩
    · cases List.mem_singleton.mp last
      exact ⟨_,AList.lookup_insert _,targets⟩
  · intro id
    simp only [List.mem_append,List.mem_singleton,or_and_right,exists_or,exists_eq_left,
      ← indexed.reentrant]
    split
    · rename_i reentered
      rw [List.mem_insert_iff,or_comm]
      simp only [here.mp reentered,and_true,eq_comm]
    · rename_i fresh
      have single : ¬ Reentrant arena c := fun reentrant => fresh (here.mpr reentrant)
      simp only [single,and_false,or_false]

theorem indexedAll : Indexed arena arena.calls
    (arena.calls.foldl (ancestryStep (callsById arena)) ⟨∅,[]⟩) := by
  have run : ∀ (rest before : List Call) (s : Ancestry), arena.calls = before ++ rest →
      Indexed arena before s → Indexed arena arena.calls (rest.foldl (ancestryStep (callsById arena)) s) := by
    intro rest
    induction rest with
    | nil =>
      intro before s split indexed
      rw [List.append_nil] at split
      rw [split]
      exact indexed
    | cons c rest ih =>
      intro before s split indexed
      exact ih (before ++ [c]) _ (by rw [split]; simp) (indexedStep placed split indexed)
  exact run arena.calls [] ⟨∅,[]⟩ rfl ⟨by simp,by simp⟩

end

theorem isReentrantIff {trace : Trace} (placed : CallsPlaced trace.arena) {c : Call}
    (mem : c ∈ trace.arena.calls) :
    (TraceIndex.build trace).isReentrant c.id = true ↔ Reentrant trace.arena c := by
  have indexed := (indexedAll placed).reentrant c.id
  rw [TraceIndex.isReentrant,List.contains_iff_mem]
  refine indexed.trans ?_
  constructor
  · intro given
    obtain ⟨other,inside,same,reentrant⟩ := given
    have found := placedAt placed inside
    rw [same,placedAt placed mem] at found
    cases found
    exact reentrant
  · intro reentrant
    exact ⟨c,mem,rfl,reentrant⟩

theorem reentrancyExact (trace : Trace) (placed : CallsPlaced trace.arena) :
    ∀ c ∈ trace.arena.calls,
      ((TraceIndex.build trace).isReentrant c.id = true ↔ ∃ target ∈ c.recipient,
        ∃ a, Ancestor trace.arena c a ∧ a.recipient = some target) ∧
      (TraceIndex.build trace).isReentrant c.id = naiveIsReentrant trace c.id := by
  intro c mem
  refine ⟨isReentrantIff placed mem,?_⟩
  rw [Bool.eq_iff_iff,isReentrantIff placed mem,naiveIff placed mem]

theorem reentrancyExactWriting : exampleCall 1 (some 0) .staticCall 1 ∈ writingTrace.arena.calls ∧
    Ancestor writingTrace.arena (exampleCall 1 (some 0) .staticCall 1) (exampleCall 0 none .call 0) ∧
    naiveIsReentrant writingTrace ⟨1⟩ = true := by
  have listed : exampleCall 1 (some 0) .staticCall 1 ∈ writingTrace.arena.calls := by decide
  have above : Ancestor writingTrace.arena (exampleCall 1 (some 0) .staticCall 1)
      (exampleCall 0 none .call 0) := aboveIff.mpr ⟨_,rfl,.inl rfl⟩
  obtain ⟨indexed,naive⟩ := reentrancyExact writingTrace writingPlaced _ listed
  exact ⟨listed,above,naive.symm.trans (indexed.mpr ⟨exampleAddress,rfl,_,above,rfl⟩)⟩

end RootCause.Matcher
