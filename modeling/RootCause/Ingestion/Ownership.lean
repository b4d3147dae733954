import RootCause.Library.Ascent
import RootCause.Ingestion.Sufficient

/-! Whose storage a change belongs to. Delegated frames run in the storage of the nearest
call above them that is not delegated; the walk hands this context down its stack, and
building the arena carries it over by position. -/
namespace RootCause.Ingestion
open Library FactModel

def ownContext (kind : CallKind) (sender : Address) (recipient : Option Address) : Option Address :=
  if kind = .delegateCall ∨ kind = .callCode then none else some (recipient.getD sender)

def ContextOf (trace : Trace) : CallId → Address → Prop :=
  Nearest (fun id => (trace.arena.call id).bind fun c => ownContext c.kind c.sender c.recipient)
    fun id => (trace.arena.call id).bind Call.parent

def ContextAt (calls : List NormalizedCall) : Nat → Address → Prop :=
  Nearest (fun i => calls[i]?.bind fun c => ownContext c.kind c.sender c.recipient)
    fun i => calls[i]?.bind NormalizedCall.parentIndex

theorem contextGrows {calls more : List NormalizedCall} {i : Nat} {context : Address}
    (given : ContextAt calls i context) : ContextAt (calls ++ more) i context := by
  have kept {i : Nat} {c : NormalizedCall} (found : calls[i]? = some c) : (calls ++ more)[i]? = some c := by
    rw [List.getElem?_append_left (List.getElem?_eq_some_iff.mp found).1,found]
  refine nearestMap id ?_ ?_ given
  · intro i context own
    obtain ⟨c,found,value⟩ := Option.bind_eq_some_iff.mp own
    simp only [id_eq,kept found,Option.bind_some,value]
  · intro i j without link
    obtain ⟨c,found,parent⟩ := Option.bind_eq_some_iff.mp link
    simp only [found,Option.bind_some] at without
    simp only [id_eq,kept found,Option.bind_some,without,parent,and_self]

theorem contextGiven {item : Pending} {call : NormalizedCall} {context : Address}
    (given : storageContext item call = .ok context) :
    ownContext call.kind call.sender call.recipient = some context ∨
      ownContext call.kind call.sender call.recipient = none ∧ item.parentStorageContext = some context := by
  have delegated : executesInCallerContext call.kind = true ↔
      call.kind = .delegateCall ∨ call.kind = .callCode := by
    simp [executesInCallerContext]
  unfold storageContext at given
  split at given
  · rename_i inherits
    split at given
    · rename_i above
      cases given
      exact .inr ⟨if_pos (delegated.mp inherits),above⟩
    · contradiction
  · rename_i direct
    cases given
    exact .inl (if_neg fun borrowed => direct (delegated.mpr borrowed))

def Owned (acc : Accumulator) : Prop :=
  ∀ sc ∈ acc.storageChanges, ContextAt acc.calls sc.callIndex sc.contract

def Inherits (acc : Accumulator) (item : Pending) : Prop :=
  ∀ context ∈ item.parentStorageContext, ∃ j, item.parentIndex = some j ∧ ContextAt acc.calls j context

theorem processCallOwned {item : Pending} {raw : RawFrame} {acc next : Accumulator} {parent : Processed}
    (processed : processCall item raw acc = .ok (parent,next)) (owned : Owned acc)
    (inherits : Inherits acc item) : Owned next ∧ (∀ i, Inherits next (traversal.below parent i)) ∧
      ∀ other, Inherits acc other → Inherits next other := by
  obtain ⟨_,⟨_,position⟩,call,middle,parsed,given,changed,logged⟩ := processCallOk processed
  obtain ⟨changes,rfl,each⟩ := processStorageChangesOk changed
  obtain ⟨calls,storageChanges,_⟩ := processLogsOk logged
  have grown : next.calls = acc.calls ++ [call] := calls
  have added : next.storageChanges = acc.storageChanges ++ changes := storageChanges
  have here : next.calls[acc.calls.length]? = some call := by simp [grown]
  have earlier {i : Nat} {context : Address} (before : ContextAt acc.calls i context) :
      ContextAt next.calls i context := by
    rw [grown]
    exact contextGrows before
  have context : ContextAt next.calls acc.calls.length parent.context := by
    rcases contextGiven given with own | ⟨without,above⟩
    · exact .here (by simpa only [here,Option.bind_some] using own)
    · obtain ⟨j,link,further⟩ := inherits _ above
      refine .above (by simpa only [here,Option.bind_some] using without) ?_ (earlier further)
      simp only [here,Option.bind_some,(parsedPlace parsed).1,link]
  refine ⟨?_,?_,?_⟩
  · unfold Owned
    rw [added]
    refine List.forall_mem_append.mpr ⟨fun sc mem => earlier (owned sc mem),?_⟩
    intro sc mem
    obtain ⟨change,_,normalized⟩ := forall₂Right each mem
    obtain ⟨own,declared⟩ := normalizedOwner normalized
    rw [own,declared]
    exact context
  · intro i inherited mem
    cases mem
    exact ⟨_,rfl,position ▸ context⟩
  · intro other good inherited mem
    obtain ⟨j,link,further⟩ := good inherited mem
    exact ⟨j,link,earlier further⟩

theorem traversalOwned {root : RawCall} {acc : Accumulator}
    (visited : traversal.visit rootPending .empty root = .ok acc) : Owned acc := by
  have keeps : Visitor.Keeps Owned Inherits traversal root :=
    Visitor.visitKeeps _ _ (fun _ _ _ _ _ entered => processCallOwned entered) root
  refine (keeps _ _ _ visited ?_ ?_).1
  · simp [Owned,Accumulator.empty]
  · simp [Inherits,rootPending]

structure CallMade (nc : NormalizedCall) (call : Call) : Prop where
  parent : call.parent = nc.parentIndex.map callIdAt
  context : ownContext call.kind call.sender call.recipient = ownContext nc.kind nc.sender nc.recipient

structure CallsMade (past : List NormalizedCall) (s : FactArenaBuilder × List CallId) : Prop where
  narrow : past.length ≤ UInt32.size
  ids : s.2 = (List.range past.length).map callIdAt
  each : List.Forall₂ CallMade past s.1.calls
  others : s.1.storageChanges = []

theorem indexedOk {α : Type} {f : Nat → α} {n i : Nat} {a : α}
    (found : indexed ((List.range n).map f) i = .ok a) : a = f i := by
  have at' : ((List.range n).map f)[i]? = some a := unwrapOk.mp found
  rw [List.getElem?_map] at at'
  obtain ⟨j,inside,rfl⟩ := Option.map_eq_some_iff.mp at'
  rw [List.getElem?_range (by simpa using (List.getElem?_eq_some_iff.mp inside).1)] at inside
  rw [Option.some.inj inside]

theorem buildCallMade (past : List NormalizedCall) (s : FactArenaBuilder × List CallId) (nc : NormalizedCall)
    (t : FactArenaBuilder × List CallId) (made : CallsMade past s) (step : buildCall s nc = .ok t) :
    CallsMade (past ++ [nc]) t := by
  obtain ⟨id,next,rest⟩ := bindOk.mp step
  obtain ⟨parent,above,rest⟩ := bindOk.mp rest
  obtain ⟨call,accepted,last⟩ := bindOk.mp rest
  cases last
  obtain ⟨index,fresh,same⟩ := bindOk.mp next
  cases same
  obtain ⟨small,count⟩ := FactArenaBuilder.nextIndexOk fresh
  rw [← made.each.length_eq] at small count
  have handed : (⟨index⟩ : CallId) = callIdAt past.length := by
    rw [callIdAt,← count,UInt32.ofNat_toNat]
  have linked : parent = nc.parentIndex.map callIdAt := by
    rw [made.ids] at above
    cases given : nc.parentIndex with
    | none =>
      rw [given] at above
      cases above
      rfl
    | some j =>
      rw [given,Option.mapM_some] at above
      obtain ⟨id,found,same⟩ := bindOk.mp above
      cases same
      rw [indexedOk found]
      rfl
  have fields : CallMade nc call := by
    unfold Call.new at accepted
    split at accepted
    · contradiction
    · cases accepted
      exact ⟨linked,rfl⟩
  refine ⟨by simpa using Nat.succ_le_of_lt small,?_,?_,made.others⟩
  · rw [made.ids,List.length_append,List.length_singleton,List.range_succ,List.map_append,handed]
    rfl
  · refine List.rel_append made.each (.cons ?_ .nil)
    cases nc.selector with
    | none => exact fields
    | some selector => exact ⟨fields.parent,fields.context⟩

def ChangeMade (sc : NormalizedStorageChange) (change : StorageChange) : Prop :=
  change.callId = callIdAt sc.callIndex ∧ change.slot.contract = sc.contract

theorem buildChangeMade {n : Nat} {calls : List Call} (past : List NormalizedStorageChange)
    (s : FactArenaBuilder) (sc : NormalizedStorageChange) (t : FactArenaBuilder)
    (made : s.calls = calls ∧ List.Forall₂ ChangeMade past s.storageChanges)
    (step : buildStorageChange ((List.range n).map callIdAt) s sc = .ok t) :
    t.calls = calls ∧ List.Forall₂ ChangeMade (past ++ [sc]) t.storageChanges := by
  obtain ⟨callId,found,rest⟩ := bindOk.mp step
  obtain ⟨added,grown,last⟩ := bindOk.mp rest
  cases last
  obtain ⟨id,_,same⟩ := bindOk.mp grown
  cases same
  exact ⟨made.1,List.rel_append made.2 (.cons ⟨indexedOk found,rfl⟩ .nil)⟩

def Stored (calls : List Call) (changes : List StorageChange) (builder : FactArenaBuilder) : Prop :=
  builder.calls = calls ∧ builder.storageChanges = changes

theorem buildLogStored {callIds : List CallId} {calls : List Call} {changes : List StorageChange}
    (s : FactArenaBuilder × List LogId) (log : NormalizedLog) (t : FactArenaBuilder × List LogId)
    (stored : Stored calls changes s.1) (step : buildLog callIds s log = .ok t) : Stored calls changes t.1 := by
  obtain ⟨callId,_,rest⟩ := bindOk.mp step
  obtain ⟨id,_,rest⟩ := bindOk.mp rest
  obtain ⟨l,_,last⟩ := bindOk.mp rest
  cases last
  exact stored

theorem buildTransferStored {logIds : List LogId} {calls : List Call} {changes : List StorageChange}
    (s : FactArenaBuilder) (transfer : NormalizedTokenTransfer) (t : FactArenaBuilder)
    (stored : Stored calls changes s) (step : buildTokenTransfer logIds s transfer = .ok t) :
    Stored calls changes t := by
  obtain ⟨logId,_,rest⟩ := bindOk.mp step
  obtain ⟨added,grown,last⟩ := bindOk.mp rest
  cases last
  obtain ⟨id,_,same⟩ := bindOk.mp grown
  cases same
  exact stored

section
variable {checks : OverflowChecks} {nt : NormalizedTrace} {source : TraceSource} {trace : Trace}

theorem buildMade (built : build checks nt source = .ok trace) : nt.calls.length ≤ UInt32.size ∧
    List.Forall₂ CallMade nt.calls trace.arena.calls ∧
    List.Forall₂ ChangeMade nt.storageChanges trace.arena.storageChanges := by
  obtain ⟨first,callIds,second,third,logIds,calls,changes,logs,transfers⟩ := buildStages built
  have made : CallsMade nt.calls (first,callIds) :=
    foldHistory buildCallMade ⟨Nat.zero_le _,rfl,.nil,rfl⟩ calls
  rw [show callIds = _ from made.ids] at changes
  have changed : second.calls = first.calls ∧ List.Forall₂ ChangeMade nt.storageChanges second.storageChanges :=
    foldHistory buildChangeMade ⟨rfl,by rw [show first.storageChanges = [] from made.others]; exact .nil⟩ changes
  have logged : Stored second.calls second.storageChanges third :=
    @foldInvariant _ _ _ (fun s => Stored second.calls second.storageChanges s.1) _ buildLogStored _ _ _
      ⟨rfl,rfl⟩ logs
  have moved : Stored second.calls second.storageChanges trace.arena.facts :=
    foldInvariant buildTransferStored logged transfers
  rw [FactArena.calls,FactArena.storageChanges,moved.1,moved.2,changed.1]
  exact ⟨made.narrow,made.each,changed.2⟩

theorem contextBuilt (built : build checks nt source = .ok trace) {i : Nat} {context : Address}
    (given : ContextAt nt.calls i context) : ContextOf trace (callIdAt i) context := by
  obtain ⟨narrow,each,_⟩ := buildMade built
  have at' {i : Nat} {nc : NormalizedCall} (found : nt.calls[i]? = some nc) :
      ∃ call, trace.arena.call (callIdAt i) = some call ∧ CallMade nc call := by
    have small : i < UInt32.size := Nat.lt_of_lt_of_le (List.getElem?_eq_some_iff.mp found).1 narrow
    obtain ⟨call,inside,made⟩ := forall₂AtLeft each found
    refine ⟨call,?_,made⟩
    rw [FactArena.call,callIdIndex small,inside]
  refine nearestMap callIdAt ?_ ?_ given
  · intro i context own
    obtain ⟨nc,found,value⟩ := Option.bind_eq_some_iff.mp own
    obtain ⟨call,inside,made⟩ := at' found
    rw [inside,Option.bind_some,made.context,value]
  · intro i j without link
    obtain ⟨nc,found,parent⟩ := Option.bind_eq_some_iff.mp link
    obtain ⟨call,inside,made⟩ := at' found
    rw [found,Option.bind_some] at without
    rw [inside,Option.bind_some,Option.bind_some,made.context,without,made.parent,parent]
    exact ⟨rfl,rfl⟩

theorem storageOwned {doc : RawTraceDocument} (normalized : normalize checks doc = some (.ok nt))
    (built : build checks nt source = .ok trace) : ∀ change ∈ trace.arena.storageChanges,
      ∀ context, ContextOf trace change.callId context ↔ context = change.slot.contract := by
  intro change mem context
  rw [normalizeVisits] at normalized
  obtain ⟨header,_,rest⟩ := bindOk.mp (raiseOk.mp (Option.some.inj normalized))
  obtain ⟨acc,visited,last⟩ := bindOk.mp rest
  cases last
  obtain ⟨_,_,changes⟩ := buildMade built
  obtain ⟨sc,listed,owner,contract⟩ := forall₂Right changes mem
  have own : ContextOf trace change.callId change.slot.contract := by
    rw [owner,contract]
    exact contextBuilt built (traversalOwned visited sc listed)
  exact ⟨fun given => nearestUnique given own,fun same => same ▸ own⟩

end

def addressText (digit : Char) : String := String.ofList ('0' :: 'x' :: List.replicate 40 digit)

def proxyFrame (kind : String) (recipient : Char) (changes : List RawStorageChange) : RawFrame :=
  ⟨kind,addressText '1',some (addressText recipient),"0x0","0x0","0x0",true,none,changes,[]⟩

def proxyDocument : RawTraceDocument :=
  ⟨⟨hexText 64,hexText 40,none,"0x0","0x0","0x0","success"⟩,⟨"0x1","0x1","0x1",none⟩,
    .node (proxyFrame "call" '2' []) [.node (proxyFrame "delegatecall" '3'
      [⟨addressText '2',hexText 64,hexText 64,hexText 64⟩]) []]⟩

theorem storageOwnedProxy : ∃ nt trace, normalize .on proxyDocument = some (.ok nt) ∧
    build .on nt (.archiveNodeRpc "") = .ok trace ∧ ∃ change ∈ trace.arena.storageChanges,
      change.callId = callIdAt 1 ∧ ContextOf trace change.callId change.slot.contract := by
  have some : ∃ nt ∈ (normalizeVisited proxyDocument).toOption,
      ∃ trace ∈ (build .on nt (.archiveNodeRpc "")).toOption,
        ∃ change ∈ trace.arena.storageChanges, change.callId = callIdAt 1 := by decide +kernel
  obtain ⟨nt,found,trace,made,change,mem,own⟩ := some
  have normalized : normalize .on proxyDocument = Option.some (.ok nt) := by
    rw [normalizeVisits]
    exact congrArg Option.some (raiseOk.mpr (toOptionOk.mp found))
  have built := toOptionOk.mp made
  exact ⟨nt,trace,normalized,built,change,mem,own,(storageOwned normalized built change mem _).mpr rfl⟩

end RootCause.Ingestion
