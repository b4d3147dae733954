import RootCause.Ingestion.Normalize

/-! The walk of the call tree against the recursion it stands for: each frame is
processed with its storage changes and logs, then its children from left to right. The
calls come out in pre-order, and what a frame holds is attributed to its own call. -/
namespace RootCause.Ingestion
open Library FactModel

def traversal : Visitor RawFrame Pending Processed Accumulator IngestionError where
  enter := processCall
  below parent i := ⟨some parent.thisIndex,parent.item.depth + 1,some parent.context,
    childPath parent.item.path i⟩

section
variable {item : Pending} {raw : RawFrame} {acc next : Accumulator} {parent : Processed}

structure Entered (item : Pending) (raw : RawFrame) (acc : Accumulator) (parent : Processed)
    (next : Accumulator) : Prop where
  shallow : item.depth ≤ maxCallDepth
  shared : parent.item = item ∧ parent.thisIndex = acc.calls.length
  run : ∃ call middle, parseFrame item raw = .ok call ∧ storageContext item call = .ok parent.context ∧
    processStorageChanges raw acc.calls.length parent.context item.path
      { acc with calls := acc.calls ++ [call] } = .ok middle ∧
    processLogs raw acc.calls.length item.path middle = .ok next

theorem processCallOk (processed : processCall item raw acc = .ok (parent,next)) :
    Entered item raw acc parent next := by
  obtain ⟨_,depth,rest⟩ := bindOk.mp processed
  obtain ⟨call,parsed,rest⟩ := bindOk.mp rest
  obtain ⟨context,given,rest⟩ := bindOk.mp rest
  obtain ⟨middle,changes,rest⟩ := bindOk.mp rest
  obtain ⟨last,logs,done⟩ := bindOk.mp rest
  cases done
  refine ⟨?_,⟨rfl,rfl⟩,call,middle,parsed,given,changes,logs⟩
  unfold checkDepth at depth
  split at depth
  · cases depth
  · rename_i shallow
    exact UInt16.not_lt.mp shallow

theorem Entered.nextDepth (entered : Entered item raw acc parent next) (checks : OverflowChecks) :
    checks.succ item.depth = some (item.depth + 1) ∧ (item.depth + 1).toNat = item.depth.toNat + 1 := by
  have bound : item.depth.toNat ≤ 1024 := entered.shallow
  have small : item.depth.toNat + 1 < UInt16.size := Nat.lt_of_le_of_lt (Nat.succ_le_succ bound) (by decide)
  refine ⟨?_,?_⟩
  · cases checks with
    | on => exact if_pos small
    | off => rfl
  · rw [UInt16.toNat_add]
    exact Nat.mod_eq_of_lt small

end

section
variable {checks : OverflowChecks}

theorem pushedReversed {ε α β : Type} {f : α → β} {xs : List α} {stack : List β} :
    (xs.reverse.foldlM (fun stack x => .ok (f x :: stack)) stack : Except ε (List β)) =
      .ok (xs.map f ++ stack) := by
  induction xs generalizing stack with
  | nil => rfl
  | cons x xs ih =>
    rw [List.reverse_cons,List.foldlM_append,ih]
    rfl

theorem pushChildrenOk {parent : Processed} (next : checks.succ parent.item.depth =
    some (parent.item.depth + 1)) {calls : List RawCall} {stack : List (Pending × RawCall)} :
    pushChildren checks parent calls stack = .ok (traversal.children parent 0 calls ++ stack) := by
  simp only [pushChildren,next]
  exact pushedReversed

theorem walkLoopWalks {fuel : Nat} {stack : List (Pending × RawCall)} {acc : Accumulator} :
    walkLoop checks fuel stack acc = (traversal.walk fuel stack acc).map (raise id) := by
  induction fuel generalizing stack acc with
  | zero => rfl
  | succ fuel ih =>
    cases stack with
    | nil => rfl
    | cons top stack =>
      obtain ⟨item,⟨raw,calls⟩⟩ := top
      have enter : traversal.enter item raw acc = processCall item raw acc := rfl
      rw [walkLoop,Visitor.walk,enter]
      cases processed : processCall item raw acc with
      | error e => rfl
      | ok result =>
        obtain ⟨parent,next⟩ := result
        have entered := processCallOk processed
        have deeper : checks.succ parent.item.depth = some (parent.item.depth + 1) := by
          rw [entered.shared.1]
          exact (entered.nextDepth checks).1
        simp only [pushChildrenOk deeper]
        exact ih

theorem walkLoopVisits {root : RawCall} {acc : Accumulator} {fuel : Nat} (enough : root.size < fuel) :
    walkLoop checks fuel [(rootPending,root)] acc =
      some (raise id (traversal.visit rootPending acc root)) := by
  have pending : Visitor.pending [(rootPending,root)] < fuel := by simpa [Visitor.pending] using enough
  rw [walkLoopWalks,Visitor.walkVisits pending]
  simp

end

def attributed {β : Type} (part : RawFrame → List β) (start : Nat) :
    List (Rose.Placed RawFrame) → List (Nat × β)
  | [] => []
  | x :: rest => (part x.value).map (Prod.mk start) ++ attributed part (start + 1) rest

theorem attributedAppend {β : Type} {part : RawFrame → List β} {start : Nat}
    {xs ys : List (Rose.Placed RawFrame)} : attributed part start (xs ++ ys) =
      attributed part start xs ++ attributed part (start + xs.length) ys := by
  induction xs generalizing start with
  | nil => rfl
  | cons x xs ih =>
    rw [List.cons_append,attributed,attributed,ih,List.append_assoc,List.length_cons,Nat.add_right_comm,
      Nat.add_assoc]

def CallOf (x : Rose.Placed RawFrame) (call : NormalizedCall) : Prop :=
  call.parentIndex = x.parent ∧ call.depth.raw.toNat = x.depth ∧
    ∃ item, parseFrame item x.value = .ok call

def ChangeOf (x : Nat × RawStorageChange) (change : NormalizedStorageChange) : Prop :=
  change.callIndex = x.1 ∧ ∃ context path, normalizeChange context path x.1 x.2 = .ok change

structure LogOf (x : Nat × RawLog) (log : NormalizedLog) : Prop where
  callIndex : log.callIndex = x.1
  address : parseAddress "log.address" x.2.address = .ok log.address
  topics : x.2.topics.mapM (parseWord "log.topics[]") = .ok log.topics
  fewTopics : log.topics.length ≤ 4
  data : parseHexBytes "log.data" x.2.data = .ok log.data
  logIndex : ∃ n, parseHexU64 "log.logIndex" x.2.logIndex = .ok n ∧ log.logIndex.raw.toNat = n.toNat

def transfersOf (start : Nat) (logs : List NormalizedLog) : List NormalizedTokenTransfer :=
  (logs.zipIdx start).flatMap fun x => decodedTransfers x.2 x.1.address x.1.topics x.1.data

theorem transfersAppend {start : Nat} {xs ys : List NormalizedLog} :
    transfersOf start (xs ++ ys) = transfersOf start xs ++ transfersOf (start + xs.length) ys := by
  rw [transfersOf,List.zipIdx_append,List.flatMap_append]
  rfl

structure Lists (s : Accumulator) (xs : List (Rose.Placed RawFrame)) (t : Accumulator) : Prop where
  calls : ∃ calls, t.calls = s.calls ++ calls ∧ List.Forall₂ CallOf xs calls
  storageChanges : ∃ changes, t.storageChanges = s.storageChanges ++ changes ∧
    List.Forall₂ ChangeOf (attributed RawFrame.storageChanges s.calls.length xs) changes
  logs : ∃ logs, t.logs = s.logs ++ logs ∧
    List.Forall₂ LogOf (attributed RawFrame.logs s.calls.length xs) logs ∧
    t.tokenTransfers = s.tokenTransfers ++ transfersOf s.logs.length logs

theorem listsNone (s : Accumulator) : Lists s [] s :=
  ⟨⟨[],by simp⟩,⟨[],by simp [attributed]⟩,⟨[],by simp [attributed,transfersOf]⟩⟩

theorem listsAppend (s : Accumulator) (xs : List (Rose.Placed RawFrame)) (t : Accumulator)
    (ys : List (Rose.Placed RawFrame)) (u : Accumulator) (first : Lists s xs t) (later : Lists t ys u) :
    Lists s (xs ++ ys) u := by
  obtain ⟨calls,grown,listed⟩ := first.calls
  obtain ⟨moreCalls,grown',listed'⟩ := later.calls
  have count : t.calls.length = s.calls.length + xs.length := by
    rw [grown,List.length_append,listed.length_eq]
  refine ⟨⟨calls ++ moreCalls,by rw [grown',grown,List.append_assoc],List.rel_append listed listed'⟩,?_,?_⟩
  · obtain ⟨changes,grown,listed⟩ := first.storageChanges
    obtain ⟨more,grown',listed'⟩ := later.storageChanges
    rw [count] at listed'
    rw [attributedAppend]
    exact ⟨changes ++ more,by rw [grown',grown,List.append_assoc],List.rel_append listed listed'⟩
  · obtain ⟨logs,grown,listed,decoded⟩ := first.logs
    obtain ⟨more,grown',listed',decoded'⟩ := later.logs
    rw [count] at listed'
    rw [attributedAppend]
    refine ⟨logs ++ more,by rw [grown',grown,List.append_assoc],List.rel_append listed listed',?_⟩
    rw [decoded',decoded,grown,transfersAppend,List.length_append,List.append_assoc]

section
variable {raw : RawFrame} {thisIndex : Nat} {path : String} {context : Address} {acc next : Accumulator}

theorem parsedPlace {item : Pending} {call : NormalizedCall} (parsed : parseFrame item raw = .ok call) :
    call.parentIndex = item.parentIndex ∧ call.depth = ⟨item.depth⟩ := by
  unfold parseFrame at parsed
  obtain ⟨_,_,rest⟩ := bindOk.mp parsed
  obtain ⟨_,_,rest⟩ := bindOk.mp rest
  obtain ⟨_,_,rest⟩ := bindOk.mp rest
  obtain ⟨_,_,rest⟩ := bindOk.mp rest
  obtain ⟨_,_,rest⟩ := bindOk.mp rest
  obtain ⟨_,_,rest⟩ := bindOk.mp rest
  obtain ⟨_,_,rest⟩ := bindOk.mp rest
  cases rest
  exact ⟨rfl,rfl⟩

theorem normalizedOwner {change : RawStorageChange} {out : NormalizedStorageChange}
    (normalized : normalizeChange context path thisIndex change = .ok out) :
    out.callIndex = thisIndex ∧ out.contract = context := by
  obtain ⟨declared,_,rest⟩ := bindOk.mp normalized
  obtain ⟨_,owned,rest⟩ := bindOk.mp rest
  obtain ⟨_,_,rest⟩ := bindOk.mp rest
  obtain ⟨_,_,rest⟩ := bindOk.mp rest
  obtain ⟨_,_,rest⟩ := bindOk.mp rest
  cases rest
  unfold checkOwner at owned
  split at owned
  · rename_i same
    exact ⟨rfl,same⟩
  · contradiction

theorem processStorageChangesOk
    (processed : processStorageChanges raw thisIndex context path acc = .ok next) :
    ∃ changes, next = { acc with storageChanges := acc.storageChanges ++ changes } ∧
      List.Forall₂ (fun change out => normalizeChange context path thisIndex change = .ok out)
        raw.storageChanges changes := by
  unfold processStorageChanges at processed
  generalize raw.storageChanges = given at processed ⊢
  induction given generalizing acc with
  | nil =>
    cases processed
    exact ⟨[],by simp,.nil⟩
  | cons change rest ih =>
    rw [List.foldlM_cons] at processed
    obtain ⟨middle,first,later⟩ := bindOk.mp processed
    obtain ⟨out,normalized,done⟩ := bindOk.mp first
    cases done
    obtain ⟨outs,rfl,each⟩ := ih later
    exact ⟨out :: outs,by simp,.cons normalized each⟩

theorem processLogOk {log : RawLog} (processed : processLog thisIndex path acc log = .ok next) :
    ∃ out, LogOf (thisIndex,log) out ∧ next.calls = acc.calls ∧
      next.storageChanges = acc.storageChanges ∧ next.logs = acc.logs ++ [out] ∧
      next.tokenTransfers = acc.tokenTransfers ++ transfersOf acc.logs.length [out] := by
  obtain ⟨n,index,rest⟩ := bindOk.mp processed
  obtain ⟨_,_,rest⟩ := bindOk.mp rest
  obtain ⟨address,parsed,rest⟩ := bindOk.mp rest
  obtain ⟨topics,words,rest⟩ := bindOk.mp rest
  obtain ⟨_,few,rest⟩ := bindOk.mp rest
  obtain ⟨data,bytes,rest⟩ := bindOk.mp rest
  obtain ⟨logIndex,narrowed,done⟩ := bindOk.mp rest
  cases done
  refine ⟨_,⟨rfl,parsed,words,?_,bytes,n,index,?_⟩,rfl,rfl,rfl,by simp [transfersOf]⟩
  · unfold checkTopics at few
    split at few
    · cases few
    · rename_i small
      exact Nat.le_of_not_lt small
  · unfold narrowLogIndex at narrowed
    split at narrowed
    · rename_i small
      cases narrowed
      exact UInt32.toNat_ofNat_of_lt' small
    · cases narrowed

theorem processLogsOk (processed : processLogs raw thisIndex path acc = .ok next) :
    next.calls = acc.calls ∧ next.storageChanges = acc.storageChanges ∧ ∃ logs,
      next.logs = acc.logs ++ logs ∧ List.Forall₂ (fun log out => LogOf (thisIndex,log) out) raw.logs logs ∧
      next.tokenTransfers = acc.tokenTransfers ++ transfersOf acc.logs.length logs := by
  unfold processLogs at processed
  generalize raw.logs = given at processed ⊢
  induction given generalizing acc with
  | nil =>
    cases processed
    exact ⟨rfl,rfl,[],by simp,.nil,by simp [transfersOf]⟩
  | cons log rest ih =>
    rw [List.foldlM_cons] at processed
    obtain ⟨middle,first,later⟩ := bindOk.mp processed
    obtain ⟨out,own,calls,changes,logs,transfers⟩ := processLogOk first
    obtain ⟨calls',changes',outs,logs',each,transfers'⟩ := ih later
    refine ⟨calls'.trans calls,changes'.trans changes,out :: outs,?_,.cons own each,?_⟩
    · rw [logs',logs,List.append_assoc]
      rfl
    · rw [transfers',transfers,logs,List.length_append,List.append_assoc,← transfersAppend]
      rfl

theorem processCallLists {item : Pending} {parent : Processed}
    (processed : processCall item raw acc = .ok (parent,next)) :
    next.calls.length = acc.calls.length + 1 ∧
      Lists acc [⟨raw,item.parentIndex,item.depth.toNat⟩] next := by
  obtain ⟨_,_,call,middle,parsed,_,changed,logged⟩ := processCallOk processed
  obtain ⟨changes,rfl,each⟩ := processStorageChangesOk changed
  obtain ⟨calls,storageChanges,logs,grown,own,transfers⟩ := processLogsOk logged
  have placed := parsedPlace parsed
  refine ⟨by rw [calls]; simp,⟨[call],calls,.cons ⟨placed.1,by rw [placed.2],item,parsed⟩ .nil⟩,?_,?_⟩
  · refine ⟨changes,storageChanges,?_⟩
    simp only [attributed,List.append_nil]
    refine List.forall₂_map_left_iff.mpr (each.imp fun change out normalized => ?_)
    exact ⟨(normalizedOwner normalized).1,parent.context,item.path,normalized⟩
  · refine ⟨logs,grown,?_,transfers⟩
    simp only [attributed,List.append_nil]
    exact List.forall₂_map_left_iff.mpr own

end

theorem traversalLists {root : RawCall} {acc : Accumulator}
    (visited : traversal.visit rootPending .empty root = .ok acc) :
    Lists .empty (root.listing 0 none 0) acc := by
  have adds : Visitor.Adds Lists (fun acc => acc.calls.length)
      (fun item : Pending => (item.parentIndex,item.depth.toNat)) traversal root := by
    refine Visitor.visitAdds _ _ _ listsNone listsAppend ?_ root
    intro item raw acc parent next entered
    have processed : processCall item raw acc = .ok (parent,next) := entered
    obtain ⟨counted,lists⟩ := processCallLists processed
    have parts := processCallOk processed
    refine ⟨counted,fun i => ?_,lists⟩
    simp only [traversal,parts.shared.1,parts.shared.2,(parts.nextDepth .on).2]
  exact (adds rootPending .empty acc visited).2

/- The facts of a traversal: what the listed frames hold, the calls in the order of the
listing, each below its parent. -/
structure PreOrder (root : RawCall) (acc : Accumulator) : Prop where
  lists : Lists .empty (root.listing 0 none 0) acc
  root : ∃ call, acc.calls[0]? = some call ∧ call.parentIndex = none ∧ call.depth.raw.toNat = 0
  below : ∀ i (call : NormalizedCall), acc.calls[i + 1]? = some call → ∃ j parent,
    call.parentIndex = some j ∧ j ≤ i ∧ acc.calls[j]? = some parent ∧
    call.depth.raw.toNat = parent.depth.raw.toNat + 1

theorem traversalPreOrder {root : RawCall} {acc : Accumulator}
    (visited : traversal.visit rootPending .empty root = .ok acc) : PreOrder root acc := by
  have lists := traversalLists visited
  obtain ⟨calls,grown,each⟩ := lists.calls
  have same : acc.calls = calls := grown
  obtain ⟨⟨value,rest,shape,under⟩,_⟩ := root.listingUnder 0 none 0
  rw [shape] at each
  obtain ⟨first,at',parentless,top,_⟩ := forall₂AtLeft each (i := 0) rfl
  rw [← same] at each at'
  refine ⟨lists,⟨first,at',parentless,top⟩,?_⟩
  intro i call found
  obtain ⟨x,listed,parent,depth,_⟩ := forall₂At each found
  rw [parent,depth]
  rcases under i x listed with ⟨top',deep⟩ | ⟨j,y,under',earlier,above,deeper⟩
  · exact ⟨0,first,top',Nat.zero_le i,at',by rw [deep,top]⟩
  · obtain ⟨other,found',_,depth',_⟩ := forall₂AtLeft each (i := j + 1) above
    exact ⟨j + 1,other,by rw [under',Nat.add_comm],earlier,found',by rw [deeper,depth']⟩

theorem walkRefines (checks : OverflowChecks) (root : RawCall) :
    (∀ fuel, root.size < fuel → walkLoop checks fuel [(rootPending,root)] .empty =
      some (raise id (traversal.visit rootPending .empty root))) ∧
    ∀ acc, traversal.visit rootPending .empty root = .ok acc → PreOrder root acc :=
  ⟨fun _ enough => walkLoopVisits enough,fun _ visited => traversalPreOrder visited⟩

def hexText (digits : Nat) : String := String.ofList ('0' :: 'x' :: List.replicate digits '1')

def sampleFrame (kind value : String) : RawFrame :=
  ⟨kind,hexText 40,some (hexText 40),value,"0x0","0x0",true,none,[],[]⟩

def sampleRoot (kind value : String) : RawCall :=
  .node (sampleFrame "call" "0x0") [.node (sampleFrame kind value) []]

theorem walkRefinesSample : walkLoop .on 3 [(rootPending,sampleRoot "staticcall" "0x0")] .empty =
      some (raise id (traversal.visit rootPending .empty (sampleRoot "staticcall" "0x0"))) ∧
    ∃ acc, traversal.visit rootPending .empty (sampleRoot "staticcall" "0x0") = .ok acc ∧
      acc.calls.length = 2 ∧ PreOrder (sampleRoot "staticcall" "0x0") acc := by
  have some : ∃ acc ∈ (traversal.visit rootPending .empty (sampleRoot "staticcall" "0x0")).toOption,
      acc.calls.length = 2 := by decide +kernel
  obtain ⟨acc,found,two⟩ := some
  have visited := toOptionOk.mp found
  exact ⟨(walkRefines .on (sampleRoot "staticcall" "0x0")).1 3 (by decide),acc,visited,two,
    (walkRefines .on (sampleRoot "staticcall" "0x0")).2 acc visited⟩

def normalizeVisited (doc : RawTraceDocument) : Except IngestionError NormalizedTrace := do
  let header ← normalizeHeader doc
  let acc ← traversal.visit rootPending .empty doc.root
  pure { header with
    calls := acc.calls
    storageChanges := acc.storageChanges
    logs := acc.logs
    tokenTransfers := acc.tokenTransfers }

theorem normalizeVisits (checks : OverflowChecks) (doc : RawTraceDocument) :
    normalize checks doc = some (raise id (normalizeVisited doc)) := by
  unfold normalize normalizeVisited
  cases normalizeHeader doc with
  | error e => rfl
  | ok header =>
    simp only [walkTree,walkLoopVisits (Nat.lt_succ_self doc.root.size)]
    cases traversal.visit rootPending .empty doc.root <;> rfl

end RootCause.Ingestion
