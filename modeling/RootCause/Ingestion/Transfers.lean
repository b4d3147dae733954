import RootCause.Ingestion.Ownership
import RootCause.Library.BigEndian

/-! Decoded token transfers. The decoder accepts the standard encoding of an event and
nothing else, and the transfers of a trace are those its logs decode to, in their order. -/
namespace RootCause.Ingestion
open Library FactModel

def topicOf (address : Address) : Word :=
  ⟨⟨List.replicate 12 0 ++ address.raw.bytes,by simp [address.raw.size]⟩⟩

def transferTopics (sender recipient : Address) : List Word :=
  [transferEventTopic0,topicOf sender,topicOf recipient]

def amountData (amount : Nat) : List UInt8 := bigEndian 32 amount

theorem addressDecodes {word : Word} {address : Address} :
    addressFromTopic word = some address ↔ word = topicOf address := by
  constructor
  · intro decoded
    unfold addressFromTopic at decoded
    split at decoded
    · contradiction
    · rename_i padded
      cases decoded
      have bytes : word.raw.bytes = List.replicate 12 0 ++ word.raw.bytes.drop 12 := by
        rw [← Decidable.not_not.mp padded,List.take_append_drop]
      rcases word with ⟨⟨given,size⟩⟩
      simp only [topicOf,Word.mk.injEq,FixedBytes.mk.injEq]
      exact bytes
  · intro encoded
    subst encoded
    have padded : (topicOf address).raw.bytes.take 12 = List.replicate 12 0 :=
      List.take_left' List.length_replicate
    have kept : (topicOf address).raw.bytes.drop 12 = address.raw.bytes :=
      List.drop_left' List.length_replicate
    unfold addressFromTopic
    rw [if_neg (Decidable.not_not.mpr padded)]
    simp only [kept]

theorem amountDecodes {data : List UInt8} {amount : Wei} :
    (data.length = 32 ∧ data.take 16 = List.replicate 16 0 ∧ fromBeBytes (data.drop 16) = amount.raw) ↔
      data = amountData amount.raw.toNat := by
  have encoded (n : Nat) (small : n < 2 ^ 128) : amountData n = List.replicate 16 0 ++ bigEndian 16 n :=
    @bigEndianPadded 16 n 16 (Nat.lt_of_lt_of_eq small (by decide))
  constructor
  · intro given
    obtain ⟨length,padded,read⟩ := given
    have low : (data.drop 16).length = 16 := by rw [List.length_drop,length]
    have small : ofBigEndian (data.drop 16) < 2 ^ 128 := by
      have bound := ofBigEndianBound (data.drop 16)
      rw [low] at bound
      simpa using bound
    have value : amount.raw.toNat = ofBigEndian (data.drop 16) := by
      rw [← read]
      exact Nat.mod_eq_of_lt small
    have written := bigEndianOfBigEndian (data.drop 16)
    rw [low] at written
    rw [value,encoded _ small,written,← padded,List.take_append_drop]
  · intro same
    have small := amount.raw.isLt
    rw [encoded _ small] at same
    subst same
    refine ⟨by simp,List.take_left' List.length_replicate,?_⟩
    rw [List.drop_left' List.length_replicate]
    have value : ofBigEndian (bigEndian 16 amount.raw.toNat) = amount.raw.toNat :=
      ofBigEndianBigEndian (Nat.lt_of_lt_of_eq small (by decide))
    calc
      fromBeBytes (bigEndian 16 amount.raw.toNat) =
          BitVec.ofNat 128 (ofBigEndian (bigEndian 16 amount.raw.toNat)) := rfl
      _ = amount.raw := by rw [value,BitVec.ofNat_toNat,BitVec.setWidth_eq]

theorem transferDecodes {token t s r : Address} {topics : List Word} {data : List UInt8} {amount : Wei} :
    tryDecodeTokenTransfer token topics data = some (t,s,r,amount) ↔
      t = token ∧ topics = transferTopics s r ∧ data = amountData amount.raw.toNat := by
  constructor
  · intro decoded
    unfold tryDecodeTokenTransfer at decoded
    split at decoded
    · rename_i topic0 topic1 topic2
      split at decoded
      · contradiction
      · rename_i shape
        obtain ⟨signature,length⟩ := not_or.mp shape
        obtain ⟨sender,first,rest⟩ := Option.bind_eq_some_iff.mp decoded
        obtain ⟨recipient,second,rest⟩ := Option.bind_eq_some_iff.mp rest
        split at rest
        · contradiction
        · rename_i padded
          cases rest
          refine ⟨rfl,?_,amountDecodes.mp ⟨Decidable.not_not.mp length,Decidable.not_not.mp padded,rfl⟩⟩
          rw [transferTopics,← addressDecodes.mp first,← addressDecodes.mp second,
            Decidable.not_not.mp signature]
    · contradiction
  · intro given
    obtain ⟨rfl,rfl,encoded⟩ := given
    obtain ⟨length,padded,read⟩ := amountDecodes.mpr encoded
    have sender := addressDecodes.mpr (Eq.refl (topicOf s))
    have recipient := addressDecodes.mpr (Eq.refl (topicOf r))
    simp [tryDecodeTokenTransfer,transferTopics,length,padded,read,sender,recipient]

def transferFrom (log : LogEvent) : Option TokenTransfer :=
  (tryDecodeTokenTransfer log.address log.topics log.data).map fun decoded =>
    ⟨log.id,decoded.1,decoded.2.1,decoded.2.2.1,decoded.2.2.2⟩

def NoEvents (builder : FactArenaBuilder) : Prop := builder.logs = [] ∧ builder.tokenTransfers = []

theorem buildCallNoEvents (s : FactArenaBuilder × List CallId) (nc : NormalizedCall)
    (t : FactArenaBuilder × List CallId) (before : NoEvents s.1) (step : buildCall s nc = .ok t) :
    NoEvents t.1 := by
  obtain ⟨_,_,rest⟩ := bindOk.mp step
  obtain ⟨_,_,rest⟩ := bindOk.mp rest
  obtain ⟨_,_,last⟩ := bindOk.mp rest
  cases last
  exact before

theorem buildChangeNoEvents {callIds : List CallId} (s : FactArenaBuilder) (sc : NormalizedStorageChange)
    (t : FactArenaBuilder) (before : NoEvents s) (step : buildStorageChange callIds s sc = .ok t) :
    NoEvents t := by
  obtain ⟨_,_,rest⟩ := bindOk.mp step
  obtain ⟨_,grown,last⟩ := bindOk.mp rest
  cases last
  obtain ⟨_,_,same⟩ := bindOk.mp grown
  cases same
  exact before

structure LogMade (x : NormalizedLog × Nat) (log : LogEvent) : Prop where
  id : log.id = logIdAt x.2
  address : log.address = x.1.address
  topics : log.topics = x.1.topics
  data : log.data = x.1.data

structure LogsMade (past : List NormalizedLog) (s : FactArenaBuilder × List LogId) : Prop where
  ids : s.2 = (List.range past.length).map logIdAt
  each : List.Forall₂ LogMade past.zipIdx s.1.logs
  others : s.1.tokenTransfers = []

theorem buildLogMade {callIds : List CallId} (past : List NormalizedLog) (s : FactArenaBuilder × List LogId)
    (log : NormalizedLog) (t : FactArenaBuilder × List LogId) (made : LogsMade past s)
    (step : buildLog callIds s log = .ok t) : LogsMade (past ++ [log]) t := by
  obtain ⟨callId,_,rest⟩ := bindOk.mp step
  obtain ⟨id,next,rest⟩ := bindOk.mp rest
  obtain ⟨event,accepted,last⟩ := bindOk.mp rest
  cases last
  obtain ⟨index,fresh,same⟩ := bindOk.mp next
  cases same
  have count : index.toNat = past.length := by
    rw [(FactArenaBuilder.nextIndexOk fresh).2,← made.each.length_eq,List.length_zipIdx]
  have handed : (⟨index⟩ : LogId) = logIdAt past.length := by rw [logIdAt,← count,UInt32.ofNat_toNat]
  have fields : LogMade (log,past.length) event := by
    have checked := raiseOk.mp accepted
    unfold LogEvent.new at checked
    split at checked
    · contradiction
    · cases checked
      exact ⟨handed,rfl,rfl,rfl⟩
  refine ⟨?_,?_,made.others⟩
  · rw [made.ids,List.length_append,List.length_singleton,List.range_succ,List.map_append,handed]
    rfl
  · rw [List.zipIdx_append,Nat.zero_add]
    exact List.rel_append made.each (.cons fields .nil)

def linkedTransfer (transfer : NormalizedTokenTransfer) : TokenTransfer :=
  ⟨logIdAt transfer.logIndexInVec,transfer.token,transfer.sender,transfer.recipient,transfer.amount⟩

theorem buildTransferMade {n : Nat} {logs : List LogEvent} (past : List NormalizedTokenTransfer)
    (s : FactArenaBuilder) (transfer : NormalizedTokenTransfer) (t : FactArenaBuilder)
    (made : s.logs = logs ∧ s.tokenTransfers = past.map linkedTransfer)
    (step : buildTokenTransfer ((List.range n).map logIdAt) s transfer = .ok t) :
    t.logs = logs ∧ t.tokenTransfers = (past ++ [transfer]).map linkedTransfer := by
  obtain ⟨logId,found,rest⟩ := bindOk.mp step
  obtain ⟨added,grown,last⟩ := bindOk.mp rest
  cases last
  obtain ⟨id,_,same⟩ := bindOk.mp grown
  cases same
  refine ⟨made.1,?_⟩
  rw [List.map_append,← made.2,indexedOk found]
  rfl

section
variable {checks : OverflowChecks} {nt : NormalizedTrace} {source : TraceSource} {trace : Trace}

theorem buildEvents (built : build checks nt source = .ok trace) :
    List.Forall₂ LogMade nt.logs.zipIdx trace.arena.logs ∧
    trace.arena.tokenTransfers = nt.tokenTransfers.map linkedTransfer := by
  obtain ⟨first,callIds,second,third,logIds,calls,changes,logs,transfers⟩ := buildStages built
  have afterCalls : NoEvents first :=
    @foldInvariant _ _ _ (fun s => NoEvents s.1) _ buildCallNoEvents _ _ _ ⟨rfl,rfl⟩ calls
  have afterChanges : NoEvents second := foldInvariant buildChangeNoEvents afterCalls changes
  have logged : LogsMade nt.logs (third,logIds) :=
    foldHistory buildLogMade ⟨rfl,by rw [show second.logs = [] from afterChanges.1]; exact .nil,
      afterChanges.2⟩ logs
  rw [show logIds = _ from logged.ids] at transfers
  have moved : trace.arena.facts.logs = third.logs ∧
      trace.arena.facts.tokenTransfers = nt.tokenTransfers.map linkedTransfer :=
    foldHistory buildTransferMade ⟨rfl,logged.others⟩ transfers
  rw [FactArena.logs,FactArena.tokenTransfers,moved.1,moved.2]
  exact ⟨logged.each,rfl⟩

theorem madeDecodes {entries : List (NormalizedLog × Nat)} {logs : List LogEvent}
    (made : List.Forall₂ LogMade entries logs) :
    (entries.flatMap fun x => decodedTransfers x.2 x.1.address x.1.topics x.1.data).map linkedTransfer =
      logs.filterMap transferFrom := by
  induction made with
  | nil => rfl
  | @cons x log entries logs first rest ih =>
    have here : (decodedTransfers x.2 x.1.address x.1.topics x.1.data).map linkedTransfer =
        (transferFrom log).toList := by
      unfold decodedTransfers transferFrom
      rw [first.address,first.topics,first.data,first.id]
      cases tryDecodeTokenTransfer x.1.address x.1.topics x.1.data <;> rfl
    rw [List.flatMap_cons,List.map_append,ih,here]
    cases decoded : transferFrom log with
    | none => rw [List.filterMap_cons_none decoded]; rfl
    | some transfer => rw [List.filterMap_cons_some decoded]; rfl

/- The transfers of an ingested trace, against its logs. -/
structure Aligned (trace : Trace) : Prop where
  transfers : trace.arena.tokenTransfers = trace.arena.logs.filterMap transferFrom
  distinct : (trace.arena.logs.map LogEvent.id).Nodup

theorem Aligned.owns (aligned : Aligned trace) {log : LogEvent} (mem : log ∈ trace.arena.logs) :
    (∃ transfer ∈ trace.arena.tokenTransfers, transfer.logId = log.id) ↔ (transferFrom log).isSome := by
  have linked {l : LogEvent} {transfer : TokenTransfer} (decoded : transferFrom l = some transfer) :
      transfer.logId = l.id := by
    obtain ⟨_,_,rfl⟩ := Option.map_eq_some_iff.mp decoded
    rfl
  rw [aligned.transfers,Option.isSome_iff_exists]
  constructor
  · intro given
    obtain ⟨transfer,listed,owner⟩ := given
    obtain ⟨l,inside,decoded⟩ := List.mem_filterMap.mp listed
    have same : l = log :=
      List.inj_on_of_nodup_map aligned.distinct inside mem ((linked decoded).symm.trans owner)
    exact ⟨transfer,same ▸ decoded⟩
  · intro given
    obtain ⟨transfer,decoded⟩ := given
    exact ⟨transfer,List.mem_filterMap.mpr ⟨log,mem,decoded⟩,linked decoded⟩

theorem ingestAligned {decoded : Except IngestionError RawTraceDocument}
    (ingested : ingest checks decoded source = some (.ok trace)) : Aligned trace := by
  unfold ingest at ingested
  split at ingested
  · cases ingested
  · rename_i doc
    obtain ⟨normalized,walked,rest⟩ := Option.map_eq_some_iff.mp ingested
    obtain ⟨nt,rfl,built⟩ := bindOk.mp rest
    rw [normalizeVisits] at walked
    obtain ⟨header,_,rest⟩ := bindOk.mp (raiseOk.mp (Option.some.inj walked))
    obtain ⟨acc,visited,last⟩ := bindOk.mp rest
    cases last
    obtain ⟨made,linked⟩ := buildEvents built
    obtain ⟨logs,grown,_,transfers⟩ := (traversalLists visited).logs
    have sameLogs : acc.logs = logs := grown
    have sameTransfers : acc.tokenTransfers = transfersOf 0 acc.logs := by
      rw [sameLogs]
      exact transfers
    refine ⟨?_,?_⟩
    · rw [linked,← madeDecodes made]
      exact congrArg (List.map linkedTransfer) sameTransfers
    · exact idsDistinct (buildPositional built).logs

end

end RootCause.Ingestion
