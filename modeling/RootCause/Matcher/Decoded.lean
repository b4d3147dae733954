import RootCause.Ingestion.Transfers
import RootCause.Matcher.Exact

/-! What `log(decoded: ...)` selects: the logs with or without a transfer of their own,
which on an ingested trace are those that decode as the event and those that do not. -/
namespace RootCause.Matcher
open Library FactModel Dsl Ingestion

structure AsksDecoded (p : CompiledPredicate) (want : Bool) : Prop where
  kind : p.kind = "log"
  topic0 : p.attr "topic0" = none
  decoded : p.attr "decoded" = some (.bool want)

section
variable {trace : Trace} {index : TraceIndex} {p : CompiledPredicate} {want : Bool}

theorem decodedMeets (asks : AsksDecoded p want) {l : LogEvent} : LogMeets trace p l ↔
    ((∃ transfer ∈ trace.arena.tokenTransfers, transfer.logId = l.id) ↔ want = true) := by
  constructor
  · intro meets
    exact meets.decoded want asks.decoded
  · intro selected
    refine ⟨fun text given => ?_,fun other given => ?_⟩
    · rw [asks.topic0] at given
      contradiction
    · cases asks.decoded.symm.trans given
      exact selected

theorem memDecoded (aligned : Aligned trace) (asks : AsksDecoded p want) {fact : FactRef} :
    fact ∈ (evaluate trace index p).map Binding.fact ↔
      ∃ l ∈ trace.arena.logs, fact = .log l.id ∧ (transferFrom l).isSome = want := by
  have collected : collectBindings trace index p = evaluateLog trace p := by
    simp only [collectBindings,asks.kind]
  have facts : fact ∈ (evaluate trace index p).map Binding.fact ↔
      fact ∈ (evaluateLog trace p).map Binding.fact := by
    simp only [List.mem_map,memEvaluate,collected]
  rw [facts,memLogFacts]
  constructor
  · intro given
    obtain ⟨l,mem,meets,same⟩ := given
    have selected := (decodedMeets asks).mp meets
    rw [aligned.owns mem,← Bool.eq_iff_iff] at selected
    exact ⟨l,mem,same,selected⟩
  · intro given
    obtain ⟨l,mem,same,selected⟩ := given
    refine ⟨l,mem,(decodedMeets asks).mpr ?_,same⟩
    rw [aligned.owns mem,selected]

end

theorem transfersExact {checks : OverflowChecks} {document : Except IngestionError RawTraceDocument}
    {source : TraceSource} {trace : Trace} (ingested : ingest checks document source = some (.ok trace)) :
    (∀ token sender recipient amount, tryDecodeTokenTransfer token (transferTopics sender recipient)
      (amountData amount.raw.toNat) = some (token,sender,recipient,amount)) ∧
    (∀ token topics data t sender recipient amount,
      tryDecodeTokenTransfer token topics data = some (t,sender,recipient,amount) →
        t = token ∧ topics = transferTopics sender recipient ∧ data = amountData amount.raw.toNat) ∧
    Aligned trace ∧
    (∀ log ∈ trace.arena.logs, (∃ transfer ∈ trace.arena.tokenTransfers, transfer.logId = log.id) ↔
      (transferFrom log).isSome) ∧
    ∀ index p want, AsksDecoded p want → ∀ fact, fact ∈ (evaluate trace index p).map Binding.fact ↔
      ∃ log ∈ trace.arena.logs, fact = .log log.id ∧
        ((∃ transfer ∈ trace.arena.tokenTransfers, transfer.logId = log.id) ↔ want = true) := by
  have aligned := ingestAligned ingested
  refine ⟨fun _ _ _ _ => transferDecodes.mpr ⟨rfl,rfl,rfl⟩,fun _ _ _ _ _ _ _ => transferDecodes.mp,
    aligned,fun _ => aligned.owns,fun index p want asks fact => ?_⟩
  rw [memDecoded aligned asks]
  refine exists_congr fun l => and_congr_right fun mem => and_congr_right fun _ => ?_
  rw [aligned.owns mem,Bool.eq_iff_iff]

def transferTopic (digit : Char) : String :=
  String.ofList ('0' :: 'x' :: List.replicate 24 '0' ++ List.replicate 40 digit)

def transferDocument : RawTraceDocument :=
  ⟨⟨hexText 64,hexText 40,none,"0x0","0x0","0x0","success"⟩,⟨"0x1","0x1","0x1",none⟩,
    .node ⟨"call",hexText 40,some (hexText 40),"0x0","0x0","0x0",true,none,[],
      [⟨hexText 40,["0xddf252ad1be2c89b69c2b068fc378daa952ba7f163c4a11628f55a4df523b3ef",transferTopic '1',
        transferTopic '2'],String.ofList ('0' :: 'x' :: List.replicate 64 '0'),"0x0"⟩,
      ⟨hexText 40,[],"0x","0x1"⟩]⟩ []⟩

theorem transfersExactWritten : ∃ trace,
    ingest .on (.ok transferDocument) (.archiveNodeRpc "") = some (.ok trace) ∧
    trace.arena.logs.length = 2 ∧ trace.arena.tokenTransfers.length = 1 ∧ Aligned trace := by
  have some : ∃ nt ∈ (normalizeVisited transferDocument).toOption,
      ∃ trace ∈ (build .on nt (.archiveNodeRpc "")).toOption,
        trace.arena.logs.length = 2 ∧ trace.arena.tokenTransfers.length = 1 := by decide +kernel
  obtain ⟨nt,found,trace,made,logs,transfers⟩ := some
  have normalized : normalize .on transferDocument = Option.some (.ok nt) := by
    rw [normalizeVisits]
    exact congrArg Option.some (raiseOk.mpr (toOptionOk.mp found))
  have ingested : ingest .on (.ok transferDocument) (.archiveNodeRpc "") = Option.some (.ok trace) := by
    simp only [ingest,normalized,Option.map_some]
    exact congrArg Option.some (toOptionOk.mp made)
  exact ⟨trace,ingested,logs,transfers,(transfersExact ingested).2.2.1⟩

end RootCause.Matcher
