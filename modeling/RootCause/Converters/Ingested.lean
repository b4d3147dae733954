import RootCause.Cli.Refusals
import RootCause.Converters.Geth
import RootCause.Ingestion.CallTree
import RootCause.Ingestion.Transfers

/-! A converted call tree on its way through ingestion and the matcher. The trace has a call
for every frame and no other fact, so that no pattern that needs one is found in it. -/
namespace RootCause.Converters.Geth
open Library FactModel Dsl Ingestion Matcher Grounding

structure Traced (toLowercase : String → String) (frame : GethFrame) (call : Call) : Prop where
  kind : ∃ path, parseCallKind path (toLowercase frame.kind) = .ok call.kind
  sender : Ingestion.parseAddress "call.from" frame.sender = .ok call.sender
  recipient : frame.recipient.mapM (Ingestion.parseAddress "call.to") = .ok call.recipient
  value : parseHexU128 "call.value" frame.value = .ok call.value.raw
  gasLimit : parseHexU64 "call.gasLimit" frame.gas = .ok call.gasLimit.raw
  gasUsed : parseHexU64 "call.gasUsed" frame.gasUsed = .ok call.gasUsed.raw
  succeeded : call.succeeded = true ↔ frame.error = none
  selector : ∃ input, frame.input.mapM (parseHexBytes "call.input") = .ok input ∧
    call.selector = input.bind extractSelector

def eventKinds : List String := ["storage","log","token_transfer"]

def NeedsEvents (p : CompiledPattern) : Prop := ∀ matched : EvidenceRef → Bool,
  (∀ r clause, p.resolve r = some clause → clause.predicate.kind ∈ eventKinds → matched r = false) →
    holds p.constraint matched = false

def CallsOnly (arena : FactArena) : Prop :=
  arena.storageChanges = [] ∧ arena.logs = [] ∧ arena.tokenTransfers = []

section
variable {toLowercase : String → String} {frame : GethCallFrame} {ctx : GethTraceContext} {doc : RawTraceDocument}
  {u : UnicodeClasses} {h : HashOrder} {trace : Trace} {p : CompiledPattern} {patterns : List CompiledPattern}

theorem carriesTraced {f : GethFrame} {raw : RawFrame} {call : Call} (carries : Carries toLowercase f raw)
    (read : FrameRead raw call) : Traced toLowercase f call := by
  obtain ⟨kind,sender,recipient,value,gasLimit,gasUsed,succeeded,selector⟩ := read
  refine ⟨carries.kind ▸ kind,carries.sender ▸ sender,carries.recipient ▸ recipient,carries.value ▸ value,
    carries.gasLimit ▸ gasLimit,carries.gasUsed ▸ gasUsed,?_,carries.input ▸ selector⟩
  rw [succeeded,carries.succeeded]

theorem convertedEmpty (converted : convertFrame toLowercase frame = .ok doc.root) :
    Rose.Alike (Carries toLowercase) frame doc.root ∧ ∀ raw ∈ doc.root, raw.storageChanges = [] ∧ raw.logs = [] := by
  rw [convertFrameTraverses] at converted
  have alike := Rose.traverseOk.mp converted
  refine ⟨alike.imp fun _ _ fields => (convertFieldsCarries fields).1,fun raw mem => ?_⟩
  obtain ⟨f,_,fields⟩ := alike.mem mem
  unfold convertFields at fields
  split at fields
  · contradiction
  · cases fields
    exact ⟨rfl,rfl⟩

theorem eventless (calls : CallsOnly trace.arena) {predicate : CompiledPredicate}
    (event : predicate.kind ∈ eventKinds) : evaluate trace (.build trace) predicate = [] := by
  obtain ⟨changes,logs,transfers⟩ := calls
  rw [evaluateNil]
  simp only [eventKinds,List.mem_cons,List.not_mem_nil,or_false] at event
  rcases event with kind | kind | kind
  · simp [collectBindings,kind,evaluateStorage,FactArena.storageChangesWithIds,changes]
  · simp [collectBindings,kind,evaluateLog,logs]
  · simp [collectBindings,kind,evaluateTokenTransfer,FactArena.tokenTransfersWithIds,transfers]

theorem callsOnlyUnmatched (calls : CallsOnly trace.arena) (compiled : Compiled u p) (needs : NeedsEvents p) :
    findCandidates h trace (.build trace) p = .ok [] := by
  have wf := compiled.accepted.wellFormed
  have fails : ¬ ConstraintHolds trace p := by
    refine Bool.not_eq_true _ ▸ needs _ fun r clause resolved event => ?_
    rw [clauseMatchesAt resolved,eventless calls event]
    rfl
  obtain ⟨cs,found⟩ : ∃ cs, findCandidates h trace (.build trace) p = .ok cs := searched (boundsOk wf)
  have none : cs = [] := List.eq_nil_iff_forall_not_mem.mpr fun c mem =>
    fails (candidateEmitted wf (wf.distinctSteps compiled.narrow) found mem).1
  rw [found,none]

theorem attributedNone {β : Type} {part : RawFrame → List β} {start : Nat} {xs : List (Rose.Placed RawFrame)}
    (none : ∀ x ∈ xs, part x.value = []) : attributed part start xs = [] := by
  induction xs generalizing start with
  | nil => rfl
  | cons x xs ih =>
    obtain ⟨first,later⟩ := List.forall_mem_cons.mp none
    rw [attributed,first,ih later]
    rfl

theorem convertedTrace {checks : OverflowChecks} {source : TraceSource}
    (converted : convert toLowercase (.ok frame) ctx = .ok doc)
    (ingested : ingest checks (.ok doc) source = some (.ok trace)) :
    Rose.Alike (Traced toLowercase) frame (subtree trace.arena trace.arena.calls.length trace.arena.rootCall) ∧
    CallsOnly trace.arena ∧
    ∀ u h patterns, (∀ p ∈ patterns, Compiled u p ∧ NeedsEvents p) → Cli.analyze h trace patterns = .ok [] := by
  have root : convertFrame toLowercase frame = .ok doc.root := by
    rw [← convertRoot ctx,converted]
    rfl
  obtain ⟨carried,empty⟩ := convertedEmpty root
  obtain ⟨normalized,ran,rest⟩ := Option.map_eq_some_iff.mp ingested
  obtain ⟨nt,rfl,built⟩ := bindOk.mp rest
  have read := arenaRead ran built
  have tree := carried.trans (treeRead built read)
  have frames : ∀ x ∈ doc.root.listing 0 none 0, x.value.storageChanges = [] ∧ x.value.logs = [] := by
    intro x mem
    refine empty x.value (Rose.memFlatten.mp ?_)
    rw [← Rose.listingValues doc.root 0 none 0]
    exact List.mem_map_of_mem mem
  have calls : CallsOnly trace.arena := by
    have noChanges := read.changes
    have noLogs := read.logs
    rw [attributedNone fun x mem => (frames x mem).1] at noChanges
    rw [attributedNone fun x mem => (frames x mem).2] at noLogs
    have logs : trace.arena.logs = [] := List.forall₂_nil_left_iff.mp noLogs
    have none : nt.logs = [] := by
      have kept := read.kept
      rw [logs] at kept
      exact List.forall₂_nil_right_iff.mp kept
    refine ⟨List.forall₂_nil_left_iff.mp noChanges,logs,?_⟩
    rw [(buildEvents built).2,read.transfers,none]
    rfl
  refine ⟨tree.imp ?_,calls,fun u h patterns each => ?_⟩
  · rintro f call ⟨raw,carries,holds⟩
    exact carriesTraced carries holds.fields
  · have found : ∀ p ∈ patterns, findCandidates h trace (.build trace) p = .ok ((fun _ => []) p) :=
      fun p mem => callsOnlyUnmatched calls (each p mem).1 (each p mem).2
    have nothing : patterns.flatMap (fun _ => ([] : List CandidateMatch)) = [] := by simp
    rw [Cli.analyze,Cli.findAllMatchesOk found,nothing]
    rfl

end

def proxied : GethCallFrame :=
  .node ⟨"CALL","0x1111111111111111111111111111111111111111",some "0x2222222222222222222222222222222222222222",
      "0x1","0x100","0x50",some "0x12345678",some "execution reverted"⟩
    [.node ⟨"DELEGATECALL","0x2222222222222222222222222222222222222222",
      some "0x3333333333333333333333333333333333333333","0x0","0x80","0x40",some "0x",none⟩ []]

def proxiedContext : GethTraceContext :=
  ⟨"0x1111111111111111111111111111111111111111111111111111111111111111","0x1","0x1","0x5"⟩

theorem convertedTraceProxied : ∃ doc trace, convert String.toLower (.ok proxied) proxiedContext = .ok doc ∧
    ingest .on (.ok doc) (.archiveNodeRpc "") = some (.ok trace) ∧
    Rose.Alike (Traced String.toLower) proxied
      (subtree trace.arena trace.arena.calls.length trace.arena.rootCall) ∧
    CallsOnly trace.arena ∧
    ∀ u h patterns, (∀ p ∈ patterns, Compiled u p ∧ NeedsEvents p) → Cli.analyze h trace patterns = .ok [] := by
  have some : ∃ doc ∈ (convert String.toLower (.ok proxied) proxiedContext).toOption,
      ∃ nt ∈ (normalizeVisited doc).toOption,
      ∃ trace ∈ (build .on nt (.archiveNodeRpc "")).toOption, trace.arena.calls.length = 2 := by
    decide +kernel
  obtain ⟨doc,first,nt,second,trace,third,_⟩ := some
  have converted := toOptionOk.mp first
  have normalized : normalize .on doc = Option.some (.ok nt) := by
    rw [normalizeVisits]
    exact congrArg Option.some (raiseOk.mpr (toOptionOk.mp second))
  have ingested : ingest .on (.ok doc) (.archiveNodeRpc "") = Option.some (.ok trace) := by
    rw [ingest,normalized]
    exact congrArg Option.some (toOptionOk.mp third)
  exact ⟨doc,trace,converted,ingested,convertedTrace converted ingested⟩

end RootCause.Converters.Geth
