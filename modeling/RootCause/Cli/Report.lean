import RootCause.Cli.ValidatePattern
import RootCause.Grounding.Status
import RootCause.Ingestion.Accepted
import RootCause.Ingestion.Decoders
import RootCause.Ingestion.Transfers

/-! The report of the analysis command. It sums up the document that was read, and it has
one finding for each candidate, with the lines of the taxonomies for its family. -/
namespace RootCause.Cli
open Library FactModel Dsl Matcher Grounding Taxonomy Ingestion

namespace Analyze

inductive Format where
  | human
  | json
  | markdown
  | csv
  deriving DecidableEq, Repr

inductive RunError where
  | cli (e : CliError)
  | ingestion (e : IngestionError)
  deriving DecidableEq, Repr

structure TaxonomyLine where
  taxonomy : String
  code : String
  title : String
  referenceUrl : Option String
  deriving DecidableEq, Repr

@[ext] structure Finding where
  patternId : String
  patternVersion : UInt32
  patternFamily : String
  patternSeverity : String
  candidateId : String
  status : String
  requiredTotal : Nat
  requiredVerified : Nat
  optionalTotal : Nat
  optionalVerified : Nat
  explanation : String
  abstainReasons : List String
  taxonomy : List TaxonomyLine
  deriving DecidableEq, Repr

@[ext] structure TraceSummary where
  tracePath : String
  transactionHash : String
  blockNumber : String
  chainId : String
  callCount : Nat
  storageChangeCount : Nat
  logCount : Nat
  tokenTransferCount : Nat
  deriving DecidableEq, Repr

@[ext] structure AnalyzeReport where
  trace : TraceSummary
  patternsRun : Nat
  candidateCount : Nat
  findings : List Finding
  deriving DecidableEq, Repr

def severityName : Severity → String
  | .low => "Low"
  | .medium => "Medium"
  | .high => "High"
  | .critical => "Critical"

def displayCandidateId (id : CandidateId) : String :=
  String.ofList ((bigEndian 8 id.raw.toNat).flatMap fun (b : UInt8) => [hexChar (b >>> 4),hexChar (b &&& 15)])

def TaxonomyLine.ofEntry (entry : TaxonomyEntry) : TaxonomyLine :=
  ⟨entry.taxonomy,entry.code,entry.title,entry.referenceUrl⟩

def Finding.fromResults (grounding : GroundingResult) (taxonomy : TaxonomyReport) : Finding :=
  { patternId := grounding.patternId.text
    patternVersion := grounding.patternVersion.number
    patternFamily := grounding.patternFamily.text
    patternSeverity := severityName grounding.patternSeverity
    candidateId := displayCandidateId grounding.candidateId
    status := grounding.status.display
    requiredTotal := grounding.confidence.requiredTotal
    requiredVerified := grounding.confidence.requiredVerified
    optionalTotal := grounding.confidence.optionalTotal
    optionalVerified := grounding.confidence.optionalVerified
    explanation := grounding.explanation
    abstainReasons := grounding.abstainReasons.map AbstainReason.detail
    taxonomy := taxonomy.mappings.flatMap fun mapping => mapping.entries.map TaxonomyLine.ofEntry }

def summaryOf (tracePath : String) (trace : Trace) : TraceSummary :=
  { tracePath
    transactionHash := displayWord trace.metadata.transactionHash.word
    blockNumber := toString trace.metadata.blockNumber.raw.toNat
    chainId := toString trace.metadata.chainId.raw.toNat
    callCount := trace.arena.calls.length
    storageChangeCount := trace.arena.storageChanges.length
    logCount := trace.arena.logs.length
    tokenTransferCount := trace.arena.tokenTransfers.length }

def report (h : HashOrder) (tracePath : String) (trace : Trace) (compiledPatterns : List CompiledPattern) :
    Except CliError AnalyzeReport := do
  let candidates ← (findAllMatches h trace (.build trace) compiledPatterns).mapError .matcher
  let grounded ← (groundAll h candidates trace compiledPatterns).mapError .grounding
  let taxonomyReports := MappingEngine.new.mapAll h grounded
  let findings := (grounded.zip taxonomyReports).map fun x => Finding.fromResults x.1 x.2
  pure ⟨summaryOf tracePath trace,compiledPatterns.length,candidates.length,findings⟩

def provenance (display : PathBuf → String) (tracePath : PathBuf) : TraceSource :=
  .archiveNodeRpc ("cli:" ++ display tracePath)

def run (u : UnicodeClasses) (checks : OverflowChecks) (h : HashOrder) (display : PathBuf → String)
    (tracePath patternsPath : PathBuf) (format : Format) (decoded : Except IngestionError RawTraceDocument)
    (located : Located) : Option (Except (Failure RunError) AnalyzeReport) :=
  if format = .csv then some (.error (.error (.cli (.usage
    "CSV output is not supported for `analyze`; use `json`, `markdown`, or `human`"))))
  else do
    match ← ingest checks decoded (provenance display tracePath) with
    | .error e => some (mapFailure .ingestion (.error e))
    | .ok trace =>
      match ← loadPatterns u display patternsPath located with
      | .error e => some (mapFailure .cli (.error e))
      | .ok compiledPatterns => some (raise .cli (report h (display tracePath) trace compiledPatterns))

def StandardTransfer (raw : RawLog) : Prop := ∃ s r, ∃ amount : Wei,
  raw.topics.mapM (parseWord "log.topics[]") = .ok (transferTopics s r) ∧
  parseHexBytes "log.data" raw.data = .ok (amountData amount.raw.toNat)

open Classical in
structure Summarizes (doc : RawTraceDocument) (tracePath : String) (s : TraceSummary) : Prop where
  tracePath : s.tracePath = tracePath
  hash : ∃ w, parseWord "transaction.hash" doc.transaction.hash = .ok w ∧ s.transactionHash = displayWord w
  blockNumber : ∃ n, parseHexU64 "block.number" doc.block.number = .ok n ∧ s.blockNumber = toString n.toNat
  chainId : ∃ n, parseHexU64 "block.chainId" doc.block.chainId = .ok n ∧ s.chainId = toString n.toNat
  calls : s.callCount = doc.root.flatten.length
  storageChanges : s.storageChangeCount = (doc.root.flatten.flatMap RawFrame.storageChanges).length
  logs : s.logCount = (doc.root.flatten.flatMap RawFrame.logs).length
  transfers : s.tokenTransferCount = (doc.root.flatten.flatMap RawFrame.logs).countP fun raw => StandardTransfer raw

def linesOf (family : PatternFamily) : List TaxonomyLine :=
  (scweMapFamily family ++ swcMapFamily family).map TaxonomyLine.ofEntry

structure FindingOf (patterns : List CompiledPattern) (g : GroundingResult) (f : Finding) : Prop where
  identity : f.patternId = g.patternId.text ∧ f.patternVersion = g.patternVersion.number
  pattern : ∃ p, (patterns.find? fun p => p.id = g.patternId && p.version = g.patternVersion) = some p ∧
    f.patternFamily = p.family.text ∧ f.patternSeverity = severityName p.severity ∧ f.taxonomy = linesOf p.family
  candidate : f.candidateId = displayCandidateId g.candidateId
  status : f.status = g.status.display
  required : f.requiredTotal = g.confidence.requiredTotal ∧ f.requiredVerified = g.confidence.requiredVerified
  optional : f.optionalTotal = g.confidence.optionalTotal ∧ f.optionalVerified = g.confidence.optionalVerified
  explanation : f.explanation = g.explanation
  abstainReasons : f.abstainReasons = g.abstainReasons.map AbstainReason.detail

structure Reported (doc : RawTraceDocument) (tracePath : String) (patterns : List CompiledPattern)
    (results : List GroundingResult) (r : AnalyzeReport) : Prop where
  trace : Summarizes doc tracePath r.trace
  patternsRun : r.patternsRun = patterns.length
  candidateCount : r.candidateCount = results.length
  findings : List.Forall₂ (FindingOf patterns) results r.findings

section
variable {u : UnicodeClasses} {checks : OverflowChecks} {h : HashOrder} {doc : RawTraceDocument}
  {nt : NormalizedTrace} {source : TraceSource} {trace : Trace} {tracePath : String}
  {patterns : List CompiledPattern} {results : List GroundingResult} {g : GroundingResult}

theorem transferRead {raw : RawLog} {log : LogEvent} (read : LogRead raw log) :
    StandardTransfer raw ↔ (transferFrom log).isSome = true := by
  rw [transferFrom,Option.isSome_map,Option.isSome_iff_exists]
  constructor
  · rintro ⟨s,r,amount,topics,data⟩
    have sameTopics : log.topics = transferTopics s r := Except.ok.inj (read.topics.symm.trans topics)
    have sameData : log.data = amountData amount.raw.toNat := Except.ok.inj (read.data.symm.trans data)
    exact ⟨(log.address,s,r,amount),transferDecodes.mpr ⟨rfl,sameTopics,sameData⟩⟩
  · rintro ⟨⟨t,s,r,amount⟩,decoded⟩
    obtain ⟨_,topics,data⟩ := transferDecodes.mp decoded
    exact ⟨s,r,amount,topics ▸ read.topics,data ▸ read.data⟩

open Classical in
theorem transfersCounted {raws : List RawLog} {logs : List LogEvent} (read : List.Forall₂ LogRead raws logs) :
    (raws.countP fun raw => StandardTransfer raw) = (logs.filterMap transferFrom).length := by
  induction read with
  | nil => rfl
  | cons one rest ih =>
    rw [List.countP_cons,ih,List.length_filterMap_eq_countP,List.length_filterMap_eq_countP,List.countP_cons]
    simp only [transferRead one,Bool.decide_eq_true]

theorem builtMetadata (built : build checks nt source = .ok trace) :
    trace.metadata = ⟨nt.transactionHash,nt.blockChainId,nt.blockNumber,source⟩ := by
  obtain ⟨_,_,rest⟩ := bindOk.mp built
  obtain ⟨_,_,rest⟩ := bindOk.mp rest
  obtain ⟨_,_,rest⟩ := bindOk.mp rest
  obtain ⟨_,_,rest⟩ := bindOk.mp rest
  obtain ⟨arena,_,last⟩ := bindOk.mp rest
  have made := raiseOk.mp last
  unfold Trace.new at made
  split at made <;> try contradiction
  split at made <;> try contradiction
  split at made <;> try contradiction
  cases made
  rfl

theorem headerKept (normalized : normalize checks doc = some (.ok nt)) :
    parseWord "transaction.hash" doc.transaction.hash = .ok nt.transactionHash.word ∧
    parseHexU64 "block.number" doc.block.number = .ok nt.blockNumber.raw ∧
    parseHexU64 "block.chainId" doc.block.chainId = .ok nt.blockChainId.raw := by
  rw [normalizeVisits] at normalized
  obtain ⟨header,read,rest⟩ := bindOk.mp (raiseOk.mp (Option.some.inj normalized))
  obtain ⟨acc,_,last⟩ := bindOk.mp rest
  cases last
  obtain ⟨hash,hashRead,rest⟩ := bindOk.mp read
  obtain ⟨_,_,rest⟩ := bindOk.mp rest
  obtain ⟨_,_,rest⟩ := bindOk.mp rest
  obtain ⟨_,_,rest⟩ := bindOk.mp rest
  obtain ⟨_,_,rest⟩ := bindOk.mp rest
  obtain ⟨_,_,rest⟩ := bindOk.mp rest
  obtain ⟨_,_,rest⟩ := bindOk.mp rest
  obtain ⟨number,numberRead,rest⟩ := bindOk.mp rest
  obtain ⟨_,_,rest⟩ := bindOk.mp rest
  obtain ⟨chainId,chainRead,rest⟩ := bindOk.mp rest
  obtain ⟨_,_,last⟩ := bindOk.mp rest
  cases last
  exact ⟨hashRead,numberRead,chainRead⟩

theorem listedItems {β γ : Type} {part : RawFrame → List β} {R : β → γ → Prop} {ys : List γ}
    (related : List.Forall₂ (fun x y => R x.2 y) (attributed part 0 (doc.root.listing 0 none 0)) ys) :
    List.Forall₂ R (doc.root.flatten.flatMap part) ys := by
  rw [← Rose.listingValues doc.root 0 none 0,← @attributedItems _ part 0,List.forall₂_map_left_iff]
  exact related

theorem summarized (ingested : ingest checks (.ok doc) source = some (.ok trace)) :
    Summarizes doc tracePath (summaryOf tracePath trace) := by
  obtain ⟨_,normalized,rest⟩ := Option.map_eq_some_iff.mp ingested
  obtain ⟨nt,rfl,built⟩ := bindOk.mp rest
  obtain ⟨hash,number,chainId⟩ := headerKept normalized
  have metadata := builtMetadata built
  have read := arenaRead normalized built
  have logs := listedItems (read.logs.imp fun _ _ both => both.2)
  refine ⟨rfl,⟨_,hash,?_⟩,⟨_,number,?_⟩,⟨_,chainId,?_⟩,?_,?_,?_,?_⟩
  · simp only [summaryOf,metadata]
  · simp only [summaryOf,metadata]
  · simp only [summaryOf,metadata]
  · rw [← Rose.listingValues doc.root 0 none 0,List.length_map]
    exact read.calls.length_eq.symm
  · exact (listedItems (read.changes.imp fun _ _ both => both.2)).length_eq.symm
  · exact logs.length_eq.symm
  · rw [transfersCounted logs,← (ingestAligned ingested).transfers]
    rfl

theorem linesAnswered {engine : MappingEngine} {family : PatternFamily} {taxonomy : String} {mapper : TaxonomyMapper}
    {rest : List String} (found : engine.registry.get taxonomy = some mapper) :
    (((taxonomy :: rest).filterMap (engine.answer family)).flatMap fun mapping =>
      mapping.entries.map TaxonomyLine.ofEntry) = (mapper.mapFamily family).map TaxonomyLine.ofEntry ++
        ((rest.filterMap (engine.answer family)).flatMap fun mapping =>
          mapping.entries.map TaxonomyLine.ofEntry) := by
  by_cases silent : mapper.mapFamily family = []
  · simp [MappingEngine.answer,found,silent]
  · simp [MappingEngine.answer,found,silent]

theorem linesMapped : ((MappingEngine.new.map h g).mappings.flatMap fun mapping =>
    mapping.entries.map TaxonomyLine.ofEntry) = linesOf g.patternFamily := by
  have names : MappingEngine.new.registry.taxonomies h = ["SCWE","SWC"] := by
    rw [TaxonomyRegistry.taxonomiesSame h .insertion]
    decide +kernel
  have scwe : MappingEngine.new.registry.get "SCWE" = some scweMapper := rfl
  have swc : MappingEngine.new.registry.get "SWC" = some swcMapper := rfl
  rw [MappingEngine.mapMappings,names,linesAnswered scwe,linesAnswered swc]
  simp [linesOf,scweMapper,swcMapper]

theorem resultJudged (analyzed : Cli.analyze h trace patterns = .ok results) (mem : g ∈ results) :
    ∃ p, (patterns.find? fun p => p.id = g.patternId && p.version = g.patternVersion) = some p ∧
      g.patternFamily = p.family ∧ g.patternSeverity = p.severity := by
  obtain ⟨candidates,_,judged⟩ := ValidatePattern.analyzeStages.mp analyzed
  obtain ⟨c,_,made⟩ := forall₂Right (mapMOk.mp judged) mem
  cases own : patternFor patterns c with
  | none =>
    rw [own] at made
    contradiction
  | some p =>
    rw [own] at made
    obtain ⟨_,same,grounded⟩ := bindOk.mp made
    cases same
    have named := List.find?_some own
    rw [Bool.and_eq_true,decide_eq_true_eq,decide_eq_true_eq] at named
    obtain ⟨_,_,_,_,rfl⟩ := groundChain grounded
    refine ⟨p,?_,rfl,rfl⟩
    rw [patternFor,← named.1,← named.2] at own
    exact own

theorem findingMade (analyzed : Cli.analyze h trace patterns = .ok results) (mem : g ∈ results) :
    FindingOf patterns g (Finding.fromResults g (MappingEngine.new.map h g)) := by
  obtain ⟨p,own,family,severity⟩ := resultJudged analyzed mem
  refine ⟨⟨rfl,rfl⟩,⟨p,own,congrArg PatternFamily.text family,congrArg severityName severity,?_⟩,rfl,rfl,
    ⟨rfl,rfl⟩,⟨rfl,rfl⟩,rfl,rfl⟩
  rw [← family]
  exact linesMapped

theorem reportMade {r : AnalyzeReport} : report h tracePath trace patterns = .ok r ↔ ∃ results,
    Cli.analyze h trace patterns = .ok results ∧ r = ⟨summaryOf tracePath trace,patterns.length,results.length,
      results.map fun g => Finding.fromResults g (MappingEngine.new.map h g)⟩ := by
  have paired (results : List GroundingResult) : ((results.zip (MappingEngine.new.mapAll h results)).map fun x =>
      Finding.fromResults x.1 x.2) = results.map fun g => Finding.fromResults g (MappingEngine.new.map h g) := by
    rw [MappingEngine.mapAll,← List.map_prod_left_eq_zip,List.map_map]
    rfl
  simp only [report,bindOk,mapErrorOk,ValidatePattern.analyzeStages]
  constructor
  · rintro ⟨candidates,found,results,judged,made⟩
    cases made
    refine ⟨results,⟨candidates,found,judged⟩,?_⟩
    rw [paired,(mapMOk.mp judged).length_eq]
  · rintro ⟨results,⟨candidates,found,judged⟩,rfl⟩
    refine ⟨candidates,found,results,judged,?_⟩
    rw [paired,(mapMOk.mp judged).length_eq]
    rfl

theorem summaryUnique {s t : TraceSummary} (left : Summarizes doc tracePath s) (right : Summarizes doc tracePath t) :
    s = t := by
  obtain ⟨w,word,hash⟩ := left.hash
  obtain ⟨w',word',hash'⟩ := right.hash
  obtain ⟨n,number,block⟩ := left.blockNumber
  obtain ⟨n',number',block'⟩ := right.blockNumber
  obtain ⟨i,id,chain⟩ := left.chainId
  obtain ⟨i',id',chain'⟩ := right.chainId
  cases Except.ok.inj (word.symm.trans word')
  cases Except.ok.inj (number.symm.trans number')
  cases Except.ok.inj (id.symm.trans id')
  exact TraceSummary.ext (left.tracePath.trans right.tracePath.symm) (hash.trans hash'.symm)
    (block.trans block'.symm) (chain.trans chain'.symm) (left.calls.trans right.calls.symm)
    (left.storageChanges.trans right.storageChanges.symm) (left.logs.trans right.logs.symm)
    (left.transfers.trans right.transfers.symm)

theorem findingUnique : Relator.RightUnique (FindingOf patterns) := by
  intro g f f' left right
  obtain ⟨p,own,family,severity,lines⟩ := left.pattern
  obtain ⟨p',own',family',severity',lines'⟩ := right.pattern
  cases Option.some.inj (own.symm.trans own')
  exact Finding.ext (left.identity.1.trans right.identity.1.symm) (left.identity.2.trans right.identity.2.symm)
    (family.trans family'.symm) (severity.trans severity'.symm) (left.candidate.trans right.candidate.symm)
    (left.status.trans right.status.symm) (left.required.1.trans right.required.1.symm)
    (left.required.2.trans right.required.2.symm) (left.optional.1.trans right.optional.1.symm)
    (left.optional.2.trans right.optional.2.symm) (left.explanation.trans right.explanation.symm)
    (left.abstainReasons.trans right.abstainReasons.symm) (lines.trans lines'.symm)

theorem reportedUnique {r r' : AnalyzeReport} (left : Reported doc tracePath patterns results r)
    (right : Reported doc tracePath patterns results r') : r = r' :=
  AnalyzeReport.ext (summaryUnique left.trace right.trace) (left.patternsRun.trans right.patternsRun.symm)
    (left.candidateCount.trans right.candidateCount.symm)
    (findingUnique.forall₂ left.findings right.findings)

theorem reportReported {r : AnalyzeReport} (ingested : ingest checks (.ok doc) source = some (.ok trace)) :
    report h tracePath trace patterns = .ok r ↔ ∃ results, Cli.analyze h trace patterns = .ok results ∧
      Reported doc tracePath patterns results r := by
  have made {results : List GroundingResult} (analyzed : Cli.analyze h trace patterns = .ok results) :
      Reported doc tracePath patterns results ⟨summaryOf tracePath trace,patterns.length,results.length,
        results.map fun g => Finding.fromResults g (MappingEngine.new.map h g)⟩ := by
    refine ⟨summarized ingested,rfl,rfl,?_⟩
    rw [List.forall₂_map_right_iff,List.forall₂_same]
    exact fun g mem => findingMade analyzed mem
  rw [reportMade]
  constructor
  · rintro ⟨results,analyzed,rfl⟩
    exact ⟨results,analyzed,made analyzed⟩
  · rintro ⟨results,analyzed,reported⟩
    exact ⟨results,analyzed,reportedUnique reported (made analyzed)⟩

theorem reportExact (u : UnicodeClasses) (checks : OverflowChecks) (h : HashOrder) (display : PathBuf → String)
    (tracePath patternsPath : PathBuf) (format : Format) (decoded : Except IngestionError RawTraceDocument)
    (located : Located) (r : AnalyzeReport) :
    run u checks h display tracePath patternsPath format decoded located = some (.ok r) ↔ format ≠ .csv ∧
      ∃ doc trace patterns results, decoded = .ok doc ∧
        ingest checks decoded (provenance display tracePath) = some (.ok trace) ∧
        loadPatterns u display patternsPath located = some (.ok patterns) ∧
        Cli.analyze h trace patterns = .ok results ∧ Reported doc (display tracePath) patterns results r := by
  unfold run
  by_cases csv : format = .csv
  · simp [csv]
  rw [if_neg csv]
  simp only [ne_eq,csv,not_false_eq_true,true_and]
  constructor
  · intro ran
    obtain ⟨ingested,read,rest⟩ := Option.bind_eq_some_iff.mp ran
    cases ingested with
    | error e => cases e <;> cases rest
    | ok trace =>
      obtain ⟨loading,loaded,rest⟩ := Option.bind_eq_some_iff.mp rest
      cases loading with
      | error e => cases e <;> cases rest
      | ok patterns =>
        obtain ⟨doc,given⟩ : ∃ doc, decoded = .ok doc := by
          cases decoded with
          | error e => cases read
          | ok doc => exact ⟨doc,rfl⟩
        rw [given] at read
        obtain ⟨results,analyzed,reported⟩ := (reportReported read).mp (raiseOk.mp (Option.some.inj rest))
        exact ⟨doc,trace,patterns,results,given,given ▸ read,loaded,analyzed,reported⟩
  · rintro ⟨doc,trace,patterns,results,rfl,read,loaded,analyzed,reported⟩
    have made : report h (display tracePath) trace patterns = .ok r :=
      (reportReported read).mpr ⟨results,analyzed,reported⟩
    simp [read,loaded,made,raise]

end
end Analyze
end RootCause.Cli
