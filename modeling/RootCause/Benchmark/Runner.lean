import RootCause.Benchmark.Errors

/-! Benchmark cases and their runs: the trace of a case is ingested or given, every
pattern is matched and grounded by itself, and a failure is recorded on the result. What
loading and decoding a source gives, and what the clock measures, are arguments. -/
namespace RootCause.Benchmark
open Library FactModel Dsl Matcher Grounding Ingestion

structure CaseId where
  text : String
  deriving DecidableEq, Repr

inductive PatternOutcome where
  | grounded
  | abstain
  | ungrounded
  | noMatch
  deriving DecidableEq, Repr

def PatternOutcome.fromGroundingStatus : GroundingStatus → PatternOutcome
  | .grounded => .grounded
  | .abstain => .abstain
  | .ungrounded => .ungrounded

def PatternOutcome.strongest : PatternOutcome → PatternOutcome → PatternOutcome
  | .grounded, _ => .grounded
  | _, .grounded => .grounded
  | .abstain, _ => .abstain
  | _, .abstain => .abstain
  | .ungrounded, .ungrounded => .ungrounded
  | .noMatch, other => other
  | this, .noMatch => this

def PatternOutcome.display : PatternOutcome → String
  | .grounded => "grounded"
  | .abstain => "abstain"
  | .ungrounded => "ungrounded"
  | .noMatch => "no-match"

structure ExpectedFinding where
  patternId : PatternId
  expected : PatternOutcome
  deriving DecidableEq, Repr

inductive TraceInput where
  | fromSource (decoded : Except IngestionError RawTraceDocument) (provenanceLabel : String)
  | prebuilt (trace : Trace)

structure BenchmarkCase where
  id : CaseId
  description : String
  traceInput : TraceInput
  patterns : List CompiledPattern
  expected : List ExpectedFinding

def BenchmarkCase.provenance (case : BenchmarkCase) : TraceSource :=
  match case.traceInput with
  | .fromSource _ provenanceLabel => .archiveNodeRpc provenanceLabel
  | .prebuilt _ => .archiveNodeRpc "prebuilt-fixture"

/- Durations in nanoseconds. -/
structure StageTimings where
  ingestion : Nat
  matching : Nat
  grounding : Nat
  taxonomy : Nat
  deriving DecidableEq, Repr

structure PatternResult where
  patternId : PatternId
  patternVersion : PatternVersion
  candidateCount : Nat
  actual : PatternOutcome
  expected : Option PatternOutcome
  groundingResults : List GroundingResult
  deriving DecidableEq, Repr

def PatternResult.matchesExpectation (r : PatternResult) : Option Bool :=
  r.expected.map fun expected => expected = r.actual

structure CaseResult where
  caseId : CaseId
  description : String
  patternResults : List PatternResult
  timings : StageTimings
  error : Option String
  deriving DecidableEq, Repr

def CaseResult.passed (r : CaseResult) : Bool :=
  r.error.isNone && r.patternResults.all fun p => p.matchesExpectation.getD true

def expectedFor (expected : List ExpectedFinding) (patternId : PatternId) : Option PatternOutcome :=
  (expected.find? fun e => e.patternId = patternId).map ExpectedFinding.expected

def caseTrace (checks : OverflowChecks) (case : BenchmarkCase) :
    Option (Except (Failure IngestionError) Trace) :=
  match case.traceInput with
  | .fromSource decoded _ => ingest checks decoded case.provenance
  | .prebuilt trace => some (.ok trace)

def runPattern (h : HashOrder) (case : BenchmarkCase) (trace : Trace) (pattern : CompiledPattern) :
    Except BenchmarkError PatternResult :=
  match findCandidates h trace (.build trace) pattern with
  | .error e => .error (.matching case.id.text pattern.id.text e)
  | .ok candidates =>
    if candidates.isEmpty then
      .ok ⟨pattern.id,pattern.version,0,.noMatch,expectedFor case.expected pattern.id,[]⟩
    else match groundAll h candidates trace [pattern] with
      | .error e => .error (.grounding case.id.text pattern.id.text e)
      | .ok grounded =>
        let actual := (grounded.map fun g => PatternOutcome.fromGroundingStatus g.status).foldl
          PatternOutcome.strongest .noMatch
        .ok ⟨pattern.id,pattern.version,candidates.length,actual,expectedFor case.expected pattern.id,
          grounded⟩

structure Progress where
  patternResults : List PatternResult
  caseErrors : List String
  deriving DecidableEq, Repr

def Progress.record (s : Progress) : Except BenchmarkError PatternResult → Progress
  | .ok result => { s with patternResults := s.patternResults ++ [result] }
  | .error e => { s with caseErrors := s.caseErrors ++ [e.display] }

def runPatterns (h : HashOrder) (case : BenchmarkCase) (trace : Trace) : Progress :=
  case.patterns.foldl (fun s pattern => s.record (runPattern h case trace pattern)) ⟨[],[]⟩

def runCase (checks : OverflowChecks) (h : HashOrder) (timings : StageTimings) (case : BenchmarkCase) :
    Option (Except (Failure BenchmarkError) CaseResult) :=
  (caseTrace checks case).map fun ingested => match ingested with
    | .error (.panicked message) => .error (.panicked message)
    | .error (.error e) => .ok ⟨case.id,case.description,[],timings,
        some (BenchmarkError.ingestion case.id.text e).display⟩
    | .ok trace =>
      let s := runPatterns h case trace
      .ok ⟨case.id,case.description,s.patternResults,timings,
        if s.caseErrors.isEmpty then none else some ("; ".intercalate s.caseErrors)⟩

section
variable {h : HashOrder} {case : BenchmarkCase} {trace : Trace}

theorem recordedResults (patterns : List CompiledPattern) (s : Progress) :
    (patterns.foldl (fun s pattern => s.record (runPattern h case trace pattern)) s).patternResults =
      s.patternResults ++ patterns.filterMap fun p => (runPattern h case trace p).toOption := by
  induction patterns generalizing s with
  | nil => simp
  | cons p rest ih =>
    rw [List.foldl_cons,ih]
    cases ran : runPattern h case trace p <;> simp [Progress.record,ran,Except.toOption]

theorem recordedErrors (patterns : List CompiledPattern) (s : Progress) :
    (patterns.foldl (fun s pattern => s.record (runPattern h case trace pattern)) s).caseErrors = [] ↔
      s.caseErrors = [] ∧ ∀ p ∈ patterns, ∃ result, runPattern h case trace p = .ok result := by
  induction patterns generalizing s with
  | nil => simp
  | cons p rest ih =>
    rw [List.foldl_cons,ih,List.forall_mem_cons]
    cases runPattern h case trace p <;> simp [Progress.record]

theorem runPatternsResults : (runPatterns h case trace).patternResults =
    case.patterns.filterMap fun p => (runPattern h case trace p).toOption := recordedResults _ _

theorem runPatternsClean : (runPatterns h case trace).caseErrors = [] ↔
    ∀ p ∈ case.patterns, ∃ result, runPattern h case trace p = .ok result :=
  (recordedErrors _ _).trans (and_iff_right rfl)

structure ResultFor (h : HashOrder) (case : BenchmarkCase) (trace : Trace) (p : CompiledPattern)
    (result : PatternResult) : Prop where
  patternId : result.patternId = p.id
  patternVersion : result.patternVersion = p.version
  expected : result.expected = expectedFor case.expected p.id
  candidates : ∃ cs, findCandidates h trace (.build trace) p = .ok cs ∧ result.candidateCount = cs.length ∧
    groundAll h cs trace [p] = .ok result.groundingResults
  actual : result.actual = (result.groundingResults.map fun g =>
    PatternOutcome.fromGroundingStatus g.status).foldl PatternOutcome.strongest .noMatch

theorem runPatternOk {p : CompiledPattern} {result : PatternResult}
    (ran : runPattern h case trace p = .ok result) : ResultFor h case trace p result := by
  unfold runPattern at ran
  split at ran
  · contradiction
  · rename_i cs found
    split at ran
    · rename_i empty
      cases ran
      rw [List.isEmpty_iff] at empty
      subst empty
      exact ⟨rfl,rfl,rfl,⟨[],found,rfl,rfl⟩,rfl⟩
    · split at ran
      · contradiction
      · rename_i grounded judged
        cases ran
        exact ⟨rfl,rfl,rfl,⟨cs,found,rfl,judged⟩,rfl⟩

end

end RootCause.Benchmark
