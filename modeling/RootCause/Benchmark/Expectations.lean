import RootCause.Benchmark.Runner
import RootCause.Matcher.Candidates

/-! Expectations against the results they are meant for. The verdict on a case looks from
its results to the expectations, the first one with the pattern's id; what no result asks
for is left out of it. -/
namespace RootCause.Benchmark
open Library FactModel Dsl Matcher Ingestion

def Met (case : BenchmarkCase) (r : CaseResult) : Prop :=
  ∀ e ∈ case.expected, ∃ result ∈ r.patternResults, result.patternId = e.patternId ∧
    result.expected = some e.expected ∧ result.actual = e.expected

/- Every expectation names a pattern of the case, and no two of them disagree. -/
structure Heeded (case : BenchmarkCase) : Prop where
  named : ∀ e ∈ case.expected, ∃ p ∈ case.patterns, p.id = e.patternId
  agree : ∀ e ∈ case.expected, ∀ e' ∈ case.expected, e.patternId = e'.patternId → e.expected = e'.expected

theorem expectedForMem {expected : List ExpectedFinding} {id : PatternId} {outcome : PatternOutcome}
    (found : expectedFor expected id = some outcome) :
    ∃ e ∈ expected, e.patternId = id ∧ e.expected = outcome := by
  obtain ⟨e,first,rfl⟩ := Option.map_eq_some_iff.mp found
  exact ⟨e,List.mem_of_find?_eq_some first,by simpa using List.find?_some first,rfl⟩

theorem expectedForSome {expected : List ExpectedFinding} {e : ExpectedFinding} (mem : e ∈ expected) :
    ∃ outcome, expectedFor expected e.patternId = some outcome := by
  unfold expectedFor
  cases first : expected.find? fun x => x.patternId = e.patternId with
  | none => exact absurd (List.find?_eq_none.mp first e mem) (by simp)
  | some x => exact ⟨x.expected,rfl⟩

section
variable {checks : OverflowChecks} {h : HashOrder} {timings : StageTimings} {case : BenchmarkCase}
  {r : CaseResult}

theorem passedRun (ran : runCase checks h timings case = some (.ok r)) (passed : r.passed = true) :
    ∃ trace, (∀ p ∈ case.patterns, ∃ result ∈ r.patternResults, ResultFor h case trace p result) ∧
      (∀ result ∈ r.patternResults, ∃ p ∈ case.patterns, ResultFor h case trace p result) ∧
      ∀ result ∈ r.patternResults, ∀ outcome ∈ result.expected, result.actual = outcome := by
  obtain ⟨clean,all⟩ := Bool.and_eq_true_iff.mp passed
  obtain ⟨ingested,_,made⟩ := Option.map_eq_some_iff.mp ran
  cases ingested with
  | error failure =>
    cases failure with
    | panicked message => cases made
    | error e =>
      cases made
      contradiction
  | ok trace =>
    cases made
    have errorless : (runPatterns h case trace).caseErrors = [] := by
      by_contra some
      simp [some] at clean
    refine ⟨trace,?_,?_,?_⟩
    · intro p mem
      obtain ⟨result,found⟩ := runPatternsClean.mp errorless p mem
      refine ⟨result,?_,runPatternOk found⟩
      rw [runPatternsResults]
      exact List.mem_filterMap.mpr ⟨p,mem,toOptionOk.mpr found⟩
    · intro result mem
      rw [runPatternsResults] at mem
      obtain ⟨p,inside,found⟩ := List.mem_filterMap.mp mem
      exact ⟨p,inside,runPatternOk (toOptionOk.mp found)⟩
    · intro result mem outcome given
      have scored := List.all_eq_true.mp all result mem
      rw [PatternResult.matchesExpectation,Option.mem_def.mp given] at scored
      exact (by simpa using scored : outcome = result.actual).symm

theorem passedMetIff (ran : runCase checks h timings case = some (.ok r)) (passed : r.passed = true) :
    Met case r ↔ Heeded case := by
  obtain ⟨trace,covered,own,reached⟩ := passedRun ran passed
  constructor
  · intro met
    have first (e : ExpectedFinding) (mem : e ∈ case.expected) :
        ∃ p ∈ case.patterns, p.id = e.patternId ∧ expectedFor case.expected e.patternId = some e.expected := by
      obtain ⟨result,inside,id,expected,_⟩ := met e mem
      obtain ⟨p,listed,made⟩ := own result inside
      have same : p.id = e.patternId := made.patternId.symm.trans id
      exact ⟨p,listed,same,by rw [← same,← made.expected,expected]⟩
    refine ⟨?_,?_⟩
    · intro e mem
      obtain ⟨p,listed,same,_⟩ := first e mem
      exact ⟨p,listed,same⟩
    · intro e mem e' mem' same
      obtain ⟨_,_,_,one⟩ := first e mem
      obtain ⟨_,_,_,other⟩ := first e' mem'
      exact Option.some.inj (one.symm.trans (same ▸ other))
  · intro heeded e mem
    obtain ⟨p,listed,same⟩ := heeded.named e mem
    obtain ⟨result,inside,made⟩ := covered p listed
    obtain ⟨outcome,found⟩ := expectedForSome mem
    obtain ⟨e',mem',id',rfl⟩ := expectedForMem found
    have expected : result.expected = some e.expected := by
      rw [made.expected,same,found,heeded.agree e mem e' mem' id'.symm]
    exact ⟨result,inside,made.patternId.trans same,expected,reached result inside _ expected⟩

end

set_option maxRecDepth 4000

def writeSource : String := "pattern p version 1 \x7b family: F severity: Low evidence \x7b
  required a: storage(changed: true) \x7d constraint: a \x7d"

def writingCase (p : CompiledPattern) (expected : List ExpectedFinding) : BenchmarkCase :=
  ⟨⟨"writes"⟩,"two writes",.prebuilt writingTrace,[p],expected⟩

def grounds (id : String) : ExpectedFinding := ⟨⟨id⟩,.grounded⟩

def writingResult (p : CompiledPattern) (expected : List ExpectedFinding) : Option CaseResult :=
  (runCase .on .insertion ⟨0,0,0,0⟩ (writingCase p expected)).bind Except.toOption

theorem writingRan {p : CompiledPattern} {expected : List ExpectedFinding} {r : CaseResult}
    (found : writingResult p expected = some r) :
    runCase .on .insertion ⟨0,0,0,0⟩ (writingCase p expected) = some (.ok r) := by
  obtain ⟨result,ran,ok⟩ := Option.bind_eq_some_iff.mp found
  rw [ran,toOptionOk.mp ok]

theorem passedMetWrites : ∃ p r, patternOf writeSource = some p ∧
    runCase .on .insertion ⟨0,0,0,0⟩ (writingCase p [grounds "p"]) = some (.ok r) ∧
    Met (writingCase p [grounds "p"]) r := by
  have run : ∃ p ∈ patternOf writeSource, p.id = ⟨"p"⟩ ∧
      ∃ r ∈ writingResult p [grounds "p"], r.passed = true := by
    rw [show writeSource = String.ofList _ from rfl,patternOfList]
    decide +kernel
  obtain ⟨p,source,named,r,found,passed⟩ := run
  refine ⟨p,r,source,writingRan found,(passedMetIff (writingRan found) passed).mpr ⟨?_,?_⟩⟩
  · intro e mem
    cases List.mem_singleton.mp mem
    exact ⟨p,List.mem_singleton_self p,named⟩
  · intro e mem e' mem' _
    rw [List.mem_singleton.mp mem,List.mem_singleton.mp mem']

def unheeded : List ExpectedFinding := [grounds "p",grounds "q",⟨⟨"p"⟩,.noMatch⟩]

theorem unheededPasses : ∃ p r, patternOf writeSource = some p ∧
    runCase .on .insertion ⟨0,0,0,0⟩ (writingCase p unheeded) = some (.ok r) ∧ r.passed = true ∧
    ¬ Met (writingCase p unheeded) r := by
  have run : ∃ p ∈ patternOf writeSource, ∃ r ∈ writingResult p unheeded, r.passed = true ∧
      r.patternResults.map PatternResult.patternId = [⟨"p"⟩] := by
    rw [show writeSource = String.ofList _ from rfl,patternOfList]
    decide +kernel
  obtain ⟨p,source,r,found,passed,ids⟩ := run
  refine ⟨p,r,source,writingRan found,passed,?_⟩
  intro met
  obtain ⟨result,inside,id,_⟩ := met (grounds "q") (by simp [writingCase,unheeded])
  have listed := List.mem_map_of_mem (f := PatternResult.patternId) inside
  rw [ids,id] at listed
  exact absurd listed (by decide)

end RootCause.Benchmark
