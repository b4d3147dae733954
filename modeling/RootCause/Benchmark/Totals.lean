import RootCause.Benchmark.Metrics

/-! The accounts of a run: what the one pass over the results adds to the matrices, to the
table of the patterns and to the list of failures, against the results themselves. -/
namespace RootCause.Benchmark
open Library FactModel Dsl Matcher Grounding

def ConfusionMatrix.total (m : ConfusionMatrix) : Nat := m.counts.values.sum

theorem ConfusionMatrix.recordTotal (m : ConfusionMatrix) (expected actual : PatternOutcome) :
    (m.record expected actual).total = m.total + 1 := by
  have exchanged : (m.record expected actual).total + m.get expected actual =
      m.total + (m.get expected actual + 1) := valuesInsert m.counts (expected,actual) _
  omega

def BenchmarkMetrics.scored (m : BenchmarkMetrics) : Nat :=
  m.truePositives + m.falsePositives + m.trueNegatives + m.falseNegatives

theorem BenchmarkMetrics.recordScored (m : BenchmarkMetrics) (expected actual : PatternOutcome) :
    (m.record expected actual).scored = m.scored + 1 := by
  unfold record scored
  split <;> dsimp only <;> omega

def missed (pr : PatternResult) : Bool := pr.expected.any fun expected => expected ≠ pr.actual

theorem isPassMissed (pr : PatternResult) : isPass pr = !missed pr := by
  unfold isPass missed PatternResult.matchesExpectation
  cases pr.expected <;> simp

def caseFailures (r : CaseResult) : List FailureSummary :=
  (r.error.map fun err => ⟨r.caseId,none,err⟩).toList ++ (r.patternResults.filter missed).map (mismatch r.caseId)

/- A summary accounts for the results that it was computed from: each scored one in one
bucket and one cell, each under the entry of its pattern, and nothing but the failures
that are due on the list of failures. -/
structure Accounts (prs : List PatternResult) (due : List FailureSummary) (s : MetricsSummary) : Prop where
  buckets : s.overall.truePositives + s.overall.falsePositives + s.overall.trueNegatives +
    s.overall.falseNegatives = s.confusion.total
  total : s.confusion.total = prs.countP fun pr => pr.expected.isSome
  cells : ∀ e a, s.confusion.get e a = (s.perPattern.map fun p => p.2.confusion.get e a).sum
  once : (s.perPattern.map Prod.fst).Nodup
  listed : ∀ id, id ∈ s.perPattern.map Prod.fst ↔ ∃ pr ∈ prs, pr.patternId = id
  runs : (s.perPattern.map fun p => p.2.runs).sum = prs.length
  failures : s.failures = due

section
variable {prs : List PatternResult} {due : List FailureSummary} {s : MetricsSummary}

theorem recordedTable (caseId : CaseId) (pr : PatternResult) : (recordResult caseId s pr).perPattern =
    upsert pr.patternId .empty (PatternStats.record pr) s.perPattern := by
  unfold recordResult
  cases pr.expected <;> rfl

theorem recordedFailures (caseId : CaseId) (pr : PatternResult) : (recordResult caseId s pr).failures =
    s.failures ++ if missed pr then [mismatch caseId pr] else [] := by
  have same : (recordResult caseId s pr).failures =
      if isPass pr then s.failures else s.failures ++ [mismatch caseId pr] := by
    unfold recordResult
    cases pr.expected <;> rfl
  rw [same,isPassMissed]
  cases missed pr <;> simp

theorem recordedOverall (caseId : CaseId) (pr : PatternResult) :
    (recordResult caseId s pr).overall.scored = s.overall.scored + (if pr.expected.isSome then 1 else 0) ∧
      (recordResult caseId s pr).confusion.total = s.confusion.total + if pr.expected.isSome then 1 else 0 := by
  unfold recordResult
  cases pr.expected with
  | none => exact ⟨rfl,rfl⟩
  | some outcome => exact ⟨BenchmarkMetrics.recordScored _ outcome pr.actual,
      ConfusionMatrix.recordTotal _ outcome pr.actual⟩

theorem statsRuns (pr : PatternResult) (stats : PatternStats) :
    (PatternStats.record pr stats).runs = stats.runs + 1 := rfl

theorem statsCell (pr : PatternResult) (e a : PatternOutcome) (stats : PatternStats) :
    (PatternStats.record pr stats).confusion.get e a =
      stats.confusion.get e a + if InCell e a pr then 1 else 0 := by
  unfold PatternStats.record
  cases expected : pr.expected with
  | none => simp [InCell,expected]
  | some outcome => simp only [ConfusionMatrix.getRecord,InCell,expected,Option.some.injEq]

theorem resultAccounts (accounts : Accounts prs due s) (caseId : CaseId) (pr : PatternResult) :
    Accounts (prs ++ [pr]) (due ++ if missed pr then [mismatch caseId pr] else [])
      (recordResult caseId s pr) := by
  obtain ⟨scored,total⟩ := recordedOverall (s := s) caseId pr
  have balanced : s.overall.scored = s.confusion.total := accounts.buckets
  constructor
  · show BenchmarkMetrics.scored _ = _
    rw [scored,total,balanced]
  · rw [total,accounts.total,List.countP_append,List.countP_singleton]
  · intro e a
    rw [recordedConfusion,accounts.cells,recordedTable,
      upsertSum (fun stats : PatternStats => stats.confusion.get e a) (statsCell pr e a) rfl]
  · rw [recordedTable]
    exact upsertDistinct accounts.once
  · intro id
    rw [recordedTable,memUpsert,accounts.listed]
    simp [or_and_right,exists_or]
  · rw [recordedTable,upsertSum PatternStats.runs (statsRuns pr) rfl,accounts.runs,List.length_append]
    rfl
  · rw [recordedFailures,accounts.failures]

theorem resultsAccounts (accounts : Accounts prs due s) (caseId : CaseId) (more : List PatternResult) :
    Accounts (prs ++ more) (due ++ (more.filter missed).map (mismatch caseId))
      (more.foldl (recordResult caseId) s) := by
  induction more generalizing prs due s with
  | nil => simpa using accounts
  | cons pr rest ih =>
    have next := ih (resultAccounts accounts caseId pr)
    rw [List.append_assoc,List.append_assoc] at next
    rw [List.foldl_cons,List.filter_cons]
    cases outcome : missed pr <;> rw [outcome] at next <;> exact next

theorem caseAccounts (accounts : Accounts prs due s) (r : CaseResult) :
    Accounts (prs ++ r.patternResults) (due ++ caseFailures r) (recordCase s r) := by
  unfold recordCase caseFailures
  rw [← List.append_assoc]
  refine resultsAccounts ?_ r.caseId r.patternResults
  cases error : r.error with
  | none => simpa using accounts
  | some err => exact ⟨accounts.buckets,accounts.total,accounts.cells,accounts.once,accounts.listed,
      accounts.runs,congrArg (fun before => before ++ [(⟨r.caseId,none,err⟩ : FailureSummary)]) accounts.failures⟩

end

theorem emptyAccounts : Accounts [] [] .empty := by
  constructor <;> simp [MetricsSummary.empty,ConfusionMatrix.total,ConfusionMatrix.empty,
    ConfusionMatrix.get,HashMap.values]

theorem metricsAccounted (results : List CaseResult) : Accounts (results.flatMap CaseResult.patternResults)
    (results.flatMap caseFailures) (compute results) := by
  have from' {prs : List PatternResult} {due : List FailureSummary} {s : MetricsSummary}
      (accounts : Accounts prs due s) : Accounts (prs ++ results.flatMap CaseResult.patternResults)
        (due ++ results.flatMap caseFailures) (results.foldl recordCase s) := by
    induction results generalizing prs due s with
    | nil => simpa using accounts
    | cons r rest ih =>
      have next := ih (caseAccounts accounts r)
      rwa [List.append_assoc,List.append_assoc] at next
  exact from' emptyAccounts

end RootCause.Benchmark
