import RootCause.Library.Hash
import RootCause.Library.Tally
import RootCause.Benchmark.Runner

/-! The metrics of a run, collected in one pass over the case results: the matrix of all
scored results, the statistics of each pattern and those of each family, whose results are
recognized by the family of their first grounding result. The ratios are left out. -/
namespace RootCause.Benchmark
open Library FactModel Dsl Matcher Grounding

structure ConfusionMatrix where
  counts : HashMap (PatternOutcome × PatternOutcome) Nat
  deriving DecidableEq

namespace ConfusionMatrix

def empty : ConfusionMatrix := ⟨∅⟩

def get (m : ConfusionMatrix) (expected actual : PatternOutcome) : Nat :=
  (m.counts.lookup (expected,actual)).getD 0

def record (m : ConfusionMatrix) (expected actual : PatternOutcome) : ConfusionMatrix :=
  ⟨m.counts.insert (expected,actual) (m.get expected actual + 1)⟩

theorem getRecord (m : ConfusionMatrix) (expected actual e a : PatternOutcome) :
    (m.record expected actual).get e a =
      m.get e a + if expected = e ∧ actual = a then 1 else 0 := by
  by_cases same : expected = e ∧ actual = a
  · obtain ⟨rfl,rfl⟩ := same
    simp [record,get]
  · have apart : (e,a) ≠ (expected,actual) := by
      intro equal
      cases equal
      exact same ⟨rfl,rfl⟩
    simp [record,get,AList.lookup_insert_ne apart,same]

end ConfusionMatrix

structure BenchmarkMetrics where
  truePositives : Nat
  falsePositives : Nat
  falseNegatives : Nat
  trueNegatives : Nat
  deriving DecidableEq, Repr

def BenchmarkMetrics.record (m : BenchmarkMetrics) (expected actual : PatternOutcome) : BenchmarkMetrics :=
  match decide (expected = .grounded), decide (actual = .grounded) with
  | true, true => { m with truePositives := m.truePositives + 1 }
  | false, true => { m with falsePositives := m.falsePositives + 1 }
  | true, false => { m with falseNegatives := m.falseNegatives + 1 }
  | false, false => { m with trueNegatives := m.trueNegatives + 1 }

structure PatternStats where
  runs : Nat
  passed : Nat
  totalCandidates : Nat
  confusion : ConfusionMatrix
  deriving DecidableEq

structure FamilyStats where
  runs : Nat
  passed : Nat
  confusion : ConfusionMatrix
  deriving DecidableEq

structure FailureSummary where
  caseId : CaseId
  patternId : Option PatternId
  detail : String
  deriving DecidableEq, Repr

structure MetricsSummary where
  confusion : ConfusionMatrix
  overall : BenchmarkMetrics
  perPattern : List (PatternId × PatternStats)
  perFamily : List (PatternFamily × FamilyStats)
  failures : List FailureSummary
  deriving DecidableEq

def PatternStats.empty : PatternStats := ⟨0,0,0,.empty⟩
def FamilyStats.empty : FamilyStats := ⟨0,0,.empty⟩
def MetricsSummary.empty : MetricsSummary := ⟨.empty,⟨0,0,0,0⟩,[],[],[]⟩

def isPass (pr : PatternResult) : Bool := pr.matchesExpectation.getD true

def passes (pr : PatternResult) : Nat := if isPass pr then 1 else 0

def PatternStats.record (pr : PatternResult) (stats : PatternStats) : PatternStats :=
  { runs := stats.runs + 1
    passed := stats.passed + passes pr
    totalCandidates := stats.totalCandidates + pr.candidateCount
    confusion := match pr.expected with
      | some expected => stats.confusion.record expected pr.actual
      | none => stats.confusion }

def FamilyStats.record (expected : PatternOutcome) (pr : PatternResult) (stats : FamilyStats) : FamilyStats :=
  ⟨stats.runs + 1,stats.passed + passes pr,stats.confusion.record expected pr.actual⟩

def familyOf (pr : PatternResult) : Option PatternFamily :=
  pr.groundingResults.head?.map GroundingResult.patternFamily

def mismatch (caseId : CaseId) (pr : PatternResult) : FailureSummary :=
  ⟨caseId,some pr.patternId,"expected " ++ (pr.expected.map PatternOutcome.display).getD "n/a" ++
    ", got " ++ pr.actual.display⟩

/- The body of the inner loop. The position that the index holds for a key is that of its
entry in the table. -/
def recordResult (caseId : CaseId) (s : MetricsSummary) (pr : PatternResult) : MetricsSummary :=
  let s := { s with
    perPattern := upsert pr.patternId .empty (PatternStats.record pr) s.perPattern
    failures := if isPass pr then s.failures else s.failures ++ [mismatch caseId pr] }
  match pr.expected with
  | none => s
  | some expected => { s with
      confusion := s.confusion.record expected pr.actual
      overall := s.overall.record expected pr.actual
      -- The family is read off the first grounding result, so a miss has none.
      perFamily := match familyOf pr with
        | none => s.perFamily
        | some family => upsert family .empty (FamilyStats.record expected pr) s.perFamily }

def recordCase (s : MetricsSummary) (r : CaseResult) : MetricsSummary :=
  let s := match r.error with
    | some err => { s with failures := s.failures ++ [⟨r.caseId,none,err⟩] }
    | none => s
  r.patternResults.foldl (recordResult r.caseId) s

def compute (results : List CaseResult) : MetricsSummary := results.foldl recordCase .empty

structure Filed where
  family : PatternFamily
  expected : PatternOutcome
  result : PatternResult

def filed (pr : PatternResult) : Option Filed :=
  pr.expected.bind fun expected => (familyOf pr).map fun family => ⟨family,expected,pr⟩

def fileAll (events : List Filed) (table : List (PatternFamily × FamilyStats)) :
    List (PatternFamily × FamilyStats) :=
  tally .empty Filed.family (fun event => FamilyStats.record event.expected event.result) events table

theorem resultsFamilies (caseId : CaseId) (prs : List PatternResult) (s : MetricsSummary) :
    (prs.foldl (recordResult caseId) s).perFamily = fileAll (prs.filterMap filed) s.perFamily := by
  induction prs generalizing s with
  | nil => rfl
  | cons pr rest ih =>
    rw [List.foldl_cons,ih]
    unfold recordResult
    cases expected : pr.expected with
    | none =>
      rw [List.filterMap_cons_none (by simp [filed,expected])]
    | some outcome =>
      cases family : familyOf pr with
      | none => rw [List.filterMap_cons_none (by simp [filed,expected,family])]
      | some name =>
        rw [List.filterMap_cons_some (b := ⟨name,outcome,pr⟩) (by simp [filed,expected,family])]
        rfl

theorem caseFamilies (s : MetricsSummary) (r : CaseResult) :
    (recordCase s r).perFamily = fileAll (r.patternResults.filterMap filed) s.perFamily := by
  unfold recordCase
  cases r.error <;> exact resultsFamilies _ _ _

theorem fileAllAppend (first later : List Filed) (table : List (PatternFamily × FamilyStats)) :
    fileAll (first ++ later) table = fileAll later (fileAll first table) := List.foldl_append

theorem computeFamilies (results : List CaseResult) : (compute results).perFamily =
    fileAll ((results.flatMap CaseResult.patternResults).filterMap filed) [] := by
  have from' (s : MetricsSummary) : (results.foldl recordCase s).perFamily =
      fileAll ((results.flatMap CaseResult.patternResults).filterMap filed) s.perFamily := by
    induction results generalizing s with
    | nil => rfl
    | cons r rest ih =>
      rw [List.foldl_cons,ih,caseFamilies,List.flatMap_cons,List.filterMap_append,fileAllAppend]
  exact from' .empty

def InCell (e a : PatternOutcome) (pr : PatternResult) : Prop := pr.expected = some e ∧ pr.actual = a

instance (e a : PatternOutcome) : DecidablePred (InCell e a) := fun _ => inferInstanceAs (Decidable (_ ∧ _))

theorem recordedConfusion (caseId : CaseId) (s : MetricsSummary) (pr : PatternResult) (e a : PatternOutcome) :
    (recordResult caseId s pr).confusion.get e a =
      s.confusion.get e a + if InCell e a pr then 1 else 0 := by
  unfold recordResult
  cases expected : pr.expected with
  | none => simp [InCell,expected]
  | some outcome => simp only [ConfusionMatrix.getRecord,InCell,expected,Option.some.injEq]

theorem resultsConfusion (caseId : CaseId) (prs : List PatternResult) (s : MetricsSummary)
    (e a : PatternOutcome) : (prs.foldl (recordResult caseId) s).confusion.get e a =
      s.confusion.get e a + prs.countP fun pr => InCell e a pr := by
  induction prs generalizing s with
  | nil => rfl
  | cons pr rest ih =>
    rw [List.foldl_cons,ih,List.countP_cons,recordedConfusion]
    simp only [decide_eq_true_eq]
    omega

theorem computeConfusion (results : List CaseResult) (e a : PatternOutcome) :
    (compute results).confusion.get e a =
      (results.flatMap CaseResult.patternResults).countP fun pr => InCell e a pr := by
  have from' (s : MetricsSummary) : (results.foldl recordCase s).confusion.get e a =
      s.confusion.get e a + (results.flatMap CaseResult.patternResults).countP fun pr => InCell e a pr := by
    induction results generalizing s with
    | nil => rfl
    | cons r rest ih =>
      have here : (recordCase s r).confusion.get e a =
          s.confusion.get e a + r.patternResults.countP fun pr => InCell e a pr := by
        unfold recordCase
        cases r.error <;> exact resultsConfusion _ _ _ _ _
      rw [List.foldl_cons,ih,here,List.flatMap_cons,List.countP_append,Nat.add_assoc]
  rw [compute,from']
  exact Nat.zero_add _

end RootCause.Benchmark
