import Mathlib.Algebra.Order.BigOperators.Group.List
import RootCause.Benchmark.Csv
import RootCause.Benchmark.Metrics

/-! The run of a whole suite. Its case ids are checked before any case is run; after that a
case that fails leaves its mark on its own result alone. -/
namespace RootCause.Benchmark
open Library FactModel Matcher

structure BenchmarkSuite where
  name : String
  cases : List BenchmarkCase

/- The loop of `validate`; the set of the ids seen is a list. -/
def validateFrom (suiteName : String) (seen : List CaseId) : List BenchmarkCase → Except BenchmarkError Unit
  | [] => .ok ()
  | case :: rest =>
    if case.id ∈ seen then .error (.duplicateCaseId suiteName case.id.text)
    else validateFrom suiteName (case.id :: seen) rest

def BenchmarkSuite.validate (suite : BenchmarkSuite) : Except BenchmarkError Unit :=
  validateFrom suite.name [] suite.cases

namespace StageTimings

def zero : StageTimings := ⟨0,0,0,0⟩

def accumulate (t other : StageTimings) : StageTimings :=
  ⟨t.ingestion + other.ingestion,t.matching + other.matching,t.grounding + other.grounding,t.taxonomy + other.taxonomy⟩

end StageTimings

section
variable (checks : OverflowChecks) (h : HashOrder) (clock : Nat → StageTimings)

/- The cases in order; `clock` is what is measured for each of them. A panic ends the run. -/
def runCases : Nat → List BenchmarkCase → Option (Except (Failure BenchmarkError) (List CaseResult))
  | _, [] => some (.ok [])
  | n, case :: rest => do
    match ← runCase checks h (clock n) case with
    | .error e => some (.error e)
    | .ok result => (runCases (n + 1) rest).map fun later => do pure (result :: (← later))

def runSuite (suite : BenchmarkSuite) : Option (Except (Failure BenchmarkError) (List CaseResult)) :=
  match suite.validate with
  | .error e => some (.error (.error e))
  | .ok () => runCases checks h clock 0 suite.cases

structure SuiteReport extends BenchmarkReport where
  suiteName : String
  metrics : MetricsSummary
  totalTimings : StageTimings
  casesRun : Nat
  casesErrored : Nat

def addCase (s : StageTimings × Nat) (case : CaseResult) : StageTimings × Nat :=
  (s.1.accumulate case.timings,if case.error.isSome then s.2 + 1 else s.2)

def SuiteReport.build (suite : BenchmarkSuite) (caseResults : List CaseResult) : SuiteReport :=
  let (totalTimings,casesErrored) := caseResults.foldl addCase (.zero,0)
  ⟨⟨caseResults⟩,suite.name,compute caseResults,totalTimings,caseResults.length,casesErrored⟩

def SuiteReport.run (suite : BenchmarkSuite) : Option (Except (Failure BenchmarkError) SuiteReport) :=
  (runSuite checks h clock suite).map fun results => do pure (SuiteReport.build suite (← results))

end

def SuiteReport.casesPassed (report : SuiteReport) : Nat := (report.caseResults.filter CaseResult.passed).length

def RepeatsAt (cases : List BenchmarkCase) (case : BenchmarkCase) : Prop :=
  ∃ before after, cases = before ++ case :: after ∧ (before.map BenchmarkCase.id).Nodup ∧
    case.id ∈ before.map BenchmarkCase.id

section
variable {checks : OverflowChecks} {h : HashOrder} {clock : Nat → StageTimings} {suite : BenchmarkSuite}
  {case : BenchmarkCase} {results : List CaseResult}

theorem validateFromOutcome {before rest : List BenchmarkCase} {seen : List CaseId} {suiteName : String}
    (passed : ∀ id, id ∈ seen ↔ id ∈ before.map BenchmarkCase.id) (distinct : (before.map BenchmarkCase.id).Nodup) :
    (validateFrom suiteName seen rest = .ok () ∧ ((before ++ rest).map BenchmarkCase.id).Nodup) ∨
      ∃ case, RepeatsAt (before ++ rest) case ∧
        validateFrom suiteName seen rest = .error (.duplicateCaseId suiteName case.id.text) := by
  induction rest generalizing before seen with
  | nil => exact .inl ⟨rfl,by simpa using distinct⟩
  | cons case rest ih =>
    rw [validateFrom]
    by_cases again : case.id ∈ seen
    · exact .inr ⟨case,⟨before,rest,rfl,distinct,(passed _).mp again⟩,if_pos again⟩
    · rw [if_neg again]
      have longer : ∀ id, id ∈ case.id :: seen ↔ id ∈ (before ++ [case]).map BenchmarkCase.id := by
        intro id
        simp [passed,or_comm]
      have apart : ((before ++ [case]).map BenchmarkCase.id).Nodup := by
        rw [List.map_append,List.nodup_append]
        refine ⟨distinct,by simp,?_⟩
        intro id mem other same
        rw [List.map_singleton,List.mem_singleton] at same
        exact fun equal => again ((passed _).mpr (same ▸ equal ▸ mem))
      simpa [List.append_assoc] using ih longer apart

theorem repeatsIff : (∃ case, RepeatsAt suite.cases case) ↔ ¬ (suite.cases.map BenchmarkCase.id).Nodup := by
  constructor
  · rintro ⟨case,before,after,shape,_,again⟩ distinct
    rw [shape,List.map_append,List.map_cons,List.nodup_append] at distinct
    exact distinct.2.2 _ again _ List.mem_cons_self rfl
  · intro repeated
    rcases @validateFromOutcome [] suite.cases [] suite.name (by simp) (by simp) with ⟨_,distinct⟩ | ⟨case,first,_⟩
    · exact absurd distinct repeated
    · exact ⟨case,first⟩

theorem runCaseQuiet {timings : StageTimings} {e : BenchmarkError} :
    runCase checks h timings case ≠ some (.error (.error e)) := by
  intro failed
  obtain ⟨ingested,_,made⟩ := Option.map_eq_some_iff.mp failed
  split at made <;> cases made

theorem runCasesOk {n : Nat} {cases : List BenchmarkCase} : runCases checks h clock n cases = some (.ok results) ↔
    List.Forall₂ (fun x r => runCase checks h (clock x.2) x.1 = some (.ok r)) (cases.zipIdx n) results := by
  induction cases generalizing n results with
  | nil => cases results <;> simp [runCases]
  | cons case rest ih =>
    rw [runCases,Option.bind_eq_bind,Option.bind_eq_some_iff,List.zipIdx_cons]
    constructor
    · rintro ⟨first,ran,later⟩
      split at later
      · cases later
      · obtain ⟨done,tail,last⟩ := Option.map_eq_some_iff.mp later
        obtain ⟨others,rfl,joined⟩ := bindOk.mp last
        cases joined
        exact .cons ran (ih.mp tail)
    · intro each
      cases each with
      | cons ran tail =>
        refine ⟨_,ran,?_⟩
        simp only [ih.mpr tail,Option.map_some]
        rfl

theorem runCasesQuiet {n : Nat} {cases : List BenchmarkCase} {e : BenchmarkError} :
    runCases checks h clock n cases ≠ some (.error (.error e)) := by
  induction cases generalizing n with
  | nil => simp [runCases]
  | cons case rest ih =>
    intro failed
    rw [runCases,Option.bind_eq_bind,Option.bind_eq_some_iff] at failed
    obtain ⟨first,ran,later⟩ := failed
    split at later
    · cases later
      exact runCaseQuiet ran
    · obtain ⟨done,tail,last⟩ := Option.map_eq_some_iff.mp later
      cases done with
      | error e' =>
        cases last
        exact ih tail
      | ok _ => cases last

def Fails (checks : OverflowChecks) (h : HashOrder) (case : BenchmarkCase) : Prop :=
  (∃ e, caseTrace checks case = some (.error (.error e))) ∨
    ∃ trace, caseTrace checks case = some (.ok trace) ∧ ∃ p ∈ case.patterns, ∃ e, runPattern h case trace p = .error e

theorem erroredIff {timings : StageTimings} {r : CaseResult} (ran : runCase checks h timings case = some (.ok r)) :
    r.error.isSome = true ↔ Fails checks h case := by
  obtain ⟨ingested,traced,made⟩ := Option.map_eq_some_iff.mp ran
  split at made
  · cases made
  · cases made
    simp [Fails,traced]
  · rename_i trace
    cases made
    have failing : (runPatterns h case trace).caseErrors ≠ [] ↔
        ∃ p ∈ case.patterns, ∃ e, runPattern h case trace p = .error e := by
      rw [ne_eq,runPatternsClean]
      simp only [not_forall,exists_prop]
      refine exists_congr fun p => and_congr_right fun _ => ?_
      cases runPattern h case trace p <;> simp
    simp [Fails,traced,← failing]

theorem addedUp {s : StageTimings × Nat} : (results.foldl addCase s).2 =
      s.2 + (results.filter fun r => r.error.isSome).length ∧
    ∀ stage ∈ [StageTimings.ingestion,StageTimings.matching,StageTimings.grounding,StageTimings.taxonomy],
      stage (results.foldl addCase s).1 = stage s.1 + (results.map fun r => stage r.timings).sum := by
  induction results generalizing s with
  | nil => simp
  | cons r rest ih =>
    obtain ⟨count,total⟩ := @ih (addCase s r)
    constructor
    · rw [List.foldl_cons,count,addCase]
      cases errored : r.error.isSome
      · simp [errored]
      · simp [errored]
        omega
    · intro stage mem
      rw [List.foldl_cons,total stage mem,List.map_cons,List.sum_cons,← Nat.add_assoc]
      congr 1
      simp only [List.mem_cons,List.not_mem_nil,or_false] at mem
      rcases mem with rfl | rfl | rfl | rfl <;> rfl

/- The report of a run: the result of every case is what its own run gives, whatever the
others do, and the rest is computed from the results. -/
structure Reported (checks : OverflowChecks) (h : HashOrder) (clock : Nat → StageTimings) (suite : BenchmarkSuite)
    (report : SuiteReport) : Prop where
  suiteName : report.suiteName = suite.name
  each : List.Forall₂ (fun x r => runCase checks h (clock x.2) x.1 = some (.ok r)) suite.cases.zipIdx report.caseResults
  metrics : report.metrics = compute report.caseResults
  totals : ∀ stage ∈ [StageTimings.ingestion,StageTimings.matching,StageTimings.grounding,StageTimings.taxonomy],
    stage report.totalTimings = (report.caseResults.map fun r => stage r.timings).sum
  casesRun : report.casesRun = suite.cases.length
  casesErrored : report.casesErrored = (report.caseResults.filter fun r => r.error.isSome).length

theorem builtReported (each : List.Forall₂ (fun x r => runCase checks h (clock x.2) x.1 = some (.ok r))
    suite.cases.zipIdx results) : Reported checks h clock suite (SuiteReport.build suite results) := by
  obtain ⟨count,total⟩ := @addedUp results (.zero,0)
  refine ⟨rfl,each,rfl,?_,?_,?_⟩
  · intro stage mem
    have summed := total stage mem
    have nothing : stage StageTimings.zero = 0 := by
      simp only [List.mem_cons,List.not_mem_nil,or_false] at mem
      rcases mem with rfl | rfl | rfl | rfl <;> rfl
    rwa [nothing,Nat.zero_add] at summed
  · have same := each.length_eq
    rw [List.length_zipIdx] at same
    exact same.symm
  · rwa [Nat.zero_add] at count

theorem reportedUnique {report : SuiteReport} (reported : Reported checks h clock suite report) :
    SuiteReport.build suite report.caseResults = report := by
  have built := builtReported reported.each
  have time : (SuiteReport.build suite report.caseResults).totalTimings = report.totalTimings := by
    have stage (f : StageTimings → Nat)
        (mem : f ∈ [StageTimings.ingestion,StageTimings.matching,StageTimings.grounding,StageTimings.taxonomy]) :
        f (SuiteReport.build suite report.caseResults).totalTimings = f report.totalTimings :=
      (built.totals f mem).trans (reported.totals f mem).symm
    have ingestion := stage StageTimings.ingestion (by simp)
    have matching := stage StageTimings.matching (by simp)
    have grounding := stage StageTimings.grounding (by simp)
    have taxonomy := stage StageTimings.taxonomy (by simp)
    cases shown : report.totalTimings
    cases built : (SuiteReport.build suite report.caseResults).totalTimings
    rw [shown,built] at ingestion matching grounding taxonomy
    simp_all
  obtain ⟨⟨caseResults⟩,suiteName,metrics,totalTimings,casesRun,casesErrored⟩ := report
  have errored := built.casesErrored.trans reported.casesErrored.symm
  have run := built.casesRun.trans reported.casesRun.symm
  have named := built.suiteName.trans reported.suiteName.symm
  have scored := built.metrics.trans reported.metrics.symm
  simp only [SuiteReport.build] at time errored run named scored ⊢
  rw [time,errored,run,named,scored]

theorem runSuiteOk : runSuite checks h clock suite = some (.ok results) ↔ (suite.cases.map BenchmarkCase.id).Nodup ∧
    List.Forall₂ (fun x r => runCase checks h (clock x.2) x.1 = some (.ok r)) suite.cases.zipIdx results := by
  rcases @validateFromOutcome [] suite.cases [] suite.name (by simp) (by simp) with ⟨valid,distinct⟩ | ⟨case,first,refused⟩
  · rw [List.nil_append] at distinct
    rw [runSuite,BenchmarkSuite.validate,valid,← runCasesOk]
    exact (and_iff_right distinct).symm
  · have repeated := repeatsIff.mp ⟨case,first⟩
    simp [runSuite,BenchmarkSuite.validate,refused,repeated]

theorem runSuiteError {e : BenchmarkError} : runSuite checks h clock suite = some (.error (.error e)) ↔
    suite.validate = .error e := by
  rw [runSuite]
  cases suite.validate with
  | error e' => simp
  | ok _ => simp [runCasesQuiet]

theorem validateError {e : BenchmarkError} (refused : suite.validate = .error e) :
    ∃ case, RepeatsAt suite.cases case ∧ e = .duplicateCaseId suite.name case.id.text := by
  rcases @validateFromOutcome [] suite.cases [] suite.name (by simp) (by simp) with ⟨valid,_⟩ | ⟨case,first,same⟩
  · rw [BenchmarkSuite.validate,valid] at refused
    cases refused
  · rw [BenchmarkSuite.validate,same] at refused
    cases refused
    exact ⟨case,first,rfl⟩

theorem reportError {e : BenchmarkError} : SuiteReport.run checks h clock suite = some (.error (.error e)) ↔
    suite.validate = .error e := by
  rw [← @runSuiteError checks h clock,SuiteReport.run,Option.map_eq_some_iff]
  constructor
  · rintro ⟨done,ran,same⟩
    cases done with
    | error failure =>
      cases same
      exact ran
    | ok _ => cases same
  · intro ran
    exact ⟨_,ran,rfl⟩

theorem reportOk {report : SuiteReport} : SuiteReport.run checks h clock suite = some (.ok report) ↔
    (suite.cases.map BenchmarkCase.id).Nodup ∧ Reported checks h clock suite report := by
  rw [SuiteReport.run,Option.map_eq_some_iff]
  constructor
  · rintro ⟨done,ran,same⟩
    obtain ⟨results,rfl,built⟩ := bindOk.mp same
    cases built
    obtain ⟨distinct,each⟩ := runSuiteOk.mp ran
    exact ⟨distinct,builtReported each⟩
  · rintro ⟨distinct,reported⟩
    refine ⟨_,runSuiteOk.mpr ⟨distinct,reported.each⟩,?_⟩
    exact congrArg Except.ok (reportedUnique reported)

theorem suiteReported (checks : OverflowChecks) (h : HashOrder) (clock : Nat → StageTimings) (suite : BenchmarkSuite) :
    ((∃ e, SuiteReport.run checks h clock suite = some (.error (.error e))) ↔
      ¬ (suite.cases.map BenchmarkCase.id).Nodup) ∧
    (∀ e, SuiteReport.run checks h clock suite = some (.error (.error e)) →
      ∃ case, RepeatsAt suite.cases case ∧ e = .duplicateCaseId suite.name case.id.text) ∧
    (∀ report, SuiteReport.run checks h clock suite = some (.ok report) ↔
      (suite.cases.map BenchmarkCase.id).Nodup ∧ Reported checks h clock suite report) ∧
    ∀ report, SuiteReport.run checks h clock suite = some (.ok report) →
      report.casesPassed + report.casesErrored ≤ report.casesRun ∧
      List.Forall₂ (fun case r => r.error.isSome = true ↔ Fails checks h case) suite.cases report.caseResults := by
  simp only [reportError,reportOk]
  refine ⟨?_,fun e refused => validateError refused,fun _ => trivial,?_⟩
  · rw [← repeatsIff]
    constructor
    · rintro ⟨e,refused⟩
      obtain ⟨case,first,_⟩ := validateError refused
      exact ⟨case,first⟩
    · intro repeated
      rcases @validateFromOutcome [] suite.cases [] suite.name (by simp) (by simp) with ⟨_,distinct⟩ | ⟨case,_,refused⟩
      · exact absurd distinct (repeatsIff.mp repeated)
      · exact ⟨_,refused⟩
  · rintro report ⟨_,reported⟩
    constructor
    · have passedClean : (report.caseResults.filter CaseResult.passed).length ≤
          (report.caseResults.filter fun r => !r.error.isSome).length := by
        rw [← List.countP_eq_length_filter,← List.countP_eq_length_filter]
        refine List.countP_mono_left fun r _ passed => ?_
        have clean := (Bool.and_eq_true _ _ ▸ passed : r.error.isNone = true ∧ _).1
        simpa [Option.isNone_iff_eq_none] using clean
      have parts := List.length_eq_length_filter_add (l := report.caseResults) fun r => r.error.isSome
      have same := reported.each.length_eq
      rw [List.length_zipIdx] at same
      rw [SuiteReport.casesPassed,reported.casesErrored,reported.casesRun]
      omega
    · rw [← List.zipIdx_map_fst 0 suite.cases,List.forall₂_map_left_iff]
      exact reported.each.imp fun _ _ ran => erroredIff ran

end
end RootCause.Benchmark
