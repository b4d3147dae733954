import RootCause.Benchmark.Metrics
import RootCause.Benchmark.Expectations
import RootCause.Grounding.Status

/-! The statistics of the families against the results of their patterns. A family is
recognized by a grounding result and counted with an expectation, so what the metrics
leave out are the results without a candidate and those without an expectation. -/
namespace RootCause.Benchmark
open Library FactModel Dsl Matcher Grounding Ingestion

def ledger (checks : OverflowChecks) (h : HashOrder) (case : BenchmarkCase) :
    List (PatternFamily × PatternResult) :=
  match caseTrace checks case with
  | some (.ok trace) => case.patterns.filterMap fun p =>
      (runPattern h case trace p).toOption.map (Prod.mk p.family)
  | _ => []

def Produced (checks : OverflowChecks) (h : HashOrder) (case : BenchmarkCase) (r : CaseResult) : Prop :=
  ∃ timings, runCase checks h timings case = some (.ok r)

section
variable {checks : OverflowChecks} {h : HashOrder} {case : BenchmarkCase} {trace : Trace}
  {p : CompiledPattern} {cs : List CandidateMatch} {gs : List GroundingResult}

theorem groundAllFamily (judged : groundAll h cs trace [p] = .ok gs) :
    cs.length = gs.length ∧ ∀ g ∈ gs, g.patternFamily = p.family := by
  have each := mapMOk.mp judged
  refine ⟨each.length_eq,?_⟩
  intro g mem
  obtain ⟨c,_,made⟩ := forall₂Right each mem
  cases own : patternFor [p] c with
  | none =>
    rw [own] at made
    contradiction
  | some q =>
    rw [own] at made
    obtain ⟨_,same,grounded⟩ := bindOk.mp made
    cases same
    obtain ⟨_,_,_,_,rfl⟩ := groundChain grounded
    rw [← List.mem_singleton.mp (List.mem_of_find?_eq_some own)]
    rfl

theorem familyShown {result : PatternResult} (made : ResultFor h case trace p result) :
    familyOf result = if result.candidateCount = 0 then none else some p.family := by
  obtain ⟨cs,_,count,judged⟩ := made.candidates
  obtain ⟨same,families⟩ := groundAllFamily judged
  unfold familyOf
  rw [count,same]
  cases shape : result.groundingResults with
  | nil => rfl
  | cons g rest =>
    have own : g.patternFamily = p.family := families g (by rw [shape]; exact List.mem_cons_self)
    simp [own]

theorem ledgerShown : ∀ x ∈ ledger checks h case,
    familyOf x.2 = if x.2.candidateCount = 0 then none else some x.1 := by
  intro x mem
  unfold ledger at mem
  split at mem
  · obtain ⟨p,_,found⟩ := List.mem_filterMap.mp mem
    obtain ⟨result,ran,rfl⟩ := Option.map_eq_some_iff.mp found
    exact familyShown (runPatternOk (toOptionOk.mp ran))
  · simp at mem

theorem producedLedger {r : CaseResult} (produced : Produced checks h case r) :
    r.patternResults = (ledger checks h case).map Prod.snd := by
  obtain ⟨timings,ran⟩ := produced
  obtain ⟨ingested,traced,made⟩ := Option.map_eq_some_iff.mp ran
  unfold ledger
  rw [traced]
  cases ingested with
  | error failure =>
    cases failure with
    | panicked message => cases made
    | error e =>
      cases made
      rfl
  | ok trace =>
    cases made
    simp only [runPatternsResults,List.map_filterMap,Option.map_map]
    refine List.filterMap_congr fun p _ => ?_
    exact Option.map_id'.symm

end

def statsOf (s : MetricsSummary) (family : PatternFamily) : FamilyStats :=
  valueAt .empty s.perFamily family

/- The family statistics are those of the results, each under the family of its pattern,
and the matrices of the families add up to the overall one. -/
structure FamiliesExact (s : MetricsSummary) (results : List (PatternFamily × PatternResult)) : Prop where
  runs : ∀ family, (statsOf s family).runs = results.countP fun x => x.1 = family
  confusion : ∀ family e a, (statsOf s family).confusion.get e a =
    results.countP fun x => x.1 = family ∧ InCell e a x.2
  adds : ∀ e a, (s.perFamily.map fun f => f.2.confusion.get e a).sum = s.confusion.get e a

def Seen (x : PatternFamily × PatternResult) : Prop := x.2.expected.isSome ∧ x.2.candidateCount ≠ 0

instance : DecidablePred Seen := fun _ => inferInstanceAs (Decidable (_ ∧ _))

theorem filedFold (events : List Filed) (stats : FamilyStats) (e a : PatternOutcome) :
    (events.foldl (fun stats event => FamilyStats.record event.expected event.result stats) stats).runs =
      stats.runs + events.length ∧
    (events.foldl (fun stats event => FamilyStats.record event.expected event.result stats)
      stats).confusion.get e a =
      stats.confusion.get e a + events.countP fun event => event.expected = e ∧ event.result.actual = a := by
  induction events generalizing stats with
  | nil => exact ⟨rfl,rfl⟩
  | cons event rest ih =>
    obtain ⟨runs,cells⟩ := ih (FamilyStats.record event.expected event.result stats)
    rw [List.foldl_cons,runs,cells,List.length_cons,List.countP_cons]
    simp only [FamilyStats.record,ConfusionMatrix.getRecord,decide_eq_true_eq]
    omega

section
variable {results : List CaseResult} {all : List (PatternFamily × PatternResult)}

def filedOf (x : PatternFamily × PatternResult) : Option Filed :=
  if x.2.candidateCount = 0 then none else x.2.expected.map fun expected => ⟨x.1,expected,x.2⟩

theorem filedShown (shown : ∀ x ∈ all, familyOf x.2 = if x.2.candidateCount = 0 then none else some x.1) :
    (all.map Prod.snd).filterMap filed = all.filterMap filedOf := by
  rw [List.filterMap_map]
  refine List.filterMap_congr fun x mem => ?_
  simp only [Function.comp_apply,filed,filedOf,shown x mem]
  split
  · cases x.2.expected <;> rfl
  · cases x.2.expected <;> rfl

theorem filedCount (test : Filed → Bool) (holds : PatternFamily × PatternResult → Prop) [DecidablePred holds]
    (same : ∀ x e, x.2.expected = some e → (test ⟨x.1,e,x.2⟩ = true ↔ holds x)) :
    (all.filterMap filedOf).countP test = all.countP fun x => holds x ∧ Seen x := by
  rw [List.countP_filterMap]
  refine List.countP_congr fun x _ => ?_
  rw [decide_eq_true_eq,Seen,filedOf]
  by_cases none : x.2.candidateCount = 0
  · simp [none]
  · cases expected : x.2.expected with
    | none => simp
    | some e => simp [none,same x e expected]

theorem familiesSeen (listed : results.flatMap CaseResult.patternResults = all.map Prod.snd)
    (shown : ∀ x ∈ all, familyOf x.2 = if x.2.candidateCount = 0 then none else some x.1)
    (family : PatternFamily) (e a : PatternOutcome) :
    (statsOf (compute results) family).runs = (all.countP fun x => x.1 = family ∧ Seen x) ∧
    (statsOf (compute results) family).confusion.get e a =
      (all.countP fun x => (x.1 = family ∧ InCell e a x.2) ∧ Seen x) ∧
    ((compute results).perFamily.map fun f => f.2.confusion.get e a).sum =
      all.countP fun x => InCell e a x.2 ∧ Seen x := by
  have table : (compute results).perFamily = fileAll (all.filterMap filedOf) [] := by
    rw [computeFamilies,listed,filedShown shown]
  have stats : statsOf (compute results) family =
      ((all.filterMap filedOf).filter fun event => event.family = family).foldl
        (fun stats event => FamilyStats.record event.expected event.result stats) .empty := by
    rw [statsOf,table]
    exact tallyAt _ _ _ _ _ _
  obtain ⟨runs,cells⟩ := filedFold ((all.filterMap filedOf).filter fun event => event.family = family)
    .empty e a
  have empty : FamilyStats.empty.runs = 0 ∧ FamilyStats.empty.confusion.get e a = 0 := ⟨rfl,rfl⟩
  refine ⟨?_,?_,?_⟩
  · rw [stats,runs,empty.1,Nat.zero_add,← List.countP_eq_length_filter]
    exact filedCount _ _ fun x outcome _ => by simp
  · rw [stats,cells,empty.2,Nat.zero_add,List.countP_filter]
    exact filedCount _ _ fun x outcome expected => by simp [InCell,expected,and_comm]
  · rw [table,fileAll]
    refine Eq.trans (tallyCount (fun stats : FamilyStats => stats.confusion.get e a)
      (fun event : Filed => event.expected = e ∧ event.result.actual = a) (fun event stats => ?_) rfl _ _ _) ?_
    · simp [FamilyStats.record,ConfusionMatrix.getRecord]
    · rw [List.map_nil,List.sum_nil,Nat.zero_add]
      exact filedCount _ _ fun x outcome expected => by simp [InCell,expected]

theorem flatLedger {checks : OverflowChecks} {h : HashOrder} {cases : List BenchmarkCase}
    (produced : List.Forall₂ (Produced checks h) cases results) :
    results.flatMap CaseResult.patternResults = (cases.flatMap (ledger checks h)).map Prod.snd := by
  induction produced with
  | nil => rfl
  | cons one _ ih => rw [List.flatMap_cons,List.flatMap_cons,List.map_append,ih,producedLedger one]

/- The family statistics are exact exactly when they can see every result of the run. -/
theorem familiesExactIff {checks : OverflowChecks} {h : HashOrder} {cases : List BenchmarkCase}
    (produced : List.Forall₂ (Produced checks h) cases results) :
    FamiliesExact (compute results) (cases.flatMap (ledger checks h)) ↔
      ∀ x ∈ cases.flatMap (ledger checks h), Seen x := by
  have listed := flatLedger produced
  have shown : ∀ x ∈ cases.flatMap (ledger checks h),
      familyOf x.2 = if x.2.candidateCount = 0 then none else some x.1 := by
    intro x mem
    obtain ⟨case,_,inside⟩ := List.mem_flatMap.mp mem
    exact ledgerShown x inside
  have seen := familiesSeen listed shown
  constructor
  · intro exactly x mem
    have same := (seen x.1 .grounded .grounded).1.symm.trans (exactly.runs x.1)
    have held := countsAll (fun y => by simpa using fun first _ => first) same x mem (by simp)
    exact (of_decide_eq_true held).2
  · intro all
    refine ⟨?_,?_,?_⟩
    · intro family
      rw [(seen family .grounded .grounded).1]
      exact List.countP_congr fun x mem => by simpa using fun _ => all x mem
    · intro family e a
      rw [(seen family e a).2.1]
      exact List.countP_congr fun x mem => by simpa using fun _ _ => all x mem
    · intro e a
      rw [(seen ⟨""⟩ e a).2.2,computeConfusion,listed,List.countP_map]
      exact List.countP_congr fun x mem => by simpa using fun _ => all x mem

end

set_option maxRecDepth 4000

theorem familiesExactWrites : ∃ p r, patternOf writeSource = some p ∧
    runCase .on .insertion ⟨0,0,0,0⟩ (writingCase p [grounds "p"]) = some (.ok r) ∧
    FamiliesExact (compute [r]) ([writingCase p [grounds "p"]].flatMap (ledger .on .insertion)) := by
  have run : ∃ p ∈ patternOf writeSource, ∃ r ∈ writingResult p [grounds "p"],
      ∀ x ∈ [writingCase p [grounds "p"]].flatMap (ledger .on .insertion), Seen x := by
    rw [show writeSource = String.ofList _ from rfl,patternOfList]
    decide +kernel
  obtain ⟨p,source,r,found,seen⟩ := run
  have produced : Produced .on .insertion (writingCase p [grounds "p"]) r := ⟨_,writingRan found⟩
  exact ⟨p,r,source,writingRan found,(familiesExactIff (.cons produced .nil)).mpr seen⟩

def missingSource : String := "pattern p version 1 \x7b family: F severity: Low evidence \x7b
  required a: call(kind: Delegate) \x7d constraint: a \x7d"

/- The miss of a pattern that was to ground is counted overall and in no family. -/
theorem missLeftOut : ∃ p r, patternOf missingSource = some p ∧
    runCase .on .insertion ⟨0,0,0,0⟩ (writingCase p [grounds "p"]) = some (.ok r) ∧
    (compute [r]).overall.falseNegatives = 1 ∧ (compute [r]).perFamily = [] ∧
    ¬ FamiliesExact (compute [r]) ([writingCase p [grounds "p"]].flatMap (ledger .on .insertion)) := by
  have run : ∃ p ∈ patternOf missingSource, ∃ r ∈ writingResult p [grounds "p"],
      ([writingCase p [grounds "p"]].flatMap (ledger .on .insertion)).map Prod.fst = [p.family] ∧
      (compute [r]).overall.falseNegatives = 1 ∧ (compute [r]).perFamily = [] := by
    rw [show missingSource = String.ofList _ from rfl,patternOfList]
    decide +kernel
  obtain ⟨p,source,r,found,listed,missed,none⟩ := run
  refine ⟨p,r,source,writingRan found,missed,none,?_⟩
  intro exactly
  have runs := exactly.runs p.family
  obtain ⟨x,shape,same⟩ := List.map_eq_singleton_iff.mp listed
  rw [statsOf,none,shape] at runs
  simp [valueAt,FamilyStats.empty,same] at runs

end RootCause.Benchmark
