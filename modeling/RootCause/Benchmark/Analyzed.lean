import RootCause.Benchmark.Runner
import RootCause.Cli.Doctor
import RootCause.Grounding.Status

/-! A benchmark case beside an analysis of its trace. The benchmark grounds the candidates of
each pattern against this pattern alone, the command all candidates against all patterns;
for patterns of distinct identities the two report the same. -/
namespace RootCause.Benchmark
open Library FactModel Dsl Matcher Grounding Ingestion Cli

section
variable {α β κ : Type} [DecidableEq κ] {xs : List α} {key : β → κ} {own : α → κ} {f : α → List β}

theorem flatMapOwn (labelled : ∀ x ∈ xs, ∀ y ∈ f x, key y = own x) (distinct : (xs.map own).Nodup) :
    ∀ x ∈ xs, (xs.flatMap f).filter (fun y => key y = own x) = f x := by
  induction xs with
  | nil => simp
  | cons x xs ih =>
    obtain ⟨here,later⟩ := List.forall_mem_cons.mp labelled
    obtain ⟨apart,distinct⟩ := List.nodup_cons.mp distinct
    have all {z : α} {ys : List β} (same : ∀ y ∈ ys, key y = own z) : ys.filter (fun y => key y = own z) = ys := by
      simpa [List.filter_eq_self] using same
    intro z mem
    rw [List.flatMap_cons,List.filter_append]
    rcases List.mem_cons.mp mem with rfl | inside
    · have none : (xs.flatMap f).filter (fun y => key y = own z) = [] := by
        simp only [List.filter_eq_nil_iff,List.mem_flatMap,decide_eq_true_eq]
        rintro y ⟨w,within,made⟩ same
        exact apart (List.mem_map.mpr ⟨w,within,(later w within y made).symm.trans same⟩)
      rw [all here,none,List.append_nil]
    · have none : (f x).filter (fun y => key y = own z) = [] := by
        simp only [List.filter_eq_nil_iff,decide_eq_true_eq]
        intro y made same
        exact apart (List.mem_map.mpr ⟨z,inside,same.symm.trans (here y made)⟩)
      rw [none,List.nil_append,ih later distinct z inside]

theorem filterMapOk {ε : Type} {made : α → Except ε β} {ys : List β}
    (each : List.Forall₂ (fun x y => made x = .ok y) xs ys) : (xs.filterMap fun x => (made x).toOption) = ys := by
  induction each with
  | nil => rfl
  | cons first _ ih => simp [first,ih]

end

section
variable {checks : OverflowChecks} {h : HashOrder} {timings : StageTimings} {case : BenchmarkCase} {r : CaseResult}
  {trace : Trace} {p : CompiledPattern} {patterns : List CompiledPattern} {gs : List GroundingResult}

def identity (p : CompiledPattern) : PatternId × PatternVersion := (p.id,p.version)

def resultIdentity (g : GroundingResult) : PatternId × PatternVersion := (g.patternId,g.patternVersion)

theorem groundOwn (wf : WellFormed p) {cs : List CandidateMatch}
    (found : findCandidates h trace (.build trace) p = .ok cs) :
    groundAll h cs trace [p] = cs.mapM fun c => GroundingEngine.new.ground h c trace p := by
  refine mapMSame fun c mem => ?_
  have own : patternFor [p] c = some p := by
    rw [patternForCandidate wf found mem]
    simp [firstNamed]
  rw [own]
  rfl

theorem runPatternAnalyzed (wf : WellFormed p) :
    analyzeOne h trace p = .ok gs ↔ ∃ result, runPattern h case trace p = .ok result ∧ result.groundingResults = gs := by
  obtain ⟨cs,found⟩ : ∃ cs, findCandidates h trace (.build trace) p = .ok cs := searched (boundsOk wf)
  have each : analyzeOne h trace p = (groundAll h cs trace [p]).mapError .grounding := by
    rw [groundOwn wf found,analyzeOne,found]
    rfl
  rw [each]
  simp only [runPattern,found]
  split
  · rename_i empty
    rw [List.isEmpty_iff.mp empty]
    simp [groundAll,Except.mapError,pure,Except.pure]
  · cases groundAll h cs trace [p] <;> simp [Except.mapError]

theorem analyzedIdentity (analyzed : analyzeOne h trace p = .ok gs) : ∀ g ∈ gs, resultIdentity g = identity p := by
  obtain ⟨cs,_,judged⟩ := bindOk.mp analyzed
  have each : (cs.mapM fun c => GroundingEngine.new.ground h c trace p) = .ok gs := by
    cases run : cs.mapM fun c => GroundingEngine.new.ground h c trace p with
    | error e =>
      rw [run] at judged
      cases judged
    | ok results =>
      rw [run] at judged
      cases judged
      rfl
  intro g mem
  obtain ⟨c,_,grounded⟩ := forall₂Right (mapMOk.mp each) mem
  obtain ⟨_,_,_,_,rfl⟩ := groundChain grounded
  rfl

theorem distinctFirst (distinct : (patterns.map identity).Nodup) (mem : p ∈ patterns) :
    firstNamed patterns p = some p := by
  obtain ⟨q,inside,named,id,version⟩ := judged mem
  rw [named,List.inj_on_of_nodup_map distinct inside mem (by simp [identity,id,version])]

theorem distinctAnalyzed (wf : ∀ p ∈ patterns, WellFormed p) (distinct : (patterns.map identity).Nodup) :
    analyze h trace patterns = analyzeEach h trace patterns := by
  obtain ⟨find,found⟩ : ∃ find : CompiledPattern → List CandidateMatch,
      ∀ p ∈ patterns, findCandidates h trace (.build trace) p = .ok (find p) := searchAll wf
  refine analyzeSplits found fun p mem c inside => ?_
  rw [patternForCandidate (wf p mem) (found p mem) inside]
  exact distinctFirst distinct mem

def SumsUp (statuses : List GroundingStatus) : PatternOutcome → Prop
  | .grounded => .grounded ∈ statuses
  | .abstain => .grounded ∉ statuses ∧ .abstain ∈ statuses
  | .ungrounded => .grounded ∉ statuses ∧ .abstain ∉ statuses ∧ .ungrounded ∈ statuses
  | .noMatch => statuses = []

theorem sumsUpNext {statuses : List GroundingStatus} {status : GroundingStatus} {o : PatternOutcome}
    (sums : SumsUp statuses o) : SumsUp (statuses ++ [status]) (o.strongest (.fromGroundingStatus status)) := by
  cases o <;> cases status <;> simp_all [SumsUp,PatternOutcome.strongest,PatternOutcome.fromGroundingStatus]

theorem strongestSumsUp (statuses : List GroundingStatus) : SumsUp statuses
    ((statuses.map PatternOutcome.fromGroundingStatus).foldl PatternOutcome.strongest .noMatch) := by
  induction statuses using List.reverseRecOn with
  | nil => rfl
  | append_singleton statuses status ih =>
    rw [List.map_append,List.foldl_append]
    exact sumsUpNext ih

structure Agrees (results : List GroundingResult) (result : PatternResult) : Prop where
  own : result.groundingResults =
    results.filter fun g => resultIdentity g = (result.patternId,result.patternVersion)
  counted : result.candidateCount = result.groundingResults.length
  outcome : SumsUp (result.groundingResults.map GroundingResult.status) result.actual

theorem caseAnalyzed (wf : ∀ p ∈ case.patterns, WellFormed p) (distinct : (case.patterns.map identity).Nodup)
    (traced : caseTrace checks case = some (.ok trace)) (ran : runCase checks h timings case = some (.ok r)) :
    (r.error = none ↔ ∃ results, analyze h trace case.patterns = .ok results) ∧
    ∀ results, analyze h trace case.patterns = .ok results →
      r.patternResults.flatMap PatternResult.groundingResults = results ∧
      r.patternResults.map (fun result => (result.patternId,result.patternVersion)) = case.patterns.map identity ∧
      ∀ result ∈ r.patternResults, Agrees results result := by
  have finished : r.patternResults = (runPatterns h case trace).patternResults ∧
      (r.error = none ↔ (runPatterns h case trace).caseErrors = []) := by
    simp only [runCase,traced,Option.map_some,Option.some.injEq,Except.ok.injEq] at ran
    rw [← ran]
    refine ⟨rfl,?_⟩
    simp
  obtain ⟨listed,clean⟩ := finished
  rw [clean,runPatternsClean,distinctAnalyzed wf distinct,listed,runPatternsResults]
  have analyzed {made : List PatternResult} (each : case.patterns.mapM (runPattern h case trace) = .ok made) :
      analyzeEach h trace case.patterns = .ok (made.flatMap PatternResult.groundingResults) := by
    have parts : case.patterns.mapM (analyzeOne h trace) = .ok (made.map PatternResult.groundingResults) := by
      rw [mapMOk,List.forall₂_map_right_iff]
      exact forall₂Imp (mapMOk.mp each) fun p mem result ran => (runPatternAnalyzed (wf p mem)).mpr ⟨result,ran,rfl⟩
    rw [analyzeEach,parts]
    rfl
  have complete : (∀ p ∈ case.patterns, ∃ result, runPattern h case trace p = .ok result) ↔
      ∃ results, analyzeEach h trace case.patterns = .ok results := by
    constructor
    · intro each
      obtain ⟨made,whole⟩ := mapMTotal each
      exact ⟨_,analyzed whole⟩
    · rintro ⟨results,whole⟩ p mem
      obtain ⟨parts,each,_⟩ := bindOk.mp whole
      obtain ⟨gs,_,own⟩ := forall₂Right (mapMOk.mp each).flip mem
      obtain ⟨result,ran,_⟩ := (runPatternAnalyzed (wf p mem)).mp own
      exact ⟨result,ran⟩
  refine ⟨complete,fun results found => ?_⟩
  obtain ⟨made,each⟩ := mapMTotal (complete.mpr ⟨results,found⟩)
  have pairs := mapMOk.mp each
  rw [analyzed each] at found
  cases found
  have ids : made.map (fun result => (result.patternId,result.patternVersion)) = case.patterns.map identity := by
    rw [← List.forall₂_eq_eq_eq,List.forall₂_map_left_iff,List.forall₂_map_right_iff]
    refine pairs.flip.imp fun result p ran => ?_
    have shown := runPatternOk ran
    rw [shown.patternId,shown.patternVersion,identity]
  rw [filterMapOk pairs]
  refine ⟨rfl,ids,fun result mem => ?_⟩
  -- The identities are distinct, so that a result belongs to one pattern only.
  have labelled : ∀ result ∈ made, ∀ g ∈ result.groundingResults,
      resultIdentity g = (result.patternId,result.patternVersion) := by
    intro result mem g within
    obtain ⟨p,inside,ran⟩ := forall₂Right pairs mem
    have shown := runPatternOk ran
    rw [analyzedIdentity ((runPatternAnalyzed (wf p inside)).mpr ⟨result,ran,rfl⟩) g within,identity,
      shown.patternId,shown.patternVersion]
  obtain ⟨p,inside,ran⟩ := forall₂Right pairs mem
  have shown := runPatternOk ran
  refine ⟨(flatMapOwn labelled (ids ▸ distinct) result mem).symm,?_,?_⟩
  · obtain ⟨cs,_,count,judged⟩ := shown.candidates
    rw [count,(mapMOk.mp judged).length_eq]
  · rw [shown.actual]
    have summed := strongestSumsUp (result.groundingResults.map GroundingResult.status)
    rwa [List.map_map] at summed

end

def revisedCase : BenchmarkCase :=
  ⟨⟨"c"⟩,"d",.prebuilt writingTrace,[kindPattern 1 "Create",kindPattern 2 "StaticCall"],[]⟩

theorem caseAnalyzedRevised : ∃ r results, runCase .on .insertion ⟨0,0,0,0⟩ revisedCase = some (.ok r) ∧
    analyze .insertion writingTrace revisedCase.patterns = .ok results ∧ r.error = none ∧
    r.patternResults.flatMap PatternResult.groundingResults = results ∧
    r.patternResults.map (fun result => (result.patternId,result.patternVersion)) = revisedCase.patterns.map identity ∧
    ∀ result ∈ r.patternResults, Agrees results result := by
  have wf : ∀ p ∈ revisedCase.patterns, WellFormed p := by
    intro p mem
    rcases List.mem_pair.mp mem with rfl | rfl
    · exact (patternOfAccepted createdCompiled).wellFormed
    · exact (patternOfAccepted revisedCompiled).wellFormed
  have analyzed : (statuses (analyze .insertion writingTrace revisedCase.patterns)).isSome = true := by decide +kernel
  obtain ⟨out,found⟩ := Option.isSome_iff_exists.mp analyzed
  obtain ⟨results,found,_⟩ := statusesFound found
  obtain ⟨clean,same⟩ := caseAnalyzed wf (by decide) rfl (rfl : runCase .on .insertion ⟨0,0,0,0⟩ revisedCase = _)
  exact ⟨_,results,rfl,found,clean.mpr ⟨results,found⟩,same results found⟩

end RootCause.Benchmark
