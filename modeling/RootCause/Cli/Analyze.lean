import RootCause.Cli.Patterns
import RootCause.Matcher.Bounds

/-! The analysis of a trace with a list of patterns: all candidates are found first and
associated with the patterns again by identity. Where two of the patterns share an
identity, the candidates of the later one are judged by the first. -/
namespace RootCause.Cli
open Library FactModel Dsl Matcher Grounding

/- The pipeline of the command: all patterns are matched, then all candidates grounded. -/
def analyze (h : HashOrder) (trace : Trace) (patterns : List CompiledPattern) :
    Except CliError (List GroundingResult) := do
  let candidates ← (findAllMatches h trace (.build trace) patterns).mapError .matcher
  (groundAll h candidates trace patterns).mapError .grounding

def analyzeOne (h : HashOrder) (trace : Trace) (pattern : CompiledPattern) :
    Except CliError (List GroundingResult) := do
  let candidates ← (findCandidates h trace (.build trace) pattern).mapError .matcher
  (candidates.mapM fun candidate => GroundingEngine.new.ground h candidate trace pattern).mapError .grounding

def analyzeEach (h : HashOrder) (trace : Trace) (patterns : List CompiledPattern) :
    Except CliError (List GroundingResult) := do
  let results ← patterns.mapM (analyzeOne h trace)
  pure results.flatten

/- Batch analysis is per-pattern analysis: every candidate is grounded against the
pattern that produced it, and the results are those of each pattern by itself. -/
structure PerPattern (h : HashOrder) (trace : Trace) (patterns : List CompiledPattern) : Prop where
  own : ∀ p ∈ patterns, ∀ cs, findCandidates h trace (.build trace) p = .ok cs →
    ∀ c ∈ cs, patternFor patterns c = some p
  results : analyze h trace patterns = analyzeEach h trace patterns

def Matches (h : HashOrder) (trace : Trace) (p : CompiledPattern) : Prop :=
  match anchorRef p with
  | none => ConstraintHolds trace p
  | some r => ∃ b ∈ clauseMatches trace p r, ((attemptAt trace p r b).tryBuildCandidate h).isSome

def firstNamed (patterns : List CompiledPattern) (p : CompiledPattern) : Option CompiledPattern :=
  patterns.find? fun q => q.id = p.id && q.version = p.version

section
variable {u : UnicodeClasses} {h : HashOrder} {trace : Trace} {p : CompiledPattern}
  {cs : List CandidateMatch}

theorem matchesIff (wf : WellFormed p) (found : findCandidates h trace (.build trace) p = .ok cs) :
    Matches h trace p ↔ ∃ c, c ∈ cs := by
  unfold Matches
  cases anchored : anchorRef p with
  | none =>
    rw [findCandidatesGlobal wf anchored] at found
    cases found
    simp only [Option.mem_toList,globalCandidate]
    split
    · rename_i held
      simp [holdsOnClause.mp held]
    · rename_i refused
      simpa using fun held => refused (holdsOnClause.mpr held)
  | some r =>
    rw [findCandidatesAnchored wf anchored] at found
    cases found
    simp only [List.mem_filterMap,Option.isSome_iff_exists]
    constructor
    · intro given
      obtain ⟨b,mem,c,built⟩ := given
      exact ⟨c,b,mem,built⟩
    · intro given
      obtain ⟨c,b,mem,built⟩ := given
      exact ⟨b,mem,c,built⟩

theorem candidateIdentity (wf : WellFormed p) (found : findCandidates h trace (.build trace) p = .ok cs)
    {c : CandidateMatch} (mem : c ∈ cs) : c.patternId = p.id ∧ c.patternVersion = p.version := by
  cases anchored : anchorRef p with
  | none =>
    rw [findCandidatesGlobal wf anchored] at found
    cases found
    have built := Option.mem_toList.mp mem
    unfold globalCandidate at built
    split at built
    · cases built
      exact ⟨rfl,rfl⟩
    · contradiction
  | some r =>
    rw [findCandidatesAnchored wf anchored] at found
    cases found
    obtain ⟨b,_,built⟩ := List.mem_filterMap.mp mem
    obtain ⟨seqB,_,rest⟩ := Option.bind_eq_some_iff.mp built
    split at rest
    · obtain ⟨scB,_,last⟩ := Option.bind_eq_some_iff.mp rest
      cases last
      exact ⟨rfl,rfl⟩
    · contradiction

theorem patternForCandidate {patterns : List CompiledPattern} (wf : WellFormed p)
    (found : findCandidates h trace (.build trace) p = .ok cs) {c : CandidateMatch} (mem : c ∈ cs) :
    patternFor patterns c = firstNamed patterns p := by
  obtain ⟨id,version⟩ := candidateIdentity wf found mem
  rw [patternFor,firstNamed,id,version]

theorem findAllMatchesOk {find : CompiledPattern → List CandidateMatch} {patterns : List CompiledPattern}
    (found : ∀ p ∈ patterns, findCandidates h trace (.build trace) p = .ok (find p)) :
    findAllMatches h trace (.build trace) patterns = .ok (patterns.flatMap find) := by
  have from' (all : List CandidateMatch) : patterns.foldlM (fun all pattern => do
      let found ← findCandidates h trace (.build trace) pattern
      pure (all ++ found)) all = Except.ok (ε := MatcherError) (all ++ patterns.flatMap find) := by
    induction patterns generalizing all with
    | nil => simp [pure,Except.pure]
    | cons p rest ih =>
      rw [List.foldlM_cons,found p List.mem_cons_self]
      have later := ih (fun q mem => found q (List.mem_cons_of_mem _ mem)) (all ++ find p)
      simpa [bind,Except.bind,pure,Except.pure] using later
  simpa [findAllMatches] using from' []

theorem analyzeSplits {find : CompiledPattern → List CandidateMatch} {patterns : List CompiledPattern}
    (found : ∀ p ∈ patterns, findCandidates h trace (.build trace) p = .ok (find p))
    (own : ∀ p ∈ patterns, ∀ c ∈ find p, patternFor patterns c = some p) :
    analyze h trace patterns = analyzeEach h trace patterns := by
  have each : patterns.mapM (analyzeOne h trace) = (patterns.mapM fun p =>
      (find p).mapM fun c => GroundingEngine.new.ground h c trace p).mapError .grounding := by
    rw [← mapMError]
    refine mapMSame fun p mem => ?_
    rw [analyzeOne,found p mem]
    rfl
  have batch : groundAll h (patterns.flatMap find) trace patterns = (patterns.mapM fun p =>
      (find p).mapM fun c => GroundingEngine.new.ground h c trace p) >>=
        fun results => .ok results.flatten := by
    refine mapMFlatMap fun p mem c inside => ?_
    rw [own p mem c inside]
    rfl
  rw [analyze,analyzeEach,findAllMatchesOk found,each]
  change (groundAll h (patterns.flatMap find) trace patterns).mapError _ = _
  rw [batch]
  cases patterns.mapM fun p => (find p).mapM fun c => GroundingEngine.new.ground h c trace p <;> rfl

/- Batch analysis of loaded patterns is per-pattern analysis exactly when every pattern
that matches is the first of the list with its identity. -/
theorem perPatternIff {display : PathBuf → String} {path : PathBuf} {located : Located}
    {patterns : List CompiledPattern}
    (loaded : loadPatterns u display path located = some (.ok patterns)) :
    PerPattern h trace patterns ↔
      ∀ p ∈ patterns, Matches h trace p → firstNamed patterns p = some p := by
  have wf : ∀ p ∈ patterns, WellFormed p := fun p mem => (loadedAccepted loaded p mem).wellFormed
  have search : ∀ p ∈ patterns, ∃ cs, findCandidates h trace (.build trace) p = .ok cs :=
    fun p mem => searched (boundsOk (wf p mem))
  constructor
  · intro perPattern p mem matched
    obtain ⟨cs,found⟩ := search p mem
    obtain ⟨c,inside⟩ := (matchesIff (wf p mem) found).mp matched
    rw [← patternForCandidate (wf p mem) found inside]
    exact perPattern.own p mem cs found c inside
  · intro first
    have own : ∀ p ∈ patterns, ∀ cs, findCandidates h trace (.build trace) p = .ok cs →
        ∀ c ∈ cs, patternFor patterns c = some p := by
      intro p mem cs found c inside
      rw [patternForCandidate (wf p mem) found inside]
      exact first p mem ((matchesIff (wf p mem) found).mpr ⟨c,inside⟩)
    have found : ∀ p ∈ patterns, findCandidates h trace (.build trace) p =
        .ok ((findCandidates h trace (.build trace) p).toOption.getD []) := by
      intro p mem
      obtain ⟨cs,ok⟩ := search p mem
      rw [ok]
      rfl
    exact ⟨own,analyzeSplits found fun p mem => own p mem _ (found p mem)⟩

end

def pairDirectory (first second : String) : Located :=
  .directory (.ok [⟨[98,46,114,99,100,115,108],.ok second⟩,⟨[97,46,114,99,100,115,108],.ok first⟩])

theorem pairLoaded {first second : String} {p q : CompiledPattern} (one : patternOf first = some p)
    (two : patternOf second = some q) (display : PathBuf → String) (path : PathBuf) :
    loadPatterns .ascii display path (pairDirectory first second) = some (.ok [p,q]) := by
  have sorted : patternEntries [⟨[98,46,114,99,100,115,108],.ok second⟩,
      ⟨[97,46,114,99,100,115,108],.ok first⟩] = [⟨[97,46,114,99,100,115,108],.ok first⟩,
      ⟨[98,46,114,99,100,115,108],.ok second⟩] := by
    rfl
  simp only [loadPatterns,pairDirectory,sorted]
  exact loadFilesOk.mpr (.cons (loadPatternFileOk.mpr ⟨first,rfl,patternOfCompiled one⟩)
    (.cons (loadPatternFileOk.mpr ⟨second,rfl,patternOfCompiled two⟩) .nil))

set_option maxRecDepth 4000

def createdSource : String := "pattern p version 1 \x7b family: F severity: Low evidence \x7b
  required a: call(kind: Create) \x7d \x7d"

def readingSource : String := "pattern p version 1 \x7b family: F severity: Low evidence \x7b
  required a: call(kind: StaticCall) \x7d \x7d"

def revisedSource : String := "pattern p version 2 \x7b family: F severity: Low evidence \x7b
  required a: call(kind: StaticCall) \x7d \x7d"

def kindPattern (version : UInt32) (kind : String) : CompiledPattern :=
  ⟨⟨"p"⟩,⟨version⟩,⟨"F"⟩,.low,[],[],[⟨"a",.required,⟨"call",[⟨"kind",.ident kind⟩]⟩⟩],.leaf ⟨0⟩,none,none⟩

theorem createdCompiled : patternOf createdSource = some (kindPattern 1 "Create") := by
  rw [show createdSource = String.ofList _ from rfl,patternOfList]
  decide +kernel

theorem readingCompiled : patternOf readingSource = some (kindPattern 1 "StaticCall") := by
  rw [show readingSource = String.ofList _ from rfl,patternOfList]
  decide +kernel

theorem revisedCompiled : patternOf revisedSource = some (kindPattern 2 "StaticCall") := by
  rw [show revisedSource = String.ofList _ from rfl,patternOfList]
  decide +kernel

theorem perPatternRevised : ∃ patterns, loadPatterns .ascii (fun _ => "") []
      (pairDirectory createdSource revisedSource) = some (.ok patterns) ∧
    (PerPattern .insertion writingTrace patterns ↔ ∀ p ∈ patterns,
      Matches .insertion writingTrace p → firstNamed patterns p = some p) ∧
    PerPattern .insertion writingTrace patterns := by
  have loaded := pairLoaded createdCompiled revisedCompiled (fun _ => "") []
  refine ⟨_,loaded,perPatternIff loaded,(perPatternIff loaded).mpr ?_⟩
  intro p mem _
  rcases List.mem_pair.mp mem with rfl | rfl <;> decide

def statuses (results : Except CliError (List GroundingResult)) : Option (List GroundingStatus) :=
  results.toOption.map fun results => results.map GroundingResult.status

theorem statusesFound {results : Except CliError (List GroundingResult)} {out : List GroundingStatus}
    (given : statuses results = some out) :
    ∃ found, results = .ok found ∧ found.map GroundingResult.status = out := by
  obtain ⟨found,ok,same⟩ := Option.map_eq_some_iff.mp given
  exact ⟨found,toOptionOk.mp ok,same⟩

theorem shadowedBatch : ∃ patterns batch each, loadPatterns .ascii (fun _ => "") []
      (pairDirectory createdSource readingSource) = some (.ok patterns) ∧
    analyze .insertion writingTrace patterns = .ok batch ∧
    analyzeEach .insertion writingTrace patterns = .ok each ∧
    batch.map GroundingResult.status = [.abstain] ∧
    each.map GroundingResult.status = [.grounded] ∧ batch ≠ each := by
  have batch : statuses (analyze .insertion writingTrace
      [kindPattern 1 "Create",kindPattern 1 "StaticCall"]) = some [.abstain] := by decide +kernel
  have each : statuses (analyzeEach .insertion writingTrace
      [kindPattern 1 "Create",kindPattern 1 "StaticCall"]) = some [.grounded] := by decide +kernel
  obtain ⟨found,analyzed,abstained⟩ := statusesFound batch
  obtain ⟨apart,split,grounded⟩ := statusesFound each
  refine ⟨_,found,apart,pairLoaded createdCompiled readingCompiled _ _,analyzed,split,abstained,
    grounded,?_⟩
  intro same
  rw [same,grounded] at abstained
  cases abstained

end RootCause.Cli
