import RootCause.Benchmark.Errors
import RootCause.Cli.Doctor
import RootCause.Dsl.Valid

/-! The checks that a pattern author runs before a contribution: the file is compiled, its
family is looked up, and it is analyzed by itself against a trace that it should find and one
that it should not. -/
namespace RootCause.Cli
open Library FactModel Dsl Matcher Grounding Taxonomy Ingestion

namespace ValidatePattern

structure CheckResult where
  label : String
  passed : Bool
  detail : String
  deriving DecidableEq, Repr

def CheckResult.render (c : CheckResult) : String :=
  let mark := if c.passed then "\u2713" else "\u2717"
  if c.detail.isEmpty then mark ++ " " ++ c.label else mark ++ " " ++ c.label ++ " \u2014 " ++ c.detail

def render (patternPath : String) (listed : List CheckResult) : String :=
  "Validating " ++ patternPath ++ "\n" ++ String.join (listed.map fun c => "  " ++ c.render ++ "\n") ++ "\n" ++
    toString (listed.filter CheckResult.passed).length ++ "/" ++ toString listed.length ++ " checks passed\n"

def taxonomyCheck (h : HashOrder) (compiled : CompiledPattern) : CheckResult :=
  let mappings := MappingEngine.new.mapFamily h compiled.family
  if mappings.isEmpty then
    ⟨"taxonomy",false,"family `" ++ compiled.family.text ++
      "` is not mapped in any taxonomy \u2014 see docs/PATTERN_AUTHORING_GUIDE.md step 5"⟩
  else ⟨"taxonomy",true,"mapped in " ++ ", ".intercalate (mappings.map TaxonomyMapping.taxonomy)⟩

def findingsCheck (h : HashOrder) (label : String) (compiled : CompiledPattern) (tracePath : String) (trace : Trace)
    (expectMatch : Bool) : CheckResult :=
  match findAllMatches h trace (.build trace) [compiled] with
  | .error e => ⟨label,false,"matcher error: " ++ e.display⟩
  | .ok candidates =>
    match groundAll h candidates trace [compiled] with
    | .error e => ⟨label,false,"grounding error: " ++ e.display⟩
    | .ok grounded =>
      let groundedCount := (grounded.filter fun g => g.status = .grounded).length
      let passed := if expectMatch then decide (groundedCount > 0) else decide (groundedCount = 0)
      let counted := "`" ++ tracePath ++ "`: " ++ toString groundedCount ++ " grounded finding(s) (expected "
      ⟨label,passed,if expectMatch then counted ++ "\u2265 1)" else counted ++ "0)"⟩

abbrev TraceFiles := PathBuf → Option (Except IngestionError RawTraceDocument)

def provenance (display : PathBuf → String) (tracePath : PathBuf) : TraceSource :=
  .archiveNodeRpc ("validate-pattern:" ++ display tracePath)

section
variable (u : UnicodeClasses) (checks : OverflowChecks) (h : HashOrder) (display : PathBuf → String)
  (files : TraceFiles)

def traceCheck (label : String) (compiled : CompiledPattern) (tracePath : PathBuf) (expectMatch : Bool) :
    Option (Except (Failure CliError) CheckResult) :=
  match files tracePath with
  | none => some (.ok ⟨label,false,"no trace at `" ++ display tracePath ++
      "` \u2014 create one (see docs/PATTERN_AUTHORING_GUIDE.md step 6) or pass --positive/--negative explicitly"⟩)
  | some decoded => (ingest checks decoded (provenance display tracePath)).map fun ingested =>
    match ingested with
    | .error (.panicked message) => .error (.panicked message)
    | .error (.error e) => .ok ⟨label,false,"failed to ingest `" ++ display tracePath ++ "`: " ++ e.display⟩
    | .ok trace => .ok (findingsCheck h label compiled (display tracePath) trace expectMatch)

def runChecks (positive negative : PathBuf) (source : String) :
    Option (Except (Failure CliError) (List CheckResult)) := do
  match ← parse u source with
  | .error (.panicked message) => some (.error (.panicked message))
  | .error (.error diags) => some (.ok [⟨"syntax",false,(DslError.parse diags).display⟩])
  | .ok ast =>
    let syntaxCheck : CheckResult := ⟨"syntax",true,""⟩
    let diagnostics := validate ast
    let detail := "; ".intercalate (diagnostics.map fun d => d.render source)
    if diagnostics.hasErrors then some (.ok [syntaxCheck,⟨"metadata",false,detail⟩])
    else
      let metadataCheck : CheckResult := ⟨"metadata",true,if diagnostics.isEmpty then "" else detail⟩
      match ← compileStr u source with
      | .error (.panicked message) => some (.error (.panicked message))
      | .error (.error e) => some (.ok [syntaxCheck,metadataCheck,⟨"compile",false,e.display⟩])
      | .ok compiled =>
        match ← traceCheck checks h display files "positive trace" compiled positive true with
        | .error e => some (.error e)
        | .ok positiveCheck =>
          match ← traceCheck checks h display files "negative trace" compiled negative false with
          | .error e => some (.error e)
          | .ok negativeCheck =>
            some (.ok [syntaxCheck,metadataCheck,taxonomyCheck h compiled,positiveCheck,negativeCheck])

def run (patternPath positive negative : PathBuf) :
    Except String String → Option (Except (Failure CliError) (String × Bool))
  | .error reason => some (.error (.error (.inputPath patternPath reason)))
  | .ok source => (runChecks u checks h display files positive negative source).map fun done => do
    let listed ← done
    pure (render (display patternPath) listed,listed.all CheckResult.passed)

end

def Finds (checks : OverflowChecks) (h : HashOrder) (display : PathBuf → String) (files : TraceFiles)
    (tracePath : PathBuf) (p : CompiledPattern) (holds : List GroundingResult → Prop) : Prop :=
  ∃ decoded trace results, files tracePath = some decoded ∧
    ingest checks decoded (provenance display tracePath) = some (.ok trace) ∧
    analyze h trace [p] = .ok results ∧ holds results

def SomeGrounded (results : List GroundingResult) : Prop := ∃ g ∈ results, g.status = .grounded

section
variable {u : UnicodeClasses} {checks : OverflowChecks} {h : HashOrder} {display : PathBuf → String}
  {files : TraceFiles} {label : String} {compiled p : CompiledPattern} {tracePath : PathBuf} {expectMatch : Bool}

theorem analyzeStages {trace : Trace} {patterns : List CompiledPattern} {results : List GroundingResult} :
    analyze h trace patterns = .ok results ↔ ∃ candidates,
      findAllMatches h trace (.build trace) patterns = .ok candidates ∧
      groundAll h candidates trace patterns = .ok results := by
  rw [analyze,bindOk]
  simp only [mapErrorOk]

theorem findingsPassed {path : String} {trace : Trace} :
    (findingsCheck h label compiled path trace expectMatch).passed = true ↔
      ∃ results, analyze h trace [compiled] = .ok results ∧ (SomeGrounded results ↔ expectMatch = true) := by
  have counted (results : List GroundingResult) :
      0 < (results.filter fun g => g.status = .grounded).length ↔ SomeGrounded results := by
    simp [SomeGrounded,List.length_pos_iff_exists_mem]
  unfold findingsCheck
  cases found : findAllMatches h trace (.build trace) [compiled] with
  | error e => simp [analyzeStages,found]
  | ok candidates =>
    cases judged : groundAll h candidates trace [compiled] with
    | error e => simp [analyzeStages,found,judged]
    | ok results =>
      simp only [analyzeStages,found,judged,Except.ok.injEq,exists_eq_left']
      cases expectMatch with
      | true => simp [counted]
      | false => simp [← counted]

theorem findingsLabel {path : String} {trace : Trace} :
    (findingsCheck h label compiled path trace expectMatch).label = label := by
  unfold findingsCheck
  split
  · rfl
  · split <;> rfl

theorem tracePassed {c : CheckResult} (ran : traceCheck checks h display files label compiled tracePath expectMatch =
    some (.ok c)) : c.label = label ∧ (c.passed = true ↔
      Finds checks h display files tracePath compiled fun results => SomeGrounded results ↔ expectMatch = true) := by
  unfold traceCheck at ran
  split at ran
  · rename_i missing
    cases ran
    simp [Finds,missing]
  · rename_i decoded present
    obtain ⟨ingested,read,rest⟩ := Option.map_eq_some_iff.mp ran
    split at rest
    · cases rest
    · cases rest
      simp [Finds,present,read]
    · cases rest
      refine ⟨findingsLabel,?_⟩
      rw [findingsPassed]
      simp [Finds,present,read]

theorem traceChecked {holds : List GroundingResult → Prop}
    (finds : Finds checks h display files tracePath compiled holds) :
    ∃ c, traceCheck checks h display files label compiled tracePath expectMatch = some (.ok c) := by
  obtain ⟨decoded,trace,results,present,read,_⟩ := finds
  refine ⟨findingsCheck h label compiled (display tracePath) trace expectMatch,?_⟩
  simp only [traceCheck,present,read,Option.map_some]

theorem taxonomyPassed : (taxonomyCheck h compiled).passed = true ↔ Doctor.Mapped compiled.family := by
  rw [Doctor.mappedIff (h := h),taxonomyCheck]
  split
  · rename_i none
    simp [List.isEmpty_iff.mp none]
  · rename_i some
    simpa using some

theorem taxonomyLabel : (taxonomyCheck h compiled).label = "taxonomy" := by
  simp only [taxonomyCheck]
  split <;> rfl

theorem compiledLast {source : String} {ast : Ast.PatternAst} (parsed : parse u source = some (.ok ast))
    (clean : (validate ast).hasErrors = false) {e : DslError} :
    compileStr u source ≠ some (.error (.error e)) := by
  intro failed
  have whole : compileStr u source = some (mapFailure .validation (compile ast)) := by
    rw [compileStr,parsed]
    rfl
  rw [whole] at failed
  obtain ⟨_,_,quiet⟩ := compileValid (validIff.mp clean)
  rcases outcome : compile ast with (diags | message) | p
  · exact quiet diags outcome
  · simp [outcome,mapFailure] at failed
  · simp [outcome,mapFailure] at failed

/- What every check of a pattern asks for. -/
structure Validated (u : UnicodeClasses) (checks : OverflowChecks) (h : HashOrder) (display : PathBuf → String)
    (files : TraceFiles) (positive negative : PathBuf) (source : String) (p : CompiledPattern) : Prop where
  compiles : compileStr u source = some (.ok p)
  mapped : Doctor.Mapped p.family
  found : Finds checks h display files positive p SomeGrounded
  spared : Finds checks h display files negative p fun results => ¬ SomeGrounded results

variable {positive negative : PathBuf} {source : String} {listed : List CheckResult}

theorem checksDone (ran : runChecks u checks h display files positive negative source = some (.ok listed)) :
    (listed.all CheckResult.passed = true → ∃ p, Validated u checks h display files positive negative source p) ∧
      ∀ c ∈ listed, c.label ≠ "compile" := by
  unfold runChecks at ran
  obtain ⟨parsed,read,rest⟩ := Option.bind_eq_some_iff.mp ran
  split at rest
  · cases rest
  · cases rest
    simp
  · rename_i ast
    simp only at rest
    split at rest
    · cases rest
      simp
    · rename_i clean
      obtain ⟨outcome,compiled,rest⟩ := Option.bind_eq_some_iff.mp rest
      split at rest
      · cases rest
      · exact absurd compiled (compiledLast read (by simpa using clean))
      · rename_i p
        obtain ⟨first,ranPositive,rest⟩ := Option.bind_eq_some_iff.mp rest
        split at rest
        · cases rest
        · obtain ⟨second,ranNegative,rest⟩ := Option.bind_eq_some_iff.mp rest
          split at rest
          · cases rest
          · cases rest
            obtain ⟨positiveLabel,positivePassed⟩ := tracePassed ranPositive
            obtain ⟨negativeLabel,negativePassed⟩ := tracePassed ranNegative
            refine ⟨fun passed => ?_,by simp [taxonomyLabel,positiveLabel,negativeLabel]⟩
            simp only [List.all_cons,List.all_nil,Bool.and_true,Bool.true_and,Bool.and_eq_true,taxonomyPassed,
              positivePassed,negativePassed] at passed
            obtain ⟨mapped,found,spared⟩ := passed
            exact ⟨p,compiled,mapped,by simpa using found,by simpa using spared⟩

theorem validatedPasses (validated : Validated u checks h display files positive negative source p) :
    ∃ listed, runChecks u checks h display files positive negative source = some (.ok listed) ∧
      listed.all CheckResult.passed = true := by
  obtain ⟨compiles,mapped,found,spared⟩ := validated
  obtain ⟨ast,parsed,clean,_⟩ := Doctor.compiledStages.mp compiles
  obtain ⟨first,ranPositive⟩ := @traceChecked checks h display files "positive trace" _ _ true _ found
  obtain ⟨second,ranNegative⟩ := @traceChecked checks h display files "negative trace" _ _ false _ spared
  have positivePassed := (tracePassed ranPositive).2.mpr (by simpa using found)
  have negativePassed := (tracePassed ranNegative).2.mpr (by simpa using spared)
  have ran : ∃ metadata : CheckResult, metadata.passed = true ∧
      runChecks u checks h display files positive negative source =
        some (.ok [⟨"syntax",true,""⟩,metadata,taxonomyCheck h p,first,second]) := by
    simp only [runChecks,parsed,clean,compiles,ranPositive,ranNegative,Option.bind_eq_bind,Option.bind_some]
    exact ⟨_,rfl,rfl⟩
  obtain ⟨metadata,passed,ran⟩ := ran
  exact ⟨_,ran,by simp [passed,taxonomyPassed.mpr mapped,positivePassed,negativePassed]⟩

theorem runPassed {patternPath : PathBuf} {text : Except String String} :
    (∃ report, run u checks h display files patternPath positive negative text = some (.ok (report,true))) ↔
      ∃ source p, text = .ok source ∧ Validated u checks h display files positive negative source p := by
  cases text with
  | error reason => simp [run]
  | ok source =>
    simp only [Except.ok.injEq,exists_and_left,exists_eq_left']
    constructor
    · rintro ⟨report,ran⟩
      obtain ⟨done,checked,rest⟩ := Option.map_eq_some_iff.mp ran
      obtain ⟨listed,rfl,last⟩ := bindOk.mp rest
      obtain ⟨_,passed⟩ := Prod.mk.inj (Except.ok.inj last)
      exact (checksDone checked).1 passed
    · rintro ⟨p,validated⟩
      obtain ⟨listed,checked,passed⟩ := validatedPasses validated
      refine ⟨render (display patternPath) listed,?_⟩
      rw [run,checked,← passed]
      rfl

theorem validatedLibrary (u : UnicodeClasses) (checks : OverflowChecks) (h : HashOrder)
    (display : PathBuf → String) (files : TraceFiles) (patternsDir demoDir : PathBuf) (listing : List DirEntry) :
    ((∃ report, Doctor.run u h display (fun path => (files path).isSome) patternsDir demoDir (.ok listing) =
        some (.ok (report,true))) ∧
      ∀ entry ∈ patternEntries listing, ∀ source p, entry.text = .ok source → compileStr u source = some (.ok p) →
        Finds checks h display files (Doctor.tracePath demoDir entry.name "positive") p SomeGrounded ∧
        Finds checks h display files (Doctor.tracePath demoDir entry.name "negative") p
          fun results => ¬ SomeGrounded results) ↔
    ∃ patterns, loadPatterns u display patternsDir (.directory (.ok listing)) = some (.ok patterns) ∧
      (patterns.map fun p => p.id.text).Nodup ∧ ∀ entry ∈ patternEntries listing, ∃ report,
        run u checks h display files (join patternsDir entry.name) (Doctor.tracePath demoDir entry.name "positive")
          (Doctor.tracePath demoDir entry.name "negative") entry.text = some (.ok (report,true)) := by
  simp only [runPassed,Doctor.runClean,directoryLoaded]
  constructor
  · rintro ⟨⟨nonempty,ps,distinct,healthy⟩,finds⟩
    refine ⟨ps,⟨nonempty,healthy.imp fun _ _ file => file.compiles⟩,distinct,fun entry mem => ?_⟩
    obtain ⟨p,_,file⟩ := forall₂Right healthy.flip mem
    obtain ⟨source,text,compiled⟩ := file.compiles
    obtain ⟨found,spared⟩ := finds entry mem source p text compiled
    exact ⟨source,p,text,compiled,file.mapped,found,spared⟩
  · rintro ⟨ps,⟨nonempty,compiled⟩,distinct,passes⟩
    have only {entry : DirEntry} (mem : entry ∈ patternEntries listing) {source : String} {p : CompiledPattern}
        (text : entry.text = .ok source) (made : compileStr u source = some (.ok p)) :
        Validated u checks h display files (Doctor.tracePath demoDir entry.name "positive")
          (Doctor.tracePath demoDir entry.name "negative") source p := by
      obtain ⟨source',q,text',validated⟩ := passes entry mem
      rw [text] at text'
      cases text'
      have same := validated.compiles
      rw [made] at same
      cases same
      exact validated
    have present {path : PathBuf} {p : CompiledPattern} {holds : List GroundingResult → Prop}
        (finds : Finds checks h display files path p holds) : (files path).isSome = true := by
      obtain ⟨decoded,_,_,there,_⟩ := finds
      rw [there]
      rfl
    refine ⟨⟨nonempty,ps,distinct,forall₂Positions compiled fun i entry p here there made => ?_⟩,?_⟩
    · obtain ⟨source,text,done⟩ := made
      have validated := only (List.mem_of_getElem? here) text done
      refine ⟨⟨source,text,done⟩,validated.mapped,fun suffix either => ?_⟩
      rcases List.mem_pair.mp either with rfl | rfl
      · exact present validated.found
      · exact present validated.spared
    · intro entry mem source p text done
      have validated := only mem text done
      exact ⟨validated.found,validated.spared⟩

end
end ValidatePattern
end RootCause.Cli
