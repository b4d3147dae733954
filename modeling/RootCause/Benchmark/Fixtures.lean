import RootCause.Benchmark.Suite
import RootCause.Cli.Doctor

/-! Suites on disk: a definition file for each case, with the patterns inline or in files
beside it. What the operating system and the JSON reader answer is an argument. -/
namespace RootCause.Benchmark
open Library FactModel Dsl Matcher Ingestion Cli

structure PatternDef where
  source : Option String
  file : Option PathBuf

structure ExpectedDef where
  patternId : String
  outcome : PatternOutcome

structure CaseDef where
  id : String
  description : String
  traceFile : PathBuf
  provenanceLabel : Option String
  patterns : List PatternDef
  expected : List ExpectedDef

inductive FixtureError where
  | fixtureIo (path : PathBuf) (reason : String)
  | malformedDefinition (path : PathBuf) (reason : String)
  | patternCompile (caseId patternLabel : String) (source : DslError)
  | invalidFixtureDirectory (path : PathBuf)
  deriving DecidableEq, Repr

/- `Path::join`, which an absolute path replaces. -/
def joinPath (base file : PathBuf) : PathBuf := if file.head? = some separator then file else join base file

/- `json`. -/
def jsonExtension : List UInt8 := [106,115,111,110]

def sortedEntries (ending : List UInt8) (listing : List DirEntry) : List DirEntry :=
  (listing.filter fun entry => extension entry.name = some ending).insertionSort fun x y => x.name ≤ y.name

/- What is read at a path, what a JSON text defines, the directory of a path, and what
loading and decoding a trace gives. -/
structure Disk where
  read : PathBuf → Except String String
  define : String → Except String CaseDef
  parent : PathBuf → PathBuf
  trace : PathBuf → Except IngestionError RawTraceDocument

section
variable (u : UnicodeClasses) (disk : Disk)

def patternSource (path : PathBuf) (i : Nat) : PatternDef → Except FixtureError String
  | ⟨some source,none⟩ => .ok source
  | ⟨none,some file⟩ => match disk.read (joinPath (disk.parent path) file) with
    | .ok source => .ok source
    | .error reason => .error (.fixtureIo (joinPath (disk.parent path) file) reason)
  | _ => .error (.malformedDefinition path
      ("pattern entry " ++ toString i ++ " must set exactly one of `source` or `file`"))

def loadPatternDefs (path : PathBuf) (caseId : String) :
    Nat → List PatternDef → Option (Except (Failure FixtureError) (List CompiledPattern))
  | _, [] => some (.ok [])
  | i, pd :: rest => match patternSource disk path i pd with
    | .error e => some (.error (.error e))
    | .ok source => do
      match ← compileStr u source with
      | .error (.panicked message) => some (.error (.panicked message))
      | .error (.error e) => some (.error (.error (.patternCompile caseId ("#" ++ toString i) e)))
      | .ok compiled => (loadPatternDefs path caseId (i + 1) rest).map fun later => do pure (compiled :: (← later))

def loadCase (path : PathBuf) : Except String String → Option (Except (Failure FixtureError) BenchmarkCase)
  | .error reason => some (.error (.error (.fixtureIo path reason)))
  | .ok raw => match disk.define raw with
    | .error reason => some (.error (.error (.malformedDefinition path reason)))
    | .ok caseDef => (loadPatternDefs u disk path caseDef.id 0 caseDef.patterns).map fun loaded => do
      let patterns ← loaded
      pure ⟨⟨caseDef.id⟩,caseDef.description,
        .fromSource (disk.trace (joinPath (disk.parent path) caseDef.traceFile))
          (caseDef.provenanceLabel.getD ("fixture:" ++ caseDef.id)),
        patterns,caseDef.expected.map fun e => ⟨⟨e.patternId⟩,e.outcome⟩⟩

def loadCases (dir : PathBuf) : List DirEntry → Option (Except (Failure FixtureError) (List BenchmarkCase))
  | [] => some (.ok [])
  | entry :: rest => do
    match ← loadCase u disk (join dir entry.name) entry.text with
    | .error e => some (.error e)
    | .ok case => (loadCases dir rest).map fun later => do pure (case :: (← later))

def loadSuiteFromDir (name : String) (dir : PathBuf) :
    Option (Except String (List DirEntry)) → Option (Except (Failure FixtureError) BenchmarkSuite)
  | none => some (.error (.error (.invalidFixtureDirectory dir)))
  | some (.error reason) => some (.error (.error (.fixtureIo dir reason)))
  | some (.ok listing) => (loadCases u disk dir (sortedEntries jsonExtension listing)).map fun loaded => do
    pure ⟨name,← loaded⟩

end

def DefinesPattern (u : UnicodeClasses) (disk : Disk) (path : PathBuf) (pd : PatternDef) (p : CompiledPattern) : Prop :=
  ∃ source, (pd = ⟨some source,none⟩ ∨ ∃ file, pd = ⟨none,some file⟩ ∧
    disk.read (joinPath (disk.parent path) file) = .ok source) ∧ compileStr u source = some (.ok p)

structure DefinesCase (u : UnicodeClasses) (disk : Disk) (path : PathBuf) (caseDef : CaseDef) (case : BenchmarkCase) :
    Prop where
  id : case.id.text = caseDef.id
  description : case.description = caseDef.description
  traceInput : case.traceInput = .fromSource (disk.trace (joinPath (disk.parent path) caseDef.traceFile))
    (caseDef.provenanceLabel.getD ("fixture:" ++ caseDef.id))
  patterns : List.Forall₂ (DefinesPattern u disk path) caseDef.patterns case.patterns
  expected : case.expected = caseDef.expected.map fun e => ⟨⟨e.patternId⟩,e.outcome⟩

section
variable {u : UnicodeClasses} {disk : Disk} {path dir : PathBuf} {case : BenchmarkCase}

theorem patternSourceOk {i : Nat} {pd : PatternDef} {source : String} : patternSource disk path i pd = .ok source ↔
    pd = ⟨some source,none⟩ ∨ ∃ file, pd = ⟨none,some file⟩ ∧
      disk.read (joinPath (disk.parent path) file) = .ok source := by
  obtain ⟨inline,file⟩ := pd
  cases inline <;> cases file with
  | none => simp [patternSource]
  | some f =>
    cases read : disk.read (joinPath (disk.parent path) f) <;> simp [patternSource,read]

theorem loadPatternDefsOk {caseId : String} {i : Nat} {defs : List PatternDef} {ps : List CompiledPattern} :
    loadPatternDefs u disk path caseId i defs = some (.ok ps) ↔ List.Forall₂ (DefinesPattern u disk path) defs ps := by
  induction defs generalizing i ps with
  | nil => cases ps <;> simp [loadPatternDefs]
  | cons pd rest ih =>
    rw [loadPatternDefs]
    constructor
    · intro given
      split at given
      · cases given
      · rename_i source found
        obtain ⟨first,compiled,later⟩ := Option.bind_eq_some_iff.mp given
        split at later
        · cases later
        · cases later
        · obtain ⟨done,tail,last⟩ := Option.map_eq_some_iff.mp later
          obtain ⟨others,rfl,joined⟩ := bindOk.mp last
          cases joined
          exact .cons ⟨source,patternSourceOk.mp found,compiled⟩ (ih.mp tail)
    · intro each
      cases each with
      | cons first tail =>
        obtain ⟨source,found,compiled⟩ := first
        simp only [patternSourceOk.mpr found,compiled,ih.mpr tail,Option.bind_eq_bind,Option.bind_some,Option.map_some]
        rfl

theorem loadCaseOk {text : Except String String} : loadCase u disk path text = some (.ok case) ↔
    ∃ raw caseDef, text = .ok raw ∧ disk.define raw = .ok caseDef ∧ DefinesCase u disk path caseDef case := by
  cases text with
  | error reason => simp [loadCase]
  | ok raw =>
    rw [loadCase]
    cases defined : disk.define raw with
    | error reason =>
      simp only [Option.some.injEq,reduceCtorEq,false_iff]
      rintro ⟨raw',caseDef,same,found,_⟩
      cases same
      rw [defined] at found
      cases found
    | ok caseDef =>
      constructor
      · intro given
        obtain ⟨loaded,read,last⟩ := Option.map_eq_some_iff.mp given
        obtain ⟨patterns,rfl,joined⟩ := bindOk.mp last
        cases joined
        exact ⟨raw,caseDef,rfl,defined,rfl,rfl,rfl,loadPatternDefsOk.mp read,rfl⟩
      · rintro ⟨raw',caseDef',same,found,defines⟩
        cases same
        rw [defined] at found
        cases found
        obtain ⟨⟨id⟩,description,traceInput,patterns,expected⟩ := case
        obtain ⟨rfl,rfl,rfl,each,rfl⟩ := defines
        have read := (@loadPatternDefsOk u disk path caseDef.id 0 _ _).mpr each
        simp only [read,Option.map_some]
        rfl

theorem loadCasesOk {entries : List DirEntry} {cases : List BenchmarkCase} :
    loadCases u disk dir entries = some (.ok cases) ↔ List.Forall₂ (fun entry case =>
      loadCase u disk (join dir entry.name) entry.text = some (.ok case)) entries cases := by
  induction entries generalizing cases with
  | nil => cases cases <;> simp [loadCases]
  | cons entry rest ih =>
    rw [loadCases]
    constructor
    · intro given
      obtain ⟨first,loaded,later⟩ := Option.bind_eq_some_iff.mp given
      split at later
      · cases later
      · obtain ⟨done,tail,last⟩ := Option.map_eq_some_iff.mp later
        obtain ⟨others,rfl,joined⟩ := bindOk.mp last
        cases joined
        exact .cons loaded (ih.mp tail)
    · intro each
      cases each with
      | cons loaded tail =>
        simp only [loaded,ih.mpr tail,Option.bind_eq_bind,Option.bind_some,Option.map_some]
        rfl

theorem suiteLoaded (u : UnicodeClasses) (disk : Disk) (name : String) (dir : PathBuf) (listing : List DirEntry)
    (suite : BenchmarkSuite) :
    (loadSuiteFromDir u disk name dir (some (.ok listing)) = some (.ok suite) ↔
      suite.name = name ∧ List.Forall₂ (fun entry case => ∃ raw caseDef, entry.text = .ok raw ∧
        disk.define raw = .ok caseDef ∧ DefinesCase u disk (join dir entry.name) caseDef case)
          (sortedEntries jsonExtension listing) suite.cases) ∧
    (loadSuiteFromDir u disk name dir (some (.ok listing)) = some (.ok suite) →
      ∀ case ∈ suite.cases, ∀ p ∈ case.patterns, Accepted u p) := by
  have loads : loadSuiteFromDir u disk name dir (some (.ok listing)) = some (.ok suite) ↔
      suite.name = name ∧ List.Forall₂ (fun entry case => ∃ raw caseDef, entry.text = .ok raw ∧
        disk.define raw = .ok caseDef ∧ DefinesCase u disk (join dir entry.name) caseDef case)
          (sortedEntries jsonExtension listing) suite.cases := by
    simp only [← loadCaseOk,← loadCasesOk]
    rw [loadSuiteFromDir,Option.map_eq_some_iff]
    constructor
    · rintro ⟨loaded,read,last⟩
      obtain ⟨cases,rfl,joined⟩ := bindOk.mp last
      cases joined
      exact ⟨rfl,read⟩
    · rintro ⟨rfl,read⟩
      exact ⟨_,read,rfl⟩
  refine ⟨loads,fun loaded case mem p inside => ?_⟩
  obtain ⟨_,_,raw,caseDef,_,_,defines⟩ := forall₂Right (loads.mp loaded).2 mem
  obtain ⟨pd,_,source,_,compiled⟩ := forall₂Right defines.patterns inside
  exact ⟨source,compiled⟩

theorem entriesSame {ending : List UInt8} {listing other : List DirEntry} (same : listing.Perm other)
    (distinct : (listing.map DirEntry.name).Nodup) : sortedEntries ending listing = sortedEntries ending other := by
  have total : Std.Total fun x y : DirEntry => x.name ≤ y.name := ⟨fun _ _ => List.le_total _ _⟩
  have trans : IsTrans DirEntry fun x y => x.name ≤ y.name := ⟨fun _ _ _ => List.le_trans⟩
  have within {entries : List DirEntry} : ∀ entry ∈ sortedEntries ending entries, entry ∈ entries :=
    fun _ mem => List.mem_of_mem_filter ((List.mem_insertionSort _).mp mem)
  refine List.Perm.eq_of_pairwise ?_ (List.pairwise_insertionSort _ _) (List.pairwise_insertionSort _ _) ?_
  · intro x y left right below above
    have inside := same.mem_iff.mpr (within y right)
    exact List.inj_on_of_nodup_map distinct (within x left) inside (List.le_antisymm below above)
  · exact (List.perm_insertionSort _ _).trans ((same.filter _).trans (List.perm_insertionSort _ _).symm)

theorem listingOrder {listing other : List DirEntry} (same : listing.Perm other)
    (distinct : (listing.map DirEntry.name).Nodup) :
    (∀ u display path, loadPatterns u display path (.directory (.ok listing)) =
      loadPatterns u display path (.directory (.ok other))) ∧
    (∀ u h display pathExists patternsDir demoDir,
      Doctor.run u h display pathExists patternsDir demoDir (.ok listing) =
        Doctor.run u h display pathExists patternsDir demoDir (.ok other)) ∧
    ∀ u disk name dir, loadSuiteFromDir u disk name dir (some (.ok listing)) =
      loadSuiteFromDir u disk name dir (some (.ok other)) := by
  have patterns : patternEntries listing = patternEntries other := entriesSame same distinct
  have cases : sortedEntries jsonExtension listing = sortedEntries jsonExtension other := entriesSame same distinct
  refine ⟨fun u display path => ?_,fun u h display pathExists patternsDir demoDir => ?_,fun u disk name dir => ?_⟩
  · simp only [loadPatterns,patterns]
  · simp only [Doctor.run,patterns]
  · simp only [loadSuiteFromDir,cases]

end

def listedPair : List DirEntry :=
  [⟨[98,46,114,99,100,115,108],.ok createdSource⟩,⟨[97,46,114,99,100,115,108],.ok revisedSource⟩]

theorem listingOrderPair :
    (∀ u display path, loadPatterns u display path (.directory (.ok listedPair)) =
      loadPatterns u display path (.directory (.ok listedPair.reverse))) ∧
    (∀ u h display pathExists patternsDir demoDir,
      Doctor.run u h display pathExists patternsDir demoDir (.ok listedPair) =
        Doctor.run u h display pathExists patternsDir demoDir (.ok listedPair.reverse)) ∧
    ∀ u disk name dir, loadSuiteFromDir u disk name dir (some (.ok listedPair)) =
      loadSuiteFromDir u disk name dir (some (.ok listedPair.reverse)) :=
  listingOrder (List.reverse_perm _).symm (by decide)

end RootCause.Benchmark
