import RootCause.Dsl.WellFormed
import RootCause.Grounding.Engine

/-! The pattern files that an analysis runs: one file, or the pattern files directly
inside a directory in the order of their names. What the operating system answers is
an argument. -/
namespace RootCause.Cli
open Library Dsl Matcher Grounding

/- Paths and file names are bytes. -/
abbrev PathBuf := List UInt8

inductive CliError where
  | usage (text : String)
  | inputPath (path : PathBuf) (reason : String)
  | io (path : PathBuf) (reason : String)
  | dsl (e : DslError)
  | matcher (e : MatcherError)
  | grounding (e : GroundingError)
  deriving DecidableEq, Repr

structure DirEntry where
  name : List UInt8
  text : Except String String

inductive Located where
  | file (text : Except String String)
  | directory (listing : Except String (List DirEntry))
  | other

def dot : UInt8 := 46
def separator : UInt8 := 47

/- `rcdsl`. -/
def patternExtension : List UInt8 := [114,99,100,115,108]

def extension (name : List UInt8) : Option (List UInt8) :=
  match name.reverse.dropWhile fun b => b ≠ dot with
  | _ :: _ :: _ => some (name.reverse.takeWhile fun b => b ≠ dot).reverse
  | _ => none

def join (path : PathBuf) (name : List UInt8) : PathBuf :=
  match path.getLast? with
  | none => name
  | some last => if last = separator then path ++ name else path ++ separator :: name

def loadPatternFile (u : UnicodeClasses) (path : PathBuf) :
    Except String String → Option (Except (Failure CliError) CompiledPattern)
  | .error reason => some (.error (.error (.io path reason)))
  | .ok source => (compileStr u source).map (mapFailure .dsl)

def loadFiles (u : UnicodeClasses) (path : PathBuf) :
    List DirEntry → Option (Except (Failure CliError) (List CompiledPattern))
  | [] => some (.ok [])
  | entry :: rest => do
    match ← loadPatternFile u (join path entry.name) entry.text with
    | .error e => some (.error e)
    | .ok p => (loadFiles u path rest).map fun loaded => do pure (p :: (← loaded))

def patternEntries (listing : List DirEntry) : List DirEntry :=
  (listing.filter fun entry => extension entry.name = some patternExtension).insertionSort
    fun x y => x.name ≤ y.name

/- The text of a path replaces what is not UTF-8, as the standard library does. -/
def loadPatterns (u : UnicodeClasses) (display : PathBuf → String) (path : PathBuf) :
    Located → Option (Except (Failure CliError) (List CompiledPattern))
  | .file text => (loadPatternFile u path text).map fun loaded => do pure [← loaded]
  | .other => some (.error (.error (.inputPath path "not a file or directory")))
  | .directory (.error reason) => some (.error (.error (.inputPath path reason)))
  | .directory (.ok listing) =>
    if (patternEntries listing).isEmpty then
      some (.error (.error (.usage
        ("no `.rcdsl` pattern files found in `" ++ display path ++ "`"))))
    else loadFiles u path (patternEntries listing)

section
variable {u : UnicodeClasses} {display : PathBuf → String} {path : PathBuf}

theorem loadPatternFileOk {text : Except String String} {p : CompiledPattern} :
    loadPatternFile u path text = some (.ok p) ↔
      ∃ source, text = .ok source ∧ compileStr u source = some (.ok p) := by
  cases text with
  | error reason => simp [loadPatternFile]
  | ok source => simp [loadPatternFile]

theorem loadFilesOk {entries : List DirEntry} {ps : List CompiledPattern} :
    loadFiles u path entries = some (.ok ps) ↔
      List.Forall₂ (fun entry p => loadPatternFile u (join path entry.name) entry.text = some (.ok p))
        entries ps := by
  induction entries generalizing ps with
  | nil => cases ps <;> simp [loadFiles]
  | cons entry rest ih =>
    have step : loadFiles u path (entry :: rest) = some (.ok ps) ↔ ∃ p tail,
        loadPatternFile u (join path entry.name) entry.text = some (.ok p) ∧
        loadFiles u path rest = some (.ok tail) ∧ p :: tail = ps := by
      rw [loadFiles,Option.bind_eq_bind,Option.bind_eq_some_iff]
      constructor
      · intro given
        obtain ⟨first,loaded,rest⟩ := given
        cases first with
        | error e => simp at rest
        | ok p =>
          obtain ⟨later,tail,last⟩ := Option.map_eq_some_iff.mp rest
          obtain ⟨ps',same,joined⟩ := bindOk.mp last
          cases same
          cases joined
          exact ⟨p,ps',loaded,tail,rfl⟩
      · intro given
        obtain ⟨p,tail,loaded,later,rfl⟩ := given
        refine ⟨_,loaded,?_⟩
        simp [later,bind,Except.bind,pure,Except.pure]
    rw [step]
    constructor
    · intro given
      obtain ⟨p,tail,first,later,rfl⟩ := given
      exact .cons first (ih.mp later)
    · intro given
      cases given with
      | cons first later => exact ⟨_,_,first,ih.mpr later,rfl⟩

theorem loadedAccepted {located : Located} {ps : List CompiledPattern}
    (loaded : loadPatterns u display path located = some (.ok ps)) : ∀ p ∈ ps, Accepted u p := by
  intro p mem
  cases located with
  | file text =>
    obtain ⟨first,found,last⟩ := Option.map_eq_some_iff.mp loaded
    obtain ⟨q,same,joined⟩ := bindOk.mp last
    cases same
    cases joined
    cases List.mem_singleton.mp mem
    obtain ⟨source,_,compiled⟩ := loadPatternFileOk.mp found
    exact ⟨source,compiled⟩
  | other => simp [loadPatterns] at loaded
  | directory listing =>
    cases listing with
    | error reason => simp [loadPatterns] at loaded
    | ok entries =>
      simp only [loadPatterns] at loaded
      split at loaded
      · simp at loaded
      · obtain ⟨entry,_,found⟩ := forall₂Right (loadFilesOk.mp loaded) mem
        obtain ⟨source,_,compiled⟩ := loadPatternFileOk.mp found
        exact ⟨source,compiled⟩

end
end RootCause.Cli
