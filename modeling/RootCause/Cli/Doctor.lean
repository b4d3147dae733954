import RootCause.Cli.Refusals
import RootCause.Dsl.Rendering
import RootCause.Taxonomy.Mapping

/-! The scan of a pattern directory for what no single file shows. A library that passes
it can be analyzed as a batch: no two of its patterns share an identity. -/
namespace RootCause.Cli
open Library FactModel Dsl Matcher Grounding Taxonomy

namespace Doctor

structure Issue where
  file : String
  message : String
  deriving DecidableEq, Repr

structure Scan where
  idsSeen : OrderedMap String (List String)
  issues : List Issue

def Scan.push (s : Scan) (file message : String) : Scan := { s with issues := s.issues ++ [⟨file,message⟩] }

def fileStem (name : List UInt8) : List UInt8 :=
  match name.reverse.dropWhile fun b => b ≠ dot with
  | _ :: c :: stem => (c :: stem).reverse
  | _ => name

def stemText (name : List UInt8) : String := (String.fromUTF8? ⟨(fileStem name).toArray⟩).getD "pattern"

def tracePath (demoDir : PathBuf) (name : List UInt8) (suffix : String) : PathBuf :=
  join demoDir (stemText name ++ "_" ++ suffix ++ ".json").toUTF8.toList

section
variable (u : UnicodeClasses) (h : HashOrder) (display : PathBuf → String) (pathExists : PathBuf → Bool)
  (demoDir : PathBuf)

def checkTrace (entry : DirEntry) (s : Scan) (suffix : String) : Scan :=
  if pathExists (tracePath demoDir entry.name suffix) then s
  else s.push (display entry.name) ("missing " ++ suffix ++ " demo trace at `" ++
    display (tracePath demoDir entry.name suffix) ++ "`")

def checkFamily (entry : DirEntry) (family : PatternFamily) (s : Scan) : Scan :=
  if (MappingEngine.new.mapFamily h family).isEmpty then
    s.push (display entry.name) ("family `" ++ family.text ++
      "` is not mapped in any taxonomy \u2014 see docs/PATTERN_AUTHORING_GUIDE.md step 5")
  else s

/- The flag says whether the file compiled. The only failure is a panic. -/
def scanPatternFile (entry : DirEntry) (s : Scan) : Option (Except (Failure CliError) (Bool × Scan)) :=
  let fileLabel := display entry.name
  match entry.text with
  | .error e => some (.ok (false,s.push fileLabel ("failed to read: " ++ e)))
  | .ok source => do
    match ← parse u source with
    | .error (.panicked message) => some (.error (.panicked message))
    | .error (.error diags) =>
      some (.ok (false,s.push fileLabel ("syntax error: " ++ (DslError.parse diags).display)))
    | .ok ast =>
      let diagnostics := validate ast
      if diagnostics.hasErrors then
        some (.ok (false,s.push fileLabel ("metadata error: " ++
          "; ".intercalate (diagnostics.map fun d => d.render source))))
      else
        match ← compileStr u source with
        | .error (.panicked message) => some (.error (.panicked message))
        | .error (.error e) => some (.ok (false,s.push fileLabel ("failed to compile: " ++ e.display)))
        | .ok compiled =>
          let s := { s with idsSeen := s.idsSeen.push compiled.id.text fileLabel }
          let s := checkFamily h display entry compiled.family s
          some (.ok (true,["positive","negative"].foldl (checkTrace display pathExists demoDir entry) s))

def scanFiles : List DirEntry → Nat → Scan → Option (Except (Failure CliError) (Nat × Scan))
  | [], checked, s => some (.ok (checked,s))
  | entry :: rest, checked, s => do
    match ← scanPatternFile u h display pathExists demoDir entry s with
    | .error e => some (.error e)
    | .ok (compiled,s) => scanFiles rest (if compiled then checked + 1 else checked) s

end

def duplicateIds (idsSeen : OrderedMap String (List String)) : List Issue :=
  (idsSeen.entries.filter fun seen => 1 < seen.2.length).map fun seen =>
    ⟨", ".intercalate seen.2,"duplicate pattern id `" ++ seen.1 ++ "` used in more than one file"⟩

def render (patternsDir : String) (checked total : Nat) (issues : List Issue) : String :=
  let head := "Scanning " ++ patternsDir ++ " (" ++ toString total ++ " pattern file(s), " ++ toString checked ++
    " compiled successfully)\n"
  if issues.isEmpty then head ++ "\n\u2713 no issues found\n"
  else head ++ "\n" ++ String.join (issues.map fun issue => "\u2717 " ++ issue.file ++ ": " ++ issue.message ++ "\n") ++
    "\n" ++ toString issues.length ++ " issue(s) found\n"

def run (u : UnicodeClasses) (h : HashOrder) (display : PathBuf → String) (pathExists : PathBuf → Bool)
    (patternsDir demoDir : PathBuf) :
    Except String (List DirEntry) → Option (Except (Failure CliError) (String × Bool))
  | .error reason => some (.error (.error (.inputPath patternsDir reason)))
  | .ok listing =>
    let entries := patternEntries listing
    if entries.isEmpty then
      some (.error (.error (.usage ("no `.rcdsl` pattern files found in `" ++ display patternsDir ++ "`"))))
    else (scanFiles u h display pathExists demoDir entries 0 ⟨.empty,[]⟩).map fun scanned => do
      let (checked,s) ← scanned
      let issues := s.issues ++ duplicateIds s.idsSeen
      pure (render (display patternsDir) checked entries.length issues,issues.isEmpty)

def Mapped (family : PatternFamily) : Prop := scweMapFamily family ≠ [] ∨ swcMapFamily family ≠ []

structure Healthy (u : UnicodeClasses) (pathExists : PathBuf → Bool) (demoDir : PathBuf) (entry : DirEntry)
    (p : CompiledPattern) : Prop where
  compiles : ∃ source, entry.text = .ok source ∧ compileStr u source = some (.ok p)
  mapped : Mapped p.family
  traces : ∀ suffix ∈ ["positive","negative"], pathExists (tracePath demoDir entry.name suffix) = true

section
variable {u : UnicodeClasses} {h : HashOrder} {display : PathBuf → String} {pathExists : PathBuf → Bool}
  {patternsDir demoDir : PathBuf} {entry : DirEntry} {s t : Scan} {p : CompiledPattern}

theorem mappedIff {family : PatternFamily} : Mapped family ↔ MappingEngine.new.mapFamily h family ≠ [] := by
  have engine : MappingEngine.new = ⟨.registered [scweMapper,swcMapper]⟩ := rfl
  rw [engine,MappingEngine.mapFamilySome]
  constructor
  · rintro (some | some)
    · exact ⟨"SCWE",scweMapper,rfl,some⟩
    · exact ⟨"SWC",swcMapper,rfl,some⟩
  · rintro ⟨taxonomy,mapper,found,some⟩
    have registered := List.mem_of_find?_eq_some found
    simp only [List.mem_reverse,List.mem_cons,List.not_mem_nil,or_false] at registered
    rcases registered with rfl | rfl
    · exact .inl some
    · exact .inr some

def Checks (passes : Prop) (s t : Scan) : Prop := ∃ more, t.issues = s.issues ++ more ∧ (more = [] → passes)

theorem checksPush {passes : Prop} {file message : String} : Checks passes s (s.push file message) :=
  ⟨_,rfl,by simp⟩

theorem checksSame {passes : Prop} (held : passes) : Checks passes s s := ⟨[],by simp,fun _ => held⟩

theorem Checks.next {first second : Prop} {r : Scan} (one : Checks first s t) (two : Checks second t r) :
    Checks (first ∧ second) s r := by
  obtain ⟨more,same,passes⟩ := one
  obtain ⟨more',same',passes'⟩ := two
  refine ⟨more ++ more',by rw [same',same,List.append_assoc],fun none => ?_⟩
  obtain ⟨left,right⟩ := List.append_eq_nil_iff.mp none
  exact ⟨passes left,passes' right⟩

theorem Checks.weaken {passes weaker : Prop} (checks : Checks passes s t) (implied : passes → weaker) :
    Checks weaker s t := by
  obtain ⟨more,same,passes⟩ := checks
  exact ⟨more,same,fun none => implied (passes none)⟩

theorem traceChecks {suffix : String} : Checks (pathExists (tracePath demoDir entry.name suffix) = true) s
    (checkTrace display pathExists demoDir entry s suffix) := by
  unfold checkTrace
  split
  · exact checksSame (by assumption)
  · exact checksPush

theorem tracesChecks {suffixes : List String} :
    Checks (∀ suffix ∈ suffixes, pathExists (tracePath demoDir entry.name suffix) = true) s
      (suffixes.foldl (checkTrace display pathExists demoDir entry) s) := by
  induction suffixes generalizing s with
  | nil => exact checksSame (by simp)
  | cons suffix suffixes ih => exact (traceChecks.next ih).weaken fun passed => List.forall_mem_cons.mpr ⟨passed.1,passed.2⟩

theorem familyChecks {family : PatternFamily} : Checks (Mapped family) s (checkFamily h display entry family s) := by
  unfold checkFamily
  split
  · exact checksPush
  · rename_i some
    exact checksSame (mappedIff.mpr fun none => some (List.isEmpty_iff.mpr none))

theorem compiledChecks {family : PatternFamily} : Checks (Mapped family ∧
    ∀ suffix ∈ ["positive","negative"], pathExists (tracePath demoDir entry.name suffix) = true) s
    (["positive","negative"].foldl (checkTrace display pathExists demoDir entry)
      (checkFamily h display entry family s)) := familyChecks.next tracesChecks

theorem compiledStages {source : String} : compileStr u source = some (.ok p) ↔
    ∃ ast, parse u source = some (.ok ast) ∧ (validate ast).hasErrors = false ∧
      compileStr u source = some (.ok p) := by
  constructor
  · intro compiled
    obtain ⟨ast,parsed,done⟩ := compileStrOk.mp compiled
    exact ⟨ast,parsed,(compileOk.mp done).1,compiled⟩
  · rintro ⟨_,_,_,compiled⟩
    exact compiled

theorem scanHealthy (healthy : Healthy u pathExists demoDir entry p) :
    scanPatternFile u h display pathExists demoDir entry s =
      some (.ok (true,⟨s.idsSeen.push p.id.text (display entry.name),s.issues⟩)) := by
  obtain ⟨source,text,compiled⟩ := healthy.compiles
  obtain ⟨ast,parsed,clean,_⟩ := compiledStages.mp compiled
  have family (t : Scan) : checkFamily h display entry p.family t = t :=
    if_neg fun none => mappedIff.mp healthy.mapped (List.isEmpty_iff.mp none)
  have trace (t : Scan) (suffix : String) (mem : suffix ∈ ["positive","negative"]) :
      checkTrace display pathExists demoDir entry t suffix = t := if_pos (healthy.traces suffix mem)
  simp only [scanPatternFile,text,parsed,compiled,clean,family,List.foldl_cons,List.foldl_nil,
    trace _ "positive" (by simp),trace _ "negative" (by simp),Option.bind_eq_bind,Option.bind_some]
  rfl

theorem scanChecks {compiles : Bool}
    (scanned : scanPatternFile u h display pathExists demoDir entry s = some (.ok (compiles,t))) :
    Checks (∃ p, Healthy u pathExists demoDir entry p) s t := by
  unfold scanPatternFile at scanned
  split at scanned
  · cases scanned
    exact checksPush
  · rename_i source text
    obtain ⟨parsed,_,rest⟩ := Option.bind_eq_some_iff.mp scanned
    split at rest
    · cases rest
    · cases rest
      exact checksPush
    · simp only at rest
      split at rest
      · cases rest
        exact checksPush
      · obtain ⟨outcome,compiled,last⟩ := Option.bind_eq_some_iff.mp rest
        split at last
        · cases last
        · cases last
          exact checksPush
        · rename_i p
          cases last
          have both := @compiledChecks h display pathExists demoDir entry
            ⟨s.idsSeen.push p.id.text (display entry.name),s.issues⟩ p.family
          exact both.weaken fun passed => ⟨p,⟨source,text,compiled⟩,passed.1,passed.2⟩

theorem scanFilesHealthy {entries : List DirEntry} {ps : List CompiledPattern} {checked : Nat}
    (healthy : List.Forall₂ (Healthy u pathExists demoDir) entries ps) :
    ∃ n, ∃ pairs : List (String × String), pairs.map Prod.fst = ps.map (fun p => p.id.text) ∧
      scanFiles u h display pathExists demoDir entries checked s =
        some (.ok (n,⟨pairs.foldl (fun m pair => m.push pair.1 pair.2) s.idsSeen,s.issues⟩)) := by
  induction healthy generalizing checked s with
  | nil => exact ⟨checked,[],rfl,rfl⟩
  | @cons entry p entries ps first _ ih =>
    obtain ⟨n,pairs,ids,run⟩ := @ih ⟨s.idsSeen.push p.id.text (display entry.name),s.issues⟩ (checked + 1)
    refine ⟨n,(p.id.text,display entry.name) :: pairs,by rw [List.map_cons,List.map_cons,ids],?_⟩
    rw [scanFiles,scanHealthy first]
    exact run

theorem scanFilesChecks {entries : List DirEntry} {checked n : Nat}
    (scanned : scanFiles u h display pathExists demoDir entries checked s = some (.ok (n,t))) :
    Checks (∃ ps, List.Forall₂ (Healthy u pathExists demoDir) entries ps) s t := by
  induction entries generalizing checked s with
  | nil =>
    cases scanned
    exact checksSame ⟨[],.nil⟩
  | cons entry entries ih =>
    rw [scanFiles] at scanned
    obtain ⟨first,read,rest⟩ := Option.bind_eq_some_iff.mp scanned
    split at rest
    · cases rest
    · refine ((scanChecks read).next (ih rest)).weaken ?_
      rintro ⟨⟨p,one⟩,ps,others⟩
      exact ⟨p :: ps,.cons one others⟩

theorem noDuplicates {idsSeen : OrderedMap String (List String)} :
    duplicateIds idsSeen = [] ↔ ∀ seen ∈ idsSeen.entries, seen.2.length ≤ 1 := by
  simp [duplicateIds,List.filter_eq_nil_iff]

theorem filedIds {pairs : List (String × String)} {ps : List CompiledPattern}
    (ids : pairs.map Prod.fst = ps.map fun p => p.id.text) :
    duplicateIds (pairs.foldl (fun m pair => m.push pair.1 pair.2) .empty) = [] ↔
      (ps.map fun p => p.id.text).Nodup := by
  rw [noDuplicates,← ids]
  exact OrderedMap.filedSingle

theorem runClean {listing : List DirEntry} :
    (∃ report, run u h display pathExists patternsDir demoDir (.ok listing) = some (.ok (report,true))) ↔
      patternEntries listing ≠ [] ∧ ∃ ps, (ps.map fun p => p.id.text).Nodup ∧
        List.Forall₂ (Healthy u pathExists demoDir) (patternEntries listing) ps := by
  by_cases empty : patternEntries listing = []
  · simp [run,empty]
  have some : ¬ (patternEntries listing).isEmpty = true := by simpa using empty
  rw [run,if_neg some]
  constructor
  · rintro ⟨report,ran⟩
    obtain ⟨scanned,read,rest⟩ := Option.map_eq_some_iff.mp ran
    obtain ⟨⟨n,s⟩,rfl,last⟩ := bindOk.mp rest
    obtain ⟨_,clean⟩ := Prod.mk.inj (Except.ok.inj last)
    obtain ⟨more,same,healthy⟩ := scanFilesChecks read
    obtain ⟨issues,ids⟩ := List.append_eq_nil_iff.mp (List.isEmpty_iff.mp clean)
    obtain ⟨ps,all⟩ := healthy (by simpa [same] using issues)
    obtain ⟨n',pairs,named,again⟩ := @scanFilesHealthy u h display _ _ ⟨.empty,[]⟩ _ _ 0 all
    rw [again] at read
    cases read
    exact ⟨empty,ps,(filedIds named).mp ids,all⟩
  · rintro ⟨_,ps,distinct,healthy⟩
    obtain ⟨n,pairs,named,scanned⟩ := @scanFilesHealthy u h display _ _ ⟨.empty,[]⟩ _ _ 0 healthy
    rw [scanned]
    have none := (filedIds named).mpr distinct
    exact ⟨_,by simp only [Option.map_some,bind,Except.bind,none]; rfl⟩

end
end Doctor

section
variable {u : UnicodeClasses} {h : HashOrder} {display : PathBuf → String} {pathExists : PathBuf → Bool}
  {patternsDir demoDir : PathBuf}

theorem distinctPerPattern {trace : Trace} {patterns : List CompiledPattern} (wf : ∀ p ∈ patterns, WellFormed p)
    (distinct : (patterns.map fun p => p.id.text).Nodup) : PerPattern h trace patterns := by
  have first : ∀ p ∈ patterns, firstNamed patterns p = some p := by
    intro p mem
    obtain ⟨q,inside,named,id,_⟩ := judged mem
    have same : q.id.text = p.id.text := by rw [id]
    rw [named,List.inj_on_of_nodup_map distinct inside mem same]
  have own : ∀ p ∈ patterns, ∀ cs, findCandidates h trace (.build trace) p = .ok cs →
      ∀ c ∈ cs, patternFor patterns c = some p := by
    intro p mem cs found c inside
    rw [patternForCandidate (wf p mem) found inside]
    exact first p mem
  obtain ⟨find,found⟩ : ∃ find : CompiledPattern → List CandidateMatch,
      ∀ p ∈ patterns, findCandidates h trace (.build trace) p = .ok (find p) := searchAll wf
  exact ⟨own,analyzeSplits found fun p mem => own p mem _ (found p mem)⟩

theorem directoryLoaded {listing : List DirEntry} {patterns : List CompiledPattern} :
    loadPatterns u display patternsDir (.directory (.ok listing)) = some (.ok patterns) ↔
      patternEntries listing ≠ [] ∧ List.Forall₂ (fun entry p =>
        ∃ source, entry.text = .ok source ∧ compileStr u source = some (.ok p)) (patternEntries listing) patterns := by
  by_cases empty : patternEntries listing = []
  · simp [loadPatterns,empty]
  · rw [loadPatterns,if_neg (by simpa using empty),loadFilesOk]
    simp only [loadPatternFileOk,ne_eq,empty,not_false_eq_true,true_and]

theorem doctorExact (u : UnicodeClasses) (h : HashOrder) (display : PathBuf → String) (pathExists : PathBuf → Bool)
    (patternsDir demoDir : PathBuf) (listing : List DirEntry) :
    ((∃ report, Doctor.run u h display pathExists patternsDir demoDir (.ok listing) = some (.ok (report,true))) ↔
      ∃ patterns, loadPatterns u display patternsDir (.directory (.ok listing)) = some (.ok patterns) ∧
        (patterns.map fun p => p.id.text).Nodup ∧ (∀ p ∈ patterns, Doctor.Mapped p.family) ∧
        ∀ entry ∈ patternEntries listing, ∀ suffix ∈ ["positive","negative"],
          pathExists (Doctor.tracePath demoDir entry.name suffix) = true) ∧
    ∀ report, Doctor.run u h display pathExists patternsDir demoDir (.ok listing) = some (.ok (report,true)) →
      ∃ patterns, loadPatterns u display patternsDir (.directory (.ok listing)) = some (.ok patterns) ∧
        ∀ h' trace, PerPattern h' trace patterns := by
  have clean : (∃ report, Doctor.run u h display pathExists patternsDir demoDir (.ok listing) =
      some (.ok (report,true))) ↔ ∃ patterns, loadPatterns u display patternsDir (.directory (.ok listing)) =
        some (.ok patterns) ∧ (patterns.map fun p => p.id.text).Nodup ∧ (∀ p ∈ patterns, Doctor.Mapped p.family) ∧
        ∀ entry ∈ patternEntries listing, ∀ suffix ∈ ["positive","negative"],
          pathExists (Doctor.tracePath demoDir entry.name suffix) = true := by
    rw [Doctor.runClean]
    constructor
    · rintro ⟨some,ps,distinct,healthy⟩
      refine ⟨ps,directoryLoaded.mpr ⟨some,healthy.imp fun _ _ file => file.compiles⟩,distinct,?_,?_⟩
      · intro p mem
        obtain ⟨entry,_,file⟩ := forall₂Right healthy mem
        exact file.mapped
      · intro entry mem
        obtain ⟨p,_,file⟩ := forall₂Right healthy.flip mem
        exact file.traces
    · rintro ⟨ps,loaded,distinct,mapped,traces⟩
      obtain ⟨some,compiled⟩ := directoryLoaded.mp loaded
      refine ⟨some,ps,distinct,forall₂Positions compiled fun i entry p here there source => ?_⟩
      exact ⟨source,mapped p (List.mem_of_getElem? there),traces entry (List.mem_of_getElem? here)⟩
  refine ⟨clean,fun report ran => ?_⟩
  obtain ⟨patterns,loaded,distinct,_⟩ := clean.mp ⟨report,ran⟩
  exact ⟨patterns,loaded,fun h' trace =>
    distinctPerPattern (fun p mem => (loadedAccepted loaded p mem).wellFormed) distinct⟩

end
end RootCause.Cli
