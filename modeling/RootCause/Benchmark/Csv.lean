import RootCause.Benchmark.Runner
import RootCause.Library.Csv

/-! The CSV export: one row per pattern result of a case, and one for a case without any.
The rendering of a duration in milliseconds is an argument. -/
namespace RootCause.Benchmark
open Library

structure BenchmarkReport where
  caseResults : List CaseResult
  deriving DecidableEq, Repr

def header : String := "case_id,description,pattern_id,pattern_version,candidate_count,expected,actual," ++
  "matches_expectation,ingestion_ms,matching_ms,grounding_ms,taxonomy_ms,error"

def doubleQuotes (field : String) : String :=
  .ofList (field.toList.flatMap fun c => if c = '"' then ['"','"'] else [c])

def escape (field : String) : String :=
  if ',' ∈ field.toList ∨ '"' ∈ field.toList ∨ '\n' ∈ field.toList then "\"" ++ doubleQuotes field ++ "\""
  else field

/- The format strings have a comma between every two fields; `writeln!` ends the row. -/
def writeRow (fields : List String) : String := ",".intercalate fields ++ "\n"

section
variable (milliseconds : Nat → String)

def renderTimings (timings : StageTimings) : List String :=
  [milliseconds timings.ingestion,milliseconds timings.matching,milliseconds timings.grounding,
    milliseconds timings.taxonomy]

def caseRows (case : CaseResult) : List String :=
  if case.patternResults.isEmpty then
    [writeRow ([escape case.caseId.text,escape case.description,"","","","","",""] ++
      renderTimings milliseconds case.timings ++ [escape (case.error.getD "")])]
  else case.patternResults.map fun pr =>
    writeRow ([escape case.caseId.text,escape case.description,escape pr.patternId.text,
      toString pr.patternVersion.number.toNat,toString pr.candidateCount,
      (pr.expected.map PatternOutcome.display).getD "",pr.actual.display,
      (pr.matchesExpectation.map fun b => toString b).getD ""] ++
      renderTimings milliseconds case.timings ++ [escape (case.error.getD "")])

def toCsv (report : BenchmarkReport) : Except BenchmarkError String :=
  .ok (header ++ "\n" ++ String.join (report.caseResults.flatMap (caseRows milliseconds)))

def columns : List String := ["case_id","description","pattern_id","pattern_version","candidate_count","expected",
  "actual","matches_expectation","ingestion_ms","matching_ms","grounding_ms","taxonomy_ms","error"]

def caseValues (case : CaseResult) : List (List String) :=
  if case.patternResults.isEmpty then
    [[case.caseId.text,case.description,"","","","","",""] ++ renderTimings milliseconds case.timings]
  else case.patternResults.map fun pr =>
    [case.caseId.text,case.description,pr.patternId.text,toString pr.patternVersion.number.toNat,
      toString pr.candidateCount,(pr.expected.map PatternOutcome.display).getD "",pr.actual.display,
      (pr.matchesExpectation.map fun b => toString b).getD ""] ++ renderTimings milliseconds case.timings

def caseRecords (case : CaseResult) : List (List String) :=
  (caseValues milliseconds case).map (· ++ [case.error.getD ""])

def RoundTrips (report : BenchmarkReport) : Prop :=
  ∃ text, toCsv milliseconds report = .ok text ∧
    Csv.read text = some (columns :: report.caseResults.flatMap (caseRecords milliseconds)) ∧
    ∀ record ∈ report.caseResults.flatMap (caseRecords milliseconds), record.length = columns.length

end

def Special (field : String) : Prop := ',' ∈ field.toList ∨ '"' ∈ field.toList ∨ '\n' ∈ field.toList
instance (field) : Decidable (Special field) := by unfold Special; infer_instance

def TrailingReturn (field : String) : Prop := field.toList.getLast? = some '\r' ∧ ¬ Special field
instance (field) : Decidable (TrailingReturn field) := by unfold TrailingReturn; infer_instance

theorem plainWritten {field : String} (plain : ¬ Special field) : Csv.Written field.toList field.toList := by
  refine .bare fun c mem => ⟨?_,?_,?_⟩
  · rintro rfl
    exact plain (.inl mem)
  · rintro rfl
    exact plain (.inr (.inl mem))
  · rintro rfl
    exact plain (.inr (.inr mem))

theorem quotedText {field : String} :
    ("\"" ++ doubleQuotes field ++ "\"").toList = '"' :: field.toList.flatMap Csv.doubled ++ ['"'] := by
  have quote : "\"".toList = ['"'] := rfl
  rw [String.toList_append,String.toList_append,quote,doubleQuotes,String.toList_ofList]
  rfl

theorem escapeWritten {field : String} : Csv.Written (escape field).toList field.toList := by
  unfold escape
  split
  · rw [quotedText]
    exact .quoted
  · rename_i plain
    exact plainWritten plain

theorem escapeReturn {field : String} :
    (escape field).toList.getLast? = some '\r' ↔ TrailingReturn field := by
  unfold escape TrailingReturn
  split
  · rename_i special
    rw [quotedText]
    exact iff_of_false Csv.quotedEnds fun given => given.2 special
  · rename_i plain
    exact (and_iff_left plain).symm

theorem rowText {fields : List String} {last : String} : (writeRow (fields ++ [last])).toList =
    (fields.map String.toList).flatMap (· ++ [',']) ++ (last.toList ++ ['\n']) := by
  have joined : (",".intercalate (fields ++ [last])).toList =
      (fields.map String.toList).flatMap (· ++ [',']) ++ last.toList := by
    induction fields with
    | nil => simp
    | cons f rest ih =>
      rw [List.cons_append,String.intercalate_cons_of_ne_nil (by simp),String.toList_append,String.toList_append,
        ih,List.map_cons,List.flatMap_cons]
      simp only [List.append_assoc]
      rfl
  rw [writeRow,String.toList_append,joined,List.append_assoc]
  rfl

theorem readRow {texts values : List String} {last value : String}
    (written : List.Forall₂ (fun t v => Csv.Written t.toList v.toList) texts values)
    (ended : Csv.Written last.toList value.toList) (records : List (List String)) :
    (Csv.Reader.fresh records []).run (writeRow (texts ++ [last])).toList =
      some (.fresh (records ++ [values ++ [.ofList (Csv.lastRead last.toList value.toList)]]) []) := by
  have mapped : List.Forall₂ Csv.Written (texts.map String.toList) (values.map String.toList) :=
    List.forall₂_map_left_iff.mpr (List.forall₂_map_right_iff.mpr written)
  have original : (values.map String.toList).map String.ofList = values := by simp
  rw [rowText,Csv.readLine mapped ended,List.nil_append,original]

def errorRead (error : String) : String := .ofList (Csv.lastRead (escape error).toList error.toList)

theorem errorReadSame {error : String} : errorRead error = error ↔ ¬ TrailingReturn error := by
  rw [← escapeReturn,← ne_eq,← Csv.lastReadSame escapeWritten,errorRead]
  constructor
  · intro same
    simpa using congrArg String.toList same
  · intro same
    rw [same,String.ofList_toList]

theorem headerRow : header ++ "\n" = writeRow columns := by decide +kernel

theorem readHeader (records : List (List String)) : (Csv.Reader.fresh records []).run (header ++ "\n").toList =
    some (.fresh (records ++ [columns]) []) := by
  have plain : ∀ c ∈ columns, ¬ Special c := by decide
  have names : List.Forall₂ (fun t v => Csv.Written t.toList v.toList) columns.dropLast columns.dropLast :=
    List.forall₂_same.mpr fun c mem => plainWritten (plain c (List.dropLast_subset _ mem))
  rw [headerRow]
  exact readRow names (plainWritten (plain "error" (by decide))) records

theorem numberPlain (n : Nat) : ¬ Special (toString n) := by
  have text : (toString n).toList = Nat.toDigits 10 n := Nat.toList_repr
  have digit : ∀ c ∈ (toString n).toList, c.isDigit = true := by
    intro c mem
    rw [text] at mem
    exact Nat.isDigit_of_mem_toDigits (by decide) (by decide) mem
  intro special
  rcases special with comma | quote | feed
  · exact absurd (digit _ comma) (by decide)
  · exact absurd (digit _ quote) (by decide)
  · exact absurd (digit _ feed) (by decide)

theorem outcomePlain (o : PatternOutcome) : ¬ Special o.display := by cases o <;> decide

theorem expectedPlain (o : Option PatternOutcome) : ¬ Special ((o.map PatternOutcome.display).getD "") := by
  cases o with
  | none => decide
  | some o => exact outcomePlain o

theorem matchesPlain (o : Option Bool) : ¬ Special ((o.map fun b => toString b).getD "") := by
  rcases o with _ | _ | _ <;> decide

section
variable {milliseconds : Nat → String} (plain : ∀ duration, ¬ Special (milliseconds duration))
include plain

theorem timingsWritten {timings : StageTimings} : List.Forall₂ (fun t v => Csv.Written t.toList v.toList)
    (renderTimings milliseconds timings) (renderTimings milliseconds timings) := by
  refine List.forall₂_same.mpr fun t mem => plainWritten ?_
  simp only [renderTimings,List.mem_cons,List.not_mem_nil,or_false] at mem
  rcases mem with rfl | rfl | rfl | rfl <;> exact plain _

theorem readCase (case : CaseResult) : List.Forall₂ (fun row record => ∀ records,
      (Csv.Reader.fresh records []).run row.toList = some (.fresh (records ++ [record]) []))
    (caseRows milliseconds case)
    ((caseValues milliseconds case).map (· ++ [errorRead (case.error.getD "")])) := by
  have own (text : String) (fixed : ¬ Special text) : Csv.Written text.toList text.toList := plainWritten fixed
  have empty : Csv.Written "".toList "".toList := own "" (by decide)
  unfold caseRows caseValues
  split
  · refine .cons (fun records => ?_) .nil
    refine readRow (List.rel_append ?_ (timingsWritten plain)) escapeWritten records
    exact .cons escapeWritten (.cons escapeWritten (List.forall₂_same.mpr (by simpa using empty)))
  · rw [List.map_map,List.forall₂_map_left_iff,List.forall₂_map_right_iff]
    refine List.forall₂_same.mpr fun pr _ records => ?_
    refine readRow (List.rel_append ?_ (timingsWritten plain)) escapeWritten records
    exact .cons escapeWritten (.cons escapeWritten (.cons escapeWritten (.cons (own _ (numberPlain _))
      (.cons (own _ (numberPlain _)) (.cons (own _ (expectedPlain _)) (.cons (own _ (outcomePlain _))
        (.cons (own _ (matchesPlain _)) .nil)))))))

theorem readCsv (report : BenchmarkReport) : ∃ text, toCsv milliseconds report = .ok text ∧
    Csv.read text = some (columns :: report.caseResults.flatMap fun case =>
      (caseValues milliseconds case).map (· ++ [errorRead (case.error.getD "")])) := by
  refine ⟨_,rfl,?_⟩
  have lines : header ++ "\n" ++ String.join (report.caseResults.flatMap (caseRows milliseconds)) =
      .ofList (((header ++ "\n") :: report.caseResults.flatMap (caseRows milliseconds)).map
        String.toList).flatten := by
    apply String.toList_injective
    rw [String.toList_append,String.toList_join,String.toList_ofList,List.map_cons,List.flatten_cons,
      List.flatMap_def]
  rw [lines]
  refine Csv.readLines (List.forall₂_map_left_iff.mpr (.cons readHeader ?_))
  have same : List.Forall₂ Eq report.caseResults report.caseResults := List.forall₂_refl _
  refine List.rel_flatMap same fun case case' equal => ?_
  cases equal
  exact readCase plain case

end

theorem valuesSome {milliseconds : Nat → String} {case : CaseResult} : caseValues milliseconds case ≠ [] := by
  unfold caseValues
  split
  · exact List.cons_ne_nil _ _
  · rename_i some
    simpa using some

theorem recordLength {milliseconds : Nat → String} {case : CaseResult} {record : List String}
    (mem : record ∈ caseRecords milliseconds case) : record.length = columns.length := by
  unfold caseRecords caseValues at mem
  split at mem
  · cases List.mem_singleton.mp mem
    rfl
  · obtain ⟨values,inside,rfl⟩ := List.mem_map.mp mem
    obtain ⟨pr,_,rfl⟩ := List.mem_map.mp inside
    rfl

theorem flatMapSame {α β : Type} {xs : List α} {f g : α → List β} (long : ∀ x, (f x).length = (g x).length) :
    xs.flatMap f = xs.flatMap g ↔ ∀ x ∈ xs, f x = g x := by
  induction xs with
  | nil => simp
  | cons x rest ih =>
    rw [List.flatMap_cons,List.flatMap_cons,List.forall_mem_cons,← ih]
    constructor
    · exact fun same => List.append_inj same (long x)
    · exact fun same => by rw [same.1,same.2]

theorem caseSame {milliseconds : Nat → String} {case : CaseResult} {error : String} :
    (caseValues milliseconds case).map (· ++ [error]) = caseRecords milliseconds case ↔
      error = case.error.getD "" := by
  constructor
  · intro same
    obtain ⟨values,mem⟩ := List.exists_mem_of_ne_nil _ valuesSome
    have each := List.map_inj_left.mp same values mem
    simpa using each
  · rintro rfl
    rfl

theorem csvRoundTrips (milliseconds : Nat → String) (plain : ∀ duration, ¬ Special (milliseconds duration))
    (report : BenchmarkReport) : RoundTrips milliseconds report ↔
      ∀ case ∈ report.caseResults, ¬ TrailingReturn (case.error.getD "") := by
  obtain ⟨text,written,back⟩ := readCsv plain report
  have long (case : CaseResult) : ((caseValues milliseconds case).map
      (· ++ [errorRead (case.error.getD "")])).length = (caseRecords milliseconds case).length := by
    simp [caseRecords]
  have lengths : ∀ record ∈ report.caseResults.flatMap (caseRecords milliseconds),
      record.length = columns.length := by
    intro record mem
    obtain ⟨case,_,inside⟩ := List.mem_flatMap.mp mem
    exact recordLength inside
  calc RoundTrips milliseconds report
    _ ↔ (report.caseResults.flatMap fun case => (caseValues milliseconds case).map
          (· ++ [errorRead (case.error.getD "")])) = report.caseResults.flatMap (caseRecords milliseconds) := by
        constructor
        · rintro ⟨text',written',back',_⟩
          cases written.symm.trans written'
          rw [back,Option.some.injEq] at back'
          exact (List.cons.inj back').2
        · intro same
          exact ⟨text,written,same ▸ back,lengths⟩
    _ ↔ ∀ case ∈ report.caseResults, errorRead (case.error.getD "") = case.error.getD "" := by
        rw [flatMapSame long]
        simp only [caseSame]
    _ ↔ ∀ case ∈ report.caseResults, ¬ TrailingReturn (case.error.getD "") := by
        simp only [errorReadSame]

def failedReport (description error : String) : BenchmarkReport :=
  ⟨[⟨⟨"c"⟩,description,[],⟨0,0,0,0⟩,some error⟩]⟩

theorem quotedReportRoundTrips :
    RoundTrips (fun _ => "0.000") (failedReport "a \"b\", c\r\nd" "no\rtrace\r\n") :=
  (csvRoundTrips _ (fun _ => by decide) _).mpr (by decide)

def timedOut : String := (BenchmarkError.ingestion "c" (.sourceUnavailable "timed out\r")).display

theorem returnLost : ¬ RoundTrips (fun _ => "0.000") (failedReport "d" timedOut) := by
  have zero : ¬ Special "0.000" := by decide
  have plain : ∀ duration : Nat, ¬ Special ((fun _ => "0.000") duration) := fun _ => zero
  rintro ⟨text,written,back,_⟩
  obtain ⟨text',written',back'⟩ := readCsv plain (failedReport "d" timedOut)
  cases written.symm.trans written'
  rw [back',Option.some.injEq] at back
  exact absurd back (by decide +kernel)

end RootCause.Benchmark
