import RootCause.Dsl.Accounted
import RootCause.Dsl.Language
import RootCause.Dsl.Spans

/-! The numbers of a pattern from the digits of the source to the compiled fields. A number
is lost when it is narrowed, when its section is written again, and behind the pattern. -/
namespace RootCause.Dsl
open Library Ast

/- The text consists of a pattern with these sections and of `more` behind it. The number
tokens of a text are the integers that their digits write. -/
def Writes (u : UnicodeClasses) (source : String) (version : Int64) (body : List Section)
    (more : List TokenKind) : Prop :=
  ∃ id, Sequence u.letters source.toList (headWords id version ++ body.flatMap Section.words ++ .rBrace :: more) ∧
    ∀ x ∈ body, x.Full

def Ast.SequenceConstraint.seconds (s : SequenceConstraint) : Option Int :=
  s.withinSeconds.map fun w => w.value.toInt

def Ast.EvidenceDecl.thresholds (d : EvidenceDecl) : List (String × String × Int) :=
  d.predicate.integers.map (Prod.mk d.name.value)

def CompiledPattern.seconds (p : CompiledPattern) : Option Int :=
  p.sequence.bind fun seq => seq.withinSeconds.map fun n => (n.toNat : Int)

def CompiledPattern.thresholds (p : CompiledPattern) : List (String × String × Int) :=
  p.evidence.flatMap fun e => e.predicate.integers.map (Prod.mk e.name)

def windows (body : List Section) : List Int :=
  (body.filterMap Section.ordering).filterMap SequenceConstraint.seconds

def thresholds (body : List Section) : List (String × String × Int) :=
  (body.filterMap Section.declared).flatten.flatMap EvidenceDecl.thresholds

/- The numbers of the pattern are those that the source writes. -/
structure NumbersKept (version : Int64) (body : List Section) (more : List TokenKind) (p : CompiledPattern) :
    Prop where
  version : (p.version.number.toNat : Int) = version.toInt
  within : ∀ n, n ∈ windows body ↔ p.seconds = some n
  thresholds : ∀ t, t ∈ thresholds body ↔ t ∈ p.thresholds
  behind : ∀ n, TokenKind.intLit n ∉ more

structure NumbersFit (version : Int64) (body : List Section) (more : List TokenKind) : Prop where
  version : version.toInt < UInt32.size
  within : ∀ n ∈ windows body, n < UInt32.size ∧
    ∃ last ∈ (body.filterMap Section.ordering).getLast?, last.seconds = some n
  thresholds : ∀ t ∈ thresholds body, ∃ decls ∈ (body.filterMap Section.declared).getLast?,
    ∃ d ∈ decls, t ∈ d.thresholds
  behind : ∀ n, TokenKind.intLit n ∉ more

section
variable {u : UnicodeClasses} {source : String} {tokens : List Token} {ast : PatternAst} {p : CompiledPattern}
  {version : Int64} {body : List Section} {more : List TokenKind}

theorem writesReading (lexed : tokenize u source = some (.ok tokens)) : Writes u source version body more ↔
    ∃ id, Reading (tokens.map Token.kind) id version body (more ++ [.eof]) := by
  have whole {kinds : List TokenKind} : Sequence u.letters source.toList kinds ↔
      tokens.map Token.kind = kinds ++ [.eof] := by
    have read : Lexer.Lexes u source.toList (kinds ++ [.eof]) ↔ Sequence u.letters source.toList kinds := by
      rw [Lexer.lexesSequence]
      simp
    rw [← read,← Lexer.tokenizeLexes,lexed]
    simp
  simp only [Writes,whole]
  constructor
  · rintro ⟨id,spelled,full⟩
    exact ⟨id,by simpa using spelled,full⟩
  · rintro ⟨id,spelled,full⟩
    exact ⟨id,by simpa using spelled,full⟩

theorem parsedWrites (parsed : parse u source = some (.ok ast)) : ∃ version body more, Writes u source version body more := by
  obtain ⟨tokens,lexed,accepted⟩ := parseOk.mp parsed
  obtain ⟨body,n,reading,_⟩ := acceptedReading (tokenizeEnded lexed) accepted
  obtain ⟨inner,kinds,_⟩ := Lexer.lexesSequence.mp (Lexer.tokenizeLexes.mp ⟨tokens,lexed,rfl⟩)
  rcases List.eq_nil_or_concat ((tokens.drop n).map Token.kind) with empty | ⟨more,last,rest⟩
  · have spelled := reading.spelled
    rw [empty,kinds] at spelled
    simpa using congrArg List.getLast? spelled
  · rw [List.concat_eq_append] at rest
    have spelled := reading.spelled
    rw [rest,kinds] at spelled
    have parts : (headWords ast.id.value ast.version.value ++ body.flatMap Section.words ++ .rBrace :: more) ++
        [last] = inner ++ [.eof] := by simpa using spelled.symm
    have final : last = .eof := List.singleton_inj.mp (List.append_inj' parts rfl).2
    rw [rest,final] at reading
    exact ⟨_,body,more,(writesReading lexed).mpr ⟨_,reading⟩⟩

theorem secondsCompiled (compiled : compile ast = .ok p) {n : Int} :
    p.seconds = some n ↔ ast.sequence.bind SequenceConstraint.seconds = some n ∧ n < UInt32.size := by
  obtain ⟨clean,constraint,sequence,sameCall,family,severity,version,_,built,_,_,_,_,rfl⟩ := compileOk.mp compiled
  cases given : ast.sequence with
  | none =>
    rw [given] at built
    cases built
    simp [CompiledPattern.seconds]
  | some seq =>
    rw [given,Option.mapM_some] at built
    obtain ⟨out,step,last⟩ := bindOk.mp built
    cases last
    obtain ⟨steps,_,last⟩ := bindOk.mp step
    cases last
    cases bound : seq.withinSeconds with
    | none => simp [CompiledPattern.seconds,SequenceConstraint.seconds,bound]
    | some w =>
      have narrowed := narrowedIff (windowPositive clean given bound) (z := n)
      simpa [CompiledPattern.seconds,SequenceConstraint.seconds,bound] using narrowed

theorem thresholdsCompiled (compiled : compile ast = .ok p) :
    p.thresholds = ast.evidence.flatMap EvidenceDecl.thresholds := by
  obtain ⟨_,_,_,_,_,_,_,_,_,_,_,_,_,rfl⟩ := compileOk.mp compiled
  rw [CompiledPattern.thresholds,List.flatMap_map]
  simp only [attrIntegers]
  rfl

theorem thresholdsBare (d : EvidenceDecl) : d.bare.thresholds = d.thresholds := by
  have integers : d.bare.predicate.integers = d.predicate.integers := by
    simp only [Predicate.integers,EvidenceDecl.bare,Predicate.bare,List.filterMap_map]
    refine List.filterMap_congr fun a _ => ?_
    cases shape : a.value <;> simp [PredicateAttr.bare,AttrValue.bare,shape,SpannedString.bare,SpannedInt.bare]
  rw [EvidenceDecl.thresholds,integers]
  rfl

theorem numbersLast (slots : LastWritten ast body) :
    ast.sequence.bind SequenceConstraint.seconds =
      (body.filterMap Section.ordering).getLast?.bind SequenceConstraint.seconds ∧
    ast.evidence.flatMap EvidenceDecl.thresholds =
      ((body.filterMap Section.declared).getLast?.getD []).flatMap EvidenceDecl.thresholds := by
  have seconds (o : Option SequenceConstraint) :
      (o.map SequenceConstraint.bare).bind SequenceConstraint.seconds = o.bind SequenceConstraint.seconds := by
    rcases o with _ | seq
    · rfl
    · cases bound : seq.withinSeconds <;> simp [SequenceConstraint.seconds,SequenceConstraint.bare,bound,SpannedInt.bare]
  have listed (ds : List EvidenceDecl) :
      (ds.map EvidenceDecl.bare).flatMap EvidenceDecl.thresholds = ds.flatMap EvidenceDecl.thresholds := by
    rw [List.flatMap_map]
    simp only [thresholdsBare]
  constructor
  · rw [← seconds,slots.sequence,seconds]
  · rw [← listed,slots.evidence,listed]

theorem lastWindow {n : Int} (last : ∃ seq ∈ (body.filterMap Section.ordering).getLast?, seq.seconds = some n) :
    n ∈ windows body := by
  obtain ⟨seq,mem,bound⟩ := last
  exact List.mem_filterMap.mpr ⟨seq,List.mem_of_getLast? mem,bound⟩

theorem lastThreshold {t : String × String × Int} (last : ∃ decls ∈ (body.filterMap Section.declared).getLast?,
    ∃ d ∈ decls, t ∈ d.thresholds) : t ∈ thresholds body := by
  obtain ⟨decls,mem,d,inside,given⟩ := last
  exact List.mem_flatMap.mpr ⟨d,List.mem_flatten.mpr ⟨decls,List.mem_of_getLast? mem,inside⟩,given⟩

theorem keptIff (compiled : compile ast = .ok p) (slots : LastWritten ast body) :
    NumbersKept ast.version.value body more p ↔ NumbersFit ast.version.value body more := by
  obtain ⟨sequence,evidence⟩ := numbersLast slots
  have version : (p.version.number.toNat : Int) = ast.version.value.toInt := by
    obtain ⟨_,_,_,_,_,_,_,_,_,_,_,_,narrowed,rfl⟩ := compileOk.mp compiled
    exact (u32OfI64Exact.mp narrowed).symm
  have seconds (n : Int) : p.seconds = some n ↔
      (∃ last ∈ (body.filterMap Section.ordering).getLast?, last.seconds = some n) ∧ n < UInt32.size := by
    rw [secondsCompiled compiled,sequence,Option.bind_eq_some_iff]
    rfl
  have listed (t : String × String × Int) : t ∈ p.thresholds ↔
      ∃ decls ∈ (body.filterMap Section.declared).getLast?, ∃ d ∈ decls, t ∈ d.thresholds := by
    rw [thresholdsCompiled compiled,evidence]
    cases (body.filterMap Section.declared).getLast? <;> simp
  constructor
  · intro kept
    refine ⟨?_,fun n mem => ?_,fun t mem => (listed t).mp ((kept.thresholds t).mp mem),kept.behind⟩
    · rw [← version]
      exact_mod_cast p.version.number.toNat_lt
    · obtain ⟨last,below⟩ := (seconds n).mp ((kept.within n).mp mem)
      exact ⟨below,last⟩
  · intro fit
    refine ⟨version,fun n => ⟨fun mem => ?_,fun given => lastWindow ((seconds n).mp given).1⟩,
      fun t => ⟨fun mem => (listed t).mpr (fit.thresholds t mem),fun given => lastThreshold ((listed t).mp given)⟩,
      fit.behind⟩
    obtain ⟨below,last⟩ := fit.within n mem
    exact (seconds n).mpr ⟨last,below⟩

theorem numbersKeptIff (parsed : parse u source = some (.ok ast)) (clean : (validate ast).hasErrors = false) :
    (∃ version body more, Writes u source version body more) ∧
    ∀ version body more, Writes u source version body more →
      ((∃ p, compileStr u source = some (.ok p) ∧ NumbersKept version body more p) ↔
        NumbersFit version body more) := by
  refine ⟨parsedWrites parsed,fun version body more writes => ?_⟩
  obtain ⟨tokens,lexed,accepted⟩ := parseOk.mp parsed
  obtain ⟨id,reading⟩ := (writesReading lexed).mp writes
  have tree := readingTree (tokenizeEnded lexed) accepted reading
  have same : ast.version.value = version := congrArg (fun t => t.version.value) tree
  have outcome {p} : compileStr u source = some (.ok p) ↔ compile ast = .ok p := by
    rw [compileStrOk,parsed]
    simp
  have passes := clean
  simp only [validate,Diagnostics.hasErrorsAppend,Bool.or_eq_false_iff] at passes
  have positive := (metadataClean passes.1.1.1.1).1
  simp only [outcome]
  subst same
  constructor
  · rintro ⟨p,compiled,kept⟩
    exact (keptIff compiled (lastWritten tree)).mp kept
  · intro fit
    obtain ⟨p,compiled⟩ := (compileTotal clean).mpr ((u32OfI64Fits positive).mpr fit.version)
    exact ⟨p,compiled,(keptIff compiled (lastWritten tree)).mpr fit⟩

end

set_option maxRecDepth 4000

def numberedSource : String := "pattern p version 4294967295 \x7b family: F severity: Low evidence \x7b
  required a: call(kind: External, min_value: -7) required b: storage(changed: true) \x7d
  sequence: [a, b] within: 4294967295 \x7d"

theorem numberedTree : ∃ ast ∈ parsedOf numberedSource, (validate ast).hasErrors = false ∧
    ast.version.value.toInt = 4294967295 := by
  rw [show numberedSource = String.ofList _ from rfl,parsedOf,parseList]
  decide +kernel

def numberedBody : List Section :=
  let name (s : String) : SpannedString := ⟨s,.startOfFile⟩
  let attr (s : String) (value : Ast.AttrValue) : PredicateAttr := ⟨name s,value,.startOfFile⟩
  [.metadata ⟨name "family",.ident (name "F"),.startOfFile⟩,
    .metadata ⟨name "severity",.ident (name "Low"),.startOfFile⟩,
    .evidence [
      ⟨.required,name "a",⟨name "call",[attr "kind" (.ident (name "External")),
        attr "min_value" (.int ⟨-7,.startOfFile⟩)],.startOfFile⟩,.startOfFile⟩,
      ⟨.required,name "b",⟨name "storage",[attr "changed" (.bool ⟨true,.startOfFile⟩)],.startOfFile⟩,.startOfFile⟩],
    .sequence ⟨[name "a",name "b"],some ⟨4294967295,.startOfFile⟩,.startOfFile⟩]

theorem numberedWrites : Writes .ascii numberedSource 4294967295 numberedBody [] := by
  have lexed : ∃ tokens ∈ (tokenize .ascii numberedSource).bind Except.toOption, tokens.map Token.kind =
      headWords "p" 4294967295 ++ numberedBody.flatMap Section.words ++ [.rBrace,.eof] := by
    rw [show numberedSource = String.ofList _ from rfl,tokenizeList]
    decide +kernel
  obtain ⟨tokens,read,spelled⟩ := lexed
  obtain ⟨result,here,ok⟩ := Option.bind_eq_some_iff.mp read
  rw [toOptionOk] at ok
  cases ok
  refine (writesReading here).mpr ⟨"p",spelled,?_⟩
  simp [numberedBody,Section.Full]

theorem numbersKeptNumbered : ∃ ast, parse .ascii numberedSource = some (.ok ast) ∧
    (∃ version body more, Writes .ascii numberedSource version body more) ∧
    (∀ version body more, Writes .ascii numberedSource version body more →
      ((∃ p, compileStr .ascii numberedSource = some (.ok p) ∧ NumbersKept version body more p) ↔
        NumbersFit version body more)) ∧
    ∃ p, compileStr .ascii numberedSource = some (.ok p) ∧ NumbersKept 4294967295 numberedBody [] p := by
  obtain ⟨ast,found,clean,_⟩ := numberedTree
  obtain ⟨some,exact'⟩ := numbersKeptIff (parsedOfOk found) clean
  have fit : NumbersFit 4294967295 numberedBody [] :=
    ⟨by decide,by decide,by decide,fun _ => List.not_mem_nil⟩
  exact ⟨ast,parsedOfOk found,some,exact',(exact' _ _ _ numberedWrites).mpr fit⟩

def wideVersionSource : String := "pattern p version 4294967296 \x7b family: F severity: Low evidence \x7b
  required a: call(kind: External) \x7d \x7d"

def wideWindowSource : String := "pattern p version 1 \x7b family: F severity: Low evidence \x7b
  required a: call(kind: External) required b: storage(changed: true) \x7d
  sequence: [a, b] within: 4294967296 \x7d"

theorem wideNumbersLost : (∃ ast ∈ parsedOf wideVersionSource, (validate ast).hasErrors = false) ∧
    compileStr .ascii wideVersionSource =
      some (.error (.panicked "validate() guarantees version >= 1")) ∧
    (∃ ast ∈ parsedOf wideWindowSource, (validate ast).hasErrors = false ∧ ∃ seq ∈ ast.sequence,
      ∃ w ∈ seq.withinSeconds, w.value.toInt = 4294967296) ∧
    ∃ p ∈ (compileStr .ascii wideWindowSource).bind Except.toOption,
      ∃ seq ∈ p.sequence, seq.withinSeconds = none := by
  rw [show wideVersionSource = String.ofList _ from rfl,show wideWindowSource = String.ofList _ from rfl,
    parsedOf,parsedOf,compileStr,compileStr,parseList,parseList]
  decide +kernel

end RootCause.Dsl
