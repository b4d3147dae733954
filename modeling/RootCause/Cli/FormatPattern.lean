import RootCause.Cli.Format
import RootCause.Cli.Patterns
import RootCause.Dsl.Accounted
import RootCause.Dsl.Spans
import RootCause.Matcher.Candidates
import Mathlib.Data.List.DropRight

/-! Formatting a pattern file. The comments and blank lines before the pattern are kept as
they are, and its body is printed from the tree. -/
namespace RootCause.Cli
open Library Dsl Ast Lexer Matcher

/- `str::split_inclusive('\n')`: every line with its newline. -/
def splitInclusive : List Char → List (List Char)
  | [] => []
  | c :: rest =>
    if c = '\n' then [c] :: splitInclusive rest
    else match splitInclusive rest with
      | [] => [[c]]
      | line :: lines => (c :: line) :: lines

def trim (line : List Char) : List Char := (line.dropWhile isWhitespace).rdropWhile isWhitespace

def isLeading (line : List Char) : Bool := (trim line).isEmpty || ['/','/'].isPrefixOf (trim line)

def leadingBlock (cs : List Char) : List Char := ((splitInclusive cs).takeWhile isLeading).flatten

/- The block is cut off by its length in bytes, which falls on the end of a line. -/
def splitLeadingComments (source : String) : String × String :=
  let leading := leadingBlock source.toList
  (String.ofList leading,String.ofList (source.toList.drop leading.length))

structure FormatOutcome where
  alreadyFormatted : Bool
  formatted : String
  deriving DecidableEq, Repr

def formatFile (u : UnicodeClasses) (path : PathBuf) :
    Except String String → Option (Except (Failure CliError) FormatOutcome)
  | .error reason => some (.error (.error (.inputPath path reason)))
  | .ok source =>
    let (leading,bodySource) := splitLeadingComments source
    (parse u bodySource).map fun parsed => do
      let ast ← mapFailure (fun diags => .dsl (.parse diags)) parsed
      let formatted := leading ++ formatPatternBody ast
      pure ⟨decide (formatted = source),formatted⟩

section
variable {body rest : List Char}

theorem splitNewline (short : '\n' ∉ body) :
    splitInclusive (body ++ '\n' :: rest) = (body ++ ['\n']) :: splitInclusive rest := by
  induction body with
  | nil => rfl
  | cons c body ih =>
    rw [List.mem_cons,not_or] at short
    rw [List.cons_append,splitInclusive,if_neg (Ne.symm short.1),ih short.2]
    rfl

theorem splitLast (short : '\n' ∉ body) (some : body ≠ []) : splitInclusive body = [body] := by
  induction body with
  | nil => contradiction
  | cons c body ih =>
    rw [List.mem_cons,not_or] at short
    rw [splitInclusive,if_neg (Ne.symm short.1)]
    cases body with
    | nil => rfl
    | cons d body => rw [ih short.2 (by simp)]

theorem trimNewline : trim (body ++ ['\n']) = trim body := by
  unfold trim
  rw [List.dropWhile_append]
  split
  · rename_i empty
    rw [List.isEmpty_iff.mp empty]
    rfl
  · exact List.rdropWhile_concat_pos _ _ _ rfl

theorem leadingLine (leading : isLeading body = true) :
    body.dropWhile isWhitespace = [] ∨ ∃ text, body.dropWhile isWhitespace = '/' :: '/' :: text := by
  unfold isLeading trim at leading
  rcases Bool.or_eq_true_iff.mp leading with empty | comment
  · left
    have white := List.rdropWhile_eq_nil_iff.mp (List.isEmpty_iff.mp empty)
    cases shape : body.dropWhile isWhitespace with
    | nil => rfl
    | cons c text =>
      have black := List.head_dropWhile_not isWhitespace (l := body) (by simp [shape])
      simp only [shape,List.head_cons] at black
      exact absurd (white c (by simp [shape])) (by simp [black])
  · right
    obtain ⟨text,shape⟩ := (List.isPrefixOf_iff_prefix.mp comment).trans (List.rdropWhile_prefix _ _)
    exact ⟨text,shape.symm⟩

theorem trimmedIndent {indent : List Char} (white : ∀ c ∈ indent, isWhitespace c = true) :
    trimmed (indent ++ rest) = trimmed rest := by
  induction indent with
  | nil => rfl
  | cons c indent ih =>
    obtain ⟨here,later⟩ := List.forall_mem_cons.mp white
    rw [List.cons_append,trimmedSpace here,ih later]

theorem trimmedLine (short : '\n' ∉ body) (leading : isLeading body = true)
    (ends : rest.head? = none ∨ rest.head? = some '\n') : trimmed (body ++ rest) = trimmed rest := by
  have indentation : body = body.takeWhile isWhitespace ++ body.dropWhile isWhitespace :=
    List.takeWhile_append_dropWhile.symm
  have white : ∀ c ∈ body.takeWhile isWhitespace, isWhitespace c = true := fun c mem => List.mem_takeWhile_imp mem
  rw [indentation,List.append_assoc,trimmedIndent white]
  rcases leadingLine leading with empty | ⟨text,comment⟩
  · rw [empty,List.nil_append]
  · have within : '\n' ∉ text := by
      intro mem
      exact short (indentation ▸ List.mem_append_right _ (by simp [comment,mem]))
    rw [comment]
    exact trimmedComment within ends

end

theorem lineShape (cs : List Char) : cs = [] ∨ ('\n' ∉ cs ∧ splitInclusive cs = [cs]) ∨
    ∃ body rest, '\n' ∉ body ∧ cs = body ++ '\n' :: rest ∧
      splitInclusive cs = (body ++ ['\n']) :: splitInclusive rest := by
  by_cases newline : '\n' ∈ cs
  · obtain ⟨body,rest,shape,first⟩ := List.eq_append_cons_of_mem newline
    exact .inr (.inr ⟨body,rest,first,shape,shape ▸ splitNewline first⟩)
  · by_cases empty : cs = []
    · exact .inl empty
    · exact .inr (.inl ⟨newline,splitLast newline empty⟩)

theorem leadingTrivia (cs : List Char) :
    (cs.drop (leadingBlock cs).length = [] → trimmed cs = []) ∧
      (cs.drop (leadingBlock cs).length ≠ [] → ∀ more, trimmed (leadingBlock cs ++ more) = trimmed more) := by
  induction length : cs.length using Nat.strongRecOn generalizing cs with
  | ind n ih =>
    rcases lineShape cs with rfl | ⟨short,lines⟩ | ⟨body,rest,short,rfl,lines⟩
    · exact ⟨fun _ => rfl,fun some => absurd rfl some⟩
    · by_cases leading : isLeading cs = true
      · have whole : trimmed (cs ++ []) = trimmed [] := trimmedLine short leading (.inl rfl)
        have block : leadingBlock cs = cs := by simp [leadingBlock,lines,leading]
        rw [List.append_nil] at whole
        rw [block,List.drop_length]
        exact ⟨fun _ => whole,fun some => absurd rfl some⟩
      · have block : leadingBlock cs = [] := by simp [leadingBlock,lines,leading]
        rw [block]
        exact ⟨fun empty => by simp_all [trimmed,triviaLength],fun _ _ => rfl⟩
    · by_cases leading : isLeading (body ++ ['\n']) = true
      · have block : leadingBlock (body ++ '\n' :: rest) = body ++ '\n' :: leadingBlock rest := by
          simp [leadingBlock,lines,leading]
        have skipped (more : List Char) : trimmed (body ++ '\n' :: more) = trimmed more := by
          rw [isLeading,trimNewline] at leading
          rw [trimmedLine short leading (.inr rfl),trimmedSpace rfl]
        have cut : (body ++ '\n' :: rest).drop (body ++ '\n' :: leadingBlock rest).length =
            rest.drop (leadingBlock rest).length := by
          rw [List.length_append,List.drop_length_add_append,List.length_cons,List.drop_succ_cons]
        obtain ⟨blank,behind⟩ := ih rest.length (by simp [← length]; omega) rest rfl
        rw [block,cut,skipped]
        refine ⟨blank,fun some more => ?_⟩
        rw [List.append_assoc,List.cons_append,skipped,behind some]
      · have block : leadingBlock (body ++ '\n' :: rest) = [] := by simp [leadingBlock,lines,leading]
        rw [block]
        exact ⟨fun empty => by simp at empty,fun _ _ => rfl⟩

section
variable {u : UnicodeClasses} {source : String} {ast : PatternAst}

theorem leadingSplit (cs : List Char) : leadingBlock cs ++ cs.drop (leadingBlock cs).length = cs := by
  have lines : (splitInclusive cs).flatten = cs := by
    induction cs with
    | nil => rfl
    | cons c cs ih =>
      rw [splitInclusive]
      split
      · rw [List.flatten_cons,ih,List.singleton_append]
      · split
        · rename_i none
          rw [none] at ih
          simp [← ih]
        · rename_i line lines some
          rw [some,List.flatten_cons] at ih
          rw [List.flatten_cons,List.cons_append,ih]
  have parts : leadingBlock cs ++ ((splitInclusive cs).dropWhile isLeading).flatten = cs := by
    rw [leadingBlock,← List.flatten_append,List.takeWhile_append_dropWhile,lines]
  have cut := congrArg (List.drop (leadingBlock cs).length) parts
  rw [List.drop_left] at cut
  rw [← cut,parts]

theorem readingParsed {kinds : List TokenKind} {id version body more} (lexes : Lexes u source.toList kinds)
    (reading : Reading kinds id version body more) :
    ∃ ast, parse u source = some (.ok ast) ∧ ast.bare = treeOf id version body := by
  obtain ⟨tokens,lexed,rfl⟩ := tokenizeLexes.mpr lexes
  obtain ⟨ast,parsed,tree⟩ := readingAccepted (tokenizeEnded lexed) reading
  exact ⟨ast,parseOk.mpr ⟨tokens,lexed,parsed⟩,tree⟩

theorem parsedReading (parsed : parse u source = some (.ok ast)) : ∃ kinds body more,
    Lexes u source.toList kinds ∧ Reading kinds ast.id.value ast.version.value body more ∧
      ast = (body.foldl Sections.store .empty).tree ast.id ast.version ast.span := by
  obtain ⟨tokens,lexed,accepted⟩ := parseOk.mp parsed
  obtain ⟨body,n,reading,tree,_⟩ := acceptedReading (tokenizeEnded lexed) accepted
  exact ⟨_,body,_,tokenizeLexes.mp ⟨tokens,lexed,rfl⟩,reading,tree⟩

theorem parsedNamed (parsed : parse u source = some (.ok ast)) : Named u (printedWords ast) := by
  obtain ⟨kinds,body,more,lexes,⟨spelled,_⟩,tree⟩ := parsedReading parsed
  have names := lexesNames lexes
  rw [spelled] at names
  have read (y : Section) (mem : y ∈ printedSections ast) : Named u y.words := by
    rw [tree] at mem
    rcases printedRead mem with empty | inside
    · have none : y = .evidence [] := by simpa [printedSections,Sections.tree,Sections.empty] using empty
      simp [none,Section.words,Named]
    · intro name within
      exact names name (by simp only [List.mem_append,List.mem_flatMap]; exact .inl (.inr ⟨y,inside,within⟩))
  rw [printedWords,Named.append,Named.append]
  refine ⟨⟨fun name mem => names name (by simp [mem]),fun name mem => ?_⟩,by simp [Named]⟩
  obtain ⟨y,inside,within⟩ := List.mem_flatMap.mp mem
  exact read y inside name within

theorem bodyLexes (parsed : parse u source = some (.ok ast)) :
    Lexes u (formatPatternBody ast).toList (printedWords ast ++ [.eof]) ↔ ∀ s ∈ texts ast, Plain s := by
  have spells := closedPatternBody (parsedNamed parsed) []
  rw [List.append_nil] at spells
  rw [spellsLexes spells]
  simp only [← memLiterals,printedLiterals,and_iff_left_iff_imp]
  exact fun _ => .done rfl

theorem printedReading (parsed : parse u source = some (.ok ast)) :
    Reading (printedWords ast ++ [.eof]) ast.id.value ast.version.value (printedSections ast) [.eof] := by
  refine ⟨by simp [printedWords],fun y mem => ?_⟩
  have full := parseFull parsed
  simp only [printedSections,List.mem_append,List.mem_map,List.mem_singleton,Option.mem_toList] at mem
  rcases mem with (((⟨m,_,rfl⟩ | rfl) | ⟨g,_,rfl⟩) | ⟨q,_,rfl⟩) | ⟨e,inside,rfl⟩
  · trivial
  · trivial
  · trivial
  · trivial
  · exact full e inside

theorem bodyParsed (parsed : parse u source = some (.ok ast)) :
    (∃ other, parse u (splitLeadingComments source).2 = some (.ok other) ∧ other.bare = ast.bare) ∧
      ∀ more, trimmed (leadingBlock source.toList ++ more) = trimmed more := by
  obtain ⟨kinds,body,more,lexes,reading,tree⟩ := parsedReading parsed
  obtain ⟨blank,behind⟩ := leadingTrivia source.toList
  have some : source.toList.drop (leadingBlock source.toList).length ≠ [] := by
    intro empty
    cases lexes with
    | done _ => simpa [headWords] using reading.spelled
    | token read _ => simp [first,blank empty] at read
  refine ⟨?_,behind some⟩
  have same := behind some (source.toList.drop (leadingBlock source.toList).length)
  rw [leadingSplit] at same
  have lexes := lexesTrimmed same lexes
  have bodyText : (splitLeadingComments source).2.toList =
      source.toList.drop (leadingBlock source.toList).length := by rw [splitLeadingComments,String.toList_ofList]
  rw [← bodyText] at lexes
  obtain ⟨other,parsed,bare⟩ := readingParsed lexes reading
  refine ⟨other,parsed,?_⟩
  rw [bare,tree]
  exact (treeOfBare rfl).symm

theorem formatFileOk {path : PathBuf} {outcome : FormatOutcome} :
    formatFile u path (.ok source) = some (.ok outcome) ↔
      ∃ ast, parse u (splitLeadingComments source).2 = some (.ok ast) ∧
        outcome = ⟨decide ((splitLeadingComments source).1 ++ formatPatternBody ast = source),
          (splitLeadingComments source).1 ++ formatPatternBody ast⟩ := by
  rw [formatFile,Option.map_eq_some_iff]
  constructor
  · intro given
    obtain ⟨parsed,read,done⟩ := given
    obtain ⟨ast,mapped,last⟩ := bindOk.mp done
    cases last
    exact ⟨ast,by rw [read,mapFailureOk.mp mapped],rfl⟩
  · intro given
    obtain ⟨ast,read,rfl⟩ := given
    exact ⟨_,read,rfl⟩

theorem textsBare : texts ast.bare = texts ast := by
  have metadata (m : MetadataEntry) : metadataTexts m.bare.value = metadataTexts m.value := by
    cases value : m.value <;> simp [MetadataEntry.bare,MetadataValue.bare,metadataTexts,value]
  have attr (a : PredicateAttr) : attrTexts a.bare.value = attrTexts a.value := by
    cases value : a.value <;> simp [PredicateAttr.bare,Ast.AttrValue.bare,attrTexts,value]
  simp [texts,PatternAst.bare,EvidenceDecl.bare,Predicate.bare,List.flatMap_map,metadata,attr]

theorem formatFileParsed (path : PathBuf) (parsed : parse u source = some (.ok ast)) :
    ∃ outcome other, formatFile u path (.ok source) = some (.ok outcome) ∧
      parse u (splitLeadingComments source).2 = some (.ok other) ∧ other.bare = ast.bare ∧
      ∀ kinds, Lexes u outcome.formatted.toList kinds ↔ Lexes u (formatPatternBody other).toList kinds := by
  obtain ⟨⟨other,read,bare⟩,skipped⟩ := bodyParsed parsed
  refine ⟨_,other,formatFileOk.mpr ⟨other,read,rfl⟩,read,bare,fun kinds => ?_⟩
  have same := skipped (formatPatternBody other).toList
  have text : ((splitLeadingComments source).1 ++ formatPatternBody other).toList =
      leadingBlock source.toList ++ (formatPatternBody other).toList := by
    rw [String.toList_append,splitLeadingComments,String.toList_ofList]
  rw [text]
  exact ⟨lexesTrimmed same,lexesTrimmed same.symm⟩

theorem formatPreserves {path : PathBuf} {p : CompiledPattern} (accepted : compileStr u source = some (.ok p))
    (parsed : parse u source = some (.ok ast)) (plain : ∀ s ∈ texts ast, Plain s) :
    ∃ outcome, formatFile u path (.ok source) = some (.ok outcome) ∧
      compileStr u outcome.formatted = some (.ok p) := by
  obtain ⟨outcome,other,formatted,read,bare,lexed⟩ := formatFileParsed path parsed
  rw [← textsBare,← bare,textsBare] at plain
  obtain ⟨final,again,tree⟩ := readingParsed ((lexed _).mpr ((bodyLexes read).mpr plain)) (printedReading read)
  have same : final.bare = ast.bare := by
    have printed := congrArg PatternAst.bare (printedTree other)
    rw [tree,← bare,← printed]
    exact (treeOfBare rfl).symm
  obtain ⟨tree,found,compiled⟩ := compileStrOk.mp accepted
  rw [parsed] at found
  cases found
  exact ⟨outcome,formatted,compileStrOk.mpr ⟨final,again,(compileAlike same).mpr compiled⟩⟩

end

def formattedOf (source : String) : Option String :=
  (formatFile .ascii [] (.ok source)).bind fun result => result.toOption.map FormatOutcome.formatted

theorem formattedOfOk {source text : String} (found : formattedOf source = some text) :
    ∃ outcome, formatFile .ascii [] (.ok source) = some (.ok outcome) ∧ outcome.formatted = text := by
  obtain ⟨result,here,ok⟩ := Option.bind_eq_some_iff.mp found
  obtain ⟨outcome,done,same⟩ := Option.map_eq_some_iff.mp ok
  exact ⟨outcome,by rw [here,toOptionOk.mp done],same⟩

set_option maxRecDepth 4000

def taggedPattern (tags : List String) : CompiledPattern :=
  ⟨⟨"p"⟩,⟨1⟩,⟨"F"⟩,.low,tags,[],[⟨"a",.required,⟨"call",[⟨"kind",.ident "Create"⟩]⟩⟩],.leaf ⟨0⟩,none,none⟩

def plainSource : String := "// Two tags.
pattern p version 1 \x7b family: F severity: Low tags: [\"a\", \"b\"]
  evidence \x7b required a: call(kind: Create) \x7d \x7d"

theorem plainCompiled : compileStr .ascii plainSource = some (.ok (taggedPattern ["a","b"])) := by
  refine patternOfCompiled ?_
  rw [show plainSource = String.ofList _ from rfl,patternOfList]
  decide +kernel

theorem formatPreservesPlain : ∃ ast, parse .ascii plainSource = some (.ok ast) ∧ (∀ s ∈ texts ast, Plain s) ∧
    ∃ outcome, formatFile .ascii [] (.ok plainSource) = some (.ok outcome) ∧
      compileStr .ascii outcome.formatted = some (.ok (taggedPattern ["a","b"])) := by
  have read : ∃ ast ∈ parsedOf plainSource, texts ast = ["a","b"] := by
    rw [show plainSource = String.ofList _ from rfl,parsedOf,parseList]
    decide +kernel
  obtain ⟨ast,found,listed⟩ := read
  have plain : ∀ s ∈ texts ast, Plain s := by
    rw [listed]
    simp [Plain,PlainChar]
  exact ⟨ast,parsedOfOk found,plain,formatPreserves plainCompiled (parsedOfOk found) plain⟩

def escapedSource : String := "pattern p version 1 \x7b family: F severity: Low tags: [\"a\\\", \\\"b\"]
  evidence \x7b required a: call(kind: Create) \x7d \x7d"

def splitText : String := "pattern p version 1 \x7b
    family: F
    severity: Low
    tags: [\"a\", \"b\"]

    evidence \x7b
        required a: call(kind: Create)
    \x7d
\x7d
"

theorem escapedTagSplit : compileStr .ascii escapedSource = some (.ok (taggedPattern ["a\", \"b"])) ∧
    ∃ outcome, formatFile .ascii [] (.ok escapedSource) = some (.ok outcome) ∧
      compileStr .ascii outcome.formatted = some (.ok (taggedPattern ["a","b"])) ∧
      compileStr .ascii outcome.formatted ≠ some (.ok (taggedPattern ["a\", \"b"])) := by
  have compiled : patternOf escapedSource = some (taggedPattern ["a\", \"b"]) := by
    rw [show escapedSource = String.ofList _ from rfl,patternOfList]
    decide +kernel
  have formatted : formattedOf escapedSource = some splitText := by decide +kernel
  have again : patternOf splitText = some (taggedPattern ["a","b"]) := by
    rw [show splitText = String.ofList _ from rfl,patternOfList]
    decide +kernel
  obtain ⟨outcome,done,text⟩ := formattedOfOk formatted
  have other : compileStr .ascii outcome.formatted = some (.ok (taggedPattern ["a","b"])) := by
    rw [text]
    exact patternOfCompiled again
  refine ⟨patternOfCompiled compiled,outcome,done,other,?_⟩
  rw [other]
  decide

end RootCause.Cli
