import RootCause.Cli.Canonical
import RootCause.Dsl.Valid

/-! The pattern file that `new-pattern` starts an author with. It is checked as an
identifier of the lexer before it is written, which leaves the keywords of the language: the
scaffold compiles for every other name, and is laid out as the formatter would. -/
namespace RootCause.Cli
open Library Dsl Ast Lexer Matcher

namespace NewPattern

def validateIdentifier (name : String) : Except CliError Unit :=
  let startsOk := name.toList.head?.any fun c => c.isAlpha || c = '_'
  let restOk := name.toList.all fun c => c.isAlphanum || c = '_'
  if name.isEmpty || !startsOk || !restOk then .error (.usage
    ("`" ++ name ++ "` is not a valid pattern identifier: use ASCII letters, digits, and " ++
      "underscores, starting with a letter or underscore (e.g. `my_new_pattern`)"))
  else .ok ()

def defaultFamily : String := "TODO_ReplaceWithExploitFamily"

def templateComment : String :=
  "// TODO: describe what this pattern detects, why the evidence below is
// a genuine structural signature (not a coincidental proxy) for it,
// and \u2014 a dedicated \"Scope note\" \u2014 what it cannot determine and why.
// See docs/PATTERN_AUTHORING_GUIDE.md step 4 for the expected shape of
// this comment; every pattern in patterns/ is a worked example.
"

def patternTemplate (name family : String) : String :=
  templateComment ++ "pattern " ++ name ++ " version 1 \x7b
    family: " ++ family ++ "
    severity: Medium
    tags: [\"TODO\"]
    references: []

    evidence \x7b
        required TODO_evidence_name: call(kind: External)
    \x7d

    constraint: TODO_evidence_name
\x7d
"

/- The pattern file among those that `run` writes; the family is not checked. -/
def run (name : String) (family : Option String) : Except CliError String := do
  validateIdentifier name
  pure (patternTemplate name (family.getD defaultFamily))

def plainString (value : String) : SpannedString := ⟨value,.startOfFile⟩

def metadataEntry (key : String) (value : MetadataValue) : MetadataEntry := ⟨plainString key,value,.startOfFile⟩

def templateAst (name family : String) : PatternAst where
  id := plainString name
  version := ⟨1,.startOfFile⟩
  metadata := [metadataEntry "family" (.ident (plainString family)),
    metadataEntry "severity" (.ident (plainString "Medium")),
    metadataEntry "tags" (.strList [plainString "TODO"]),metadataEntry "references" (.strList [])]
  evidence := [⟨.required,plainString "TODO_evidence_name",⟨plainString "call",
    [⟨plainString "kind",.ident (plainString "External"),.startOfFile⟩],.startOfFile⟩,.startOfFile⟩]
  constraint := some (.evidenceRef (plainString "TODO_evidence_name"))
  sequence := none
  sameCall := none
  span := .startOfFile

def templatePattern (name family : String) : CompiledPattern :=
  ⟨⟨name⟩,⟨1⟩,⟨family⟩,.medium,["TODO"],[],
    [⟨"TODO_evidence_name",.required,⟨"call",[⟨"kind",.ident "External"⟩]⟩⟩],.leaf ⟨0⟩,none,none⟩

section
variable {u : UnicodeClasses} {name family : String}

theorem alphanumAscii {c : Char} (letter : c.isAlphanum = true) :
    c.toNat < 128 ∧ isWhitespace c = false ∧ (c.isAlpha = true ∨ c.isDigit = true) := by
  have bounds : (65 ≤ c.toNat ∧ c.toNat ≤ 90) ∨ (97 ≤ c.toNat ∧ c.toNat ≤ 122) ∨ (48 ≤ c.toNat ∧ c.toNat ≤ 57) := by
    have spelled : c.isAlphanum = ((decide (65 ≤ c.toNat ∧ c.toNat ≤ 90) ||
      (decide (97 ≤ c.toNat) && decide (c.toNat ≤ 122))) || c.isDigit) := rfl
    rw [spelled] at letter
    simpa [Char.isDigit_iff_toNat,or_assoc] using letter
  refine ⟨by omega,?_,by simpa [Char.isAlphanum] using letter⟩
  simp [isWhitespace]
  omega

theorem identifierWord (valid : validateIdentifier name = .ok ()) : Word u name (keyword name) := by
  have accepted : name.toList.head?.any (fun c => c.isAlpha || c = '_') = true ∧
      name.toList.all (fun c => c.isAlphanum || c = '_') = true := by
    unfold validateIdentifier at valid
    simp only at valid
    split at valid
    · contradiction
    · rename_i accepted
      rw [Bool.not_eq_true,Bool.or_eq_false_iff,Bool.or_eq_false_iff,Bool.not_eq_false',Bool.not_eq_false'] at accepted
      exact ⟨accepted.1.2,accepted.2⟩
  obtain ⟨starts,letters⟩ := accepted
  cases shape : name.toList with
  | nil => simp [shape] at starts
  | cons c cs =>
    have start : c.isAlpha = true ∨ c = '_' := by simpa [shape] using starts
    have black : c.toNat < 128 ∧ isWhitespace c = false := by
      rcases start with letter | rfl
      · have ascii := alphanumAscii (c := c) (by simp [Char.isAlphanum,letter])
        exact ⟨ascii.1,ascii.2.1⟩
      · decide
    refine ⟨⟨c,cs,shape,?_,black.2⟩,fun d mem => ?_,rfl⟩
    · rwa [u.asciiAlphabetic c black.1]
    · have letter : d.isAlphanum = true ∨ d = '_' := by simpa using List.all_eq_true.mp letters d mem
      rcases letter with given | rfl
      · obtain ⟨ascii,_,kind⟩ := alphanumAscii given
        simp only [continues,UnicodeClasses.isAlphanumeric,u.asciiAlphabetic d ascii,u.asciiNumeric d ascii]
        rcases kind with alpha | digit <;> simp [*]
      · exact namedContinues (.inr rfl)

theorem templateFormatted :
    patternTemplate name family = templateComment ++ formatPatternBody (templateAst name family) := by
  have evidence : String.join ((templateAst name family).evidence.map formatEvidenceDecl) =
      "        required TODO_evidence_name: call(kind: External)\n" := by
    change String.join ((templateAst "" "").evidence.map formatEvidenceDecl) = _
    decide +kernel
  have closing : closingText (templateAst name family) = "    \x7d\n\n    constraint: TODO_evidence_name\n\x7d\n" := by
    change closingText (templateAst "" "") = _
    decide +kernel
  have metadata : String.join ((templateAst name family).metadata.map formatMetadataEntry) =
      "    family: " ++ family ++ "\n    severity: Medium\n    tags: [\"TODO\"]\n    references: []\n" := by
    have entry : formatMetadataEntry (metadataEntry "family" (.ident (plainString family))) =
        "    family: " ++ family ++ "\n" := by
      have heading : indent ++ "family" ++ ": " = "    family: " := by decide +kernel
      rw [← heading]
      rfl
    have others : "\n" ++ String.join (((templateAst name family).metadata.drop 1).map formatMetadataEntry) =
        "\n    severity: Medium\n    tags: [\"TODO\"]\n    references: []\n" := by
      change "\n" ++ String.join (((templateAst "" "").metadata.drop 1).map formatMetadataEntry) = _
      decide +kernel
    rw [← others,← String.append_assoc,← entry]
    exact String.join_cons
  have head : " version " ++ toString (1 : Int64) ++ " \x7b\n" ++ "    family: " = " version 1 \x7b\n    family: " := by
    decide +kernel
  have tail : "\n    severity: Medium\n    tags: [\"TODO\"]\n    references: []\n" ++ ("\n" ++ indent ++
      "evidence \x7b\n" ++ ("        required TODO_evidence_name: call(kind: External)\n" ++
      "    \x7d\n\n    constraint: TODO_evidence_name\n\x7d\n")) = "
    severity: Medium
    tags: [\"TODO\"]
    references: []

    evidence \x7b
        required TODO_evidence_name: call(kind: External)
    \x7d

    constraint: TODO_evidence_name
\x7d
" := by decide +kernel
  rw [bodyParts,evidence,closing,metadata,patternTemplate,← head,← tail]
  simp only [String.append_assoc]
  rfl

theorem templateValid : Valid (templateAst name family) := by
  have evidence : (validateEvidence (templateAst name family)).hasErrors = false := by
    change (validateEvidence (templateAst "" "")).hasErrors = false
    decide +kernel
  obtain ⟨distinct,predicates,required⟩ := evidenceIff.mp evidence
  have values : ∀ e ∈ (templateAst name family).metadata, MetadataEntryOk e := by
    intro e mem
    simp only [templateAst,List.mem_cons,List.not_mem_nil,or_false] at mem
    rcases mem with rfl | rfl | rfl | rfl <;> refine ⟨?_,?_,?_⟩ <;>
      simp [metadataEntry,plainString,Schema.severityValues]
  have keys : metadataKeys (templateAst name family).metadata = ["family","severity","tags","references"] := rfl
  have version : (1 : Int64).toInt = 1 := by decide
  refine ⟨⟨Int.le_of_eq version.symm,by rw [keys]; decide,values,by simp [keys],by simp [keys]⟩,distinct,predicates,required,?_,?_,?_⟩
  · intro e given name refers
    cases given
    cases refers with
    | evidenceRef same => exact same ▸ List.mem_singleton.mpr rfl
  · intro s given
    contradiction
  · intro s given
    contradiction

theorem templateCompiled : compile (templateAst name family) = .ok (templatePattern name family) := by
  have named : compileFamily (templateAst name family) = some family := by
    simp [compileFamily,metadataValue,templateAst,metadataEntry,plainString]
  have severity : compileSeverity (templateAst name family) = some .medium := by
    simp [compileSeverity,metadataValue,templateAst,metadataEntry,plainString,severityFromStr]
  have version : u32OfI64 1 = some 1 := by decide
  exact compileOk.mpr ⟨validIff.mpr templateValid,.leaf ⟨0⟩,none,none,_,.medium,1,rfl,rfl,rfl,named,severity,version,rfl⟩

theorem spellsAhead {cs rest : List Char} {kinds ahead : List TokenKind} (spells : Spells u cs ahead rest)
    (words : ∀ s, .stringLit s ∉ ahead) (lexes : Lexes u cs kinds) : ∃ more, kinds = ahead ++ more := by
  induction spells generalizing kinds with
  | done => exact ⟨kinds,rfl⟩
  | space white _ ih => exact ih words (lexesTrimmed (trimmedSpace white _) lexes)
  | token read _ _ _ ih =>
    obtain ⟨later,rfl,after⟩ := (lexesToken read).mp lexes
    obtain ⟨more,rfl⟩ := ih (fun s mem => words s (List.mem_cons_of_mem _ mem)) after
    exact ⟨more,rfl⟩
  | text s _ _ => exact absurd List.mem_cons_self (words s)

def openingWords (name family : String) : List TokenKind :=
  [.kwPattern,keyword name,.kwVersion,.intLit 1,.lBrace,.ident "family",.colon,keyword family]

theorem keywordWord {text s : String} : keyword text ≠ .stringLit s ∧ keyword text ≠ .lBracket := by
  unfold keyword
  split <;> simp

theorem openingRead {kinds more after : List TokenKind} {id : String} {version : Int64} {body : List Section}
    (reading : Reading kinds id version body more) (spelled : kinds = openingWords name family ++ after) :
    keyword name = .ident name ∧ keyword family = .ident family := by
  have same := reading.spelled.symm.trans spelled
  simp only [openingWords,headWords,List.cons_append,List.nil_append,List.cons.injEq,true_and] at same
  obtain ⟨named,_,rest⟩ := same
  have name' := keywordIdent named.symm
  subst name'
  refine ⟨named.symm,?_⟩
  cases body with
  | nil => simp at rest
  | cons section' body =>
    rw [List.flatMap_cons] at rest
    cases section' with
    | metadata m =>
      cases value : m.value with
      | ident v =>
        simp only [Section.words,MetadataEntry.words,MetadataValue.words,value,SpannedString.word,List.cons_append,
          List.nil_append,List.cons.injEq,true_and] at rest
        rw [← rest.2.1,keywordIdent rest.2.1.symm]
      | str v =>
        simp only [Section.words,MetadataEntry.words,MetadataValue.words,value,SpannedString.word,SpannedString.quoted,
          List.cons_append,List.nil_append,List.cons.injEq,true_and] at rest
        exact absurd rest.2.1.symm keywordWord.1
      | strList vs =>
        simp only [Section.words,MetadataEntry.words,MetadataValue.words,value,SpannedString.word,listWords,
          List.cons_append,List.nil_append,List.cons.injEq,true_and] at rest
        exact absurd rest.2.1.symm (keywordWord (s := "")).2
    | evidence decls => simp [Section.words] at rest
    | constraint e => simp [Section.words] at rest
    | sequence q => simp [Section.words,SequenceConstraint.words] at rest
    | sameCall g => simp [Section.words,SameCallConstraint.words] at rest

theorem openingSpells (named : Word u name (keyword name)) (familyNamed : Word u family (keyword family)) :
    ∃ rest, Spells u (formatPatternBody (templateAst name family)).toList (openingWords name family) rest := by
  obtain ⟨more,text⟩ : ∃ more, formatPatternBody (templateAst name family) =
      "pattern " ++ name ++ " version " ++ toString (1 : Int64) ++ " \x7b\n" ++
        ((indent ++ "family" ++ ": " ++ family ++ "\n") ++ more) := by
    have entries : String.join ((templateAst name family).metadata.map formatMetadataEntry) =
        indent ++ "family" ++ ": " ++ family ++ "\n" ++
          String.join (((templateAst name family).metadata.drop 1).map formatMetadataEntry) := String.join_cons
    rw [bodyParts,entries]
    exact ⟨_,congrArg _ String.append_assoc⟩
  have pattern : Word u "pattern" .kwPattern := wordAscii "pattern" (by decide) (by decide)
  have version : Word u "version" .kwVersion := wordAscii "version" (by decide) (by decide)
  have key : Word u "family" (.ident "family") := wordAscii "family" (by decide) (by decide)
  have line : Spells u ((indent ++ "family" ++ ": " ++ family ++ "\n") ++ more).toList
      [.ident "family",.colon,keyword family] ('\n' :: more.toList) := by
    have whole := spellsIndent (Spells.word key (by simp) (stopsAt (by simp [separators])) (.colon (.gap
      (.word familyNamed (fun s => keywordWord.1) (@stopsAt u '\n' (by simp [separators]) more.toList) .done))))
    simpa using whole
  have head := Spells.word pattern (by simp) (stopsAt (by simp [separators])) (.gap
    (.word named (fun s => keywordWord.1) (stopsAt (by simp [separators])) (.gap
      (.word version (by simp) (stopsAt (by simp [separators])) (.gap
        (.int 1 (stopsAt (by simp [separators])) (.gap (.lBrace (.newline line)))))))))
  refine ⟨'\n' :: more.toList,?_⟩
  rw [text]
  simpa [openingWords] using head

theorem templateNamed (named : Word u name (.ident name)) (familyNamed : Word u family (.ident family)) :
    Named u (printedWords (templateAst name family)) := by
  have ascii : ∀ text ∈ ["family","severity","Medium","tags","references","TODO_evidence_name","call","kind","External"],
      Word u text (.ident text) := by
    intro text mem
    simp only [List.mem_cons,List.not_mem_nil,or_false] at mem
    rcases mem with rfl | rfl | rfl | rfl | rfl | rfl | rfl | rfl | rfl <;> exact wordAscii _ (by decide) (by decide)
  have words : ∀ text, .ident text ∈ printedWords (templateAst name family) → text = name ∨ text = family ∨
      text ∈ ["family","severity","Medium","tags","references","TODO_evidence_name","call","kind","External"] := by
    intro text mem
    simp [printedWords,printedSections,templateAst,headWords,Section.words,MetadataEntry.words,MetadataValue.words,
      EvidenceDecl.words,EvidenceDecl.keyword,Predicate.words,PredicateAttr.words,Ast.AttrValue.words,metadataEntry,
      plainString,SpannedString.word,SpannedString.quoted,listWords,commaWords,BoolExpr.words] at mem ⊢
    grind
  intro text mem
  rcases words text mem with rfl | rfl | listed
  · exact named
  · exact familyNamed
  · exact ascii text listed

set_option maxRecDepth 4000

theorem templateSplit : splitLeadingComments (patternTemplate name family) =
      (templateComment,formatPatternBody (templateAst name family)) ∧
    trimmed (patternTemplate name family).toList = trimmed (formatPatternBody (templateAst name family)).toList := by
  have block : leadingBlock (templateComment ++ "p").toList = templateComment.toList := by
    rw [String.toList_append,show templateComment = String.ofList _ from rfl,String.toList_ofList]
    decide +kernel
  have behind : (templateComment ++ "p").toList.drop (leadingBlock (templateComment ++ "p").toList).length ≠ [] := by
    rw [block,String.toList_append,List.drop_left]
    decide
  have again := leadingAgain (@bodyVisible (templateAst name family)) behind
  have skipped := (leadingTrivia _).2 behind (formatPatternBody (templateAst name family)).toList
  rw [block] at again skipped
  rw [templateFormatted,String.toList_append]
  refine ⟨?_,skipped⟩
  rw [splitLeadingComments,String.toList_append,again,List.drop_left,String.ofList_toList,String.ofList_toList]

theorem sameOutcome {source text : String} (unchanged : text = source) :
    (⟨true,source⟩ : FormatOutcome) = ⟨decide (text = source),text⟩ := by
  simp [unchanged]

theorem templatePlain : ∀ s, .stringLit s ∈ printedWords (templateAst name family) → Plain s := by
  intro s mem
  have listed : s ∈ texts (templateAst name family) := by rwa [← printedLiterals,memLiterals]
  rw [show texts (templateAst name family) = ["TODO"] from rfl,List.mem_singleton] at listed
  rw [listed]
  simp [Plain,PlainChar]

theorem templateReading : Reading (printedWords (templateAst name family) ++ [.eof]) name 1
    (printedSections (templateAst name family)) [.eof] := by
  have spelled : printedWords (templateAst name family) = headWords name 1 ++
    (printedSections (templateAst name family)).flatMap Section.words ++ [.rBrace] := rfl
  refine ⟨by rw [spelled]; simp only [List.append_assoc,List.cons_append,List.nil_append],fun y mem => ?_⟩
  cases y with
  | constraint e =>
    have same : e = .evidenceRef (plainString "TODO_evidence_name") := by
      simpa [printedSections,templateAst] using mem
    rw [same]
    exact .evidenceRef _
  | _ => trivial

theorem templateBare {tree : PatternAst}
    (given : tree.bare = treeOf name 1 (printedSections (templateAst name family))) :
    tree.bare = (templateAst name family).bare := by
  have printed := congrArg PatternAst.bare (printedTree (templateAst name family))
  have again : _ = treeOf name 1 (printedSections (templateAst name family)) :=
    @treeOfBare (templateAst name family).id (templateAst name family).version (templateAst name family).span _ _ rfl
  rw [given,← again,printed]

theorem scaffoldCompiles {given : Option String} {text : String} (made : run name given = .ok text)
    (identifier : ∀ f ∈ given, validateIdentifier f = .ok ()) (chosen : family = given.getD defaultFamily) :
    ((∃ p, compileStr u text = some (.ok p)) ↔ keyword name = .ident name ∧ keyword family = .ident family) ∧
    (keyword name = .ident name → keyword family = .ident family →
      compileStr u text = some (.ok (templatePattern name family)) ∧
      ∀ path, formatFile u path (.ok text) = some (.ok ⟨true,text⟩)) := by
  obtain ⟨validName,rfl⟩ : validateIdentifier name = .ok () ∧ patternTemplate name family = text := by
    obtain ⟨⟨⟩,valid,written⟩ := bindOk.mp made
    cases written
    exact ⟨valid,by rw [chosen]⟩
  have validFamily : validateIdentifier family = .ok () := by
    rw [chosen]
    cases given with
    | none => decide +kernel
    | some f => exact identifier f rfl
  have named := identifierWord (u := u) validName
  have familyNamed := identifierWord (u := u) validFamily
  obtain ⟨split,skipped⟩ := @templateSplit name family
  have built (plainName : keyword name = .ident name) (plainFamily : keyword family = .ident family) :
      compileStr u (patternTemplate name family) = some (.ok (templatePattern name family)) ∧
      ∀ path, formatFile u path (.ok (patternTemplate name family)) = some (.ok ⟨true,patternTemplate name family⟩) := by
    have words := templateNamed (plainName ▸ named) (plainFamily ▸ familyNamed)
    have spells := closedPatternBody words []
    rw [List.append_nil] at spells
    have lexes := (spellsLexes spells).mpr ⟨templatePlain,.done rfl⟩
    constructor
    · obtain ⟨tree,parsed,found⟩ := readingParsed (lexesTrimmed skipped.symm lexes) templateReading
      exact compileStrOk.mpr ⟨tree,parsed,(compileAlike (templateBare found)).mpr templateCompiled⟩
    · intro path
      obtain ⟨tree,parsed,found⟩ := readingParsed lexes templateReading
      have unchanged : (splitLeadingComments (patternTemplate name family)).1 ++ formatPatternBody tree =
          patternTemplate name family := by rw [split,formatAlike (templateBare found),templateFormatted]
      have body : parse u (splitLeadingComments (patternTemplate name family)).2 = some (.ok tree) := by
        simp only [split]
        exact parsed
      rw [formatFileOk]
      refine ⟨tree,body,?_⟩
      exact sameOutcome unchanged
  refine ⟨⟨?_,fun plain => ⟨_,(built plain.1 plain.2).1⟩⟩,built⟩
  -- The other way: a keyword in the place of a name is refused whatever follows.
  intro compiles
  obtain ⟨p,compiled⟩ := compiles
  obtain ⟨ast,parsed,_⟩ := compileStrOk.mp compiled
  obtain ⟨kinds,body,more,lexes,reading,_⟩ := parsedReading parsed
  obtain ⟨rest,spells⟩ := openingSpells named familyNamed
  have words : ∀ s, .stringLit s ∉ openingWords name family := fun s => by
    simp [openingWords,fun text => Ne.symm (@keywordWord text s).1]
  obtain ⟨after,ahead⟩ := spellsAhead spells words (lexesTrimmed skipped lexes)
  exact openingRead reading ahead

end

theorem scaffoldCompilesKeyword : ∃ text, run "version" none = .ok text ∧
    ((∃ p, compileStr .ascii text = some (.ok p)) ↔
      keyword "version" = .ident "version" ∧ keyword defaultFamily = .ident defaultFamily) ∧
    (keyword "version" = .ident "version" → keyword defaultFamily = .ident defaultFamily →
      compileStr .ascii text = some (.ok (templatePattern "version" defaultFamily)) ∧
      ∀ path, formatFile .ascii path (.ok text) = some (.ok ⟨true,text⟩)) ∧
    keyword "version" ≠ .ident "version" := by
  have valid : validateIdentifier "version" = .ok () := by decide +kernel
  have made : run "version" none = .ok (patternTemplate "version" defaultFamily) := by
    rw [run,valid]
    rfl
  obtain ⟨compiles,formatted⟩ := @scaffoldCompiles .ascii _ _ _ _ made (by simp) rfl
  exact ⟨_,made,compiles,formatted,by decide⟩

end NewPattern
end RootCause.Cli
