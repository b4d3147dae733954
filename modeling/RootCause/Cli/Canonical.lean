import RootCause.Cli.FormatPattern

/-! The formatted text as a normal form: it depends on the leading block and on the tree
without its spans, and formatting it again changes nothing. -/
namespace RootCause.Cli
open Library Dsl Ast Lexer

section
variable {body rest : List Char}

theorem visibleBlock {c : Char} (black : isWhitespace c = false) (other : c ≠ '/') :
    leadingBlock (c :: rest) = [] := by
  have head (line : List Char) : isLeading (c :: line) = false := by
    rw [Bool.eq_false_iff]
    intro leading
    rcases leadingLine leading with empty | ⟨text,comment⟩
    · simp [black] at empty
    · simp [black,other] at comment
  have lines : ∃ line more, splitInclusive (c :: rest) = (c :: line) :: more := by
    rw [splitInclusive]
    split
    · exact ⟨[],_,rfl⟩
    · split
      · exact ⟨[],[],rfl⟩
      · exact ⟨_,_,rfl⟩
  obtain ⟨line,more,split⟩ := lines
  rw [leadingBlock,split,List.takeWhile_cons_of_neg (by simp [head])]
  rfl

theorem leadingAgain {cs more : List Char} (visible : leadingBlock more = [])
    (some : cs.drop (leadingBlock cs).length ≠ []) : leadingBlock (leadingBlock cs ++ more) = leadingBlock cs := by
  induction length : cs.length using Nat.strongRecOn generalizing cs with
  | ind n ih =>
    rcases lineShape cs with rfl | ⟨short,lines⟩ | ⟨body,rest,short,rfl,lines⟩
    · exact absurd rfl some
    · by_cases leading : isLeading cs = true
      · have block : leadingBlock cs = cs := by simp [leadingBlock,lines,leading]
        rw [block,List.drop_length] at some
        exact absurd rfl some
      · have block : leadingBlock cs = [] := by simp [leadingBlock,lines,leading]
        rw [block]
        exact visible
    · by_cases leading : isLeading (body ++ ['\n']) = true
      · have block : leadingBlock (body ++ '\n' :: rest) = body ++ '\n' :: leadingBlock rest := by
          simp [leadingBlock,lines,leading]
        have later : rest.drop (leadingBlock rest).length ≠ [] := by
          rw [block,List.length_append,List.drop_length_add_append,List.length_cons,List.drop_succ_cons] at some
          exact some
        have again := ih rest.length (by simp [← length]; omega) later rfl
        rw [block,List.append_assoc,List.cons_append]
        have front : leadingBlock (body ++ '\n' :: (leadingBlock rest ++ more)) =
            body ++ '\n' :: leadingBlock (leadingBlock rest ++ more) := by
          rw [leadingBlock,splitNewline short]
          simp [leadingBlock,leading]
        rw [front,again]
      · have block : leadingBlock (body ++ '\n' :: rest) = [] := by simp [leadingBlock,lines,leading]
        rw [block]
        exact visible

end

section
variable {ast other : PatternAst}

@[simp] theorem formatEntryBare {m : MetadataEntry} : formatMetadataEntry m.bare = formatMetadataEntry m := by
  cases value : m.value <;>
    simp [formatMetadataEntry,MetadataEntry.bare,MetadataValue.bare,formatStrList,SpannedString.bare,value,Function.comp_def]

@[simp] theorem formatAttrBare {a : PredicateAttr} : formatAttr a.bare = formatAttr a := by
  cases value : a.value <;>
    simp [formatAttr,formatAttrValue,PredicateAttr.bare,Ast.AttrValue.bare,SpannedString.bare,SpannedInt.bare,
      SpannedBool.bare,value]

@[simp] theorem formatPredicateBare {p : Predicate} : formatPredicate p.bare = formatPredicate p := by
  have attrs : p.bare.attributes.map formatAttr = p.attributes.map formatAttr := by
    simp [Predicate.bare,Function.comp_def]
  have kind : p.bare.kind.value = p.kind.value := rfl
  simp only [formatPredicate,attrs,kind]

@[simp] theorem formatDeclBare {d : EvidenceDecl} : formatEvidenceDecl d.bare = formatEvidenceDecl d := by
  have name : d.bare.name.value = d.name.value := rfl
  have predicate : d.bare.predicate = d.predicate.bare := rfl
  have requiredness : d.bare.requiredness = d.requiredness := rfl
  simp only [formatEvidenceDecl,name,predicate,requiredness,formatPredicateBare]

theorem formatExprsEq {items : List BoolExpr} : formatBoolExprs items = items.map formatBoolExpr := by
  induction items with
  | nil => rfl
  | cons item rest ih => rw [formatBoolExprs,ih,List.map_cons]

@[simp] theorem formatExprBare {e : BoolExpr} : formatBoolExpr e.bare = formatBoolExpr e := by
  have operands {items : List BoolExpr} (each : ∀ e ∈ items, formatBoolExpr e.bare = formatBoolExpr e) :
      formatBoolExprs (BoolExpr.bareAll items) = formatBoolExprs items := by
    rw [formatExprsEq,formatExprsEq,BoolExpr.bareAllEq,List.map_map]
    exact List.map_congr_left each
  induction e with
  | evidenceRef name => rfl
  | and items span ih => rw [BoolExpr.bare,formatBoolExpr,formatBoolExpr,operands ih]
  | or items span ih => rw [BoolExpr.bare,formatBoolExpr,formatBoolExpr,operands ih]
  | not inner span ih => rw [BoolExpr.bare,formatBoolExpr,formatBoolExpr,ih]

theorem formatBare : formatPatternBody ast.bare = formatPatternBody ast := by
  have group (s : SameCallConstraint) : formatSameCall s.bare = formatSameCall s := by
    simp [formatSameCall,SameCallConstraint.bare,SpannedString.bare,Function.comp_def]
  have steps (s : SequenceConstraint) : formatSequence s.bare = formatSequence s := by
    cases window : s.withinSeconds <;>
      simp [formatSequence,SequenceConstraint.bare,SpannedString.bare,SpannedInt.bare,window,Function.comp_def]
  have optional {α : Type} {format : α → String} {bare : α → α} {o : Option α}
      (same : ∀ a, format (bare a) = format a) : formatOptional format (o.map bare) = formatOptional format o := by
    cases o <;> simp [formatOptional,same]
  have constraint (e : BoolExpr) : indent ++ "constraint: " ++ formatBoolExpr e.bare ++ "\n" =
      indent ++ "constraint: " ++ formatBoolExpr e ++ "\n" := by rw [formatExprBare]
  have metadata : ast.bare.metadata.map formatMetadataEntry = ast.metadata.map formatMetadataEntry := by
    simp [PatternAst.bare,Function.comp_def]
  have evidence : ast.bare.evidence.map formatEvidenceDecl = ast.evidence.map formatEvidenceDecl := by
    simp [PatternAst.bare,Function.comp_def]
  have id : ast.bare.id.value = ast.id.value := rfl
  have version : ast.bare.version.value = ast.version.value := rfl
  have groups : formatOptional formatSameCall ast.bare.sameCall = formatOptional formatSameCall ast.sameCall :=
    optional group
  have orders : formatOptional formatSequence ast.bare.sequence = formatOptional formatSequence ast.sequence :=
    optional steps
  have conditions : formatOptional (fun e => indent ++ "constraint: " ++ formatBoolExpr e ++ "\n") ast.bare.constraint =
      formatOptional (fun e => indent ++ "constraint: " ++ formatBoolExpr e ++ "\n") ast.constraint :=
    optional constraint
  unfold formatPatternBody
  rw [metadata,evidence,id,version,groups,orders,conditions]

theorem formatAlike (same : ast.bare = other.bare) : formatPatternBody ast = formatPatternBody other := by
  rw [← formatBare,same,formatBare]

theorem bodyVisible : leadingBlock (formatPatternBody ast).toList = [] := by
  obtain ⟨rest,text⟩ : ∃ rest, (formatPatternBody ast).toList = 'p' :: rest := by
    have head : "pattern ".toList = 'p' :: "attern ".toList := by decide
    unfold formatPatternBody
    simp only [String.toList_append,List.append_assoc,head,List.cons_append]
    exact ⟨_,rfl⟩
  rw [text]
  exact visibleBlock (by decide) (by decide)

end

section
variable {u : UnicodeClasses} {source : String} {ast : PatternAst} {path : PathBuf}

theorem parsedSome (parsed : parse u source = some (.ok ast)) : source.toList ≠ [] := by
  intro empty
  obtain ⟨kinds,body,more,lexes,reading,_⟩ := parsedReading parsed
  rw [empty] at lexes
  cases lexes with
  | done _ => simpa [headWords] using reading.spelled
  | token read _ => simp [first,trimmed,triviaLength] at read

theorem splitFormatted {more : List Char} (visible : leadingBlock more = [])
    (nonempty : (splitLeadingComments source).2.toList ≠ []) :
    splitLeadingComments ((splitLeadingComments source).1 ++ String.ofList more) =
      ((splitLeadingComments source).1,String.ofList more) := by
  have behind : source.toList.drop (leadingBlock source.toList).length ≠ [] := by
    rwa [splitLeadingComments,String.toList_ofList] at nonempty
  have again := leadingAgain visible behind
  rw [splitLeadingComments,splitLeadingComments,String.toList_append,String.toList_ofList,String.toList_ofList,again,
    List.drop_left]

theorem formatCanonical (parsed : parse u source = some (.ok ast)) (plain : ∀ s ∈ texts ast, Plain s) :
    ∃ outcome, formatFile u path (.ok source) = some (.ok outcome) ∧
      formatFile u path (.ok outcome.formatted) = some (.ok ⟨true,outcome.formatted⟩) ∧
      ∀ source' ast', parse u source' = some (.ok ast') → ast'.bare = ast.bare →
        leadingBlock source'.toList = leadingBlock source.toList →
        ∃ outcome', formatFile u path (.ok source') = some (.ok outcome') ∧
          outcome'.formatted = outcome.formatted := by
  obtain ⟨⟨body,read,bare⟩,_⟩ := bodyParsed parsed
  refine ⟨_,formatFileOk.mpr ⟨body,read,rfl⟩,?_,?_⟩
  · have plainBody : ∀ s ∈ texts body, Plain s := by rwa [← textsBare,bare,textsBare]
    obtain ⟨final,again,tree⟩ := readingParsed ((bodyLexes read).mpr plainBody) (printedReading read)
    have printed := congrArg PatternAst.bare (printedTree body)
    have alike : formatPatternBody final = formatPatternBody body := by
      refine formatAlike ?_
      rw [tree,← printed]
      exact (treeOfBare rfl).symm
    have split := @splitFormatted source _ (@bodyVisible body) (parsedSome read)
    rw [String.ofList_toList] at split
    refine formatFileOk.mpr ⟨final,by rw [split]; exact again,?_⟩
    rw [split,alike,decide_eq_true rfl]
  · intro source' ast' parsed' same block
    obtain ⟨⟨body',read',bare'⟩,_⟩ := bodyParsed parsed'
    refine ⟨_,formatFileOk.mpr ⟨body',read',rfl⟩,?_⟩
    have alike : formatPatternBody body' = formatPatternBody body :=
      formatAlike (bare'.trans (same.trans bare.symm))
    simp only [splitLeadingComments,block,alike]

end

set_option maxRecDepth 4000

theorem formatCanonicalPlain : ∃ ast, parse .ascii plainSource = some (.ok ast) ∧ (∀ s ∈ texts ast, Plain s) ∧
    ∃ outcome, formatFile .ascii [] (.ok plainSource) = some (.ok outcome) ∧
      formatFile .ascii [] (.ok outcome.formatted) = some (.ok ⟨true,outcome.formatted⟩) ∧
      ∀ source' ast', parse .ascii source' = some (.ok ast') → ast'.bare = ast.bare →
        leadingBlock source'.toList = leadingBlock plainSource.toList →
        ∃ outcome', formatFile .ascii [] (.ok source') = some (.ok outcome') ∧
          outcome'.formatted = outcome.formatted := by
  have read : ∃ ast ∈ parsedOf plainSource, texts ast = ["a","b"] := by
    rw [show plainSource = String.ofList _ from rfl,parsedOf,parseList]
    decide +kernel
  obtain ⟨ast,found,listed⟩ := read
  have plain : ∀ s ∈ texts ast, Plain s := by
    rw [listed]
    simp [Plain,PlainChar]
  exact ⟨ast,parsedOfOk found,plain,formatCanonical (parsedOfOk found) plain⟩

end RootCause.Cli
