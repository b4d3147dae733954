import RootCause.Dsl.Bodies
import RootCause.Dsl.Numbers

/-! What an accepted source says and its tree does not. The body of a pattern is read as
a list of sections; a section that is written again replaces the one before it, and what
follows the closing brace is not looked at. -/
namespace RootCause.Dsl
open Ast Library ParserM

section
variable {u : UnicodeClasses} {tokens : List Token} {ast : PatternAst}

theorem runEnded {fuel : Nat} {l : Lexer} (lexed : Lexer.run u fuel l = some (.ok tokens)) : Ended tokens := by
  induction fuel generalizing l with
  | zero => contradiction
  | succ fuel ih =>
    simp only [Lexer.run] at lexed
    split at lexed
    · cases lexed
      simp [Ended]
    · split at lexed
      · simp at lexed
      · exact ih lexed

theorem tokenizeEnded {source : String} (lexed : tokenize u source = some (.ok tokens)) : Ended tokens :=
  runEnded lexed

def consumed (tokens : List Token) : Option (List Token) :=
  if some : 0 < tokens.length then
    let start : Parser tokens := ⟨⟨0,some⟩,[]⟩
    (parsePattern start).map fun parsed => tokens.take parsed.parser.pos
  else none

theorem acceptedReading (ended : Ended tokens) (accepted : parseTokens tokens = some (.ok ast)) :
    ∃ body n, Reading (tokens.map Token.kind) ast.id.value ast.version.value body
        ((tokens.drop n).map Token.kind) ∧
      ast = (body.foldl Sections.store .empty).tree ast.id ast.version ast.span ∧
      consumed tokens = some (tokens.take n) ∧ n < tokens.length := by
  obtain ⟨some,q,run,clean⟩ := parsedRun accepted
  obtain ⟨grows,run⟩ := run
  obtain ⟨_,same,body,reading,tree⟩ := ensuresPattern ended _ _ _ run clean
  cases same
  refine ⟨body,q.pos,reading,tree,?_,q.pos.isLt⟩
  simp only [consumed,dif_pos some,run,Option.map_some]

theorem readingAccepted (ended : Ended tokens) {id version body more}
    (reading : Reading (tokens.map Token.kind) id version body more) :
    ∃ ast, parseTokens tokens = some (.ok ast) ∧ ast.bare = treeOf id version body := by
  have some : 0 < tokens.length := by
    have shape := congrArg List.length reading.spelled
    simp [headWords] at shape
    omega
  obtain ⟨ast,q,⟨grows,run⟩,fresh,tree,_⟩ := yieldsPattern ended (p := ⟨⟨0,some⟩,[]⟩) reading
  refine ⟨ast,?_,tree⟩
  rw [parseTokens,dif_pos some]
  simp [run,fresh]

theorem readingTree (ended : Ended tokens) (parsed : parseTokens tokens = some (.ok ast)) {id version body more}
    (reading : Reading (tokens.map Token.kind) id version body more) : ast.bare = treeOf id version body := by
  obtain ⟨other,again,tree⟩ := readingAccepted ended reading
  rw [parsed] at again
  cases again
  exact tree

end

namespace Section

def declared : Section → Option (List EvidenceDecl)
  | .evidence decls => some decls
  | _ => none

def expression : Section → Option BoolExpr
  | .constraint expr => some expr
  | _ => none

def ordering : Section → Option SequenceConstraint
  | .sequence seq => some seq
  | _ => none

def grouping : Section → Option SameCallConstraint
  | .sameCall group => some group
  | _ => none

end Section

def Written (u : UnicodeClasses) (source : String) (body : List Section) : Prop :=
  ∃ tokens id version more, tokenize u source = some (.ok tokens) ∧
    Reading (tokens.map Token.kind) id version body more

/- The tree holds what is written, all of it and in its order. -/
structure Represented (ast : PatternAst) (body : List Section) : Prop where
  evidence : ast.evidence.map EvidenceDecl.bare = (body.filterMap Section.declared).flatten.map EvidenceDecl.bare
  constraint : ast.constraint.toList.map BoolExpr.bare = (body.filterMap Section.expression).map BoolExpr.bare
  sequence : ast.sequence.toList.map SequenceConstraint.bare =
    (body.filterMap Section.ordering).map SequenceConstraint.bare
  sameCall : ast.sameCall.toList.map SameCallConstraint.bare =
    (body.filterMap Section.grouping).map SameCallConstraint.bare

/- No section is written again; an evidence section without declarations does not count. -/
structure NoRepeat (body : List Section) : Prop where
  evidence : ∀ decls ∈ (body.filterMap Section.declared).dropLast, decls = []
  constraint : (body.filterMap Section.expression).length ≤ 1
  sequence : (body.filterMap Section.ordering).length ≤ 1
  sameCall : (body.filterMap Section.grouping).length ≤ 1

section
variable {α β : Type}

theorem lastStored (slot : Sections → Option α) (given : Section → Option α)
    (each : ∀ s x, slot (s.store x) = (given x).or (slot s)) (s : Sections) (body : List Section) :
    slot (body.foldl Sections.store s) = (body.filterMap given).getLast?.or (slot s) := by
  induction body generalizing s with
  | nil => rfl
  | cons x body ih =>
    rw [List.foldl_cons,ih,each]
    cases first : given x with
    | none => rw [List.filterMap_cons_none first,Option.none_or]
    | some a =>
      rw [List.filterMap_cons_some first,List.getLast?_cons]
      cases (body.filterMap given).getLast? <;> rfl

theorem lastSlot (slot : Sections → Option α) (given : Section → Option α)
    (each : ∀ s x, slot (s.store x) = (given x).or (slot s)) (vacant : slot .empty = none)
    (body : List Section) : slot (body.foldl Sections.store .empty) = (body.filterMap given).getLast? := by
  rw [lastStored slot given each,vacant,Option.or_none]

theorem slotWhole {xs : List α} {f : α → β} : xs.getLast?.toList.map f = xs.map f ↔ xs.length ≤ 1 := by
  constructor
  · intro same
    have count := congrArg List.length same
    cases last : xs.getLast? <;> simp [last] at count <;> omega
  · intro short
    cases xs with
    | nil => rfl
    | cons x xs =>
      have empty : xs = [] := List.length_eq_zero_iff.mp (by simpa using short)
      rw [empty]
      rfl

theorem listsWhole {xs : List (List α)} {f : α → β} :
    (xs.getLast?.getD []).map f = xs.flatten.map f ↔ ∀ ys ∈ xs.dropLast, ys = [] := by
  rcases List.eq_nil_or_concat xs with rfl | ⟨init,last,rfl⟩
  · simp
  · simp only [List.concat_eq_append,List.getLast?_concat,Option.getD_some,List.dropLast_concat,
      List.flatten_append,List.flatten_singleton,List.map_append,List.self_eq_append_left,
      List.map_eq_nil_iff,List.flatten_eq_nil_iff]

end

section
variable {u : UnicodeClasses} {source : String} {ast : PatternAst} {body : List Section}

structure LastWritten (ast : PatternAst) (body : List Section) : Prop where
  evidence : ast.evidence.map EvidenceDecl.bare =
    ((body.filterMap Section.declared).getLast?.getD []).map EvidenceDecl.bare
  constraint : ast.constraint.map BoolExpr.bare = (body.filterMap Section.expression).getLast?.map BoolExpr.bare
  sequence : ast.sequence.map SequenceConstraint.bare =
    (body.filterMap Section.ordering).getLast?.map SequenceConstraint.bare
  sameCall : ast.sameCall.map SameCallConstraint.bare =
    (body.filterMap Section.grouping).getLast?.map SameCallConstraint.bare

theorem lastWritten {id version} (tree : ast.bare = treeOf id version body) : LastWritten ast body := by
  refine ⟨?_,?_,?_,?_⟩
  · have stored := lastStored (fun s => some s.evidence) Section.declared
      (by intro s x; cases x <;> rfl) .empty body
    simp only [Sections.empty,Option.or_some,Option.some.injEq] at stored
    rw [← stored]
    exact congrArg PatternAst.evidence tree
  · rw [← lastSlot Sections.constraint Section.expression (by intro s x; cases x <;> rfl) rfl]
    exact congrArg PatternAst.constraint tree
  · rw [← lastSlot Sections.sequence Section.ordering (by intro s x; cases x <;> rfl) rfl]
    exact congrArg PatternAst.sequence tree
  · rw [← lastSlot Sections.sameCall Section.grouping (by intro s x; cases x <;> rfl) rfl]
    exact congrArg PatternAst.sameCall tree

theorem representedIff {id version} (tree : ast.bare = treeOf id version body) :
    Represented ast body ↔ NoRepeat body := by
  obtain ⟨evidence,constraint,sequence,sameCall⟩ := lastWritten tree
  have all : Represented ast body ↔
      ((body.filterMap Section.declared).getLast?.getD []).map EvidenceDecl.bare =
        (body.filterMap Section.declared).flatten.map EvidenceDecl.bare ∧
      (body.filterMap Section.expression).getLast?.toList.map BoolExpr.bare =
        (body.filterMap Section.expression).map BoolExpr.bare ∧
      (body.filterMap Section.ordering).getLast?.toList.map SequenceConstraint.bare =
        (body.filterMap Section.ordering).map SequenceConstraint.bare ∧
      (body.filterMap Section.grouping).getLast?.toList.map SameCallConstraint.bare =
        (body.filterMap Section.grouping).map SameCallConstraint.bare := by
    rw [← evidence,← Option.toList_map,← Option.toList_map,← Option.toList_map,← constraint,← sequence,
      ← sameCall,Option.toList_map,Option.toList_map,Option.toList_map]
    exact ⟨fun r => ⟨r.evidence,r.constraint,r.sequence,r.sameCall⟩,fun r => ⟨r.1,r.2.1,r.2.2.1,r.2.2.2⟩⟩
  rw [all,listsWhole,slotWhole,slotWhole,slotWhole]
  exact ⟨fun r => ⟨r.1,r.2.1,r.2.2.1,r.2.2.2⟩,fun r => ⟨r.evidence,r.constraint,r.sequence,r.sameCall⟩⟩

theorem representedUnlessRepeated (accepted : parse u source = some (.ok ast)) :
    (∃ body, Written u source body) ∧
      ∀ body, Written u source body → (Represented ast body ↔ NoRepeat body) := by
  obtain ⟨tokens,lexed,parsed⟩ := parseOk.mp accepted
  have ended := tokenizeEnded lexed
  obtain ⟨body,n,reading,_⟩ := acceptedReading ended parsed
  refine ⟨⟨body,tokens,_,_,_,lexed,reading⟩,fun other written => ?_⟩
  obtain ⟨again,id,version,more,lexed',reading'⟩ := written
  rw [lexed] at lexed'
  cases lexed'
  exact representedIff (readingTree ended parsed reading')

end

theorem tokenizeList {u : UnicodeClasses} {cs : List Char} :
    tokenize u (String.ofList cs) = Lexer.run u (cs.length + 1) ⟨cs,0,[]⟩ := by
  rw [tokenize,Lexer.new,String.toList_ofList]

section
set_option maxRecDepth 4000

def singleSource : String := "pattern p version 1 \x7b family: F severity: Low evidence \x7b
  required a: call(kind: External) required b: storage(changed: true) \x7d
  same_call: [a, b] sequence: [a, b] within: 5 constraint: AND(a, NOT(b)) \x7d"

theorem singleParsed : ∃ ast, parse .ascii singleSource = some (.ok ast) := by
  have found : (parsedOf singleSource).isSome := by
    rw [show singleSource = String.ofList _ from rfl,parsedOf,parseList]
    decide +kernel
  obtain ⟨ast,here⟩ := Option.isSome_iff_exists.mp found
  exact ⟨ast,parsedOfOk here⟩

theorem representedSingle : ∃ ast, parse .ascii singleSource = some (.ok ast) ∧
    (∃ body, Written .ascii singleSource body) ∧
      ∀ body, Written .ascii singleSource body → (Represented ast body ↔ NoRepeat body) := by
  obtain ⟨ast,parsed⟩ := singleParsed
  exact ⟨ast,parsed,representedUnlessRepeated parsed⟩

def repeatedSource : String := "pattern p version 1 \x7b family: F severity: Low
  evidence \x7b required a: call(kind: External) \x7d evidence \x7b required b: storage(changed: true) \x7d
  constraint: NOT(b) constraint: b \x7d"

def repeatedBody : List Section :=
  let name (s : String) : SpannedString := ⟨s,.startOfFile⟩
  let decl (s kind attr : String) (value : Ast.AttrValue) : EvidenceDecl :=
    ⟨.required,name s,⟨name kind,[⟨name attr,value,.startOfFile⟩],.startOfFile⟩,.startOfFile⟩
  [.metadata ⟨name "family",.ident (name "F"),.startOfFile⟩,
    .metadata ⟨name "severity",.ident (name "Low"),.startOfFile⟩,
    .evidence [decl "a" "call" "kind" (.ident (name "External"))],
    .evidence [decl "b" "storage" "changed" (.bool ⟨true,.startOfFile⟩)],
    .constraint (.not (.evidenceRef (name "b")) .startOfFile),.constraint (.evidenceRef (name "b"))]

theorem earlierSectionsLost : ∃ ast ∈ parsedOf repeatedSource, (validate ast).hasErrors = false ∧
    Written .ascii repeatedSource repeatedBody ∧ ¬ Represented ast repeatedBody := by
  have tree : ∃ ast ∈ parsedOf repeatedSource, (validate ast).hasErrors = false ∧ ast.evidence.length = 1 := by
    rw [show repeatedSource = String.ofList _ from rfl,parsedOf,parseList]
    decide +kernel
  have lexed : ∃ tokens ∈ (tokenize .ascii repeatedSource).bind Except.toOption, tokens.map Token.kind =
      headWords "p" 1 ++ repeatedBody.flatMap Section.words ++ [.rBrace,.eof] := by
    rw [show repeatedSource = String.ofList _ from rfl,tokenizeList]
    decide +kernel
  obtain ⟨ast,found,clean,one⟩ := tree
  obtain ⟨tokens,read,spelled⟩ := lexed
  obtain ⟨result,here,ok⟩ := Option.bind_eq_some_iff.mp read
  rw [toOptionOk] at ok
  cases ok
  have full : ∀ s ∈ repeatedBody, s.Full := by
    simp [repeatedBody,Section.Full,BoolExpr.Full.evidenceRef,BoolExpr.Full.not]
  refine ⟨ast,found,clean,⟨tokens,"p",1,[.eof],here,spelled,full⟩,fun held => ?_⟩
  have count := congrArg List.length held.evidence
  rw [List.length_map,one] at count
  exact absurd count (by decide)

end

def afterBody : Nat → List TokenKind → Option (List TokenKind)
  | _, [] => none
  | depth, kind :: rest =>
    if kind = .lBrace then afterBody (depth + 1) rest
    else if kind = .rBrace then if depth ≤ 1 then some rest else afterBody (depth - 1) rest
    else afterBody depth rest

def NoBraces (w : List TokenKind) : Prop := ∀ kind ∈ w, kind ≠ .lBrace ∧ kind ≠ .rBrace

namespace NoBraces

@[simp] theorem nil : NoBraces [] := by simp [NoBraces]

@[simp] theorem cons {kind : TokenKind} {w : List TokenKind} :
    NoBraces (kind :: w) ↔ (kind ≠ .lBrace ∧ kind ≠ .rBrace) ∧ NoBraces w := List.forall_mem_cons

@[simp] theorem append {v w : List TokenKind} : NoBraces (v ++ w) ↔ NoBraces v ∧ NoBraces w :=
  List.forall_mem_append

theorem items {α : Type} {xs : List α} {words : α → List TokenKind} (each : ∀ x ∈ xs, NoBraces (words x)) :
    NoBraces (commaWords (xs.map words)) := by
  refine commaWordsAll (by simp) fun w mem => ?_
  obtain ⟨x,inside,rfl⟩ := List.mem_map.mp mem
  exact each x inside

theorem metadata (m : MetadataEntry) : NoBraces m.words := by
  have texts (items : List SpannedString) : NoBraces (commaWords (items.map SpannedString.quoted)) :=
    .items fun s _ => by simp [SpannedString.quoted]
  cases value : m.value <;>
    simp [MetadataEntry.words,MetadataValue.words,value,listWords,SpannedString.word,SpannedString.quoted]
  exact texts _

theorem attr (a : PredicateAttr) : NoBraces a.words := by
  cases value : a.value <;>
    simp [PredicateAttr.words,AttrValue.words,value,SpannedString.word,SpannedString.quoted]

theorem decl (d : EvidenceDecl) : NoBraces d.words := by
  have attributes : NoBraces (commaWords (d.predicate.attributes.map PredicateAttr.words)) :=
    .items fun a _ => attr a
  cases keyword : d.requiredness <;>
    simp [EvidenceDecl.words,keyword,EvidenceDecl.keyword,Predicate.words,SpannedString.word,attributes]

theorem expr (e : BoolExpr) : NoBraces e.words := by
  induction e with
  | evidenceRef name => simp [BoolExpr.words,SpannedString.word]
  | and exprs span each => simpa [BoolExpr.words] using items each
  | or exprs span each => simpa [BoolExpr.words] using items each
  | not inner span ih => simpa [BoolExpr.words] using ih

theorem names (ss : List SpannedString) : NoBraces (listWords (ss.map SpannedString.word)) := by
  have each : ∀ s ∈ ss, NoBraces s.word := by simp [SpannedString.word]
  simpa [listWords] using items each

end NoBraces

section
variable {depth : Nat} {rest : List TokenKind}

theorem afterNoBraces {w : List TokenKind} (plain : NoBraces w) :
    afterBody depth (w ++ rest) = afterBody depth rest := by
  induction w with
  | nil => rfl
  | cons kind w ih =>
    obtain ⟨here,later⟩ := NoBraces.cons.mp plain
    rw [List.cons_append,afterBody,if_neg here.1,if_neg here.2,ih later]

theorem afterSection {x : Section} : afterBody (depth + 1) (x.words ++ rest) = afterBody (depth + 1) rest := by
  cases x with
  | metadata entry => exact afterNoBraces (.metadata entry)
  | evidence decls =>
    have declared : NoBraces (decls.flatMap EvidenceDecl.words) := by
      intro kind mem
      obtain ⟨d,_,inside⟩ := List.mem_flatMap.mp mem
      exact NoBraces.decl d kind inside
    simp only [Section.words,List.cons_append,List.append_assoc]
    rw [afterBody,if_neg (by simp),if_neg (by simp),afterBody,if_pos rfl,afterNoBraces declared]
    simp [afterBody]
  | constraint expr =>
    exact afterNoBraces (w := Section.words _) (by simpa [Section.words] using NoBraces.expr expr)
  | sequence seq =>
    refine afterNoBraces (w := Section.words _) ?_
    cases window : seq.withinSeconds <;>
      simpa [Section.words,SequenceConstraint.words,SequenceConstraint.window,window] using NoBraces.names _
  | sameCall group =>
    refine afterNoBraces (w := Section.words _) ?_
    simpa [Section.words,SameCallConstraint.words] using NoBraces.names _

theorem afterReading {kinds id version body more} (reading : Reading kinds id version body more) :
    afterBody 0 kinds = some more := by
  have sections (body : List Section) : afterBody 1 (body.flatMap Section.words ++ .rBrace :: more) = some more := by
    induction body with
    | nil => simp [afterBody]
    | cons x body ih => rw [List.flatMap_cons,List.append_assoc,afterSection,ih]
  rw [reading.spelled]
  simpa [headWords,afterBody] using sections body

end

section
variable {u : UnicodeClasses} {source : String} {tokens : List Token} {ast : PatternAst}

theorem consumedIff (lexed : tokenize u source = some (.ok tokens))
    (accepted : parseTokens tokens = some (.ok ast)) :
    consumed tokens = some tokens.dropLast ↔ afterBody 0 (tokens.map Token.kind) = some [.eof] := by
  have ended := tokenizeEnded lexed
  obtain ⟨body,n,reading,_,taken,inside⟩ := acceptedReading ended accepted
  rw [taken,afterReading reading,Option.some.injEq,Option.some.injEq]
  constructor
  · intro whole
    have count := congrArg List.length whole
    simp only [List.length_take,List.length_dropLast] at count
    rcases List.eq_nil_or_concat tokens with rfl | ⟨init,last,rfl⟩
    · contradiction
    · rw [List.concat_eq_append] at *
      have position : n = init.length := by
        rw [List.length_append,List.length_singleton] at *
        omega
      simpa [Ended,position] using ended
  · intro rest
    have count := congrArg List.length rest
    simp only [List.length_map,List.length_drop,List.length_singleton] at count
    rw [List.dropLast_eq_take,show n = tokens.length - 1 by omega]

set_option maxRecDepth 4000

def onlySource : String := "pattern p version 1 \x7b family: F severity: Low
  evidence \x7b required a: call(kind: External) \x7d \x7d"

theorem onlyParsed : ∃ tokens ast, tokenize .ascii onlySource = some (.ok tokens) ∧
    parseTokens tokens = some (.ok ast) := by
  have found : (parsedOf onlySource).isSome := by
    rw [show onlySource = String.ofList _ from rfl,parsedOf,parseList]
    decide +kernel
  obtain ⟨ast,here⟩ := Option.isSome_iff_exists.mp found
  obtain ⟨tokens,lexed,parsed⟩ := parseOk.mp (parsedOfOk here)
  exact ⟨tokens,ast,lexed,parsed⟩

theorem consumedOnly : ∃ tokens ast, tokenize .ascii onlySource = some (.ok tokens) ∧
    parseTokens tokens = some (.ok ast) ∧
    (consumed tokens = some tokens.dropLast ↔ afterBody 0 (tokens.map Token.kind) = some [.eof]) := by
  obtain ⟨tokens,ast,lexed,parsed⟩ := onlyParsed
  exact ⟨tokens,ast,lexed,parsed,consumedIff lexed parsed⟩

def secondSource : String := "pattern p version 1 \x7b family: F severity: Low
  evidence \x7b required a: call(kind: External) \x7d \x7d
pattern q version 1 \x7b family: F severity: Low
  evidence \x7b required b: storage(changed: true) \x7d \x7d"

theorem secondPatternIgnored : ∃ tokens ∈ (tokenize .ascii secondSource).bind Except.toOption,
    (∃ ast ∈ (parseTokens tokens).bind Except.toOption, (validate ast).hasErrors = false) ∧
      consumed tokens ≠ some tokens.dropLast := by
  rw [show secondSource = String.ofList _ from rfl,tokenizeList]
  decide +kernel

end

end RootCause.Dsl
