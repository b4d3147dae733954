import RootCause.Dsl.Grammar
import RootCause.Dsl.Texts

/-! The canonical text of a pattern. The printer takes the tree apart in a fixed order of
sections, and its text spells the tokens of these sections; a string is put between
quotes as it is. -/
namespace RootCause.Cli
open Dsl Ast

def indent : String := "    "

def quote (value : String) : String := "\"" ++ value ++ "\""

def formatStrList (items : List SpannedString) : String :=
  "[" ++ ", ".intercalate (items.map fun s => quote s.value) ++ "]"

def formatMetadataEntry (entry : MetadataEntry) : String :=
  let value := match entry.value with
    | .ident s => s.value
    | .str s => quote s.value
    | .strList items => formatStrList items
  indent ++ entry.key.value ++ ": " ++ value ++ "\n"

def formatAttrValue : Ast.AttrValue → String
  | .ident s => s.value
  | .str s => quote s.value
  | .int i => toString i.value
  | .bool b => toString b.value

def formatAttr (attr : PredicateAttr) : String := attr.name.value ++ ": " ++ formatAttrValue attr.value

def attrLines : List String → String
  | [] => ""
  | [attr] => indent ++ indent ++ indent ++ attr ++ "\n"
  | attr :: rest => indent ++ indent ++ indent ++ attr ++ ",\n" ++ attrLines rest

def formatPredicate (predicate : Predicate) : String :=
  let attrs := predicate.attributes.map formatAttr
  let inline := predicate.kind.value ++ "(" ++ ", ".intercalate attrs ++ ")"
  let inlineWidth := 2 * indent.utf8ByteSize + "required ".utf8ByteSize + inline.utf8ByteSize
  if attrs.isEmpty ∨ inlineWidth ≤ 80 then inline
  else predicate.kind.value ++ "(\n" ++ attrLines attrs ++ indent ++ indent ++ ")"

def formatRequiredness : Requiredness → String
  | .required => "required"
  | .optional => "optional"

def formatEvidenceDecl (decl : EvidenceDecl) : String :=
  indent ++ indent ++ formatRequiredness decl.requiredness ++ " " ++ decl.name.value ++ ": " ++
    formatPredicate decl.predicate ++ "\n"

def formatSameCall (sameCall : SameCallConstraint) : String :=
  indent ++ "same_call: [" ++ ", ".intercalate (sameCall.members.map SpannedString.value) ++ "]\n"

def formatSequence (sequence : SequenceConstraint) : String :=
  let steps := ", ".intercalate (sequence.steps.map SpannedString.value)
  match sequence.withinSeconds with
  | none => indent ++ "sequence: [" ++ steps ++ "]\n"
  | some within => indent ++ "sequence: [" ++ steps ++ "] within: " ++ toString within.value ++ "\n"

mutual
def formatBoolExpr : BoolExpr → String
  | .evidenceRef s => s.value
  | .and items _ => "AND(" ++ ", ".intercalate (formatBoolExprs items) ++ ")"
  | .or items _ => "OR(" ++ ", ".intercalate (formatBoolExprs items) ++ ")"
  | .not inner _ => "NOT(" ++ formatBoolExpr inner ++ ")"
def formatBoolExprs : List BoolExpr → List String
  | [] => []
  | item :: rest => formatBoolExpr item :: formatBoolExprs rest
end

def formatOptional {α : Type} (format : α → String) : Option α → String
  | none => ""
  | some section' => "\n" ++ format section'

def formatPatternBody (pattern : PatternAst) : String :=
  "pattern " ++ pattern.id.value ++ " version " ++ toString pattern.version.value ++ " \x7b\n" ++
    String.join (pattern.metadata.map formatMetadataEntry) ++
    "\n" ++ indent ++ "evidence \x7b\n" ++
    String.join (pattern.evidence.map formatEvidenceDecl) ++ indent ++ "\x7d\n" ++
    formatOptional formatSameCall pattern.sameCall ++
    formatOptional formatSequence pattern.sequence ++
    formatOptional (fun constraint => indent ++ "constraint: " ++ formatBoolExpr constraint ++ "\n")
      pattern.constraint ++ "\x7d\n"

def printedSections (pattern : PatternAst) : List Section :=
  pattern.metadata.map .metadata ++ [.evidence pattern.evidence] ++ pattern.sameCall.toList.map .sameCall ++
    pattern.sequence.toList.map .sequence ++ pattern.constraint.toList.map .constraint

def printedWords (pattern : PatternAst) : List TokenKind :=
  headWords pattern.id.value pattern.version.value ++ (printedSections pattern).flatMap Section.words ++ [.rBrace]

def metadataTexts : MetadataValue → List String
  | .ident _ => []
  | .str s => [s.value]
  | .strList items => items.map SpannedString.value

def attrTexts : Ast.AttrValue → List String
  | .str s => [s.value]
  | _ => []

def texts (pattern : PatternAst) : List String :=
  pattern.metadata.flatMap (fun m => metadataTexts m.value) ++
    pattern.evidence.flatMap fun d => d.predicate.attributes.flatMap fun a => attrTexts a.value

section
open Lexer
variable {u : UnicodeClasses}

def Named (u : UnicodeClasses) (w : List TokenKind) : Prop := ∀ name, .ident name ∈ w → Word u name (.ident name)

namespace Named
variable {v w : List TokenKind}

theorem append : Named u (v ++ w) ↔ Named u v ∧ Named u w := by
  simp [Named,or_imp,forall_and]

theorem cons {kind : TokenKind} (other : ∀ name, kind ≠ .ident name) : Named u (kind :: w) ↔ Named u w := by
  simp [Named,fun name => (other name).symm]

theorem item {α : Type} {words : α → List TokenKind} {xs : List α}
    (named : Named u (commaWords (xs.map words))) : ∀ x ∈ xs, Named u (words x) :=
  fun _ mem name inside => named name (commaWordsOf (List.mem_map_of_mem mem) inside)

theorem part {α : Type} {words : α → List TokenKind} {xs : List α}
    (named : Named u (xs.flatMap words)) : ∀ x ∈ xs, Named u (words x) :=
  fun x mem name inside => named name (List.mem_flatMap.mpr ⟨x,mem,inside⟩)

theorem list {α : Type} {words : α → List TokenKind} {xs : List α} (named : Named u (listWords (xs.map words))) :
    ∀ x ∈ xs, Named u (words x) := by
  rw [listWords,List.cons_append,cons (by simp),append] at named
  exact named.1.item

end Named

def Writes (u : UnicodeClasses) (text : String) (w : List TokenKind) : Prop :=
  ∀ cs, Stops u cs → Spells u (text.toList ++ cs) w cs

def Closed (u : UnicodeClasses) (text : String) (w : List TokenKind) : Prop :=
  ∀ cs, Spells u (text.toList ++ cs) w cs

def separators : List Char := [':',',','(',')',']',' ','\n']

theorem stopsAt {c : Char} (mem : c ∈ separators) {rest : List Char} : Stops u (c :: rest) := by
  have all : separators.all (fun c => c.toNat < 128 && !c.isAlpha && !c.isDigit && c ≠ '_') = true := rfl
  have ascii : ((c.toNat < 128 ∧ c.isAlpha = false) ∧ c.isDigit = false) ∧ c ≠ '_' := by
    simpa using List.all_eq_true.mp all c mem
  exact stopsAscii ascii.1.1.1 ⟨ascii.1.1.2,ascii.1.2,ascii.2⟩

theorem spellsIndent {cs rest : List Char} {kinds : List TokenKind} (later : Spells u cs kinds rest) :
    Spells u (indent.toList ++ cs) kinds rest := by
  have spaces : Spells u (' ' :: ' ' :: ' ' :: ' ' :: cs) kinds rest :=
    .space rfl (.space rfl (.space rfl (.space rfl later)))
  exact spaces

theorem writesWord {text : String} {kind : TokenKind} (word : Word u text kind)
    (other : ∀ s, kind ≠ .stringLit s) : Writes u text [kind] := fun _ stops => .word word other stops .done

theorem writesName {s : SpannedString} (named : Named u s.word) : Writes u s.value s.word :=
  writesWord (named s.value (by simp [SpannedString.word])) (by simp)

theorem closedQuoted {s : SpannedString} : Closed u (quote s.value) s.quoted := by
  intro cs
  have later : Spells u cs [] cs := .done
  simpa [quote,SpannedString.quoted] using Spells.text s.value later

theorem Closed.writes {text : String} {w : List TokenKind} (closed : Closed u text w) : Writes u text w :=
  fun cs _ => closed cs

theorem Closed.append {text more : String} {v w : List TokenKind} (here : Closed u text v)
    (later : Closed u more w) : Closed u (text ++ more) (v ++ w) := by
  intro cs
  rw [String.toList_append,List.append_assoc]
  exact (here _).append (later cs)

theorem writesJoined {α : Type} {text : α → String} {words : α → List TokenKind} {xs : List α}
    (each : ∀ x ∈ xs, Writes u (text x) (words x)) :
    Writes u (", ".intercalate (xs.map text)) (commaWords (xs.map words)) := by
  intro cs stops
  induction xs with
  | nil => simpa [commaWords] using Spells.done
  | cons x xs ih =>
    obtain ⟨here,later⟩ := List.forall_mem_cons.mp each
    cases xs with
    | nil => simpa [commaWords] using here cs stops
    | cons y ys =>
      have whole := (here _ (stopsAt (by simp [separators]))).append (.comma (.gap (ih later)))
      simpa [commaWords,List.append_assoc] using whole

theorem closedList {α : Type} {text : α → String} {words : α → List TokenKind} {xs : List α}
    (each : ∀ x ∈ xs, Writes u (text x) (words x)) :
    Closed u ("[" ++ ", ".intercalate (xs.map text) ++ "]") (listWords (xs.map words)) := by
  intro cs
  have items := writesJoined each (']' :: cs) (stopsAt (by simp [separators]))
  have whole := Spells.lBracket (items.append (.rBracket .done))
  simpa [listWords,List.append_assoc] using whole

theorem closedJoin {α : Type} {text : α → String} {words : α → List TokenKind} {xs : List α}
    (each : ∀ x ∈ xs, Closed u (text x) (words x)) :
    Closed u (String.join (xs.map text)) (xs.flatMap words) := by
  intro cs
  induction xs with
  | nil => exact .done
  | cons x xs ih =>
    obtain ⟨here,later⟩ := List.forall_mem_cons.mp each
    simpa [String.toList_join,List.append_assoc] using (here _).append (ih later)

theorem closedOptional {α : Type} {format : α → String} {words : α → List TokenKind} {x : Option α}
    (each : ∀ a ∈ x, Closed u (format a) (words a)) :
    Closed u (formatOptional format x) (x.toList.flatMap words) := by
  intro cs
  cases x with
  | none => exact .done
  | some a =>
    have whole : Spells u ('\n' :: ((format a).toList ++ cs)) (words a) cs := .space rfl (each a rfl cs)
    simpa [formatOptional] using whole

theorem writesAttrValue {v : Ast.AttrValue} (named : Named u v.words) : Writes u (formatAttrValue v) v.words := by
  cases v with
  | ident s => exact writesName named
  | str s => exact closedQuoted.writes
  | int i => exact fun cs stops => .int i.value stops .done
  | bool b =>
    cases b with
    | mk flag span =>
      cases flag with
      | true => exact writesWord (wordAscii "true" (by decide) (by decide)) (by simp)
      | false => exact writesWord (wordAscii "false" (by decide) (by decide)) (by simp)

theorem writesAttr {a : PredicateAttr} (named : Named u a.words) : Writes u (formatAttr a) a.words := by
  intro cs stops
  rw [PredicateAttr.words,Named.append,Named.cons (by simp)] at named
  have whole := (writesName named.1 _ (stopsAt (by simp [separators]))).append
    (.colon (.gap (writesAttrValue named.2 cs stops)))
  simpa [formatAttr,PredicateAttr.words] using whole

theorem closedAttrLines {attrs : List PredicateAttr} (each : ∀ a ∈ attrs, Named u a.words) :
    Closed u (attrLines (attrs.map formatAttr)) (commaWords (attrs.map PredicateAttr.words)) := by
  intro cs
  induction attrs with
  | nil => exact .done
  | cons a attrs ih =>
    obtain ⟨here,later⟩ := List.forall_mem_cons.mp each
    cases attrs with
    | nil =>
      have line := spellsIndent (spellsIndent (spellsIndent
        ((writesAttr here _ (stopsAt (by simp [separators]))).append (.lineEnd cs))))
      simpa [attrLines,commaWords] using line
    | cons b attrs =>
      have line := spellsIndent (spellsIndent (spellsIndent
        ((writesAttr here _ (stopsAt (by simp [separators]))).append (.comma (.newline (ih later))))))
      simpa [attrLines,commaWords] using line

theorem closedPredicate {p : Predicate} (named : Named u p.words) : Closed u (formatPredicate p) p.words := by
  intro cs
  rw [Predicate.words,Named.append,Named.append,Named.cons (by simp)] at named
  obtain ⟨⟨kind,attrs⟩,_⟩ := named
  simp only [formatPredicate]
  split
  · have inside := writesJoined (fun a mem => writesAttr (attrs.item a mem)) (')' :: cs)
      (stopsAt (by simp [separators]))
    have whole := (writesName kind _ (stopsAt (by simp [separators]))).append
      (.lParen (inside.append (.rParen .done)))
    simpa [Predicate.words] using whole
  · have inside := closedAttrLines attrs.item (indent.toList ++ (indent.toList ++ ')' :: cs))
    have whole := (writesName kind _ (stopsAt (by simp [separators]))).append (.lParen (.newline
      (inside.append (spellsIndent (spellsIndent (.rParen .done))))))
    simpa [Predicate.words] using whole

theorem writesRequiredness (r : Requiredness) : Writes u (formatRequiredness r) [EvidenceDecl.keyword r] := by
  cases r with
  | required => exact writesWord (wordAscii "required" (by decide) (by decide)) (by simp [EvidenceDecl.keyword])
  | optional => exact writesWord (wordAscii "optional" (by decide) (by decide)) (by simp [EvidenceDecl.keyword])

def declLine (d : EvidenceDecl) : String :=
  indent ++ indent ++ formatRequiredness d.requiredness ++ " " ++ d.name.value ++ ": " ++ formatPredicate d.predicate

theorem closedDeclLine {d : EvidenceDecl} (named : Named u d.words) : Closed u (declLine d) d.words := by
  intro cs
  have keyword : ∀ name, EvidenceDecl.keyword d.requiredness ≠ .ident name := by
    cases d.requiredness <;> simp [EvidenceDecl.keyword]
  rw [EvidenceDecl.words,List.cons_append,Named.cons keyword,Named.append,Named.cons (by simp)] at named
  have name := (writesName named.1 _ (stopsAt (by simp [separators]))).append
    (.colon (.gap (closedPredicate named.2 cs)))
  have line := (writesRequiredness d.requiredness _ (stopsAt (by simp [separators]))).append (.gap name)
  have whole := spellsIndent (spellsIndent line)
  simpa [declLine,EvidenceDecl.words] using whole

theorem closedEvidenceDecl {d : EvidenceDecl} (named : Named u d.words) :
    Closed u (formatEvidenceDecl d) d.words := by
  have lineEnd : Closed u "\n" [] := Spells.lineEnd
  have whole := (closedDeclLine named).append lineEnd
  rwa [List.append_nil] at whole

theorem closedMetadataEntry {m : MetadataEntry} (named : Named u m.words) :
    Closed u (formatMetadataEntry m) m.words := by
  intro cs
  rw [MetadataEntry.words,Named.append,Named.cons (by simp)] at named
  have line {text : String} {w : List TokenKind} (value : Writes u text w) :
      Spells u ((indent ++ m.key.value ++ ": " ++ text ++ "\n").toList ++ cs) (m.key.word ++ .colon :: w) cs := by
    have whole := spellsIndent ((writesName named.1 _ (stopsAt (by simp [separators]))).append (.colon (.gap
      ((value _ (stopsAt (by simp [separators]))).append (.lineEnd cs)))))
    simpa using whole
  rw [MetadataEntry.words,formatMetadataEntry]
  cases value : m.value with
  | ident s =>
    rw [value] at named
    exact line (writesName named.2)
  | str s => exact line closedQuoted.writes
  | strList items => exact line (closedList fun _ _ => closedQuoted.writes).writes

theorem closedHeading {text : String} {kind : TokenKind} (word : Word u text kind)
    (other : ∀ s, kind ≠ .stringLit s) : Closed u (indent ++ text ++ ": ") [kind,.colon] := by
  intro cs
  have later : Spells u cs [] cs := .done
  have whole := spellsIndent (Spells.word word other (stopsAt (by simp [separators])) (.colon (.gap later)))
  simpa using whole

theorem closedSameCall {g : SameCallConstraint} (named : Named u g.words) :
    Closed u (formatSameCall g) g.words := by
  intro cs
  rw [SameCallConstraint.words,Named.cons (by simp),Named.cons (by simp)] at named
  have heading : Closed u (indent ++ "same_call" ++ ": ") [.kwSameCall,.colon] :=
    closedHeading (wordAscii "same_call" (by decide) (by decide)) (by simp)
  have members := closedList fun s mem => writesName (named.list s mem)
  have whole := (heading _).append ((members _).append (.lineEnd cs))
  simpa [formatSameCall,SameCallConstraint.words] using whole

theorem closedSequence {q : SequenceConstraint} (named : Named u q.words) :
    Closed u (formatSequence q) q.words := by
  intro cs
  rw [SequenceConstraint.words,Named.append,Named.cons (by simp),Named.cons (by simp)] at named
  have heading : Closed u (indent ++ "sequence" ++ ": ") [.kwSequence,.colon] :=
    closedHeading (wordAscii "sequence" (by decide) (by decide)) (by simp)
  have steps := closedList fun s mem => writesName (named.1.list s mem)
  rw [SequenceConstraint.words,formatSequence]
  cases q.withinSeconds with
  | none =>
    have whole := (heading _).append ((steps _).append (.lineEnd cs))
    simpa [SequenceConstraint.window] using whole
  | some within =>
    have keyword : Word u "within" .kwWithin := wordAscii "within" (by decide) (by decide)
    have window : Spells u ("within".toList ++ ':' :: ' ' :: ((toString within.value).toList ++ '\n' :: cs))
        (SequenceConstraint.window (some within)) cs :=
      .word keyword (by simp) (stopsAt (by simp [separators])) (.colon (.gap
        (.int within.value (stopsAt (by simp [separators])) (.space rfl .done))))
    have whole := (heading _).append ((steps _).append (.gap window))
    simpa using whole

theorem formatBoolExprsMap {items : List BoolExpr} : formatBoolExprs items = items.map formatBoolExpr := by
  induction items with
  | nil => rfl
  | cons item rest ih => rw [formatBoolExprs,ih,List.map_cons]

theorem closedOperands {text inside : String} {kind : TokenKind} {w : List TokenKind} (word : Word u text kind)
    (other : ∀ s, kind ≠ .stringLit s) (operands : Writes u inside w) :
    Closed u (text ++ "(" ++ inside ++ ")") (kind :: .lParen :: w ++ [.rParen]) := by
  intro cs
  have whole := Spells.word word other (stopsAt (by simp [separators]))
    (.lParen ((operands (')' :: cs) (stopsAt (by simp [separators]))).append (.rParen .done)))
  simpa using whole

theorem writesBoolExpr {e : BoolExpr} (named : Named u e.words) : Writes u (formatBoolExpr e) e.words := by
  induction e with
  | evidenceRef name => exact writesName named
  | and items span ih =>
    rw [BoolExpr.words,Named.append,Named.cons (by simp),Named.cons (by simp),BoolExpr.wordsAllEq] at named
    have operands := writesJoined fun item mem => ih item mem (named.1.item item mem)
    rw [BoolExpr.words,formatBoolExpr,formatBoolExprsMap,BoolExpr.wordsAllEq]
    exact (closedOperands (wordAscii "AND" (by decide) (by decide)) (by simp [Lexer.keyword]) operands).writes
  | or items span ih =>
    rw [BoolExpr.words,Named.append,Named.cons (by simp),Named.cons (by simp),BoolExpr.wordsAllEq] at named
    have operands := writesJoined fun item mem => ih item mem (named.1.item item mem)
    rw [BoolExpr.words,formatBoolExpr,formatBoolExprsMap,BoolExpr.wordsAllEq]
    exact (closedOperands (wordAscii "OR" (by decide) (by decide)) (by simp [Lexer.keyword]) operands).writes
  | not inner span ih =>
    rw [BoolExpr.words,Named.append,Named.cons (by simp),Named.cons (by simp)] at named
    rw [BoolExpr.words,formatBoolExpr]
    exact (closedOperands (wordAscii "NOT" (by decide) (by decide)) (by simp [Lexer.keyword]) (ih named.1)).writes

theorem closedConstraint {e : BoolExpr} (named : Named u e.words) :
    Closed u (indent ++ "constraint: " ++ formatBoolExpr e ++ "\n") (Section.constraint e).words := by
  intro cs
  have heading : Closed u (indent ++ "constraint" ++ ": ") [.kwConstraint,.colon] :=
    closedHeading (wordAscii "constraint" (by decide) (by decide)) (by simp)
  have whole := (heading _).append
    ((writesBoolExpr named _ (stopsAt (by simp [separators]))).append (.lineEnd cs))
  simpa [Section.words] using whole

theorem closedHead {id : String} (version : Int64) (named : Word u id (.ident id)) :
    Closed u ("pattern " ++ id ++ " version " ++ toString version ++ " \x7b\n") (headWords id version) := by
  intro cs
  have pattern : Word u "pattern" .kwPattern := wordAscii "pattern" (by decide) (by decide)
  have keyword : Word u "version" .kwVersion := wordAscii "version" (by decide) (by decide)
  have whole := Spells.word pattern (by simp) (stopsAt (by simp [separators])) (.gap
    (.word named (by simp) (stopsAt (by simp [separators])) (.gap
      (.word keyword (by simp) (stopsAt (by simp [separators])) (.gap
        (.int version (stopsAt (by simp [separators])) (.gap
          (.lBrace (.lineEnd cs)))))))))
  simpa [headWords] using whole

def closingText (pattern : PatternAst) : String :=
  indent ++ "\x7d\n" ++ formatOptional formatSameCall pattern.sameCall ++
    formatOptional formatSequence pattern.sequence ++
    formatOptional (fun constraint => indent ++ "constraint: " ++ formatBoolExpr constraint ++ "\n")
      pattern.constraint ++ "\x7d\n"

def closingWords (pattern : PatternAst) : List TokenKind :=
  .rBrace :: (pattern.sameCall.toList.flatMap SameCallConstraint.words ++
    (pattern.sequence.toList.flatMap SequenceConstraint.words ++
    (pattern.constraint.toList.flatMap (fun e => (Section.constraint e).words) ++ [.rBrace])))

theorem bodyParts (pattern : PatternAst) : formatPatternBody pattern =
    "pattern " ++ pattern.id.value ++ " version " ++ toString pattern.version.value ++ " \x7b\n" ++
      (String.join (pattern.metadata.map formatMetadataEntry) ++ ("\n" ++ indent ++ "evidence \x7b\n" ++
        (String.join (pattern.evidence.map formatEvidenceDecl) ++ closingText pattern))) := by
  unfold formatPatternBody closingText
  simp only [String.append_assoc]

theorem wordsParts (pattern : PatternAst) : printedWords pattern =
    headWords pattern.id.value pattern.version.value ++ (pattern.metadata.flatMap MetadataEntry.words ++
      ([.kwEvidence,.lBrace] ++ (pattern.evidence.flatMap EvidenceDecl.words ++ closingWords pattern))) := by
  simp [printedWords,printedSections,closingWords,List.flatMap_map,Section.words]

theorem closedOpening : Closed u ("\n" ++ indent ++ "evidence \x7b\n") [.kwEvidence,.lBrace] := by
  intro cs
  have keyword : Word u "evidence" .kwEvidence := wordAscii "evidence" (by decide) (by decide)
  have whole := Spells.newline (spellsIndent (Spells.word keyword (by simp) (stopsAt (by simp [separators]))
    (.gap (.lBrace (.lineEnd cs)))))
  simpa using whole

theorem closedClosing {pattern : PatternAst} (named : Named u (closingWords pattern)) :
    Closed u (closingText pattern) (closingWords pattern) := by
  rw [closingWords,Named.cons (by simp),Named.append,Named.append,Named.append] at named
  obtain ⟨groups,orders,conditions,_⟩ := named
  have brace : Closed u (indent ++ "\x7d\n") [.rBrace] := by
    intro cs
    simpa using spellsIndent (.rBrace (.lineEnd cs))
  have sameCall : Closed u (formatOptional formatSameCall pattern.sameCall)
      (pattern.sameCall.toList.flatMap SameCallConstraint.words) :=
    closedOptional fun g mem => closedSameCall (groups.part g (Option.mem_toList.mpr mem))
  have sequence : Closed u (formatOptional formatSequence pattern.sequence)
      (pattern.sequence.toList.flatMap SequenceConstraint.words) :=
    closedOptional fun q mem => closedSequence (orders.part q (Option.mem_toList.mpr mem))
  have constraint : Closed u
      (formatOptional (fun e => indent ++ "constraint: " ++ formatBoolExpr e ++ "\n") pattern.constraint)
      (pattern.constraint.toList.flatMap fun e => (Section.constraint e).words) := by
    refine closedOptional fun e mem => closedConstraint ?_
    have words := conditions.part e (Option.mem_toList.mpr mem)
    rwa [Section.words,Named.cons (by simp),Named.cons (by simp)] at words
  have last : Closed u "\x7d\n" [.rBrace] := fun cs => .rBrace (.lineEnd cs)
  have whole := brace.append (sameCall.append (sequence.append (constraint.append last)))
  unfold closingText
  simpa only [closingWords,String.append_assoc,List.singleton_append] using whole

theorem closedPatternBody {pattern : PatternAst} (named : Named u (printedWords pattern)) :
    Closed u (formatPatternBody pattern) (printedWords pattern) := by
  rw [wordsParts,Named.append,Named.append,Named.append,Named.append] at named
  obtain ⟨head,entries,_,decls,closing⟩ := named
  have header := closedHead pattern.version.value (head pattern.id.value (by simp [headWords]))
  have metadata := closedJoin fun m mem => closedMetadataEntry (entries.part m mem)
  have evidence := closedJoin fun d mem => closedEvidenceDecl (decls.part d mem)
  rw [bodyParts,wordsParts]
  exact header.append (metadata.append (closedOpening.append (evidence.append (closedClosing closing))))

theorem metadataLiterals (m : MetadataEntry) : literals m.words = metadataTexts m.value := by
  cases value : m.value <;> simp [MetadataEntry.words,MetadataValue.words,metadataTexts,value,SpannedString.word,
    SpannedString.quoted,listWords,literalsComma,← List.map_eq_flatMap]

theorem declLiterals (d : EvidenceDecl) :
    literals d.words = d.predicate.attributes.flatMap fun a => attrTexts a.value := by
  have attr (a : PredicateAttr) : literals a.words = attrTexts a.value := by
    cases value : a.value <;> simp [PredicateAttr.words,Ast.AttrValue.words,attrTexts,value,SpannedString.word,
      SpannedString.quoted]
  cases keyword : d.requiredness <;> simp [EvidenceDecl.words,EvidenceDecl.keyword,keyword,Predicate.words,
    SpannedString.word,literalsComma,attr]

theorem exprLiterals (e : BoolExpr) : literals e.words = [] := by
  induction e with
  | evidenceRef name => rfl
  | and items span ih => simpa [BoolExpr.words,literalsComma] using ih
  | or items span ih => simpa [BoolExpr.words,literalsComma] using ih
  | not inner span ih => simpa [BoolExpr.words] using ih

theorem closingLiterals (pattern : PatternAst) : literals (closingWords pattern) = [] := by
  have names (items : List SpannedString) : literals (listWords (items.map SpannedString.word)) = [] := by
    simp [listWords,literalsComma,SpannedString.word]
  have sameCall (g : SameCallConstraint) : literals g.words = [] := by simp [SameCallConstraint.words,names]
  have sequence (q : SequenceConstraint) : literals q.words = [] := by
    cases within : q.withinSeconds <;> simp [SequenceConstraint.words,SequenceConstraint.window,within,names]
  simp [closingWords,literalsParts,sameCall,sequence,Section.words,exprLiterals]

theorem printedLiterals (pattern : PatternAst) : literals (printedWords pattern) = texts pattern := by
  simp [wordsParts,headWords,literalsParts,closingLiterals,metadataLiterals,declLiterals,texts]

end

theorem printedTree (pattern : PatternAst) :
    ((printedSections pattern).foldl Sections.store .empty).tree pattern.id pattern.version pattern.span = pattern := by
  have metadata (ms : List MetadataEntry) (s : Sections) :
      (ms.map Section.metadata).foldl Sections.store s = { s with metadata := s.metadata ++ ms } := by
    induction ms generalizing s with
    | nil => simp
    | cons m ms ih => simp [ih,Sections.store]
  obtain ⟨id,version,entries,evidence,constraint,sequence,sameCall,span⟩ := pattern
  cases constraint <;> cases sequence <;> cases sameCall <;>
    simp [printedSections,metadata,Sections.store,Sections.empty,Sections.tree]

theorem printedStored {s : Sections} {id : SpannedString} {version : SpannedInt} {span : Span} {x y : Section}
    (mem : y ∈ printedSections ((s.store x).tree id version span)) :
    y ∈ printedSections (s.tree id version span) ∨ y = x := by
  cases x <;> simp [printedSections,Sections.tree,Sections.store] at mem ⊢ <;> grind

theorem printedRead {s : Sections} {id : SpannedString} {version : SpannedInt} {span : Span} {body : List Section}
    {y : Section} (mem : y ∈ printedSections ((body.foldl Sections.store s).tree id version span)) :
    y ∈ printedSections (s.tree id version span) ∨ y ∈ body := by
  induction body generalizing s with
  | nil => exact .inl mem
  | cons x body ih =>
    rcases ih mem with before | later
    · rcases printedStored before with old | rfl
      · exact .inl old
      · exact .inr List.mem_cons_self
    · exact .inr (List.mem_cons_of_mem _ later)

end RootCause.Cli
