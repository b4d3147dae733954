import RootCause.Dsl.Ast
import RootCause.Dsl.Lexer
import RootCause.Library.Except

/-! The recursive-descent parser. A parser action on a fixed token list may fail
and go on, and it carries the proof that the position and the diagnostics only
grow; the position is always one of the list. -/
namespace RootCause.Dsl
open Ast Library

structure Parser (tokens : List Token) where
  pos : Fin tokens.length
  diagnostics : Diagnostics

namespace Parser
variable {tokens : List Token}

def Grows (p q : Parser tokens) : Prop := p.pos ≤ q.pos ∧ p.diagnostics <+: q.diagnostics

theorem Grows.refl (p : Parser tokens) : p.Grows p := ⟨Nat.le_refl _,List.prefix_refl _⟩

theorem Grows.trans {p q r : Parser tokens} (pq : p.Grows q) (qr : q.Grows r) : p.Grows r :=
  ⟨Nat.le_trans pq.1 qr.1,pq.2.trans qr.2⟩

end Parser

/- What an action leaves behind; `none` is the failure of the source's `Option`. -/
structure Parsed {tokens : List Token} (α : Type) (p : Parser tokens) where
  value : Option α
  parser : Parser tokens
  grows : p.Grows parser

/- The outer `none` means that a loop ran out of fuel. -/
def ParserM (tokens : List Token) (α : Type) : Type := (p : Parser tokens) → Option (Parsed α p)

namespace ParserM
variable {tokens : List Token} {α β σ : Type}

def pure' (a : α) : ParserM tokens α := fun p => some ⟨some a,p,.refl p⟩

def bind' (m : ParserM tokens α) (f : α → ParserM tokens β) : ParserM tokens β := fun p =>
  match m p with
  | none => none
  | some ⟨none,q,pq⟩ => some ⟨none,q,pq⟩
  | some ⟨some a,q,pq⟩ => (f a q).map fun r => ⟨r.value,r.parser,pq.trans r.grows⟩

instance : Monad (ParserM tokens) where
  pure := pure'
  bind := bind'

def fail : ParserM tokens α := fun p => some ⟨none,p,.refl p⟩

def outOfFuel : ParserM tokens α := fun _ => none

def attempt (m : ParserM tokens α) : ParserM tokens (Option α) := fun p =>
  (m p).map fun r => ⟨some r.value,r.parser,r.grows⟩

def peek : ParserM tokens TokenKind := fun p => pure' (tokens.get p.pos).kind p

def peekSpan : ParserM tokens Span := fun p => pure' (tokens.get p.pos).span p

def push (d : Diagnostic) : ParserM tokens Unit := fun p =>
  some ⟨some (),{ p with diagnostics := p.diagnostics ++ [d] },Nat.le_refl _,List.prefix_append _ _⟩

def advance : ParserM tokens Token := fun p =>
  if more : p.pos.val + 1 < tokens.length then
    some ⟨some (tokens.get p.pos),{ p with pos := ⟨p.pos.val + 1,more⟩ },
      Nat.le_succ _,List.prefix_refl _⟩
  else some ⟨some (tokens.get p.pos),p,.refl p⟩

def error (construct reason : String) : ParserM tokens Unit := do
  push (.error (← peekSpan) construct reason)

def iterate (body : σ → ParserM tokens (Bool × σ)) : Nat → σ → ParserM tokens σ
  | 0, _ => outOfFuel
  | fuel + 1, s => do
    let (again,s) ← body s
    if again then iterate body fuel s else pure s

end ParserM

open ParserM

def describe : TokenKind → String
  | .ident name => "identifier `" ++ name ++ "`"
  | .stringLit s => "string literal \"" ++ s ++ "\""
  | .intLit n => "integer literal `" ++ toString n ++ "`"
  | .boolLit b => "boolean literal `" ++ toString b ++ "`"
  | .kwPattern => "keyword `pattern`"
  | .kwVersion => "keyword `version`"
  | .kwEvidence => "keyword `evidence`"
  | .kwRequired => "keyword `required`"
  | .kwOptional => "keyword `optional`"
  | .kwConstraint => "keyword `constraint`"
  | .kwSequence => "keyword `sequence`"
  | .kwWithin => "keyword `within`"
  | .kwSameCall => "keyword `same_call`"
  | .kwAnd => "keyword `AND`"
  | .kwOr => "keyword `OR`"
  | .kwNot => "keyword `NOT`"
  | .lBrace => "`\x7b`"
  | .rBrace => "`\x7d`"
  | .lBracket => "`[`"
  | .rBracket => "`]`"
  | .lParen => "`(`"
  | .rParen => "`)`"
  | .colon => "`:`"
  | .comma => "`,`"
  | .eof => "end of input"

section Parsing
variable {tokens : List Token}

/- The keyword and punctuation kinds carry no data, so that comparing them is the
comparison of discriminants. -/
def expect (kind : TokenKind) (construct : String) : ParserM tokens Token := do
  if (← peek) = kind then advance
  else
    error construct ("expected " ++ describe kind ++ ", found " ++ describe (← peek))
    fail

def expectIdent (construct : String) : ParserM tokens SpannedString := do
  let span ← peekSpan
  match ← peek with
  | .ident name => let _ ← advance; pure ⟨name,span⟩
  | other => error construct ("expected an identifier, found " ++ describe other); fail

def expectString (construct : String) : ParserM tokens SpannedString := do
  let span ← peekSpan
  match ← peek with
  | .stringLit value => let _ ← advance; pure ⟨value,span⟩
  | other => error construct ("expected a string literal, found " ++ describe other); fail

def expectInt (construct : String) : ParserM tokens SpannedInt := do
  let span ← peekSpan
  match ← peek with
  | .intLit value => let _ ← advance; pure ⟨value,span⟩
  | other => error construct ("expected an integer literal, found " ++ describe other); fail

def loopFuel (tokens : List Token) : Nat := tokens.length + 1

def recoverTo (stop : List TokenKind) : ParserM tokens Unit :=
  iterate (fun _ => do
    let kind ← peek
    if kind = .eof ∨ kind ∈ stop then pure (false,())
    else
      let _ ← advance
      pure (true,())) (loopFuel tokens) ()

def readItem {α : Type} (item : ParserM tokens α) (stop : TokenKind) (items : List α) :
    ParserM tokens (List α) := do
  match ← attempt item with
  | some x => pure (items ++ [x])
  | none => do
    recoverTo [.comma,stop]
    pure items

def commaRound {α : Type} (item : ParserM tokens α) (stop : TokenKind) (items : List α) :
    ParserM tokens (Bool × List α) := do
  let items ← readItem item stop items
  if (← peek) = .comma then
    let _ ← advance
    pure (true,items)
  else pure (false,items)

def commaList {α : Type} (item : ParserM tokens α) (stop : TokenKind) : ParserM tokens (List α) :=
  iterate (commaRound item stop) (loopFuel tokens) []

def commaListUnless {α : Type} (item : ParserM tokens α) (stop : TokenKind) :
    ParserM tokens (List α) := do
  if (← peek) = stop then pure [] else commaList item stop

def sectionKeywords : List TokenKind := [.kwEvidence,.kwConstraint,.kwSequence,.kwSameCall,.rBrace]

def parseMetadataValue : ParserM tokens MetadataValue := do
  match ← peek with
  | .lBracket =>
    let _ ← advance
    let items ← commaListUnless (expectString "metadata list item") .rBracket
    let _ ← expect .rBracket "metadata list"
    pure (.strList items)
  | .stringLit _ => pure (.str (← expectString "metadata entry"))
  | .ident _ => pure (.ident (← expectIdent "metadata entry"))
  | other =>
    error "metadata entry"
      ("expected a value (identifier, string, or list), found " ++ describe other)
    recoverTo sectionKeywords
    fail

def parseMetadataEntry : ParserM tokens MetadataEntry := do
  let key ← expectIdent "metadata entry"
  let _ ← expect .colon "metadata entry"
  let value ← parseMetadataValue
  let valueSpan := match value with
    | .ident s | .str s => s.span
    | .strList items => (items.getLast?.map (·.span)).getD key.span
  pure ⟨key,value,key.span.merge valueSpan⟩

def parsePredicateAttr : ParserM tokens PredicateAttr := do
  let name ← expectIdent "predicate attribute"
  let _ ← expect .colon "predicate attribute"
  let value : AttrValue ← match ← peek with
    | .stringLit _ => do pure (AttrValue.str (← expectString "predicate attribute value"))
    | .intLit _ => do pure (AttrValue.int (← expectInt "predicate attribute value"))
    | .boolLit flag => do
      let span ← peekSpan
      let _ ← advance
      pure (AttrValue.bool ⟨flag,span⟩)
    | .ident _ => do pure (AttrValue.ident (← expectIdent "predicate attribute value"))
    | other => do
      error "predicate attribute value"
        ("expected an identifier, string, integer, or boolean, found " ++ describe other)
      fail
  pure ⟨name,value,name.span.merge value.span⟩

def parsePredicate : ParserM tokens Predicate := do
  let kind ← expectIdent "predicate"
  let _ ← expect .lParen "predicate arguments"
  let attributes ← commaListUnless parsePredicateAttr .rParen
  let close ← expect .rParen "predicate arguments"
  pure ⟨kind,attributes,kind.span.merge close.span⟩

def declKeywords : List TokenKind := [.kwRequired,.kwOptional,.rBrace]

def parseEvidenceDecl (requiredness : Requiredness) : ParserM tokens EvidenceDecl := do
  let _ ← advance
  let start ← peekSpan
  let name ← expectIdent "evidence declaration name"
  let _ ← expect .colon "evidence declaration"
  let predicate ← parsePredicate
  pure ⟨requiredness,name,predicate,start.merge predicate.span⟩

def parseEvidenceSection : ParserM tokens (List EvidenceDecl) := do
  let _ ← expect .kwEvidence "evidence section"
  let _ ← expect .lBrace "evidence section"
  let declared := fun (requiredness : Requiredness) (decls : List EvidenceDecl) => do
    match ← attempt (parseEvidenceDecl requiredness) with
    | some decl => pure (true,decls ++ [decl])
    | none =>
      recoverTo declKeywords
      pure (true,decls)
  let decls ← iterate (fun decls => do
    match ← peek with
    | .rBrace | .eof => pure (false,decls)
    | .kwRequired => declared .required decls
    | .kwOptional => declared .optional decls
    | other =>
      error "evidence declaration" ("expected `required` or `optional`, found " ++ describe other)
      recoverTo declKeywords
      pure (true,decls)) (loopFuel tokens) []
  let _ ← expect .rBrace "evidence section"
  pure decls

def operandsDiagnostic (isAnd : Bool) (span : Span) : Diagnostic :=
  (Diagnostic.error span (if isAnd then "AND expression" else "OR expression")
    "requires at least two sub-expressions").withSuggestion
      "add another operand, or replace with the single operand directly"

def requireTwo (isAnd : Bool) (span : Span) (items : List BoolExpr) : ParserM tokens Unit :=
  if items.length < 2 then push (operandsDiagnostic isAnd span) else pure ()

def parseBoolExpr : Nat → ParserM tokens BoolExpr
  | 0 => outOfFuel
  | depth + 1 => do
    let kind ← peek
    match kind with
    | .kwAnd | .kwOr =>
      let start ← peekSpan
      let _ ← advance
      let _ ← expect .lParen "boolean expression"
      let items ← commaList (parseBoolExpr depth) .rParen
      let close ← expect .rParen "boolean expression"
      let span := start.merge close.span
      requireTwo (kind = .kwAnd) span items
      pure (if kind = .kwAnd then .and items span else .or items span)
    | .kwNot =>
      let start ← peekSpan
      let _ ← advance
      let _ ← expect .lParen "NOT expression"
      let inner ← attempt (parseBoolExpr depth)
      let close ← expect .rParen "NOT expression"
      match inner with
      | some inner => pure (.not inner (start.merge close.span))
      | none => fail
    | .ident _ => pure (.evidenceRef (← expectIdent "evidence reference"))
    | other =>
      error "boolean expression"
        ("expected `AND(...)`, `OR(...)`, `NOT(...)`, or an evidence name, found " ++ describe other)
      fail

def parseSequenceSection : ParserM tokens SequenceConstraint := do
  let start ← peekSpan
  let _ ← expect .kwSequence "sequence section"
  let _ ← expect .colon "sequence section"
  let _ ← expect .lBracket "sequence section"
  let steps ← commaListUnless (expectIdent "sequence step") .rBracket
  let close ← expect .rBracket "sequence section"
  let span := start.merge close.span
  if (← peek) = .kwWithin then
    let _ ← advance
    let _ ← expect .colon "sequence `within` clause"
    let value ← expectInt "sequence `within` clause"
    pure ⟨steps,some value,span.merge value.span⟩
  else pure ⟨steps,none,span⟩

def parseSameCallSection : ParserM tokens SameCallConstraint := do
  let start ← peekSpan
  let _ ← expect .kwSameCall "same_call section"
  let _ ← expect .colon "same_call section"
  let _ ← expect .lBracket "same_call section"
  let members ← commaListUnless (expectIdent "same_call member") .rBracket
  let close ← expect .rBracket "same_call section"
  pure ⟨members,start.merge close.span⟩

/- The sections read so far; a later section replaces an earlier one. -/
structure Sections where
  metadata : List MetadataEntry
  evidence : List EvidenceDecl
  constraint : Option BoolExpr
  sequence : Option SequenceConstraint
  sameCall : Option SameCallConstraint

def parseConstraintSection : ParserM tokens BoolExpr := do
  let _ ← advance
  let _ ← expect .colon "constraint section"
  parseBoolExpr (loopFuel tokens)

def storeSection {α : Type} (s : Sections) (m : ParserM tokens α) (store : α → Sections) :
    ParserM tokens (Bool × Sections) := do
  match ← attempt m with
  | some a => pure (true,store a)
  | none => pure (true,s)

def parseSection (s : Sections) : ParserM tokens (Bool × Sections) := do
  match ← peek with
  | .rBrace | .eof => pure (false,s)
  | .kwEvidence => storeSection s parseEvidenceSection fun decls => { s with evidence := decls }
  | .kwConstraint => storeSection s parseConstraintSection fun expr => { s with constraint := some expr }
  | .kwSequence => storeSection s parseSequenceSection fun seq => { s with sequence := some seq }
  | .kwSameCall => storeSection s parseSameCallSection fun sc => { s with sameCall := some sc }
  | .ident _ => storeSection s parseMetadataEntry fun entry =>
      { s with metadata := s.metadata ++ [entry] }
  | other =>
    error "pattern body" ("unexpected " ++ describe other ++ " inside pattern body")
    recoverTo sectionKeywords
    pure (true,s)

def spanOrPeek : Option Token → ParserM tokens Span
  | some t => pure t.span
  | none => peekSpan

def parsePattern : ParserM tokens PatternAst := do
  let start ← peekSpan
  let _ ← expect .kwPattern "pattern declaration"
  let id ← expectIdent "pattern id"
  let _ ← expect .kwVersion "pattern declaration"
  let version ← expectInt "pattern version"
  let _ ← expect .lBrace "pattern body"
  let s ← iterate parseSection (loopFuel tokens) ⟨[],[],none,none,none⟩
  let endTok ← attempt (expect .rBrace "pattern body")
  let endSpan ← spanOrPeek endTok
  pure ⟨id,version,s.metadata,s.evidence,s.constraint,s.sequence,s.sameCall,start.merge endSpan⟩

end Parsing

def parseTokens (tokens : List Token) : Option (Except (Failure Diagnostics) PatternAst) :=
  if some : 0 < tokens.length then
    let start : Parser tokens := ⟨⟨0,some⟩,[]⟩
    (parsePattern start).map fun parsed =>
      match parsed.value with
      | .some pattern =>
        if parsed.parser.diagnostics.hasErrors then .error (.error (reported parsed.parser.diagnostics))
        else .ok pattern
      | .none => .error (.error (reported parsed.parser.diagnostics))
  else .some (.error (.panicked "index out of bounds"))
where
  reported (diags : Diagnostics) : Diagnostics :=
    if diags.isEmpty then
      [.error .startOfFile "pattern file" "failed to parse pattern for an unknown reason"]
    else diags

def parse (u : UnicodeClasses) (source : String) :
    Option (Except (Failure Diagnostics) PatternAst) := do
  match ← tokenize u source with
  | .error d => some (.error (.error [d]))
  | .ok tokens => parseTokens tokens

end RootCause.Dsl
