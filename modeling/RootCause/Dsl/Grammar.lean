import RootCause.Dsl.Parser

/-! The grammar of the pattern language: the token kinds of each part of a tree, and
the tree without its spans. A body is a list of sections, in any order and number. -/
namespace RootCause.Dsl
open Ast

def commaWords : List (List TokenKind) → List TokenKind
  | [] => []
  | w :: rest => w ++ rest.flatMap (.comma :: ·)

def listWords (items : List (List TokenKind)) : List TokenKind :=
  .lBracket :: commaWords items ++ [.rBracket]

theorem commaWordsLast {ws : List (List TokenKind)} {w : List TokenKind} :
    ws.flatMap (· ++ [.comma]) ++ w = commaWords (ws ++ [w]) := by
  induction ws with
  | nil => simp [commaWords]
  | cons v ws ih =>
    rw [List.flatMap_cons,List.append_assoc,ih]
    cases ws <;> simp [commaWords]

theorem commaWordsLength (ws : List (List TokenKind)) : ws.length ≤ (commaWords ws).length + 1 := by
  have commas (vs : List (List TokenKind)) : vs.length ≤ (vs.flatMap (.comma :: ·)).length := by
    induction vs with
    | nil => simp
    | cons v vs ih =>
      rw [List.flatMap_cons,List.length_append,List.length_cons,List.length_cons]
      omega
  cases ws with
  | nil => simp
  | cons w ws =>
    have rest := commas ws
    rw [commaWords,List.length_append,List.length_cons]
    omega

theorem commaWordsMem {ws : List (List TokenKind)} {w : List TokenKind} (mem : w ∈ ws) :
    w.length ≤ (commaWords ws).length := by
  cases ws with
  | nil => simp at mem
  | cons v ws =>
    rw [commaWords,List.length_append]
    rcases List.mem_cons.mp mem with rfl | later
    · omega
    · have short := (List.sublist_flatten_of_mem (List.mem_map_of_mem (f := (.comma :: ·)) later)).length_le
      rw [← List.flatMap_def] at short
      rw [List.length_cons] at short
      omega

theorem commaWordsOf {ws : List (List TokenKind)} {w : List TokenKind} {kind : TokenKind} (mem : w ∈ ws)
    (inside : kind ∈ w) : kind ∈ commaWords ws := by
  cases ws with
  | nil => simp at mem
  | cons v ws =>
    rcases List.mem_cons.mp mem with rfl | later
    · exact List.mem_append_left _ inside
    · exact List.mem_append_right _ (List.mem_flatMap.mpr ⟨w,later,List.mem_cons_of_mem _ inside⟩)

def literals (kinds : List TokenKind) : List String :=
  kinds.flatMap fun
    | .stringLit s => [s]
    | _ => []

section
variable {kinds more : List TokenKind}

@[simp] theorem literalsNil : literals [] = [] := rfl
@[simp] theorem literalsText {s : String} : literals (.stringLit s :: kinds) = s :: literals kinds := rfl
@[simp] theorem literalsAppend : literals (kinds ++ more) = literals kinds ++ literals more := List.flatMap_append

@[simp] theorem literalsOther {kind : TokenKind} (other : ∀ s, kind ≠ .stringLit s) :
    literals (kind :: kinds) = literals kinds := by
  cases kind <;> simp_all [literals]

theorem memLiterals {s : String} : s ∈ literals kinds ↔ .stringLit s ∈ kinds := by
  induction kinds with
  | nil => simp
  | cons kind kinds ih => cases kind <;> simp_all [literals]

theorem literalsParts {α : Type} {xs : List α} {words : α → List TokenKind} :
    literals (xs.flatMap words) = xs.flatMap fun x => literals (words x) := List.flatMap_assoc

theorem literalsComma {α : Type} {xs : List α} {words : α → List TokenKind} :
    literals (commaWords (xs.map words)) = xs.flatMap fun x => literals (words x) := by
  cases xs with
  | nil => rfl
  | cons x xs =>
    rw [List.map_cons,commaWords,literalsAppend,List.flatMap_map,literalsParts,List.flatMap_cons]
    rfl

end

theorem commaWordsAll {P : TokenKind → Prop} {ws : List (List TokenKind)} (comma : P .comma)
    (each : ∀ w ∈ ws, ∀ kind ∈ w, P kind) : ∀ kind ∈ commaWords ws, P kind := by
  cases ws with
  | nil => simp [commaWords]
  | cons w ws =>
    simp only [commaWords,List.forall_mem_append,List.mem_flatMap,List.mem_cons] at each ⊢
    refine ⟨each w (.inl rfl),fun kind mem => ?_⟩
    obtain ⟨v,inside,here | later⟩ := mem
    · exact here ▸ comma
    · exact each v (.inr inside) kind later

def SpannedString.bare (s : SpannedString) : SpannedString := ⟨s.value,.startOfFile⟩
def SpannedInt.bare (n : SpannedInt) : SpannedInt := ⟨n.value,.startOfFile⟩
def SpannedBool.bare (b : SpannedBool) : SpannedBool := ⟨b.value,.startOfFile⟩

def SpannedString.word (s : SpannedString) : List TokenKind := [.ident s.value]
def SpannedString.quoted (s : SpannedString) : List TokenKind := [.stringLit s.value]

namespace Ast

namespace MetadataValue

def bare : MetadataValue → MetadataValue
  | .ident name => .ident name.bare
  | .str text => .str text.bare
  | .strList items => .strList (items.map SpannedString.bare)

def words : MetadataValue → List TokenKind
  | .ident name => name.word
  | .str text => text.quoted
  | .strList items => listWords (items.map SpannedString.quoted)

end MetadataValue

namespace MetadataEntry
def bare (m : MetadataEntry) : MetadataEntry := ⟨m.key.bare,m.value.bare,.startOfFile⟩
def words (m : MetadataEntry) : List TokenKind := m.key.word ++ .colon :: m.value.words
end MetadataEntry

namespace AttrValue

def bare : AttrValue → AttrValue
  | .ident name => .ident name.bare
  | .str text => .str text.bare
  | .int number => .int number.bare
  | .bool flag => .bool flag.bare

def words : AttrValue → List TokenKind
  | .ident name => name.word
  | .str text => text.quoted
  | .int number => [.intLit number.value]
  | .bool flag => [.boolLit flag.value]

end AttrValue

namespace PredicateAttr
def bare (a : PredicateAttr) : PredicateAttr := ⟨a.name.bare,a.value.bare,.startOfFile⟩
def words (a : PredicateAttr) : List TokenKind := a.name.word ++ .colon :: a.value.words
end PredicateAttr

namespace Predicate
def bare (p : Predicate) : Predicate := ⟨p.kind.bare,p.attributes.map PredicateAttr.bare,.startOfFile⟩
def words (p : Predicate) : List TokenKind :=
  p.kind.word ++ .lParen :: commaWords (p.attributes.map PredicateAttr.words) ++ [.rParen]
end Predicate

namespace EvidenceDecl

def bare (d : EvidenceDecl) : EvidenceDecl :=
  ⟨d.requiredness,d.name.bare,d.predicate.bare,.startOfFile⟩

def keyword : Requiredness → TokenKind
  | .required => .kwRequired
  | .optional => .kwOptional

def words (d : EvidenceDecl) : List TokenKind :=
  keyword d.requiredness :: d.name.word ++ .colon :: d.predicate.words

end EvidenceDecl

namespace BoolExpr

mutual
def bare : BoolExpr → BoolExpr
  | .evidenceRef name => .evidenceRef name.bare
  | .and items _ => .and (bareAll items) .startOfFile
  | .or items _ => .or (bareAll items) .startOfFile
  | .not inner _ => .not inner.bare .startOfFile
def bareAll : List BoolExpr → List BoolExpr
  | [] => []
  | item :: rest => item.bare :: bareAll rest
end

mutual
def words : BoolExpr → List TokenKind
  | .evidenceRef name => name.word
  | .and items _ => .kwAnd :: .lParen :: commaWords (wordsAll items) ++ [.rParen]
  | .or items _ => .kwOr :: .lParen :: commaWords (wordsAll items) ++ [.rParen]
  | .not inner _ => .kwNot :: .lParen :: inner.words ++ [.rParen]
def wordsAll : List BoolExpr → List (List TokenKind)
  | [] => []
  | item :: rest => item.words :: wordsAll rest
end

@[simp] theorem bareAllEq {items : List BoolExpr} : bareAll items = items.map bare := by
  induction items with
  | nil => rfl
  | cons item rest ih => rw [bareAll,ih,List.map_cons]

@[simp] theorem wordsAllEq {items : List BoolExpr} : wordsAll items = items.map words := by
  induction items with
  | nil => rfl
  | cons item rest ih => rw [wordsAll,ih,List.map_cons]

end BoolExpr

namespace SequenceConstraint

def bare (s : SequenceConstraint) : SequenceConstraint :=
  ⟨s.steps.map SpannedString.bare,s.withinSeconds.map SpannedInt.bare,.startOfFile⟩

def window : Option SpannedInt → List TokenKind
  | none => []
  | some within => [.kwWithin,.colon,.intLit within.value]

def words (s : SequenceConstraint) : List TokenKind :=
  .kwSequence :: .colon :: listWords (s.steps.map SpannedString.word) ++ window s.withinSeconds

end SequenceConstraint

namespace SameCallConstraint
def bare (s : SameCallConstraint) : SameCallConstraint := ⟨s.members.map SpannedString.bare,.startOfFile⟩
def words (s : SameCallConstraint) : List TokenKind :=
  .kwSameCall :: .colon :: listWords (s.members.map SpannedString.word)
end SameCallConstraint

def PatternAst.bare (p : PatternAst) : PatternAst :=
  ⟨p.id.bare,p.version.bare,p.metadata.map MetadataEntry.bare,p.evidence.map EvidenceDecl.bare,
    p.constraint.map BoolExpr.bare,p.sequence.map SequenceConstraint.bare,
    p.sameCall.map SameCallConstraint.bare,.startOfFile⟩

end Ast

inductive Section where
  | metadata (entry : MetadataEntry)
  | evidence (decls : List EvidenceDecl)
  | constraint (expr : BoolExpr)
  | sequence (seq : SequenceConstraint)
  | sameCall (group : SameCallConstraint)

namespace Section

def bare : Section → Section
  | .metadata entry => .metadata entry.bare
  | .evidence decls => .evidence (decls.map EvidenceDecl.bare)
  | .constraint expr => .constraint expr.bare
  | .sequence seq => .sequence seq.bare
  | .sameCall group => .sameCall group.bare

def words : Section → List TokenKind
  | .metadata entry => entry.words
  | .evidence decls => .kwEvidence :: .lBrace :: decls.flatMap EvidenceDecl.words ++ [.rBrace]
  | .constraint expr => .kwConstraint :: .colon :: expr.words
  | .sequence seq => seq.words
  | .sameCall group => group.words

def Full : Section → Prop
  | .constraint expr => expr.Full
  | _ => True

theorem opens (x : Section) : ∃ kind rest, x.words = kind :: rest ∧ kind ≠ .kwWithin := by
  cases x <;> exact ⟨_,_,rfl,by simp⟩

end Section

namespace Sections

def empty : Sections := ⟨[],[],none,none,none⟩

def bare (s : Sections) : Sections :=
  ⟨s.metadata.map MetadataEntry.bare,s.evidence.map EvidenceDecl.bare,s.constraint.map BoolExpr.bare,
    s.sequence.map SequenceConstraint.bare,s.sameCall.map SameCallConstraint.bare⟩

def store (s : Sections) : Section → Sections
  | .metadata entry => { s with metadata := s.metadata ++ [entry] }
  | .evidence decls => { s with evidence := decls }
  | .constraint expr => { s with constraint := some expr }
  | .sequence seq => { s with sequence := some seq }
  | .sameCall group => { s with sameCall := some group }

def tree (s : Sections) (id : SpannedString) (version : SpannedInt) (span : Span) : PatternAst :=
  ⟨id,version,s.metadata,s.evidence,s.constraint,s.sequence,s.sameCall,span⟩

end Sections

def headWords (id : String) (version : Int64) : List TokenKind :=
  [.kwPattern,.ident id,.kwVersion,.intLit version,.lBrace]

def treeOf (id : String) (version : Int64) (body : List Section) : PatternAst :=
  ((body.foldl Sections.store .empty).tree ⟨id,.startOfFile⟩ ⟨version,.startOfFile⟩ .startOfFile).bare

/- The token kinds of a source, read as one pattern with the sections `body` and with
`more` after its closing brace. -/
structure Reading (kinds : List TokenKind) (id : String) (version : Int64) (body : List Section)
    (more : List TokenKind) : Prop where
  spelled : kinds = headWords id version ++ body.flatMap Section.words ++ .rBrace :: more
  full : ∀ s ∈ body, s.Full

theorem storeBare {s : Sections} {x : Section} : (s.store x).bare = s.bare.store x.bare := by
  cases x <;> simp [Sections.store,Sections.bare,Section.bare]

theorem foldBare {s : Sections} {body : List Section} :
    (body.foldl Sections.store s).bare = (body.map Section.bare).foldl Sections.store s.bare := by
  induction body generalizing s with
  | nil => rfl
  | cons x body ih => rw [List.foldl_cons,ih,storeBare,List.map_cons,List.foldl_cons]

theorem treeBare {s : Sections} {id : SpannedString} {version : SpannedInt} {span : Span} :
    (s.tree id version span).bare = s.bare.tree id.bare version.bare .startOfFile := rfl

theorem treeOfBare {id : SpannedString} {version : SpannedInt} {span : Span} {xs ys : List Section}
    (same : xs.map Section.bare = ys.map Section.bare) :
    ((xs.foldl Sections.store .empty).tree id version span).bare = treeOf id.value version.value ys := by
  rw [treeOf,treeBare,treeBare,foldBare,foldBare,same]
  rfl

end RootCause.Dsl
