import RootCause.Dsl.Diagnostics

/-! The syntax tree with its spans. -/
namespace RootCause.Dsl

structure SpannedString where
  value : String
  span : Span
  deriving DecidableEq, Repr

structure SpannedInt where
  value : Int64
  span : Span
  deriving DecidableEq, Repr

structure SpannedBool where
  value : Bool
  span : Span
  deriving DecidableEq, Repr

/- Shared by the tree and the compiled pattern, where the source has two equal
enumerations and converts one into the other. -/
inductive Requiredness where
  | required
  | optional
  deriving DecidableEq, Repr

namespace Ast

inductive MetadataValue where
  | ident (name : SpannedString)
  | str (text : SpannedString)
  | strList (items : List SpannedString)
  deriving DecidableEq, Repr

structure MetadataEntry where
  key : SpannedString
  value : MetadataValue
  span : Span
  deriving DecidableEq, Repr

inductive AttrValue where
  | ident (name : SpannedString)
  | str (text : SpannedString)
  | int (number : SpannedInt)
  | bool (flag : SpannedBool)
  deriving DecidableEq, Repr

def AttrValue.span : AttrValue → Span
  | .ident s | .str s => s.span
  | .int s => s.span
  | .bool s => s.span

structure PredicateAttr where
  name : SpannedString
  value : AttrValue
  span : Span
  deriving DecidableEq, Repr

structure Predicate where
  kind : SpannedString
  attributes : List PredicateAttr
  span : Span
  deriving DecidableEq, Repr

structure EvidenceDecl where
  requiredness : Requiredness
  name : SpannedString
  predicate : Predicate
  span : Span
  deriving DecidableEq, Repr

inductive BoolExpr where
  | evidenceRef (name : SpannedString)
  | and (items : List BoolExpr) (span : Span)
  | or (items : List BoolExpr) (span : Span)
  | not (inner : BoolExpr) (span : Span)
  deriving Repr

structure SequenceConstraint where
  steps : List SpannedString
  withinSeconds : Option SpannedInt
  span : Span
  deriving DecidableEq, Repr

structure SameCallConstraint where
  members : List SpannedString
  span : Span
  deriving DecidableEq, Repr

structure PatternAst where
  id : SpannedString
  version : SpannedInt
  metadata : List MetadataEntry
  evidence : List EvidenceDecl
  constraint : Option BoolExpr
  sequence : Option SequenceConstraint
  sameCall : Option SameCallConstraint
  span : Span
  deriving Repr

@[elab_as_elim, induction_eliminator]
theorem BoolExpr.ind {motive : BoolExpr → Prop} (evidenceRef : ∀ name, motive (.evidenceRef name))
    (and : ∀ items span, (∀ e ∈ items, motive e) → motive (.and items span))
    (or : ∀ items span, (∀ e ∈ items, motive e) → motive (.or items span))
    (not : ∀ inner span, motive inner → motive (.not inner span)) (e : BoolExpr) : motive e :=
  @BoolExpr.rec motive (fun items => ∀ e ∈ items, motive e) evidenceRef and or not
    (by simp) (by intro head tail h t; simpa using ⟨h,t⟩) e

inductive BoolExpr.Full : BoolExpr → Prop where
  | evidenceRef (name) : Full (.evidenceRef name)
  | and {items span} (two : 2 ≤ items.length) (each : ∀ e ∈ items, Full e) : Full (.and items span)
  | or {items span} (two : 2 ≤ items.length) (each : ∀ e ∈ items, Full e) : Full (.or items span)
  | not {inner span} (below : Full inner) : Full (.not inner span)

end Ast
end RootCause.Dsl
