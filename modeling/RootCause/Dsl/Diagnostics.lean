import Mathlib.Data.List.Basic

/-! Source spans and diagnostics of the pattern language. -/
namespace RootCause.Dsl

/- A half-open byte range of the source; offsets are narrowed to `u32`. -/
structure Span where
  start : UInt32
  stop : UInt32
  deriving DecidableEq, Repr

namespace Span
def startOfFile : Span := ⟨0,0⟩
def merge (s t : Span) : Span := ⟨min s.start t.start,max s.stop t.stop⟩
/- `start as u32`: the narrowing of a byte offset wraps. -/
def ofOffsets (start stop : Nat) : Span := ⟨UInt32.ofNat start,UInt32.ofNat stop⟩
def display (s : Span) : String := toString s.start.toNat ++ ".." ++ toString s.stop.toNat
end Span

inductive DiagnosticSeverity where
  | error
  | warning
  deriving DecidableEq, Repr

structure Diagnostic where
  severity : DiagnosticSeverity
  location : Span
  offendingConstruct : String
  reason : String
  suggestion : Option String
  deriving DecidableEq, Repr

namespace Diagnostic
def error (location : Span) (offendingConstruct reason : String) : Diagnostic :=
  ⟨.error,location,offendingConstruct,reason,none⟩
def warning (location : Span) (offendingConstruct reason : String) : Diagnostic :=
  ⟨.warning,location,offendingConstruct,reason,none⟩
def withSuggestion (d : Diagnostic) (suggestion : String) : Diagnostic :=
  { d with suggestion := some suggestion }
end Diagnostic

abbrev Diagnostics := List Diagnostic

namespace Diagnostics
def hasErrors (diags : Diagnostics) : Bool := diags.any fun d => d.severity == .error

@[simp] theorem hasErrorsNil : hasErrors [] = false := rfl
@[simp] theorem hasErrorsAppend (xs ys : Diagnostics) :
    hasErrors (xs ++ ys) = (hasErrors xs || hasErrors ys) := by simp [hasErrors]
@[simp] theorem hasErrorsError (location : Span) (construct reason : String) :
    hasErrors [.error location construct reason] = true := rfl
@[simp] theorem hasErrorsSuggested (location : Span) (construct reason suggestion : String) :
    hasErrors [(Diagnostic.error location construct reason).withSuggestion suggestion] = true := rfl
@[simp] theorem hasErrorsWarning (location : Span) (construct reason : String) :
    hasErrors [.warning location construct reason] = false := rfl
@[simp] theorem hasErrorsWarned (location : Span) (construct reason suggestion : String) :
    hasErrors [(Diagnostic.warning location construct reason).withSuggestion suggestion] = false :=
  rfl

theorem cleanFlatMap {α : Type} {xs : List α} {f : α → Diagnostics} :
    hasErrors (xs.flatMap f) = false ↔ ∀ x ∈ xs, hasErrors (f x) = false := by
  induction xs with
  | nil => simp
  | cons x xs ih => rw [List.flatMap_cons,hasErrorsAppend,Bool.or_eq_false_iff,ih,List.forall_mem_cons]

theorem cleanPrefix {xs ys : Diagnostics} (grew : xs <+: ys) (clean : hasErrors ys = false) :
    hasErrors xs = false := by
  obtain ⟨more,rfl⟩ := grew
  simp only [hasErrorsAppend,Bool.or_eq_false_iff] at clean
  exact clean.1

end Diagnostics
end RootCause.Dsl
