import RootCause.Dsl.Compile
import RootCause.Dsl.Layout

/-! Diagnostics as the tool prints them. The line and the column of a span are counted in
characters up to its first byte. -/
namespace RootCause.Dsl

def lineColFrom (start : UInt32) : Nat → UInt32 × UInt32 → List Char → UInt32 × UInt32
  | _, place, [] => place
  | offset, place, c :: rest =>
    if start ≤ UInt32.ofNat offset then place
    else if c = '\n' then lineColFrom start (offset + c.utf8Size) (place.1 + 1,1) rest
    else lineColFrom start (offset + c.utf8Size) (place.1,place.2 + 1) rest

def Span.lineCol (span : Span) (source : String) : UInt32 × UInt32 :=
  lineColFrom span.start 0 (1,1) source.toList

def DiagnosticSeverity.display : DiagnosticSeverity → String
  | .error => "error"
  | .warning => "warning"

def Diagnostic.render (d : Diagnostic) (source : String) : String :=
  let place := d.location.lineCol source
  d.severity.display ++ ": " ++ d.offendingConstruct ++ " at " ++ toString place.1.toNat ++ ":" ++
    toString place.2.toNat ++ " (" ++ d.location.display ++ "): " ++ d.reason ++
    match d.suggestion with
    | some suggestion => "\n  suggestion: " ++ suggestion
    | none => ""

def DslError.display : DslError → String
  | .parse diags => "pattern failed to parse (" ++ toString diags.length ++ " diagnostic(s))"
  | .validation diags => "pattern failed validation (" ++ toString diags.length ++ " diagnostic(s))"

def DslError.render (e : DslError) (source : String) : String :=
  match e with
  | .parse diags | .validation diags => "\n".intercalate (diags.map fun d => d.render source)

def lineAfter (before : List Char) : Nat := before.count '\n' + 1

def columnAfter (before : List Char) : Nat := (before.reverse.takeWhile fun c => c ≠ '\n').length + 1

theorem lineAfterSnoc (before : List Char) (c : Char) :
    lineAfter (before ++ [c]) = if c = '\n' then lineAfter before + 1 else lineAfter before := by
  by_cases newline : c = '\n' <;> simp [lineAfter,newline]

theorem columnAfterSnoc (before : List Char) (c : Char) :
    columnAfter (before ++ [c]) = if c = '\n' then 1 else columnAfter before + 1 := by
  by_cases newline : c = '\n' <;> simp [columnAfter,newline]

theorem lengthBytes (cs : List Char) : cs.length ≤ utf8Length cs := by
  induction cs with
  | nil => exact Nat.le_refl _
  | cons c cs ih =>
    rw [utf8LengthCons,List.length_cons]
    have positive : 0 < c.utf8Size := c.utf8Size_pos
    omega

theorem placeBound (before : List Char) :
    lineAfter before ≤ before.length + 1 ∧ columnAfter before ≤ before.length + 1 := by
  refine ⟨Nat.succ_le_succ List.count_le_length,Nat.succ_le_succ ?_⟩
  exact Nat.le_trans (List.takeWhile_prefix _).length_le (Nat.le_of_eq List.length_reverse)

theorem succNarrow {n : UInt32} {m : Nat} (same : n.toNat = m) (small : m + 1 < UInt32.size) :
    (n + 1).toNat = m + 1 := by
  rw [UInt32.toNat_add,same]
  exact Nat.mod_eq_of_lt small

theorem lineColFromExact {start : UInt32} {past before after : List Char} {place : UInt32 × UInt32}
    (here : start.toNat = utf8Length (past ++ before))
    (counted : place.1.toNat = lineAfter past ∧ place.2.toNat = columnAfter past)
    (small : utf8Length (past ++ before) + 1 < UInt32.size) :
    (lineColFrom start (utf8Length past) place (before ++ after)).1.toNat = lineAfter (past ++ before) ∧
    (lineColFrom start (utf8Length past) place (before ++ after)).2.toNat = columnAfter (past ++ before) := by
  induction before generalizing past place with
  | nil =>
    rw [List.append_nil] at here ⊢
    have stopped : lineColFrom start (utf8Length past) place after = place := by
      cases after with
      | nil => rfl
      | cons c rest =>
        have reached : start ≤ UInt32.ofNat (utf8Length past) := by
          rw [UInt32.le_iff_toNat_le,here,Lexer.narrowed (by rw [List.append_nil] at small; omega)]
        rw [lineColFrom,if_pos reached]
    rw [List.nil_append,stopped]
    exact counted
  | cons c before ih =>
    have shift : past ++ c :: before = (past ++ [c]) ++ before := by simp
    have moved : utf8Length past + c.utf8Size = utf8Length (past ++ [c]) := by
      rw [utf8LengthAppend,utf8LengthCons]
      rfl
    have total : utf8Length (past ++ [c]) ≤ utf8Length (past ++ c :: before) := by
      rw [shift,utf8LengthAppend (past ++ [c])]
      exact Nat.le_add_right _ _
    have positive : 0 < c.utf8Size := c.utf8Size_pos
    -- The offset of `c` lies before the start, which no narrowing of either hides.
    have ahead : ¬ start ≤ UInt32.ofNat (utf8Length past) := by
      rw [UInt32.le_iff_toNat_le,here,Lexer.narrowed (by omega)]
      omega
    have bounds := placeBound past
    have short := lengthBytes past
    have room : past.length + 2 < UInt32.size := by omega
    rw [shift] at here small ⊢
    rw [List.cons_append,lineColFrom,if_neg ahead,moved]
    split
    · rename_i newline
      refine ih here ⟨?_,?_⟩ small
      · rw [lineAfterSnoc,if_pos newline]
        exact succNarrow counted.1 (by omega)
      · rw [columnAfterSnoc,if_pos newline]
        rfl
    · rename_i other
      refine ih here ⟨?_,?_⟩ small
      · rw [lineAfterSnoc,if_neg other]
        exact counted.1
      · rw [columnAfterSnoc,if_neg other]
        exact succNarrow counted.2 (by omega)

theorem lineColExact {span : Span} {source : String} {before after : List Char}
    (split : source.toList = before ++ after) (here : span.start.toNat = utf8Length before)
    (small : utf8Length source.toList + 1 < UInt32.size) :
    (span.lineCol source).1.toNat = lineAfter before ∧ (span.lineCol source).2.toNat = columnAfter before := by
  have within : utf8Length ([] ++ before) + 1 < UInt32.size := by
    rw [split,utf8LengthAppend] at small
    rw [List.nil_append]
    omega
  have exact := @lineColFromExact span.start [] before after (1,1) here ⟨rfl,rfl⟩ within
  rw [Span.lineCol,split]
  exact exact

end RootCause.Dsl
