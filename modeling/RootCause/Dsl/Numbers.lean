import RootCause.Dsl.Expects

/-! Numbers in the front end. The lexer and the attributes keep 64 signed bits; the version
and the time window are narrowed to 32 unsigned ones, the first with a panic and the second
without a word. -/
namespace RootCause.Dsl
open Library Ast

def written (negative : Bool) (digits : List Char) : Int :=
  if negative then -(Nat.ofDigitChars 10 digits 0 : Int) else Nat.ofDigitChars 10 digits 0

theorem inRangeExact {z : Int} {value : Int64} :
    (if Int64.minValue.toInt ≤ z ∧ z ≤ Int64.maxValue.toInt then some (Int64.ofInt z) else none) =
      some value ↔ value.toInt = z := by
  split
  · rename_i fits
    rw [Option.some.injEq,← Int64.toInt_inj,Int64.toInt_ofInt_of_le]
    · exact eq_comm
    · exact fits.1
    · exact Int.lt_of_le_of_lt fits.2 (by decide)
  · rename_i outside
    simp only [reduceCtorEq,false_iff]
    intro same
    rw [← same] at outside
    exact outside ⟨value.minValue_le_toInt,value.toInt_le⟩

theorem parseI64Exact {negative : Bool} {digits : List Char} {value : Int64} :
    Lexer.parseI64 negative digits = some value ↔ value.toInt = written negative digits := by
  have magnitude : digits.foldl (fun n c => 10 * n + (c.toNat - '0'.toNat)) 0 =
      Nat.ofDigitChars 10 digits 0 := Nat.ofDigitChars_eq_foldl.symm
  unfold Lexer.parseI64
  rw [magnitude]
  exact inRangeExact

theorem u32OfI64Exact {n : Int64} {m : UInt32} : u32OfI64 n = some m ↔ n.toInt = m.toNat := by
  have below := m.toNat_lt
  unfold u32OfI64
  split
  · rename_i fits
    rw [Option.some.injEq,← UInt32.toNat_inj,UInt32.toNat_ofNat_of_lt']
    · omega
    · omega
  · rename_i outside
    simp only [reduceCtorEq,false_iff]
    intro same
    apply outside
    have bound : (m.toNat : Int) < UInt32.size := by exact_mod_cast below
    omega

theorem narrowedIff {n : Int64} (positive : 1 ≤ n.toInt) {z : Int} :
    (u32OfI64 n).map (fun m => (m.toNat : Int)) = some z ↔ n.toInt = z ∧ z < UInt32.size := by
  simp only [Option.map_eq_some_iff,u32OfI64Exact]
  constructor
  · rintro ⟨m,same,rfl⟩
    exact ⟨same,by exact_mod_cast m.toNat_lt⟩
  · rintro ⟨rfl,below⟩
    refine ⟨UInt32.ofNat n.toInt.toNat,?_,?_⟩
    all_goals
      rw [UInt32.toNat_ofNat_of_lt' (by omega)]
      omega

theorem u32OfI64Fits {n : Int64} (positive : 1 ≤ n.toInt) :
    (∃ m, u32OfI64 n = some m) ↔ n.toInt < UInt32.size := by
  unfold u32OfI64
  split
  · rename_i fits
    exact ⟨fun _ => fits.2,fun _ => ⟨_,rfl⟩⟩
  · rename_i outside
    simp only [reduceCtorEq,exists_false,false_iff]
    omega

def CompiledPredicate.integers (p : CompiledPredicate) : List (String × Int) :=
  p.attributes.filterMap fun a => match a.value with
    | .int n => some (a.name,n.toInt)
    | _ => none

def Ast.Predicate.integers (p : Predicate) : List (String × Int) :=
  p.attributes.filterMap fun a => match a.value with
    | .int n => some (a.name.value,n.value.toInt)
    | _ => none

section
variable {ast : PatternAst}

theorem attrIntegers (d : EvidenceDecl) : (compileEvidence d).predicate.integers = d.predicate.integers := by
  simp only [CompiledPredicate.integers,compileEvidence,List.filterMap_map,Predicate.integers]
  refine List.filterMap_congr fun a _ => ?_
  cases shape : a.value <;> simp [compileAttr,shape]

theorem windowPositive (clean : (validate ast).hasErrors = false) {seq : SequenceConstraint}
    (given : ast.sequence = some seq) {w : SpannedInt} (bound : seq.withinSeconds = some w) :
    1 ≤ w.value.toInt := by
  simp only [validate,validateSequence,given,bound,Diagnostics.hasErrorsAppend,
    Bool.or_eq_false_iff] at clean
  have window := clean.1.2.2
  split at window
  · simp at window
  · omega

end

/- The front end on the characters of a literal, which are evaluated as they stand. -/
def parseChars (u : UnicodeClasses) (cs : List Char) : Option (Except (Failure Diagnostics) PatternAst) := do
  match ← Lexer.run u (cs.length + 1) ⟨cs,0,[]⟩ with
  | .error d => some (.error (.error [d]))
  | .ok tokens => parseTokens tokens

theorem parseList {u : UnicodeClasses} {cs : List Char} : parse u (String.ofList cs) = parseChars u cs := calc
  parse u (String.ofList cs) = parseChars u (String.ofList cs).toList := rfl
  _ = parseChars u cs := by rw [String.toList_ofList]

def parsedOf (source : String) : Option PatternAst := (parse .ascii source).bind Except.toOption

theorem parsedOfOk {source : String} {ast : PatternAst} (found : ast ∈ parsedOf source) :
    parse .ascii source = some (.ok ast) := by
  obtain ⟨parsed,result,ok⟩ := Option.bind_eq_some_iff.mp found
  rw [toOptionOk] at ok
  rw [result,ok]

end RootCause.Dsl
