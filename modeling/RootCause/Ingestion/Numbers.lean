import Mathlib.Data.Nat.Digits.Defs
import RootCause.Ingestion.Decoders

/-! The numbers of a trace. The grammar is an optional `0x` and at least one digit; the
parser of the standard library takes a plus sign as well, so a signed text is read where
the grammar has none. -/
namespace RootCause.Ingestion
open FactModel Matcher

/- A text of digits behind an optional `0x` and the sign, and its positional value. The
numerals of the grammar have no sign. -/
def Numeral (sign : List Char) (s : String) (n : Nat) : Prop := ∃ digits values,
  (s.toList = sign ++ digits ∨ s.toList = '0' :: 'x' :: (sign ++ digits)) ∧ digits ≠ [] ∧
    List.Forall₂ DigitOf digits values ∧ Nat.ofDigits 16 values.reverse = n

def stripPlus (cs : List Char) : List Char :=
  match cs with
  | '+' :: rest => rest
  | cs => cs

theorem digitIff {c : Char} {v : Nat} (narrow : c.toNat < 128) :
    toDigit16 (UInt8.ofNat c.toNat) = some v ↔ DigitOf c v := by
  constructor
  · intro read
    have digit := (digitRead read).2
    rwa [UInt8.toNat_ofNat_of_lt' (Nat.lt_trans narrow (by decide)),Char.ofNat_toNat] at digit
  · exact fun digit => (digitWritten digit).2

theorem characterRead {c : Char} {before after : Nat} : (String.utf8EncodeChar c).foldlM
      (fun n b => (hexDigit b).map fun d => n * 16 + d.toNat) before = some after ↔
    ∃ v, DigitOf c v ∧ before * 16 + v = after := by
  by_cases narrow : c.toNat < 128
  · have read (b : UInt8) : (hexDigit b).map (fun d => before * 16 + d.toNat) =
        (toDigit16 b).map fun v => before * 16 + v := by
      rw [← hexDigitValue,Option.map_map]
      rfl
    simp only [utf8Narrow narrow,List.foldlM_cons,List.foldlM_nil,bind_pure,read,
      Option.map_eq_some_iff,digitIff narrow]
  · obtain ⟨b,rest,encoded,big⟩ := utf8Wide (Nat.le_of_not_lt narrow)
    have silent : hexDigit b = none := by
      cases read : hexDigit b with
      | none => rfl
      | some d =>
        have value : toDigit16 b = some d.toNat := by rw [← hexDigitValue,read,Option.map_some]
        exact absurd (digitRead value).1 (Nat.not_lt.mpr big)
    rw [encoded,List.foldlM_cons,silent]
    refine iff_of_false (fun read => by cases read) fun given => ?_
    obtain ⟨v,digit,_⟩ := given
    exact narrow (digitWritten digit).1

theorem digitsRead {cs : List Char} {before after : Nat} : (cs.flatMap String.utf8EncodeChar).foldlM
      (fun n b => (hexDigit b).map fun d => n * 16 + d.toNat) before = some after ↔
    ∃ values, List.Forall₂ DigitOf cs values ∧ values.foldl (fun n d => n * 16 + d) before = after := by
  induction cs generalizing before with
  | nil => simp
  | cons c cs ih =>
    rw [List.flatMap_cons,List.foldlM_append,Option.bind_eq_bind,Option.bind_eq_some_iff]
    simp only [characterRead,ih]
    constructor
    · intro given
      obtain ⟨_,⟨v,digit,rfl⟩,values,later,value⟩ := given
      exact ⟨v :: values,.cons digit later,value⟩
    · intro given
      obtain ⟨_,each,value⟩ := given
      cases each with
      | cons digit later => exact ⟨_,⟨_,digit,rfl⟩,_,later,value⟩

theorem hexValueIff {cs : List Char} {n : Nat} : hexValue (cs.flatMap String.utf8EncodeChar) = some n ↔
    ∃ values, List.Forall₂ DigitOf cs values ∧ Nat.ofDigits 16 values.reverse = n := by
  have positional (values : List Nat) :
      values.foldl (fun n d => n * 16 + d) 0 = Nat.ofDigits 16 values.reverse := by
    rw [Nat.ofDigits_eq_foldr,List.foldr_reverse]
    congr 1
    funext n d
    simp [Nat.mul_comm,Nat.add_comm]
  simp only [hexValue,digitsRead,positional]

theorem prefixStripped {cs body : List Char} (bare : ∀ rest, body ≠ '0' :: 'x' :: rest) :
    stripPrefix0x cs = body ↔ cs = body ∨ cs = '0' :: 'x' :: body := by
  unfold stripPrefix0x
  split
  · rename_i rest
    have longer : '0' :: 'x' :: rest ≠ body := fun same => bare rest same.symm
    simp [longer]
  · rename_i other
    have unmarked : cs ≠ '0' :: 'x' :: body := other body
    simp [unmarked]

theorem plusStripped {cs body : List Char} (bare : ∀ rest, body ≠ '+' :: rest) :
    stripPlus cs = body ↔ cs = body ∨ cs = '+' :: body := by
  unfold stripPlus
  split
  · rename_i rest
    have longer : '+' :: rest ≠ body := fun same => bare rest same.symm
    simp [longer]
  · rename_i other
    have unmarked : cs ≠ '+' :: body := other body
    simp [unmarked]

theorem noDigits (v : Nat) : ¬ DigitOf 'x' v ∧ ¬ DigitOf '+' v := by
  have table : ∀ v < 16, ¬ DigitOf 'x' v ∧ ¬ DigitOf '+' v := by decide
  constructor
  · exact fun digit => (table v digit.1).1 digit
  · exact fun digit => (table v digit.1).2 digit

theorem digitsBare {cs : List Char} {values : List Nat} (each : List.Forall₂ DigitOf cs values) :
    (∀ rest, cs ≠ '0' :: 'x' :: rest) ∧ ∀ rest, cs ≠ '+' :: rest := by
  constructor
  · rintro rest rfl
    cases each with
    | cons _ later =>
      cases later with
      | cons mark _ => exact (noDigits _).1 mark
  · rintro rest rfl
    cases each with
    | cons mark _ => exact (noDigits _).2 mark

def unsigned : List UInt8 → List UInt8
  | 43 :: rest => rest
  | bytes => bytes

theorem radixUnsigned (bound : Nat) (bytes : List UInt8) : fromStrRadix16 bound bytes =
    if (unsigned bytes).isEmpty then none
    else (hexValue (unsigned bytes)).bind fun n => if n < bound then some n else none := by
  have parts : fromStrRadix16 bound bytes = if (unsigned bytes).isEmpty then none.bind fun _ : PUnit =>
        (hexValue (unsigned bytes)).bind fun n => if n < bound then some n else none
      else (hexValue (unsigned bytes)).bind fun n => if n < bound then some n else none := rfl
  rw [parts,Option.bind_none]

theorem unsignedStripped (cs : List Char) : unsigned (cs.flatMap String.utf8EncodeChar) =
    (stripPlus cs).flatMap String.utf8EncodeChar := by
  unfold unsigned
  split
  · rename_i rest bytes
    match cs with
    | [] => simp at bytes
    | c :: cs =>
      rw [List.flatMap_cons] at bytes
      obtain ⟨first,last⟩ := asciiHead bytes (by decide)
      have plus : c = '+' := first
      rw [plus]
      exact last.symm
  · rename_i other
    unfold stripPlus
    split
    · rename_i rest
      exact absurd rfl (other (rest.flatMap String.utf8EncodeChar))
    · rfl

theorem radixIff {bound n : Nat} {cs : List Char} :
    fromStrRadix16 bound (cs.flatMap String.utf8EncodeChar) = some n ↔ n < bound ∧ stripPlus cs ≠ [] ∧
      ∃ values, List.Forall₂ DigitOf (stripPlus cs) values ∧ Nat.ofDigits 16 values.reverse = n := by
  rw [radixUnsigned,unsignedStripped,← hexValueIff]
  have empty : ((stripPlus cs).flatMap String.utf8EncodeChar).isEmpty = true ↔ stripPlus cs = [] := by
    rw [List.isEmpty_iff,List.flatMap_eq_nil_iff,List.eq_nil_iff_forall_not_mem]
    exact forall₂_congr fun c _ => iff_false_intro String.utf8EncodeChar_ne_nil
  by_cases bare : stripPlus cs = []
  · simp [bare]
  · rw [if_neg (mt empty.mp bare),Option.bind_eq_some_iff,and_iff_right bare]
    constructor
    · intro given
      obtain ⟨value,read,last⟩ := given
      split at last
      · cases last
        exact ⟨by assumption,read⟩
      · contradiction
    · intro given
      exact ⟨n,given.2,if_pos given.1⟩

theorem radixNumeral {bound n : Nat} {s : String} : fromStrRadix16 bound (hexBody s) = some n ↔
    n < bound ∧ (Numeral [] s n ∨ Numeral ['+'] s n) := by
  rw [hexBodyStripped,radixIff]
  refine and_congr_right fun _ => ?_
  constructor
  · intro given
    obtain ⟨inhabited,values,each,value⟩ := given
    generalize body : stripPlus (stripPrefix0x s.toList) = digits at inhabited each
    obtain ⟨noMark,noPlus⟩ := digitsBare each
    rcases (plusStripped noPlus).mp body with plain | signed
    · exact .inl ⟨digits,values,(prefixStripped noMark).mp plain,inhabited,each,value⟩
    · exact .inr ⟨digits,values,(prefixStripped (by simp)).mp signed,inhabited,each,value⟩
  · intro given
    rcases given with ⟨digits,values,text,inhabited,each,value⟩ | ⟨digits,values,text,inhabited,each,value⟩
    · obtain ⟨noMark,noPlus⟩ := digitsBare each
      rw [(prefixStripped noMark).mpr text,(plusStripped noPlus).mpr (.inl rfl)]
      exact ⟨inhabited,values,each,value⟩
    · obtain ⟨_,noPlus⟩ := digitsBare each
      rw [(prefixStripped (by simp)).mpr text,List.singleton_append,(plusStripped noPlus).mpr (.inr rfl)]
      exact ⟨inhabited,values,each,value⟩

theorem signApart {s : String} {n m : Nat} (plain : Numeral [] s n) : ¬ Numeral ['+'] s m := by
  obtain ⟨digits,values,text,_,each,_⟩ := plain
  rintro ⟨others,_,signed,_⟩
  obtain ⟨noMark,noPlus⟩ := digitsBare each
  have body : digits = '+' :: others := by
    have stripped := (prefixStripped noMark).mpr text
    rw [(prefixStripped (by simp)).mpr signed] at stripped
    exact stripped.symm
  exact noPlus others body

section
variable {α : Type} {ofNat : Nat → α} {toNat : α → Nat} {bound : Nat}

structure Counts (ofNat : Nat → α) (toNat : α → Nat) (bound : Nat) : Prop where
  small : ∀ a, toNat a < bound
  back : ∀ a, ofNat (toNat a) = a
  there : ∀ n < bound, toNat (ofNat n) = n

theorem numeralParsed (counts : Counts ofNat toNat bound) {field s reason : String} {a : α} :
    parsedField field s reason ((fromStrRadix16 bound (hexBody s)).map ofNat) = .ok a ↔
      Numeral [] s (toNat a) ∨ Numeral ['+'] s (toNat a) := by
  rw [parsedFieldOk,Option.map_eq_some_iff]
  constructor
  · intro given
    obtain ⟨n,read,rfl⟩ := given
    obtain ⟨fits,numeral⟩ := radixNumeral.mp read
    rwa [counts.there n fits]
  · intro numeral
    exact ⟨toNat a,radixNumeral.mpr ⟨counts.small a,numeral⟩,counts.back a⟩

theorem exactUnlessSigned (counts : Counts ofNat toNat bound) {field s reason : String} :
    (∀ a, parsedField field s reason ((fromStrRadix16 bound (hexBody s)).map ofNat) = .ok a ↔
      Numeral [] s (toNat a)) ↔ ¬ ∃ n < bound, Numeral ['+'] s n := by
  simp only [numeralParsed counts,or_iff_left_iff_imp]
  constructor
  · intro reads
    rintro ⟨n,fits,signed⟩
    rw [← counts.there n fits] at signed
    exact signApart (reads _ signed) signed
  · intro free a signed
    exact absurd ⟨toNat a,counts.small a,signed⟩ free

end

theorem numbersExactIff (field s : String) :
    ((∀ v : UInt64, parseHexU64 field s = .ok v ↔ Numeral [] s v.toNat) ↔
      ¬ ∃ n < 2 ^ 64, Numeral ['+'] s n) ∧
    ((∀ v : BitVec 128, parseHexU128 field s = .ok v ↔ Numeral [] s v.toNat) ↔
      ¬ ∃ n < 2 ^ 128, Numeral ['+'] s n) := by
  have words : Counts UInt64.ofNat UInt64.toNat (2 ^ 64) :=
    ⟨UInt64.toNat_lt,fun _ => UInt64.ofNat_toNat,fun _ fits => UInt64.toNat_ofNat_of_lt' fits⟩
  have amounts : Counts (BitVec.ofNat 128) BitVec.toNat (2 ^ 128) :=
    ⟨BitVec.isLt,fun v => BitVec.ofNat_toNat 128 v |>.trans (BitVec.setWidth_eq v),fun _ fits =>
      (BitVec.toNat_ofNat _ _).trans (Nat.mod_eq_of_lt fits)⟩
  exact ⟨exactUnlessSigned words,exactUnlessSigned amounts⟩

theorem plusAccepted : parseHexU64 "gas" "0x+1" = .ok 1 ∧ parseHexU128 "value" "0x+1" = .ok 1 ∧
    ∀ n, ¬ Numeral [] "0x+1" n := by
  refine ⟨by decide +kernel,by decide +kernel,fun n plain => ?_⟩
  have signed : Numeral ['+'] "0x+1" 1 := ⟨['1'],[1],.inr rfl,by simp,.cons (by decide) .nil,rfl⟩
  exact signApart plain signed

end RootCause.Ingestion
