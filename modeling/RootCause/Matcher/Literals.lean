import RootCause.Matcher.Predicate

/-! What a hexadecimal literal of a predicate denotes: an optional `0x` and two digits of
either case for each byte. The parser works on the UTF-8 bytes of the text, so a character
outside ASCII is never a digit. -/
namespace RootCause.Matcher
open FactModel

def DigitOf (c : Char) (v : Nat) : Prop := v < 16 ∧ (c = Nat.digitChar v ∨ c = (Nat.digitChar v).toUpper)

instance (c : Char) (v : Nat) : Decidable (DigitOf c v) := by unfold DigitOf; infer_instance

inductive Writes : List Char → List UInt8 → Prop where
  | nil : Writes [] []
  | cons {hi lo : Char} {byte : UInt8} {digits bytes} (high : DigitOf hi (byte.toNat / 16))
      (low : DigitOf lo (byte.toNat % 16)) (rest : Writes digits bytes) :
      Writes (hi :: lo :: digits) (byte :: bytes)

def Denotes (s : String) (bytes : List UInt8) : Prop := Writes (stripPrefix0x s.toList) bytes

theorem utf8Narrow {c : Char} (narrow : c.toNat < 128) :
    String.utf8EncodeChar c = [UInt8.ofNat c.toNat] := by
  have first : String.utf8EncodeChar c = if c.toNat ≤ 127 then [UInt8.ofNat c.toNat] else _ := rfl
  rw [first,if_pos (Nat.le_of_lt_succ narrow)]

theorem utf8Wide {c : Char} (wide : 128 ≤ c.toNat) :
    ∃ b rest, String.utf8EncodeChar c = b :: rest ∧ 128 ≤ b.toNat := by
  have branches : String.utf8EncodeChar c =
      if c.toNat ≤ 127 then [UInt8.ofNat c.toNat]
      else if c.toNat ≤ 2047 then UInt8.ofNat (c.toNat / 64 % 32 + 192) :: _
      else if c.toNat ≤ 65535 then UInt8.ofNat (c.toNat / 4096 % 16 + 224) :: _
      else UInt8.ofNat (c.toNat / 262144 % 8 + 240) :: _ := rfl
  have lead {n m : Nat} (small : m < 256) (big : 128 ≤ m) (same : n = m) :
      128 ≤ (UInt8.ofNat n).toNat := by
    subst same
    rw [UInt8.toNat_ofNat_of_lt' small]
    exact big
  rw [branches,if_neg (by omega)]
  split
  · exact ⟨_,_,rfl,lead (by omega) (by omega) rfl⟩
  · split
    · exact ⟨_,_,rfl,lead (by omega) (by omega) rfl⟩
    · exact ⟨_,_,rfl,lead (by omega) (by omega) rfl⟩

theorem digitRead {b : UInt8} {v : Nat} (read : toDigit16 b = some v) :
    b.toNat < 128 ∧ DigitOf (Char.ofNat b.toNat) v := by
  have table : ∀ n < 128, ∀ v ∈ toDigit16 (UInt8.ofNat n), DigitOf (Char.ofNat n) v := by decide
  have small : b.toNat < 128 := by
    by_contra wide
    unfold toDigit16 at read
    rw [if_neg (by omega),if_neg (by omega),if_neg (by omega)] at read
    contradiction
  exact ⟨small,table b.toNat small v (by rw [UInt8.ofNat_toNat]; exact read)⟩

theorem digitWritten {c : Char} {v : Nat} (digit : DigitOf c v) :
    c.toNat < 128 ∧ toDigit16 (UInt8.ofNat c.toNat) = some v := by
  obtain ⟨small,shape⟩ := digit
  have table : ∀ v < 16, ((Nat.digitChar v).toNat < 128 ∧
        toDigit16 (UInt8.ofNat (Nat.digitChar v).toNat) = some v) ∧
      (Nat.digitChar v).toUpper.toNat < 128 ∧
        toDigit16 (UInt8.ofNat (Nat.digitChar v).toUpper.toNat) = some v := by decide
  rcases shape with rfl | rfl
  · exact (table v small).1
  · exact (table v small).2

theorem asciiHead {c : Char} {rest tail : List UInt8} {b : UInt8}
    (bytes : String.utf8EncodeChar c ++ rest = b :: tail) (small : b.toNat < 128) :
    c = Char.ofNat b.toNat ∧ rest = tail := by
  by_cases narrow : c.toNat < 128
  · rw [utf8Narrow narrow,List.cons_append,List.nil_append,List.cons.injEq] at bytes
    obtain ⟨rfl,same⟩ := bytes
    rw [UInt8.toNat_ofNat_of_lt' (Nat.lt_trans narrow (by decide)),Char.ofNat_toNat]
    exact ⟨rfl,same⟩
  · obtain ⟨first,others,encoded,big⟩ := utf8Wide (Nat.le_of_not_lt narrow)
    rw [encoded,List.cons_append,List.cons.injEq] at bytes
    rw [bytes.1] at big
    exact absurd small (Nat.not_lt.mpr big)

theorem digitHead {c : Char} {rest tail : List UInt8} {b : UInt8} {v : Nat}
    (bytes : String.utf8EncodeChar c ++ rest = b :: tail) (read : toDigit16 b = some v) :
    DigitOf c v ∧ rest = tail := by
  obtain ⟨small,digit⟩ := digitRead read
  obtain ⟨rfl,same⟩ := asciiHead bytes small
  exact ⟨digit,same⟩

theorem hexBytesOk {n : Nat} {bytes : List UInt8} {out : FixedBytes (n + 1)} :
    hexBytes (n + 1) bytes = some out ↔ ∃ hi lo rest h l tail, bytes = hi :: lo :: rest ∧
      toDigit16 hi = some h ∧ toDigit16 lo = some l ∧ h * 16 + l < 256 ∧
      hexBytes n rest = some tail ∧ out.bytes = UInt8.ofNat (h * 16 + l) :: tail.bytes := by
  constructor
  · intro read
    match bytes with
    | [] | [_] => cases read
    | hi :: lo :: rest =>
      rw [hexBytes] at read
      obtain ⟨h,high,read⟩ := Option.bind_eq_some_iff.mp read
      obtain ⟨l,low,read⟩ := Option.bind_eq_some_iff.mp read
      split at read
      · rename_i small
        obtain ⟨byte,same,read⟩ := Option.bind_eq_some_iff.mp read
        cases same
        obtain ⟨tail,later,last⟩ := Option.bind_eq_some_iff.mp read
        cases last
        exact ⟨hi,lo,rest,h,l,tail,rfl,high,low,small,later,rfl⟩
      · contradiction
  · intro given
    obtain ⟨hi,lo,rest,h,l,tail,rfl,high,low,small,later,same⟩ := given
    obtain ⟨bytes,size⟩ := out
    simp only at same
    subst same
    simp [hexBytes,high,low,small,later]

theorem hexBytesSound {n : Nat} {digits : List Char} {out : FixedBytes n}
    (length : (digits.flatMap String.utf8EncodeChar).length = n * 2)
    (read : hexBytes n (digits.flatMap String.utf8EncodeChar) = some out) : Writes digits out.bytes := by
  induction n generalizing digits with
  | zero =>
    obtain ⟨bytes,size⟩ := out
    cases List.length_eq_zero_iff.mp size
    have none := List.flatMap_eq_nil_iff.mp (List.length_eq_zero_iff.mp length)
    have empty : digits = [] :=
      List.eq_nil_iff_forall_not_mem.mpr fun c mem => String.utf8EncodeChar_ne_nil (none c mem)
    rw [empty]
    exact .nil
  | succ n ih =>
    obtain ⟨hi,lo,rest,h,l,tail,bytes,high,low,small,later,same⟩ := hexBytesOk.mp read
    match digits with
    | [] => simp at bytes
    | c :: digits =>
      rw [List.flatMap_cons] at bytes
      obtain ⟨first,bytes'⟩ := digitHead bytes high
      match digits with
      | [] => simp at bytes'
      | d :: digits =>
        rw [List.flatMap_cons] at bytes'
        obtain ⟨second,last⟩ := digitHead bytes' low
        subst last
        have short : (digits.flatMap String.utf8EncodeChar).length = n * 2 := by
          rw [List.flatMap_cons,bytes] at length
          simp only [List.length_cons] at length
          omega
        have byte : (UInt8.ofNat (h * 16 + l)).toNat = h * 16 + l := UInt8.toNat_ofNat_of_lt' small
        have bound := second.1
        rw [same]
        refine .cons ?_ ?_ (ih short later)
        · rw [byte,show (h * 16 + l) / 16 = h by omega]
          exact first
        · rw [byte,show (h * 16 + l) % 16 = l by omega]
          exact second

theorem hexBytesComplete {n : Nat} {digits : List Char} {out : FixedBytes n} (writes : Writes digits out.bytes) :
    (digits.flatMap String.utf8EncodeChar).length = n * 2 ∧
      hexBytes n (digits.flatMap String.utf8EncodeChar) = some out := by
  induction n generalizing digits with
  | zero =>
    obtain ⟨bytes,size⟩ := out
    cases List.length_eq_zero_iff.mp size
    cases writes
    exact ⟨rfl,rfl⟩
  | succ n ih =>
    generalize shape : out.bytes = bytes at writes
    cases writes with
    | nil => exact absurd (congrArg List.length shape) (by simp [out.size])
    | @cons hi lo byte digits bytes high low rest =>
      have size : bytes.length = n := by
        have whole := out.size
        rw [shape,List.length_cons] at whole
        omega
      have tail : Writes digits (FixedBytes.mk bytes size).bytes := rest
      obtain ⟨length,read⟩ := ih tail
      obtain ⟨narrowHi,digitHi⟩ := digitWritten high
      obtain ⟨narrowLo,digitLo⟩ := digitWritten low
      have whole : byte.toNat / 16 * 16 + byte.toNat % 16 = byte.toNat := Nat.div_add_mod' _ _
      simp only [List.flatMap_cons,utf8Narrow narrowHi,utf8Narrow narrowLo,List.cons_append,
        List.nil_append,List.length_cons,length]
      refine ⟨by omega,hexBytesOk.mpr ⟨_,_,_,_,_,_,rfl,digitHi,digitLo,?_,read,?_⟩⟩
      · rw [whole]
        exact byte.toNat_lt
      · rw [whole,UInt8.ofNat_toNat,shape]

theorem hexBytesWrites {n : Nat} {digits : List Char} {out : FixedBytes n} :
    (digits.flatMap String.utf8EncodeChar).length = n * 2 ∧
      hexBytes n (digits.flatMap String.utf8EncodeChar) = some out ↔ Writes digits out.bytes :=
  ⟨fun given => hexBytesSound given.1 given.2,hexBytesComplete⟩

theorem parseHexIff {n : Nat} {s : String} {out : FixedBytes n} :
    parseHex n s = some out ↔ Denotes s out.bytes := by
  rw [Denotes,← hexBytesWrites,parseHex]
  split
  · rename_i wrong
    exact iff_of_false (fun read => by cases read) fun given => wrong given.1
  · rename_i right
    exact (and_iff_right (Decidable.not_not.mp right)).symm

end RootCause.Matcher
