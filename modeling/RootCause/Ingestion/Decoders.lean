import RootCause.Ingestion.Hex
import RootCause.Matcher.Literals

/-! The decoders of hexadecimal data of a known width: those of the literals of a pattern,
that of the facts and that of the data fields of a trace. Each of them is written for
itself; what they accept is the texts that denote bytes, and the bytes are the same. -/
namespace RootCause.Ingestion
open FactModel Matcher

theorem hexDigitValue (b : UInt8) : (hexDigit b).map UInt8.toNat = toDigit16 b := by
  have table : ∀ n < 256, (hexDigit (UInt8.ofNat n)).map UInt8.toNat = toDigit16 (UInt8.ofNat n) := by
    decide +kernel
  have own := table b.toNat b.toNat_lt
  rwa [UInt8.ofNat_toNat] at own

theorem hexDigitSmall {b d : UInt8} (read : hexDigit b = some d) : d.toNat < 16 := by
  have value : toDigit16 b = some d.toNat := by rw [← hexDigitValue,read,Option.map_some]
  exact (digitRead value).2.1

theorem halvesJoined {hi lo : UInt8} (high : hi.toNat < 16) (low : lo.toNat < 16) :
    hi <<< 4 ||| lo = UInt8.ofNat (hi.toNat * 16 + lo.toNat) ∧ hi.toNat * 16 + lo.toNat < 256 := by
  have table : ∀ h < 16, ∀ l < 16, UInt8.ofNat h <<< 4 ||| UInt8.ofNat l = UInt8.ofNat (h * 16 + l) := by
    decide +kernel
  have joined := table hi.toNat high lo.toNat low
  rw [UInt8.ofNat_toNat,UInt8.ofNat_toNat] at joined
  exact ⟨joined,by omega⟩

theorem hexBodyStripped (raw : String) :
    hexBody raw = (stripPrefix0x raw.toList).flatMap String.utf8EncodeChar := by
  unfold hexBody
  generalize raw.toList = cs
  dsimp only
  split
  · rename_i rest bytes
    match cs with
    | [] => simp at bytes
    | [c] =>
      rw [List.flatMap_cons,List.flatMap_nil] at bytes
      obtain ⟨_,last⟩ := asciiHead bytes (by decide)
      contradiction
    | c :: d :: cs =>
      rw [List.flatMap_cons] at bytes
      obtain ⟨first,later⟩ := asciiHead bytes (by decide)
      rw [List.flatMap_cons] at later
      obtain ⟨second,last⟩ := asciiHead later (by decide)
      have zero : c = '0' := first
      have mark : d = 'x' := second
      rw [zero,mark]
      exact last.symm
  · rename_i other
    unfold stripPrefix0x
    split
    · rename_i rest
      exact absurd rfl (other (rest.flatMap String.utf8EncodeChar))
    · rfl

theorem pairsAgree {n : Nat} {bytes : List UInt8} (length : bytes.length = n * 2) :
    hexPairs bytes = (hexBytes n bytes).map FixedBytes.bytes := by
  induction n generalizing bytes with
  | zero =>
    cases List.length_eq_zero_iff.mp length
    rfl
  | succ n ih =>
    match bytes with
    | [] | [_] => simp at length; try omega
    | hi :: lo :: rest =>
      have short : rest.length = n * 2 := by
        simp only [List.length_cons] at length
        omega
      rw [hexPairs,hexBytes,ih short,← hexDigitValue,← hexDigitValue]
      cases high : hexDigit hi with
      | none => rfl
      | some h =>
        cases low : hexDigit lo with
        | none => rfl
        | some l =>
          obtain ⟨joined,small⟩ := halvesJoined (hexDigitSmall high) (hexDigitSmall low)
          simp only [Option.map_some,Option.bind_eq_bind,Option.bind_some,joined,if_pos small]
          cases hexBytes n rest <;> rfl

theorem hexPairsWrites {digits : List Char} {bytes : List UInt8} :
    (digits.flatMap String.utf8EncodeChar).length % 2 = 0 ∧
      hexPairs (digits.flatMap String.utf8EncodeChar) = some bytes ↔ Writes digits bytes := by
  constructor
  · intro given
    obtain ⟨whole,read⟩ := given
    have length : (digits.flatMap String.utf8EncodeChar).length =
        (digits.flatMap String.utf8EncodeChar).length / 2 * 2 := by omega
    rw [pairsAgree length] at read
    obtain ⟨out,decoded,rfl⟩ := Option.map_eq_some_iff.mp read
    exact hexBytesWrites.mp ⟨length,decoded⟩
  · intro writes
    have own : Writes digits (FixedBytes.mk bytes rfl).bytes := writes
    obtain ⟨length,decoded⟩ := hexBytesWrites.mpr own
    exact ⟨by omega,by rw [pairsAgree length,decoded]; rfl⟩

theorem hexFixedParsed (n : Nat) (s : String) : hexFixed n s = parseHex n s := by
  rw [hexFixed,parseHex,hexBodyStripped]
  by_cases right : ((stripPrefix0x s.toList).flatMap String.utf8EncodeChar).length = n * 2
  · simp only [ne_eq,right,not_true_eq_false,if_false,pairsAgree right,Option.bind_eq_bind]
    cases hexBytes n ((stripPrefix0x s.toList).flatMap String.utf8EncodeChar) with
    | none => rfl
    | some out => simp [out.size]
  · simp only [ne_eq,right,not_false_eq_true,if_true]
    rfl

theorem parseHexBytesIff {field raw : String} {bytes : List UInt8} :
    parseHexBytes field raw = .ok bytes ↔ Denotes raw bytes := by
  rw [Denotes,← hexPairsWrites,parseHexBytes,hexBodyStripped]
  split
  · rename_i odd
    exact iff_of_false (fun read => by cases read) fun given => odd given.1
  · rename_i even
    rw [parsedFieldOk,and_iff_right (Decidable.not_not.mp even)]

theorem selectorData {field s : String} {bytes : List UInt8} :
    (∃ out, parseHexSelector s = some out ∧ out.bytes = bytes) ↔
      parseHexBytes field s = .ok bytes ∧ bytes.length = 4 := by
  rw [parseHexBytesIff]
  constructor
  · intro given
    obtain ⟨out,read,rfl⟩ := given
    exact ⟨parseHexIff.mp read,out.size⟩
  · intro given
    obtain ⟨denotes,size⟩ := given
    have own : Denotes s (FixedBytes.mk bytes size).bytes := denotes
    exact ⟨_,parseHexIff.mpr own,rfl⟩

def displayWord (w : Word) : String :=
  "0x" ++ String.ofList (w.raw.bytes.flatMap fun (b : UInt8) => [hexChar (b >>> 4),hexChar (b &&& 15)])

theorem hexCharDigits (b : UInt8) : DigitOf (hexChar (b >>> 4)) (b.toNat / 16) ∧
    DigitOf (hexChar (b &&& 15)) (b.toNat % 16) := by
  have table : ∀ n < 256, DigitOf (hexChar (UInt8.ofNat n >>> 4)) (n / 16) ∧
      DigitOf (hexChar (UInt8.ofNat n &&& 15)) (n % 16) := by
    decide +kernel
  have own := table b.toNat b.toNat_lt
  rwa [UInt8.ofNat_toNat] at own

theorem displayedDenotes (bytes : List UInt8) : Denotes ("0x" ++ String.ofList
    (bytes.flatMap fun (b : UInt8) => [hexChar (b >>> 4),hexChar (b &&& 15)])) bytes := by
  have digits : Writes (bytes.flatMap fun (b : UInt8) => [hexChar (b >>> 4),hexChar (b &&& 15)]) bytes := by
    induction bytes with
    | nil => exact .nil
    | cons b rest ih =>
      obtain ⟨high,low⟩ := hexCharDigits b
      exact .cons high low ih
  rw [Denotes,String.toList_append,String.toList_ofList,String.toList_ofList]
  exact digits

theorem displayRead {n : Nat} (out : FixedBytes n) : parseHex n ("0x" ++ String.ofList
    (out.bytes.flatMap fun (b : UInt8) => [hexChar (b >>> 4),hexChar (b &&& 15)])) = some out :=
  parseHexIff.mpr (displayedDenotes out.bytes)

theorem decodersAgree :
    (∀ s, parseHexWord s = (hexFixed 32 s).map Word.mk) ∧
    (∀ s, Matcher.parseAddress s = (hexFixed 20 s).map Address.mk) ∧
    (∀ field s bytes, (∃ out, parseHexSelector s = some out ∧ out.bytes = bytes) ↔
      parseHexBytes field s = .ok bytes ∧ bytes.length = 4) ∧
    (∀ a, Matcher.parseAddress (displayAddress a) = some a ∧
      (hexFixed 20 (displayAddress a)).map Address.mk = some a) ∧
    ∀ w, parseHexWord (displayWord w) = some w ∧ (hexFixed 32 (displayWord w)).map Word.mk = some w := by
  have words (s : String) : parseHexWord s = (hexFixed 32 s).map Word.mk := by
    rw [hexFixedParsed]
    rfl
  have addresses (s : String) : Matcher.parseAddress s = (hexFixed 20 s).map Address.mk := by
    rw [hexFixedParsed]
    rfl
  refine ⟨words,addresses,fun field s bytes => selectorData,fun a => ?_,fun w => ?_⟩
  · have read : Matcher.parseAddress (displayAddress a) = some a := by
      rw [Matcher.parseAddress,displayAddress,displayRead]
      rfl
    exact ⟨read,addresses _ ▸ read⟩
  · have read : parseHexWord (displayWord w) = some w := by
      rw [parseHexWord,displayWord,displayRead]
      rfl
    exact ⟨read,words _ ▸ read⟩

end RootCause.Ingestion
