import Mathlib.Algebra.Ring.Nat
import RootCause.Ingestion.Build

/-! Hexadecimal fields of a raw trace. A leading `0x` is optional everywhere; data of
fixed and of any length are pairs of digits, numbers have any number of digits and may
carry a plus sign, as `from_str_radix` reads them. -/
namespace RootCause.Ingestion
open Library FactModel

/- `strip_prefix("0x")`, on the UTF-8 bytes. -/
def hexBody (raw : String) : List UInt8 :=
  let bytes := raw.toList.flatMap String.utf8EncodeChar
  match bytes with
  | 48 :: 120 :: rest => rest
  | bytes => bytes

def hexDigit (b : UInt8) : Option UInt8 :=
  if 48 ≤ b ∧ b ≤ 57 then some (b - 48)
  else if 97 ≤ b ∧ b ≤ 102 then some (b - 97 + 10)
  else if 65 ≤ b ∧ b ≤ 70 then some (b - 65 + 10)
  else none

/- Two digits for each byte; a single digit at the end is ignored, as by `chunks_exact`. -/
def hexPairs : List UInt8 → Option (List UInt8)
  | hi :: lo :: rest => do
    let hi ← hexDigit hi
    let lo ← hexDigit lo
    let tail ← hexPairs rest
    some ((hi <<< 4 ||| lo) :: tail)
  | _ => some []

def hexFixed (n : Nat) (raw : String) : Option (FixedBytes n) := do
  if (hexBody raw).length ≠ n * 2 then none
  let bytes ← hexPairs (hexBody raw)
  if size : bytes.length = n then some ⟨bytes,size⟩ else none

def hexValue (digits : List UInt8) : Option Nat :=
  digits.foldlM (fun n b => (hexDigit b).map fun d => n * 16 + d.toNat) 0

def fromStrRadix16 (bound : Nat) (digits : List UInt8) : Option Nat := do
  let digits := match digits with
    | 43 :: rest => rest
    | digits => digits
  if digits.isEmpty then none
  let n ← hexValue digits
  if n < bound then some n else none

def parsedField {α : Type} (field raw reason : String) : Option α → Except IngestionError α
  | some a => .ok a
  | none => .error (.malformedField field raw reason)

theorem parsedFieldOk {α : Type} {field raw reason : String} {value : Option α} {a : α} :
    parsedField field raw reason value = .ok a ↔ value = some a := by
  cases value <;> simp [parsedField]

def parseHexU64 (field raw : String) : Except IngestionError UInt64 :=
  parsedField field raw "not a valid hex-encoded u64"
    ((fromStrRadix16 (2 ^ 64) (hexBody raw)).map UInt64.ofNat)

def parseHexU128 (field raw : String) : Except IngestionError (BitVec 128) :=
  parsedField field raw "not a valid hex-encoded u128"
    ((fromStrRadix16 (2 ^ 128) (hexBody raw)).map (BitVec.ofNat 128))

def parseAddress (field raw : String) : Except IngestionError Address :=
  parsedField field raw "not a valid 20-byte hex address" ((hexFixed 20 raw).map Address.mk)

def parseWord (field raw : String) : Except IngestionError Word :=
  parsedField field raw "not a valid 32-byte hex word" ((hexFixed 32 raw).map Word.mk)

def parseHexBytes (field raw : String) : Except IngestionError (List UInt8) :=
  if (hexBody raw).length % 2 ≠ 0 then
    .error (.malformedField field raw "hex data must have an even number of digits")
  else parsedField field raw "invalid hex digit" (hexPairs (hexBody raw))

def hexChar (digit : UInt8) : Char :=
  if digit < 10 then Char.ofNat (48 + digit.toNat) else Char.ofNat (87 + digit.toNat)

/- The `Display` text of an address: `0x` and two lower-case digits for each byte. -/
def displayAddress (a : Address) : String :=
  "0x" ++ String.ofList (a.raw.bytes.flatMap fun (b : UInt8) => [hexChar (b >>> 4),hexChar (b &&& 15)])

end RootCause.Ingestion
