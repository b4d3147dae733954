import Mathlib.Algebra.Ring.Nat
import Mathlib.Data.List.Induction

/-! Numbers as bytes, the most significant byte first. -/
namespace RootCause.Library

def bigEndian : Nat → Nat → List UInt8
  | 0, _ => []
  | width + 1, n => bigEndian width (n / 256) ++ [UInt8.ofNat n]

def ofBigEndian (bytes : List UInt8) : Nat := bytes.foldl (fun n b => n * 256 + b.toNat) 0

@[simp] theorem bigEndianLength (width n : Nat) : (bigEndian width n).length = width := by
  induction width generalizing n with
  | zero => rfl
  | succ width ih => rw [bigEndian,List.length_append,ih,List.length_singleton]

theorem ofBigEndianSnoc (bytes : List UInt8) (b : UInt8) :
    ofBigEndian (bytes ++ [b]) = ofBigEndian bytes * 256 + b.toNat := by
  rw [ofBigEndian,List.foldl_append]
  rfl

theorem ofBigEndianBigEndian {width n : Nat} (small : n < 256 ^ width) :
    ofBigEndian (bigEndian width n) = n := by
  induction width generalizing n with
  | zero =>
    have zero : n = 0 := by simpa using small
    subst zero
    rfl
  | succ width ih =>
    have shorter : n / 256 < 256 ^ width := Nat.div_lt_of_lt_mul (by rw [← Nat.pow_succ']; exact small)
    have low : (UInt8.ofNat n).toNat = n % 256 := UInt8.toNat_ofNat'
    rw [bigEndian,ofBigEndianSnoc,ih shorter,low]
    exact Nat.div_add_mod' n 256

theorem bigEndianOfBigEndian (bytes : List UInt8) :
    bigEndian bytes.length (ofBigEndian bytes) = bytes := by
  induction bytes using List.reverseRecOn with
  | nil => rfl
  | append_singleton bytes b ih =>
    have high : (ofBigEndian bytes * 256 + b.toNat) / 256 = ofBigEndian bytes := by
      have small := b.toNat_lt
      omega
    have low : UInt8.ofNat (ofBigEndian bytes * 256 + b.toNat) = b := by
      refine UInt8.toNat_inj.mp ?_
      rw [UInt8.toNat_ofNat']
      have small := b.toNat_lt
      omega
    rw [List.length_append,List.length_singleton,bigEndian,ofBigEndianSnoc,high,low,ih]

theorem ofBigEndianBound (bytes : List UInt8) : ofBigEndian bytes < 256 ^ bytes.length := by
  induction bytes using List.reverseRecOn with
  | nil => exact Nat.one_pos
  | append_singleton bytes b ih =>
    have small := b.toNat_lt
    rw [ofBigEndianSnoc,List.length_append,List.length_singleton,Nat.pow_succ]
    omega

theorem bigEndianPadded {width n : Nat} (pad : Nat) (small : n < 256 ^ width) :
    bigEndian (pad + width) n = List.replicate pad 0 ++ bigEndian width n := by
  induction width generalizing n with
  | zero =>
    have zero : n = 0 := by simpa using small
    subst zero
    induction pad with
    | zero => rfl
    | succ pad ih => calc
        bigEndian (pad + 1) 0 = bigEndian pad 0 ++ [0] := rfl
        _ = List.replicate pad 0 ++ [0] := by rw [show bigEndian pad 0 = _ from ih,bigEndian,List.append_nil]
        _ = List.replicate (pad + 1) 0 ++ bigEndian 0 0 := by
          rw [← List.replicate_succ',bigEndian,List.append_nil]
  | succ width ih =>
    have shorter : n / 256 < 256 ^ width := Nat.div_lt_of_lt_mul (by rw [← Nat.pow_succ']; exact small)
    rw [← Nat.add_assoc,bigEndian,ih shorter,bigEndian,List.append_assoc]

theorem bytesDetermine {width a b : Nat} (aSmall : a < 256 ^ width) (bSmall : b < 256 ^ width)
    (same : ∀ i < width, a / 256 ^ i % 256 = b / 256 ^ i % 256) : a = b := by
  induction width generalizing a b with
  | zero => rw [Nat.lt_one_iff.mp aSmall,Nat.lt_one_iff.mp bSmall]
  | succ width ih =>
    have shorter {n : Nat} (small : n < 256 ^ (width + 1)) : n / 256 < 256 ^ width :=
      Nat.div_lt_of_lt_mul (by rwa [← Nat.pow_succ'])
    have shifted (n i : Nat) : n / 256 / 256 ^ i = n / 256 ^ (i + 1) := by
      rw [Nat.div_div_eq_div_mul,← Nat.pow_succ']
    have low : a % 256 = b % 256 := by simpa using same 0 (Nat.succ_pos _)
    have high : a / 256 = b / 256 := by
      refine ih (shorter aSmall) (shorter bSmall) fun i inside => ?_
      rw [shifted,shifted]
      exact same (i + 1) (Nat.succ_lt_succ inside)
    rw [← Nat.div_add_mod' a 256,← Nat.div_add_mod' b 256,low,high]

end RootCause.Library
