import RootCause.Grounding.Engine
import RootCause.Library.BigEndian
import RootCause.Library.Code

/-! The bytes a candidate's fingerprint is made of. They name the pattern, its version and
the set of bindings, so two candidates share a fingerprint only where the hash collides. -/
namespace RootCause.Grounding
open Library FactModel Dsl Matcher

namespace Fnv1a

def strBytes (s : String) : List UInt8 := s.toList.flatMap String.utf8EncodeChar ++ [0xff]

def leBytes (value : UInt64) : List UInt8 :=
  (List.range 8).map fun i => (value >>> UInt64.ofNat (8 * i)).toUInt8

def hashBytes (bytes : List UInt8) : UInt64 := bytes.foldl writeByte offsetBasis

theorem writeStrFold (state : UInt64) (s : String) :
    writeStr state s = (strBytes s).foldl writeByte state := by
  rw [strBytes,List.foldl_append]
  rfl

theorem writeU64Fold (state value : UInt64) :
    writeU64 state value = (leBytes value).foldl writeByte state := by
  rw [leBytes,List.foldl_map]
  rfl

end Fnv1a

open Fnv1a

theorem utf8Injective : Function.Injective fun s : String => s.toList.flatMap String.utf8EncodeChar := by
  intro s t same
  have bytes (u : String) : u.toByteArray = (u.toList.flatMap String.utf8EncodeChar).toByteArray := by
    conv_lhs => rw [← String.ofList_toList (s := u)]
    rfl
  rw [← String.toByteArray_inj,bytes s,bytes t]
  exact congrArg List.toByteArray same

theorem utf8Free {c : Char} : (0xff : UInt8) ∉ String.utf8EncodeChar c := by
  have apart {n m : Nat} (small : m < 248) (same : n = m) : (0xff : UInt8) ≠ UInt8.ofNat n := by
    subst same
    intro equal
    have value := congrArg UInt8.toNat equal
    rw [UInt8.toNat_ofNat_of_lt' (Nat.lt_trans small (by decide))] at value
    exact absurd value (Nat.ne_of_gt (Nat.lt_trans small (by decide)))
  have branches : String.utf8EncodeChar c =
      if c.toNat ≤ 127 then [UInt8.ofNat c.toNat]
      else if c.toNat ≤ 2047 then
        [UInt8.ofNat (c.toNat / 64 % 32 + 192),UInt8.ofNat (c.toNat % 64 + 128)]
      else if c.toNat ≤ 65535 then
        [UInt8.ofNat (c.toNat / 4096 % 16 + 224),UInt8.ofNat (c.toNat / 64 % 64 + 128),
          UInt8.ofNat (c.toNat % 64 + 128)]
      else
        [UInt8.ofNat (c.toNat / 262144 % 8 + 240),UInt8.ofNat (c.toNat / 4096 % 64 + 128),
          UInt8.ofNat (c.toNat / 64 % 64 + 128),UInt8.ofNat (c.toNat % 64 + 128)] := rfl
  rw [branches]
  split
  · simp only [List.mem_singleton]
    exact apart (by omega) rfl
  · split
    · simp only [List.mem_cons,List.not_mem_nil,or_false,not_or]
      exact ⟨apart (by omega) rfl,apart (by omega) rfl⟩
    · split
      · simp only [List.mem_cons,List.not_mem_nil,or_false,not_or]
        exact ⟨apart (by omega) rfl,apart (by omega) rfl,apart (by omega) rfl⟩
      · simp only [List.mem_cons,List.not_mem_nil,or_false,not_or]
        exact ⟨apart (by omega) rfl,apart (by omega) rfl,apart (by omega) rfl,apart (by omega) rfl⟩

theorem strBytesDelimited : Delimited strBytes := by
  refine Delimited.terminated (fun s inside => ?_) utf8Injective
  obtain ⟨c,_,byte⟩ := List.mem_flatMap.mp inside
  exact utf8Free byte

theorem leBytesDelimited : Delimited leBytes := by
  refine Delimited.fixed (n := 8) (fun value => by simp [leBytes]) fun v w same => ?_
  have small (x : UInt64) : x.toNat < 256 ^ 8 := x.toNat_lt
  refine UInt64.toNat_inj.mp (bytesDetermine (small v) (small w) fun i inside => ?_)
  have byte := congrArg (fun bytes => (bytes[i]?).map UInt8.toNat) same
  simp only [leBytes,List.getElem?_map,List.getElem?_range inside,Option.map_some] at byte
  have shift : 8 * i % 64 = 8 * i := Nat.mod_eq_of_lt (by omega)
  have power : 256 ^ i = 2 ^ (8 * i) := by rw [Nat.pow_mul]
  rw [power]
  simpa [UInt64.toNat_shiftRight,shift,Nat.shiftRight_eq_div_pow] using byte

theorem numberInjective {before after : String} {m n : Nat}
    (same : before ++ toString m ++ after = before ++ toString n ++ after) : m = n := by
  have digits : Nat.toDigits 10 m = Nat.toDigits 10 n := by
    simpa [Nat.toString_eq_ofList_toDigits] using congrArg String.toList same
  calc
    m = Nat.ofDigitChars 10 (Nat.toDigits 10 m) 0 := Nat.ofDigitChars_ten_toDigits.symm
    _ = Nat.ofDigitChars 10 (Nat.toDigits 10 n) 0 := by rw [digits]
    _ = n := Nat.ofDigitChars_ten_toDigits

theorem debugFactInitial (f : FactRef) : (debugFact f).toList.head? = some (match f with
    | .call _ => 'C'
    | .storageChange _ => 'S'
    | .log _ => 'L'
    | .tokenTransfer _ => 'T') := by
  unfold debugFact
  cases f with
  | call id =>
    simp only [show "Call(CallId(" = String.ofList _ from rfl,String.toList_append,String.toList_ofList]
    rfl
  | storageChange id =>
    simp only [show "StorageChange(StorageChangeId(" = String.ofList _ from rfl,String.toList_append,
      String.toList_ofList]
    rfl
  | log id =>
    simp only [show "Log(LogId(" = String.ofList _ from rfl,String.toList_append,String.toList_ofList]
    rfl
  | tokenTransfer id =>
    simp only [show "TokenTransfer(TokenTransferId(" = String.ofList _ from rfl,String.toList_append,
      String.toList_ofList]
    rfl

theorem debugFactInjective : Function.Injective debugFact := by
  intro f g same
  have initial := congrArg (fun s : String => s.toList.head?) same
  simp only [debugFactInitial] at initial
  cases f with
  | call id =>
    cases g with
    | call other =>
      exact congrArg (fun raw => FactRef.call ⟨raw⟩) (UInt32.toNat_inj.mp (numberInjective same))
    | _ => simp at initial
  | storageChange id =>
    cases g with
    | storageChange other =>
      exact congrArg (fun raw => FactRef.storageChange ⟨raw⟩) (UInt32.toNat_inj.mp (numberInjective same))
    | _ => simp at initial
  | log id =>
    cases g with
    | log other => exact congrArg (fun raw => FactRef.log ⟨raw⟩) (UInt32.toNat_inj.mp (numberInjective same))
    | _ => simp at initial
  | tokenTransfer id =>
    cases g with
    | tokenTransfer other =>
      exact congrArg (fun raw => FactRef.tokenTransfer ⟨raw⟩) (UInt32.toNat_inj.mp (numberInjective same))
    | _ => simp at initial

def bindingBytes (b : EvidenceBinding) : List UInt8 :=
  leBytes b.evidence.raw.toUInt64 ++ strBytes (debugFact b.fact)

def sortedBindings (bindings : List EvidenceBinding) : List EvidenceBinding :=
  bindings.insertionSort fun x y => x.evidence.index ≤ y.evidence.index

def byteStream (candidate : CandidateMatch) : List UInt8 :=
  strBytes candidate.patternId.text ++ (leBytes candidate.patternVersion.number.toUInt64 ++
    (sortedBindings candidate.bindings).flatMap bindingBytes)

theorem computeHash (candidate : CandidateMatch) :
    CandidateId.compute candidate = ⟨hashBytes (byteStream candidate)⟩ := by
  simp only [CandidateId.compute,hashBytes,byteStream,sortedBindings,bindingBytes,writeStrFold,writeU64Fold,
    List.foldl_append,List.foldl_flatMap]

theorem widenInjective {v w : UInt32} (same : v.toUInt64 = w.toUInt64) : v = w := by
  have value := congrArg UInt64.toNat same
  exact UInt32.toNat_inj.mp (by simpa using value)

theorem bindingBytesDelimited : Delimited bindingBytes := by
  intro x y r s same
  simp only [bindingBytes,List.append_assoc] at same
  obtain ⟨evidence,written⟩ := leBytesDelimited same
  obtain ⟨fact,rest⟩ := strBytesDelimited written
  have bound : x.evidence = y.evidence := congrArg EvidenceRef.mk (widenInjective evidence)
  have shown : x.fact = y.fact := debugFactInjective fact
  refine ⟨?_,rest⟩
  calc
    x = ⟨x.evidence,x.fact⟩ := rfl
    _ = ⟨y.evidence,y.fact⟩ := by rw [bound,shown]

theorem bindingBytesNonempty (b : EvidenceBinding) : bindingBytes b ≠ [] := by
  simp [bindingBytes,strBytes]

def DistinctEvidence (candidate : CandidateMatch) : Prop :=
  (candidate.bindings.map fun b => b.evidence.index).Nodup

structure SameIdentity (a b : CandidateMatch) : Prop where
  pattern : a.patternId = b.patternId
  version : a.patternVersion = b.patternVersion
  bindings : ∀ x, x ∈ a.bindings ↔ x ∈ b.bindings

theorem sortedPerm (bindings : List EvidenceBinding) : (sortedBindings bindings).Perm bindings :=
  List.perm_insertionSort _ _

theorem sortedSame {xs ys : List EvidenceBinding} (distinct : (xs.map fun b => b.evidence.index).Nodup)
    (same : xs.Perm ys) : sortedBindings xs = sortedBindings ys := by
  have perm := (sortedPerm xs).trans (same.trans (sortedPerm ys).symm)
  refine perm.eq_of_pairwise ?_ (List.pairwise_insertionSort _ _) (List.pairwise_insertionSort _ _)
  intro x y left right below above
  have inside := same.mem_iff.mpr ((sortedPerm ys).mem_iff.mp right)
  exact List.inj_on_of_nodup_map distinct ((sortedPerm xs).mem_iff.mp left) inside
    (Nat.le_antisymm below above)

variable {a b : CandidateMatch}

theorem streamSame (da : DistinctEvidence a) (db : DistinctEvidence b) :
    byteStream a = byteStream b ↔ SameIdentity a b := by
  constructor
  · intro same
    obtain ⟨pattern,rest⟩ := strBytesDelimited same
    obtain ⟨version,bound⟩ := leBytesDelimited rest
    have sorted := bindingBytesDelimited.flatMap bindingBytesNonempty bound
    refine ⟨congrArg PatternId.mk pattern,congrArg PatternVersion.mk (widenInjective version),fun x => ?_⟩
    rw [← (sortedPerm a.bindings).mem_iff,sorted,(sortedPerm b.bindings).mem_iff]
  · intro same
    have perm : a.bindings.Perm b.bindings :=
      (List.perm_ext_iff_of_nodup (List.Nodup.of_map _ da) (List.Nodup.of_map _ db)).mpr same.bindings
    rw [byteStream,byteStream,same.pattern,same.version,sortedSame da perm]

theorem identityExact (da : DistinctEvidence a) (db : DistinctEvidence b) :
    CandidateId.compute a = ⟨hashBytes (byteStream a)⟩ ∧
    (byteStream a = byteStream b ↔ SameIdentity a b) ∧
    (∀ bindings, bindings.Perm a.bindings →
      CandidateId.compute { a with bindings } = CandidateId.compute a) ∧
    (CandidateId.compute a = CandidateId.compute b →
      SameIdentity a b ∨ byteStream a ≠ byteStream b ∧ hashBytes (byteStream a) = hashBytes (byteStream b)) := by
  refine ⟨computeHash a,streamSame da db,?_,?_⟩
  · intro bindings perm
    have sorted : byteStream { a with bindings } = byteStream a := by
      rw [byteStream,byteStream,← sortedSame da perm.symm]
    rw [computeHash,computeHash,sorted]
  · intro same
    rw [computeHash,computeHash] at same
    by_cases equal : byteStream a = byteStream b
    · exact Or.inl ((streamSame da db).mp equal)
    · exact Or.inr ⟨equal,CandidateId.mk.inj same⟩

def boundInOrder (bindings : List EvidenceBinding) : CandidateMatch :=
  ⟨⟨"p"⟩,⟨1⟩,⟨"F"⟩,.low,bindings,⟨[],false⟩⟩

theorem identityExactReordered :
    let a := boundInOrder [⟨⟨0⟩,.call ⟨0⟩⟩,⟨⟨1⟩,.log ⟨0⟩⟩]
    let b := boundInOrder [⟨⟨1⟩,.log ⟨0⟩⟩,⟨⟨0⟩,.call ⟨0⟩⟩]
    DistinctEvidence a ∧ DistinctEvidence b ∧ byteStream a = byteStream b ∧
      CandidateId.compute a = CandidateId.compute b := by
  intro a b
  have distinct : DistinctEvidence a ∧ DistinctEvidence b := by
    unfold DistinctEvidence
    decide
  obtain ⟨first,second⟩ := distinct
  obtain ⟨_,streams,reordered,_⟩ := identityExact first second
  have perm : b.bindings.Perm a.bindings := List.Perm.swap _ _ []
  exact ⟨first,second,streams.mpr ⟨rfl,rfl,fun _ => perm.mem_iff.symm⟩,(reordered _ perm).symm⟩

end RootCause.Grounding
