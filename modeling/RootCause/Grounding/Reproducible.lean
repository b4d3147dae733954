import RootCause.Library.Stable
import RootCause.Grounding.Contradiction

/-! Grounding against the order in which hash sets are walked. The polarity list is sorted
and comes out the same from every order; the clause that a refusal names is the first one
met in an intersection, so it is determined only when there is a single candidate for it. -/
namespace RootCause.Library

def HashOrder.reversed : HashOrder := ⟨List.reverse,List.reverse_perm⟩

theorem HashOrder.intersectionReversed {α : Type} [DecidableEq α] (xs ys : List α) :
    reversed.intersection xs ys = (insertion.intersection xs ys).reverse := by
  unfold intersection reversed insertion
  split <;> exact List.filter_reverse

theorem HashOrder.intersectionDistinct {α : Type} [DecidableEq α] (order : HashOrder) {xs ys : List α}
    (left : xs.Nodup) (right : ys.Nodup) : (order.intersection xs ys).Nodup := by
  unfold intersection
  split
  · exact (order.nodupWalk left).filter _
  · exact (order.nodupWalk right).filter _

theorem headReversed {α : Type} {xs : List α} {a b : α} (distinct : xs.Nodup)
    (same : xs.head? = xs.reverse.head?) (left : a ∈ xs) (right : b ∈ xs) : a = b := by
  cases xs with
  | nil => simp at left
  | cons x rest =>
    cases rest with
    | nil => rw [List.mem_singleton.mp left,List.mem_singleton.mp right]
    | cons y rest =>
      rw [List.head?_reverse,List.head?_cons,List.getLast?_cons_cons] at same
      exact absurd (List.mem_of_getLast? same.symm) (List.nodup_cons.mp distinct).1

end RootCause.Library

namespace RootCause.Grounding
open Library FactModel Dsl Matcher

def signsOf (h : HashOrder) (constraint : CompiledConstraint) : List (EvidenceRef × Polarity) :=
  (h.walk (constraint.leaves true).dedup).map (fun e => (e,Polarity.positive)) ++
    (h.walk (constraint.leaves false).dedup).map fun e => (e,Polarity.negative)

theorem signsPerm (h h' : HashOrder) (constraint : CompiledConstraint) :
    (signsOf h constraint).Perm (signsOf h' constraint) := by
  have walks (xs : List EvidenceRef) : (h.walk xs).Perm (h'.walk xs) := (h.perm xs).trans (h'.perm xs).symm
  exact ((walks _).map _).append ((walks _).map _)

theorem signsMem {h : HashOrder} {constraint : CompiledConstraint} {x : EvidenceRef × Polarity}
    (mem : x ∈ signsOf h constraint) : x.1 ∈ constraint.leaves true ∧ x.2 = .positive ∨
      x.1 ∈ constraint.leaves false ∧ x.2 = .negative := by
  rcases List.mem_append.mp mem with above | below
  · obtain ⟨e,inside,rfl⟩ := List.mem_map.mp above
    exact .inl ⟨List.mem_dedup.mp (h.memWalk.mp inside),rfl⟩
  · obtain ⟨e,inside,rfl⟩ := List.mem_map.mp below
    exact .inr ⟨List.mem_dedup.mp (h.memWalk.mp inside),rfl⟩

theorem signsKeyed {h : HashOrder} {constraint : CompiledConstraint}
    (disjoint : ∀ e, ¬ TwoSigned constraint e) : ∀ x ∈ signsOf h constraint, ∀ y ∈ signsOf h constraint,
      x ≠ y → x.1.index ≠ y.1.index := by
  intro x hx y hy apart same
  have clause : x.1 = y.1 := by rw [← EvidenceRef.ofIndexIndex x.1,same,EvidenceRef.ofIndexIndex]
  rcases signsMem hx with ⟨xin,xsign⟩ | ⟨xin,xsign⟩
  · rcases signsMem hy with ⟨yin,ysign⟩ | ⟨yin,ysign⟩
    · exact apart (Prod.ext clause (xsign.trans ysign.symm))
    · exact disjoint x.1 ⟨xin,clause ▸ yin⟩
  · rcases signsMem hy with ⟨yin,ysign⟩ | ⟨yin,ysign⟩
    · exact disjoint x.1 ⟨clause ▸ yin,xin⟩
    · exact apart (Prod.ext clause (xsign.trans ysign.symm))

theorem analyzeSigns {h : HashOrder} {constraint : CompiledConstraint}
    (disjoint : ∀ e, ¬ TwoSigned constraint e) :
    analyze h constraint = .ok ((signsOf h constraint).insertionSort (ByKey fun entry => entry.1.index)) := by
  cases signs : analyze h constraint with
  | error e => exact absurd (analyzeRefuses signs) (disjoint e)
  | ok analyzed =>
    unfold analyze at signs
    simp only at signs
    split at signs
    · contradiction
    · exact signs.symm

theorem analyzeReproducible {constraint : CompiledConstraint}
    (single : ∀ e e', TwoSigned constraint e → TwoSigned constraint e' → e = e') (h h' : HashOrder) :
    analyze h constraint = analyze h' constraint := by
  by_cases some : ∃ e, TwoSigned constraint e
  · obtain ⟨e,left⟩ := analyzeRefusesIff (h := h).mpr some
    obtain ⟨e',right⟩ := analyzeRefusesIff (h := h').mpr some
    rw [left,right,single e e' (analyzeRefuses left) (analyzeRefuses right)]
  · have disjoint (e : EvidenceRef) : ¬ TwoSigned constraint e := fun signed => some ⟨e,signed⟩
    rw [analyzeSigns disjoint,analyzeSigns disjoint,
      sortDetermined (signsPerm h h' constraint) (signsKeyed disjoint)]

theorem analyzeDiffers {constraint : CompiledConstraint} {e e' : EvidenceRef} (apart : e ≠ e')
    (first : TwoSigned constraint e) (second : TwoSigned constraint e') :
    analyze .insertion constraint ≠ analyze .reversed constraint := by
  intro same
  have shared (e : EvidenceRef) (signed : TwoSigned constraint e) : e ∈ HashOrder.insertion.intersection
      (constraint.leaves true).dedup (constraint.leaves false).dedup := by
    rw [HashOrder.memIntersection,List.mem_dedup,List.mem_dedup]
    exact signed
  refine apart (headReversed (HashOrder.intersectionDistinct _ (List.nodup_dedup _) (List.nodup_dedup _)) ?_
    (shared e first) (shared e' second))
  obtain ⟨f,left⟩ := analyzeRefusesIff (h := .insertion).mpr ⟨e,first⟩
  have right := same ▸ left
  unfold analyze at left right
  simp only at left right
  split at left
  · rename_i found
    split at right
    · rename_i again
      rw [← HashOrder.intersectionReversed,found,again,Except.error.inj left,Except.error.inj right]
    · contradiction
  · contradiction

theorem groundReproducibleIff {u : UnicodeClasses} {p : CompiledPattern} (accepted : Accepted u p)
    (c : CandidateMatch) (trace : Trace) :
    (∀ h h', ground h c trace p = ground h' c trace p) ↔
      ¬ (Belongs c trace p ∧ ∃ e e', e ≠ e' ∧ TwoSigned p.constraint e ∧ TwoSigned p.constraint e') := by
  have wf := accepted.wellFormed
  constructor
  · intro same given
    obtain ⟨belongs,e,e',apart,first,second⟩ := given
    refine analyzeDiffers apart first second ?_
    obtain ⟨f,left⟩ := analyzeRefusesIff (h := .insertion).mpr ⟨e,first⟩
    have refused := (groundRefuses wf).mpr ⟨belongs,left⟩
    rw [same .insertion .reversed] at refused
    rw [left,((groundRefuses wf).mp refused).2]
  · intro safe h h'
    by_cases belongs : Belongs c trace p
    · have single (e e' : EvidenceRef) (first : TwoSigned p.constraint e)
          (second : TwoSigned p.constraint e') : e = e' := by
        by_contra apart
        exact safe ⟨belongs,e,e',apart,first,second⟩
      unfold ground GroundingEngine.ground
      rw [analyzeReproducible single h h']
    · rw [belongsOk] at belongs
      unfold ground GroundingEngine.ground
      cases named : checkCandidateMatchesPattern c p with
      | error other => rfl
      | ok _ =>
        cases cited : checkBindingsResolve c trace with
        | error other => rfl
        | ok _ => exact absurd ⟨named,cited⟩ belongs

set_option maxRecDepth 4000

def exclusiveSource : String := "pattern p version 1 \x7b family: F severity: Low evidence \x7b
  required a: storage(changed: true) required b: call(kind: Delegate) \x7d
  constraint: OR(AND(a, NOT(b)), AND(b, NOT(a))) \x7d"

/- The candidate of the write is refused for the clause that the walk meets first. -/
theorem exclusiveUnstable : ∃ p ∈ patternOf exclusiveSource, ∃ c ∈ candidatesOf exclusiveSource writingTrace,
    ground .insertion c writingTrace p = .error (.verificationFailure ⟨0⟩) ∧
    ground .reversed c writingTrace p = .error (.verificationFailure ⟨1⟩) := by
  rw [show exclusiveSource = String.ofList _ from rfl,candidatesOf,patternOfList]
  decide +kernel

theorem groundReproducibleBranches : ∃ p, patternOf branchesSource = some p ∧
    ∀ h h', ground h (bareCandidate p) writingTrace p = ground h' (bareCandidate p) writingTrace p := by
  have one : ∃ p ∈ patternOf branchesSource, p.constraint.leaves false = [⟨0⟩] := by
    rw [show branchesSource = String.ofList _ from rfl,patternOfList]
    decide +kernel
  obtain ⟨p,source,negated⟩ := one
  refine ⟨p,source,(groundReproducibleIff (patternOfAccepted source) _ _).mpr ?_⟩
  intro given
  obtain ⟨_,e,e',apart,first,second⟩ := given
  have single (e : EvidenceRef) (signed : TwoSigned p.constraint e) : e = ⟨0⟩ := by
    have below := signed.2
    rw [negated] at below
    exact List.mem_singleton.mp below
  exact apart ((single e first).trans (single e' second).symm)

end RootCause.Grounding
