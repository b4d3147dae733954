import RootCause.Matcher.Attempt

/-! The greedy resolution of a sequence against every possible choice: it finds one
whenever there is one, and what it finds is one. -/
namespace RootCause.Matcher
open Library FactModel Dsl

structure InOrder (sequence : CompiledSequence) (evidenceMatches : List (List Binding))
    (choice : List Binding) : Prop where
  chosen : List.Forall₂ (fun step b => ∃ options, evidenceMatches[step.index]? = some options ∧ b ∈ options)
    sequence.steps choice
  ordered : (choice.map Binding.order).reduceOption.Pairwise (· ≤ ·)

theorem chosenOptions {ms : List (List Binding)} {steps : List EvidenceRef} {choice : List Binding} :
    List.Forall₂ (fun step b => ∃ options, ms[step.index]? = some options ∧ b ∈ options) steps choice ↔
      ∃ options, steps.mapM (fun step => ms[step.index]?) = some options ∧
        List.Forall₂ (· ∈ ·) choice options := by
  induction steps generalizing choice with
  | nil => cases choice <;> simp
  | cons step rest ih =>
    rw [List.mapM_cons]
    simp only [Option.bind_eq_bind,Option.bind_eq_some_iff,Option.pure_def,Option.some.injEq]
    constructor
    · intro given
      obtain _ | ⟨⟨first,found,mem⟩,later⟩ := given
      obtain ⟨others,listed,each⟩ := ih.mp later
      exact ⟨_,⟨first,found,others,listed,rfl⟩,.cons mem each⟩
    · intro given
      obtain ⟨_,⟨first,found,others,listed,rfl⟩,each⟩ := given
      obtain _ | ⟨mem,later⟩ := each
      exact .cons ⟨first,found,mem⟩ (ih.mpr ⟨others,listed,later⟩)

theorem resolveExact (sequence : CompiledSequence) (evidenceMatches : List (List Binding))
    (sorted : ∀ options ∈ evidenceMatches, options.Pairwise fun a b => keyLe a.order b.order = true) :
    ((∃ out, resolve sequence evidenceMatches = some out) ↔
      ∃ choice, InOrder sequence evidenceMatches choice) ∧
    ∀ out, resolve sequence evidenceMatches = some out → InOrder sequence evidenceMatches out := by
  have sound : ∀ out, resolve sequence evidenceMatches = some out →
      InOrder sequence evidenceMatches out := by
    intro out found
    obtain ⟨options,listed,greedily⟩ := Option.bind_eq_some_iff.mp found
    obtain ⟨member,chain⟩ := greedySound greedily
    exact ⟨chosenOptions.mpr ⟨options,listed,member⟩,chainFromNone.mp chain⟩
  refine ⟨⟨fun ⟨out,found⟩ => ⟨out,sound out found⟩,?_⟩,sound⟩
  intro given
  obtain ⟨choice,inOrder⟩ := given
  obtain ⟨options,listed,member⟩ := chosenOptions.mp inOrder.chosen
  have each : ∀ o ∈ options, o.Pairwise fun a b => keyLe a.order b.order = true := by
    intro o mem
    obtain ⟨_,rfl⟩ := Attempt.mapMMatches.mp listed
    obtain ⟨step,_,rfl⟩ := List.mem_map.mp mem
    unfold matchesAt
    cases at' : evidenceMatches[step.index]? with
    | none => exact .nil
    | some o => exact sorted o (List.mem_of_getElem? at')
  obtain ⟨out,found⟩ := greedyComplete (keyLeRefl none) each member (chainFromNone.mpr inOrder.ordered)
  exact ⟨out,by rw [resolve,listed]; exact found⟩

def sampleMatches : List (List Binding) :=
  [[⟨.call ⟨0⟩,none,[]⟩],[⟨.call ⟨1⟩,some 1,[]⟩,⟨.call ⟨4⟩,some 4,[]⟩],[⟨.call ⟨2⟩,some 2,[]⟩]]

def sampleSequence : CompiledSequence := ⟨[⟨0⟩,⟨2⟩,⟨1⟩],none⟩

theorem resolveExactSample : ∃ out, resolve sampleSequence sampleMatches = some out ∧
    InOrder sampleSequence sampleMatches out := by
  have exact' := resolveExact sampleSequence sampleMatches (by decide)
  obtain ⟨out,found⟩ := Option.isSome_iff_exists.mp
    (by decide : (resolve sampleSequence sampleMatches).isSome = true)
  exact ⟨out,found,exact'.2 out found⟩

end RootCause.Matcher
