import RootCause.Matcher.Engine

/-! Polarity of the clauses in the constraint, and the verification of one clause
by evaluating its predicate afresh. -/
namespace RootCause.Grounding
open Library FactModel Dsl Matcher

inductive GroundingStatus where
  | grounded
  | ungrounded
  | abstain
  deriving DecidableEq, Repr

def GroundingStatus.display : GroundingStatus → String
  | .grounded => "grounded"
  | .ungrounded => "ungrounded"
  | .abstain => "abstain"

inductive EvidenceOutcome where
  | verified
  | failed
  | unavailable
  | unsupported
  deriving DecidableEq, Repr

inductive AbstentionCategory where
  | missingFact
  | unresolvableLayout
  | ambiguousAttribution
  | structuralMismatch
  deriving DecidableEq, Repr

inductive Polarity where
  | positive
  | negative
  | unreferenced
  deriving DecidableEq, Repr

/- Two hash sets are filled by `walk`; a clause in both is an error. -/
def analyze (h : HashOrder) (constraint : CompiledConstraint) :
    Except EvidenceRef (List (EvidenceRef × Polarity)) :=
  let positive := (constraint.leaves true).dedup
  let negative := (constraint.leaves false).dedup
  match (h.intersection positive negative).head? with
  | some evidence => .error evidence
  | none => .ok (((h.walk positive).map (fun e => (e,Polarity.positive)) ++
      (h.walk negative).map (fun e => (e,Polarity.negative))).insertionSort
        fun x y => x.1.index ≤ y.1.index)

def polarityOf (analyzed : List (EvidenceRef × Polarity)) (evidence : EvidenceRef) : Polarity :=
  ((analyzed.find? fun entry => entry.1 = evidence).map Prod.snd).getD .unreferenced

structure VerifierOutcome where
  outcome : EvidenceOutcome
  fact : Option FactRef
  unresolvedAttrs : List String
  reason : String
  deriving DecidableEq, Repr

def verifyViaMatcherPredicate (trace : Trace) (index : TraceIndex) (p : CompiledPredicate)
    (polarity : Polarity) (citedFact : Option FactRef) : VerifierOutcome :=
  match evaluate trace index p with
  | [] =>
    -- A predicate with a literal that does not parse ends here too.
    if polarity = .negative then
      ⟨.verified,none,[],
        "no fact in the trace satisfies this predicate, confirming the required absence"⟩
    else ⟨.unavailable,none,[],"no fact in the trace satisfies this predicate"⟩
  | first :: rest =>
    let count := toString (rest.length + 1)
    if first.unresolvedAttrs ≠ [] then
      ⟨.unsupported,none,first.unresolvedAttrs,
        count ++ " matching fact(s) exist, but attribute(s) " ++
          ", ".intercalate first.unresolvedAttrs ++ " cannot be structurally " ++
          "verified against fact-model data, so neither presence nor absence can be " ++
          "confirmed with confidence"⟩
    else if polarity = .negative then
      ⟨.failed,some first.fact,[],
        count ++ " fact(s) satisfy this predicate, contradicting the pattern's requirement " ++
          "that it be absent"⟩
    else match citedFact with
      | some cited =>
        if (first :: rest).any fun b => b.fact = cited then
          ⟨.verified,some cited,[],
            "the candidate's cited fact was independently re-confirmed against the trace"⟩
        else ⟨.failed,some cited,[],
            "the candidate cited a fact that does not actually satisfy this predicate " ++
              "under independent re-verification"⟩
      | none => ⟨.verified,some first.fact,[],
          "the candidate did not cite a fact for this clause; grounding found and " ++
            "verified its own supporting fact"⟩

abbrev Verifier := Trace → TraceIndex → CompiledPredicate → Polarity → Option FactRef → VerifierOutcome

abbrev VerifierRegistry := HashMap String Verifier

def withDefaultVerifiers : VerifierRegistry := HashMap.collect [
  ("call",verifyViaMatcherPredicate),
  ("storage",verifyViaMatcherPredicate),
  ("value_flow",verifyViaMatcherPredicate),
  ("token_transfer",verifyViaMatcherPredicate),
  ("transaction",verifyViaMatcherPredicate),
  ("log",verifyViaMatcherPredicate)]

end RootCause.Grounding
