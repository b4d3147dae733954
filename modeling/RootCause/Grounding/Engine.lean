import RootCause.Grounding.Verifier

/-! The grounding engine: every clause is verified in declaration order, the
sequence and the `same_call` group are checked on the resulting chain, and the
status is decided by the required clauses and these two checks. -/
namespace RootCause.Grounding
open Library FactModel Dsl Matcher

inductive GroundingError where
  | unsupportedVerifier (kind : String)
  | missingFacts (fact : FactRef)
  | incompleteTrace (candidatePatternId : PatternId) (candidatePatternVersion : PatternVersion)
      (givenPatternId : PatternId) (givenPatternVersion : PatternVersion)
  | verificationFailure (evidence : EvidenceRef)
  deriving DecidableEq, Repr

structure EvidenceVerification where
  evidence : EvidenceRef
  name : String
  requiredness : Requiredness
  polarity : Polarity
  outcome : EvidenceOutcome
  facts : List FactRef
  reason : String
  notes : List String
  deriving DecidableEq, Repr

structure AbstainReason where
  category : AbstentionCategory
  evidence : Option EvidenceRef
  detail : String
  deriving DecidableEq, Repr

structure ConfidenceMetadata where
  requiredTotal : Nat
  requiredVerified : Nat
  optionalTotal : Nat
  optionalVerified : Nat
  sequenceVerified : Option Bool
  sameCallVerified : Option Bool
  deriving DecidableEq, Repr

structure CandidateId where
  raw : UInt64
  deriving DecidableEq, Repr

structure GroundingResult where
  patternId : PatternId
  patternVersion : PatternVersion
  patternFamily : PatternFamily
  patternSeverity : Severity
  candidateId : CandidateId
  status : GroundingStatus
  verifiedEvidence : List EvidenceRef
  failedEvidence : List EvidenceRef
  unavailableEvidence : List EvidenceRef
  unsupportedEvidence : List EvidenceRef
  confidence : ConfidenceMetadata
  unresolvedAttributes : List UnresolvedAttribute
  evidenceChain : List EvidenceVerification
  abstainReasons : List AbstainReason
  explanation : String
  deriving DecidableEq, Repr

namespace Fnv1a

def offsetBasis : UInt64 := 0xcbf29ce484222325
def prime : UInt64 := 0x00000100000001B3

def writeByte (state : UInt64) (byte : UInt8) : UInt64 := (state ^^^ byte.toUInt64) * prime

def writeStr (state : UInt64) (s : String) : UInt64 :=
  writeByte ((s.toList.flatMap String.utf8EncodeChar).foldl writeByte state) 0xff

def writeU64 (state : UInt64) (value : UInt64) : UInt64 :=
  (List.range 8).foldl
    (fun state i => writeByte state (value >>> UInt64.ofNat (8 * i)).toUInt8) state

end Fnv1a

/- The derived `Debug` text of a fact reference. -/
def debugFact : FactRef → String
  | .call id => "Call(CallId(" ++ toString id.raw.toNat ++ "))"
  | .storageChange id => "StorageChange(StorageChangeId(" ++ toString id.raw.toNat ++ "))"
  | .log id => "Log(LogId(" ++ toString id.raw.toNat ++ "))"
  | .tokenTransfer id => "TokenTransfer(TokenTransferId(" ++ toString id.raw.toNat ++ "))"

def CandidateId.compute (candidate : CandidateMatch) : CandidateId :=
  let bindings := candidate.bindings.insertionSort fun x y => x.evidence.index ≤ y.evidence.index
  let header := Fnv1a.writeU64 (Fnv1a.writeStr Fnv1a.offsetBasis candidate.patternId.text)
    candidate.patternVersion.number.toUInt64
  ⟨bindings.foldl (fun state b => Fnv1a.writeStr (Fnv1a.writeU64 state b.evidence.raw.toUInt64)
    (debugFact b.fact)) header⟩

structure GroundingEngine where
  registry : VerifierRegistry

def GroundingEngine.new : GroundingEngine := ⟨withDefaultVerifiers⟩

def checkCandidateMatchesPattern (candidate : CandidateMatch) (pattern : CompiledPattern) :
    Except GroundingError Unit :=
  if candidate.patternId = pattern.id ∧ candidate.patternVersion = pattern.version then .ok ()
  else .error (.incompleteTrace candidate.patternId candidate.patternVersion pattern.id pattern.version)

def factResolves (trace : Trace) : FactRef → Bool
  | .call id => (trace.arena.call id).isSome
  | .storageChange id => (trace.arena.storageChange id).isSome
  | .log id => (trace.arena.log id).isSome
  | .tokenTransfer id => (trace.arena.tokenTransfer id).isSome

def checkBindingsResolve (candidate : CandidateMatch) (trace : Trace) : Except GroundingError Unit :=
  candidate.bindings.forM fun binding =>
    if factResolves trace binding.fact then .ok () else .error (.missingFacts binding.fact)

namespace GroundingEngine

def verifyOne (engine : GroundingEngine) (trace : Trace) (index : TraceIndex) (kind : String)
    (decl : CompiledEvidence) (polarity : Polarity) (citedFact : Option FactRef) :
    Except GroundingError VerifierOutcome :=
  match engine.registry.lookup kind with
  | some verify => .ok (verify trace index decl.predicate polarity citedFact)
  | none =>
    if engine.registry.entries.isEmpty then .error (.unsupportedVerifier kind)
    else .ok ⟨.unsupported,none,[],
      "no verifier is registered for predicate kind `" ++ kind ++ "`; this evidence " ++
        "clause cannot be independently checked"⟩

def verifyEntry (engine : GroundingEngine) (trace : Trace) (index : TraceIndex)
    (candidate : CandidateMatch) (analyzed : List (EvidenceRef × Polarity))
    (entry : CompiledEvidence × Nat) : Except GroundingError EvidenceVerification := do
  let decl := entry.1
  let evidence := EvidenceRef.ofIndex entry.2
  let polarity := polarityOf analyzed evidence
  let outcome ← engine.verifyOne trace index decl.predicate.kind decl polarity
    (candidate.factFor evidence)
  pure ⟨evidence,decl.name,decl.requiredness,polarity,outcome.outcome,outcome.fact.toList,
    outcome.reason,outcome.unresolvedAttrs.map fun a =>
      "attribute `" ++ a ++ "` could not be structurally resolved"⟩

def verifyAllEvidence (engine : GroundingEngine) (trace : Trace) (index : TraceIndex)
    (pattern : CompiledPattern) (candidate : CandidateMatch)
    (analyzed : List (EvidenceRef × Polarity)) : Except GroundingError (List EvidenceVerification) :=
  pattern.evidence.zipIdx.mapM (engine.verifyEntry trace index candidate analyzed)

end GroundingEngine

/- The loop shared by the two structural checks: each reference's entry is verified
and cites a fact from which `view` reads what is compared. -/
def collectViews {α : Type} (chain : List EvidenceVerification)
    (view : FactRef → Except EvidenceOutcome α) : List EvidenceRef → Except EvidenceOutcome (List α)
  | [] => .ok []
  | r :: rest => do
    match chain.find? fun e => e.evidence = r with
    | none => .error .unsupported
    | some entry =>
      match entry.outcome with
      | .verified =>
        match entry.facts.head? with
        | none => .error .unsupported
        | some fact => do
          let key ← view fact
          let tail ← collectViews chain view rest
          pure (key :: tail)
      | other => .error other

def checkViews {α : Type} (test : List α → Bool) : Except EvidenceOutcome (List α) → EvidenceOutcome
  | .error outcome => outcome
  | .ok keys => if test keys then .verified else .failed

def nonDecreasing : Option Nat → List Nat → Bool
  | _, [] => true
  | lowerBound, k :: rest =>
    if lowerBound.any fun bound => k < bound then false else nonDecreasing (some k) rest

def verifySequence (trace : Trace) (pattern : CompiledPattern) (chain : List EvidenceVerification) :
    Option EvidenceOutcome :=
  pattern.sequence.map fun sequence =>
    checkViews (fun keys => nonDecreasing none keys.reduceOption)
      (collectViews chain (fun fact => .ok (orderKey trace fact)) sequence.steps)

def allSame : List CallId → Bool
  | a :: b :: rest => a = b && allSame (b :: rest)
  | _ => true

def callView (trace : Trace) (fact : FactRef) : Except EvidenceOutcome CallId :=
  ((producingCall trace fact).map Except.ok).getD (.error .unavailable)

def verifySameCall (trace : Trace) (pattern : CompiledPattern) (chain : List EvidenceVerification) :
    Option EvidenceOutcome :=
  pattern.sameCall.map fun sameCall =>
    checkViews allSame (collectViews chain (callView trace) sameCall.members)

def computeConfidence (pattern : CompiledPattern) (chain : List EvidenceVerification)
    (sequenceOutcome sameCallOutcome : Option EvidenceOutcome) : ConfidenceMetadata :=
  let entries := pattern.evidence.zip chain
  let required := entries.filter fun e => e.1.requiredness = .required
  let optional := entries.filter fun e => e.1.requiredness = .optional
  ⟨required.length,required.countP fun e => e.2.outcome = .verified,
    optional.length,optional.countP fun e => e.2.outcome = .verified,
    sequenceOutcome.map (· = .verified),sameCallOutcome.map (· = .verified)⟩

/- What the status aggregation collects: whether something is uncertain, whether
something failed, and the reasons. -/
structure Findings where
  uncertain : Bool
  failed : Bool
  reasons : List AbstainReason
  deriving DecidableEq, Repr

def Findings.append (a b : Findings) : Findings :=
  ⟨a.uncertain || b.uncertain,a.failed || b.failed,a.reasons ++ b.reasons⟩

def entryFindings (entry : EvidenceVerification) : Findings :=
  match entry.outcome with
  | .unavailable => ⟨true,false,[⟨.missingFact,some entry.evidence,entry.reason⟩]⟩
  | .unsupported => ⟨true,false,[⟨.unresolvableLayout,some entry.evidence,entry.reason⟩]⟩
  | .failed => ⟨false,true,[⟨.structuralMismatch,some entry.evidence,entry.reason⟩]⟩
  | .verified => ⟨false,false,[]⟩

def checkFindings (unconfirmed refuted : String) : Option EvidenceOutcome → Findings
  | some .unavailable | some .unsupported => ⟨true,false,[⟨.ambiguousAttribution,none,unconfirmed⟩]⟩
  | some .failed => ⟨false,true,[⟨.ambiguousAttribution,none,refuted⟩]⟩
  | some .verified | none => ⟨false,false,[]⟩

def sequenceFindings : Option EvidenceOutcome → Findings :=
  checkFindings "the pattern's sequence constraint could not be independently re-confirmed"
    ("the pattern's sequence constraint was independently re-checked and " ++
      "does not hold for these facts' actual execution order")

def sameCallFindings : Option EvidenceOutcome → Findings :=
  checkFindings "the pattern's same_call constraint could not be independently re-confirmed"
    ("the pattern's same_call constraint was independently re-checked and " ++
      "the cited facts do not share a CallId")

def aggregateStatus (chain : List EvidenceVerification)
    (sequenceOutcome sameCallOutcome : Option EvidenceOutcome) : GroundingStatus × List AbstainReason :=
  let required := chain.filter fun e => e.requiredness = .required
  let found := ((required.map entryFindings).foldl Findings.append ⟨false,false,[]⟩).append
    ((sequenceFindings sequenceOutcome).append (sameCallFindings sameCallOutcome))
  let status := if found.uncertain then .abstain else if found.failed then .ungrounded else .grounded
  (status,if status = .abstain then found.reasons else [])

/- The attribute name between the backticks of a note. -/
def noteAttribute (note : String) : Option String :=
  let lead := "attribute `".toList
  if lead.isPrefixOf note.toList then
    some (String.ofList ((note.toList.drop lead.length).takeWhile fun c => c ≠ Char.ofNat 96))
  else none

def mergeStep (merged : List UnresolvedAttribute) (attr : UnresolvedAttribute) :
    List UnresolvedAttribute :=
  if merged.any fun m => m.evidence = attr.evidence && m.attr = attr.attr then merged
  else merged ++ [attr]

def mergeUnresolvedAttributes (candidate : CandidateMatch) (chain : List EvidenceVerification) :
    List UnresolvedAttribute :=
  let noted := (chain.filter fun e => e.outcome = .unsupported).flatMap fun entry =>
    entry.notes.filterMap fun note => (noteAttribute note).map fun name =>
      UnresolvedAttribute.mk entry.evidence name entry.reason
  (candidate.metadata.unresolvedAttributes ++ noted).foldl mergeStep []

def checkNote (confirmed unconfirmed : String) : Option EvidenceOutcome → String
  | some .verified => confirmed
  | some _ => unconfirmed
  | none => ""

def explain (pattern : CompiledPattern) (status : GroundingStatus) (chain : List EvidenceVerification)
    (sequenceOutcome sameCallOutcome : Option EvidenceOutcome) : String :=
  let required := chain.filter fun e => e.requiredness = .required
  let verified := required.countP fun e => e.outcome = .verified
  "pattern `" ++ pattern.id.text ++ "` v" ++ toString pattern.version.number.toNat ++ ": " ++
    status.display ++ " (" ++ toString verified ++ "/" ++ toString required.length ++
    " required evidence clauses verified)." ++
    checkNote " sequence ordering confirmed." " sequence ordering could not be confirmed."
      sequenceOutcome ++
    checkNote " same_call correlation confirmed." " same_call correlation could not be confirmed."
      sameCallOutcome

def evidenceWith (outcome : EvidenceOutcome) (chain : List EvidenceVerification) : List EvidenceRef :=
  (chain.filter fun e => e.outcome = outcome).map EvidenceVerification.evidence

def buildResult (candidate : CandidateMatch) (pattern : CompiledPattern)
    (chain : List EvidenceVerification) (sequenceOutcome sameCallOutcome : Option EvidenceOutcome) :
    GroundingResult :=
  let aggregated := aggregateStatus chain sequenceOutcome sameCallOutcome
  { patternId := pattern.id
    patternVersion := pattern.version
    patternFamily := pattern.family
    patternSeverity := pattern.severity
    candidateId := .compute candidate
    status := aggregated.1
    verifiedEvidence := evidenceWith .verified chain
    failedEvidence := evidenceWith .failed chain
    unavailableEvidence := evidenceWith .unavailable chain
    unsupportedEvidence := evidenceWith .unsupported chain
    confidence := computeConfidence pattern chain sequenceOutcome sameCallOutcome
    unresolvedAttributes := mergeUnresolvedAttributes candidate chain
    evidenceChain := chain
    abstainReasons := aggregated.2
    explanation := explain pattern aggregated.1 chain sequenceOutcome sameCallOutcome }

def GroundingEngine.ground (engine : GroundingEngine) (h : HashOrder) (candidate : CandidateMatch)
    (trace : Trace) (pattern : CompiledPattern) : Except GroundingError GroundingResult := do
  checkCandidateMatchesPattern candidate pattern
  checkBindingsResolve candidate trace
  let analyzed ← match analyze h pattern.constraint with
    | .ok analyzed => .ok analyzed
    | .error evidence => .error (.verificationFailure evidence)
  let chain ← engine.verifyAllEvidence trace (.build trace) pattern candidate analyzed
  pure (buildResult candidate pattern chain (verifySequence trace pattern chain)
    (verifySameCall trace pattern chain))

def ground (h : HashOrder) (candidate : CandidateMatch) (trace : Trace) (pattern : CompiledPattern) :
    Except GroundingError GroundingResult := GroundingEngine.new.ground h candidate trace pattern

/- The first pattern with the identity that the candidate carries. -/
def patternFor (patterns : List CompiledPattern) (candidate : CandidateMatch) : Option CompiledPattern :=
  patterns.find? fun p => p.id = candidate.patternId && p.version = candidate.patternVersion

def groundAll (h : HashOrder) (candidates : List CandidateMatch) (trace : Trace)
    (patterns : List CompiledPattern) : Except GroundingError (List GroundingResult) :=
  candidates.mapM fun candidate => do
    let pattern ← match patternFor patterns candidate with
      | some pattern => .ok pattern
      | none => .error (.incompleteTrace candidate.patternId candidate.patternVersion
          candidate.patternId candidate.patternVersion)
    GroundingEngine.new.ground h candidate trace pattern

end RootCause.Grounding
