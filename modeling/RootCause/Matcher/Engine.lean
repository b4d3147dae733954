import RootCause.Matcher.Predicate

/-! Candidate construction. The sequence is resolved greedily from the anchor's
occurrence, the `same_call` group after it, and the remaining positive leaves
take their first match. The order in which hash sets and maps are walked is a
parameter. -/
namespace RootCause.Matcher
open Library FactModel Dsl

structure EvidenceBinding where
  evidence : EvidenceRef
  fact : FactRef
  deriving DecidableEq, Repr

structure UnresolvedAttribute where
  evidence : EvidenceRef
  attr : String
  reason : String
  deriving DecidableEq, Repr

structure MatchMetadata where
  unresolvedAttributes : List UnresolvedAttribute
  sequenceChecked : Bool
  deriving DecidableEq, Repr

structure CandidateMatch where
  patternId : PatternId
  patternVersion : PatternVersion
  patternFamily : PatternFamily
  patternSeverity : Severity
  bindings : List EvidenceBinding
  metadata : MatchMetadata
  deriving DecidableEq, Repr

def CandidateMatch.factFor (c : CandidateMatch) (evidence : EvidenceRef) : Option FactRef :=
  (c.bindings.find? fun b => b.evidence = evidence).map EvidenceBinding.fact

inductive MatcherError where
  | danglingEvidenceRef (pattern : PatternId) (evidenceRef : EvidenceRef)
  deriving DecidableEq, Repr

def orderKey (trace : Trace) : FactRef → OrderKey
  | .call id => callOrder trace id
  | .storageChange id => (trace.arena.storageChange id).bind fun change => callOrder trace change.callId
  | .log id => logOrder trace id
  | .tokenTransfer id => (trace.arena.tokenTransfer id).bind fun transfer => logOrder trace transfer.logId

def producingCall (trace : Trace) : FactRef → Option CallId
  | .call id => some id
  | .storageChange id => (trace.arena.storageChange id).map StorageChange.callId
  | .log id => (trace.arena.log id).map LogEvent.callId
  | .tokenTransfer id => (trace.arena.tokenTransfer id).bind fun transfer =>
      (trace.arena.log transfer.logId).map LogEvent.callId

def holds (constraint : CompiledConstraint) (hasMatch : EvidenceRef → Bool) : Bool :=
  constraint.eval hasMatch

def positiveLeaves (constraint : CompiledConstraint) : List EvidenceRef := constraint.leaves true

/- The loop over the steps is the greedy choice under the running lower bound. -/
def resolve (sequence : CompiledSequence) (evidenceMatches : List (List Binding)) :
    Option (List Binding) := do
  let options ← sequence.steps.mapM fun step => evidenceMatches[step.index]?
  greedy Binding.order none options

def checkRef (pattern : CompiledPattern) (r : EvidenceRef) : Except MatcherError Unit :=
  if r.index < pattern.evidence.length then .ok () else .error (.danglingEvidenceRef pattern.id r)

def checkInBounds (pattern : CompiledPattern) : Except MatcherError Unit := do
  pattern.constraint.atoms.forM (checkRef pattern)
  ((pattern.sequence.map CompiledSequence.steps).getD []).forM (checkRef pattern)
  ((pattern.sameCall.map CompiledSameCall.members).getD []).forM (checkRef pattern)

def anchorIndex (pattern : CompiledPattern) : Option Nat :=
  match pattern.sequence with
  | some seq => seq.steps.head?.map EvidenceRef.index
  | none => (positiveLeaves pattern.constraint).head?.map EvidenceRef.index

def matchesAt (evidenceMatches : List (List Binding)) (idx : Nat) : List Binding :=
  (evidenceMatches[idx]?).getD []

/- One attempt of the engine: the matches of every clause and the occurrence of the
anchor it starts from. -/
structure Attempt where
  trace : Trace
  pattern : CompiledPattern
  evidenceMatches : List (List Binding)
  anchorIdx : Nat
  anchorBinding : Binding

namespace Attempt

def narrowed (a : Attempt) : List (List Binding) := a.evidenceMatches.set a.anchorIdx [a.anchorBinding]

def sequenceBindings (a : Attempt) : Option (HashMap Nat Binding) :=
  match a.pattern.sequence with
  | none => some ∅
  | some seq => (resolve seq a.narrowed).map fun resolved =>
      HashMap.collect ((seq.steps.map EvidenceRef.index).zip resolved)

def hasMatch (a : Attempt) (sequenceBindings : HashMap Nat Binding) (evidence : EvidenceRef) : Bool :=
  evidence.index = a.anchorIdx || (sequenceBindings.lookup evidence.index).isSome ||
    !(matchesAt a.evidenceMatches evidence.index).isEmpty

def fixedAt (a : Attempt) (sequenceBindings : HashMap Nat Binding) (idx : Nat) : Option Binding :=
  if idx = a.anchorIdx then some a.anchorBinding else sequenceBindings.lookup idx

def fixedMembers (a : Attempt) (sequenceBindings : HashMap Nat Binding) (members : List Nat) :
    HashMap Nat Binding := HashMap.insertSome (a.fixedAt sequenceBindings) members

/- The loop over the fixed members: their producing calls must exist and agree. -/
def commonCall (trace : Trace) : Option CallId → List Binding → Option (Option CallId)
  | target, [] => some target
  | target, b :: rest => do
    let callId ← producingCall trace b.fact
    match target with
    | none => commonCall trace (some callId) rest
    | some existing => if existing ≠ callId then none else commonCall trace target rest

/- Without a fixed member, the lowest member's first match supplies the target. -/
def seedGroup (a : Attempt) (members : List Nat) (resolved : HashMap Nat Binding) :
    Option CallId → Option (CallId × HashMap Nat Binding)
  | some target => some (target,resolved)
  | none => do
    let firstIdx ← members.min?
    let firstBinding ← (matchesAt a.evidenceMatches firstIdx).head?
    let callId ← producingCall a.trace firstBinding.fact
    some (callId,resolved.insert firstIdx firstBinding)

def matchFrom (a : Attempt) (target : CallId) (idx : Nat) : Option Binding :=
  (matchesAt a.evidenceMatches idx).find? fun b => producingCall a.trace b.fact = some target

def fillGroup (a : Attempt) (target : CallId) : List Nat → HashMap Nat Binding →
    Option (HashMap Nat Binding)
  | [], resolved => some resolved
  | idx :: rest, resolved =>
    if (resolved.lookup idx).isSome then fillGroup a target rest resolved
    else do
      let chosen ← a.matchFrom target idx
      fillGroup a target rest (resolved.insert idx chosen)

def resolveSameCall (h : HashOrder) (a : Attempt) (sameCall : CompiledSameCall)
    (sequenceBindings : HashMap Nat Binding) : Option (HashMap Nat Binding) := do
  let members := sameCall.members.map EvidenceRef.index
  let fixed := a.fixedMembers sequenceBindings members
  let target ← commonCall a.trace none (h.walk fixed.values)
  let (target,resolved) ← a.seedGroup members fixed target
  a.fillGroup target members resolved

def sameCallBindings (h : HashOrder) (a : Attempt) (sequenceBindings : HashMap Nat Binding) :
    Option (HashMap Nat Binding) :=
  match a.pattern.sameCall with
  | some sameCall => a.resolveSameCall h sameCall sequenceBindings
  | none => some ∅

def referenced (h : HashOrder) (a : Attempt) (sequenceBindings sameCallBindings : HashMap Nat Binding) :
    List Nat :=
  h.walk (((positiveLeaves a.pattern.constraint).map EvidenceRef.index ++ [a.anchorIdx] ++
    h.walk sequenceBindings.keys ++ h.walk sameCallBindings.keys).dedup)

def chosen (a : Attempt) (sequenceBindings sameCallBindings : HashMap Nat Binding) (idx : Nat) :
    Option Binding :=
  if idx = a.anchorIdx then some a.anchorBinding
  else (sequenceBindings.lookup idx).or
    ((sameCallBindings.lookup idx).or (matchesAt a.evidenceMatches idx).head?)

def unresolvedReason : String :=
  "this attribute describes a semantic classification with no " ++
    "corresponding structural fact in fact-model; matcher did not filter on it"

def assemble (h : HashOrder) (a : Attempt) (sequenceBindings sameCallBindings : HashMap Nat Binding) :
    CandidateMatch :=
  let picked := (a.referenced h sequenceBindings sameCallBindings).filterMap fun idx =>
    (a.chosen sequenceBindings sameCallBindings idx).map fun b => (EvidenceRef.ofIndex idx,b)
  { patternId := a.pattern.id
    patternVersion := a.pattern.version
    patternFamily := a.pattern.family
    patternSeverity := a.pattern.severity
    bindings := (picked.map fun entry => EvidenceBinding.mk entry.1 entry.2.fact).insertionSort
      fun x y => x.evidence.index ≤ y.evidence.index
    metadata := {
      unresolvedAttributes := (picked.flatMap fun entry => entry.2.unresolvedAttrs.map fun attr =>
        UnresolvedAttribute.mk entry.1 attr unresolvedReason).insertionSort
          fun x y => x.evidence.index ≤ y.evidence.index
      sequenceChecked := a.pattern.sequence.isSome } }

def tryBuildCandidate (h : HashOrder) (a : Attempt) : Option CandidateMatch := do
  let sequenceBindings ← a.sequenceBindings
  if holds a.pattern.constraint (a.hasMatch sequenceBindings) then
    let sameCallBindings ← a.sameCallBindings h sequenceBindings
    some (a.assemble h sequenceBindings sameCallBindings)
  else none

end Attempt

def globalCandidate (pattern : CompiledPattern) (evidenceMatches : List (List Binding)) :
    Option CandidateMatch :=
  -- The group is not looked at here, and the sequence only for whether there is one.
  if holds pattern.constraint fun evidence => !(matchesAt evidenceMatches evidence.index).isEmpty then
    some ⟨pattern.id,pattern.version,pattern.family,pattern.severity,[],⟨[],pattern.sequence.isSome⟩⟩
  else none

def evidenceMatches (trace : Trace) (index : TraceIndex) (pattern : CompiledPattern) :
    List (List Binding) := pattern.evidence.map fun ev => evaluate trace index ev.predicate

def findCandidates (h : HashOrder) (trace : Trace) (index : TraceIndex) (pattern : CompiledPattern) :
    Except MatcherError (List CandidateMatch) := do
  checkInBounds pattern
  let evidenceMatches := evidenceMatches trace index pattern
  match anchorIndex pattern with
  | none => pure (globalCandidate pattern evidenceMatches).toList
  | some anchorIdx => pure ((matchesAt evidenceMatches anchorIdx).filterMap fun anchorBinding =>
      Attempt.tryBuildCandidate h ⟨trace,pattern,evidenceMatches,anchorIdx,anchorBinding⟩)

def findAllMatches (h : HashOrder) (trace : Trace) (index : TraceIndex) (patterns : List CompiledPattern) :
    Except MatcherError (List CandidateMatch) :=
  patterns.foldlM (fun all pattern => do
    let found ← findCandidates h trace index pattern
    pure (all ++ found)) []

end RootCause.Matcher
