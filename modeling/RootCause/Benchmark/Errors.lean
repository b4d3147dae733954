import RootCause.Grounding.Engine
import RootCause.Ingestion.Normalize

/-! The texts of the errors that a benchmark run records on a case. Each error wraps that
of the stage below it. -/
namespace RootCause.FactModel

def CallId.display (id : CallId) : String := "CallId#" ++ toString id.index
def StorageChangeId.display (id : StorageChangeId) : String := "StorageChangeId#" ++ toString id.index
def LogId.display (id : LogId) : String := "LogId#" ++ toString id.index
def TokenTransferId.display (id : TokenTransferId) : String := "TokenTransferId#" ++ toString id.index

def FactRef.display : FactRef → String
  | .call id => id.display
  | .storageChange id => id.display
  | .log id => id.display
  | .tokenTransfer id => id.display

def FactModelError.display : FactModelError → String
  | .emptyCallList =>
    "a trace's call list must contain at least one call (the root), but it was empty"
  | .multipleRootCalls _ secondRoot =>
    "expected exactly one root call (parent == None), found a second root at " ++ secondRoot.display
  | .firstCallIsNotRoot call =>
    "the first call in the arena must be the root (parent == None), but " ++ call.display ++ " has a parent"
  | .parentNotYetSeen call parent =>
    "call " ++ call.display ++ " references parent " ++ parent.display ++
      ", which does not precede it in the arena"
  | .inconsistentCallDepth call parent parentDepth actual expected =>
    "call " ++ call.display ++ " has depth " ++ toString actual.toNat ++ ", but its parent " ++
      parent.display ++ " has depth " ++ toString parentDepth.toNat ++ ", so " ++ call.display ++
      " should have depth " ++ toString expected.toNat
  | .storageChangeReferencesUnknownCall storageChange call =>
    "storage change " ++ storageChange.display ++ " references call " ++ call.display ++
      ", which does not exist in this arena"
  | .logReferencesUnknownCall log call =>
    "log " ++ log.display ++ " references call " ++ call.display ++ ", which does not exist in this arena"
  | .tokenTransferReferencesUnknownLog log =>
    "token transfer references log " ++ log.display ++ ", which does not exist in this arena"

end RootCause.FactModel

namespace RootCause.Ingestion

def IngestionError.display : IngestionError → String
  | .sourceUnavailable reason => "failed to load trace input: " ++ reason
  | .malformedInput reason => "malformed trace input: " ++ reason
  | .malformedField field value reason =>
    "field `" ++ field ++ "` has an invalid value `" ++ value ++ "`: " ++ reason
  | .missingRequired description => "missing required field or data: " ++ description
  | .unsupportedFeature reason => "unsupported trace feature: " ++ reason
  | .inconsistentStructure reason => "inconsistent trace structure: " ++ reason
  | .invalidStorageOwnership callPath declared expected =>
    "storage change in call at path " ++ callPath ++ " declares contract " ++ declared ++
      ", but the call's storage context is " ++ expected
  | .duplicateLogIndex logIndex =>
    "duplicate log index " ++ toString logIndex.toNat ++ ": appears more than once in this trace"
  | .arenaConstruction e => "internal fact-model construction failure: " ++ e.display
  | .traceConstruction reason => "internal trace construction failure: " ++ reason

end RootCause.Ingestion

namespace RootCause.Matcher

def MatcherError.display : MatcherError → String
  | .danglingEvidenceRef pattern evidenceRef =>
    "pattern `" ++ pattern.text ++ "` references evidence index " ++ toString evidenceRef.index ++
      " which does not exist in its own evidence list"

end RootCause.Matcher

namespace RootCause.Grounding

def GroundingError.display : GroundingError → String
  | .unsupportedVerifier kind =>
    "verifier registry has no verifiers registered at all (kind requested: `" ++ kind ++ "`)"
  | .missingFacts fact => "candidate cites " ++ fact.display ++ " which does not exist in the given trace"
  | .incompleteTrace candidateId candidateVersion givenId givenVersion =>
    "candidate was matched against pattern `" ++ candidateId.text ++ "` version v" ++
      toString candidateVersion.number.toNat ++ ", not the pattern `" ++ givenId.text ++ "` version v" ++
      toString givenVersion.number.toNat ++ " this call was given"
  | .verificationFailure evidence =>
    "evidence index " ++ toString evidence.index ++
      " is referenced with contradictory polarity in the pattern's constraint"

end RootCause.Grounding

namespace RootCause.Benchmark
open Ingestion Matcher Grounding

inductive BenchmarkError where
  | ingestion (caseId : String) (source : IngestionError)
  | matching (caseId patternId : String) (source : MatcherError)
  | grounding (caseId patternId : String) (source : GroundingError)
  | duplicateCaseId (suiteName caseId : String)
  deriving DecidableEq, Repr

def BenchmarkError.display : BenchmarkError → String
  | .ingestion caseId source => "case `" ++ caseId ++ "`: ingestion failed: " ++ source.display
  | .matching caseId patternId source =>
    "case `" ++ caseId ++ "`: pattern `" ++ patternId ++ "`: matching failed: " ++ source.display
  | .grounding caseId patternId source =>
    "case `" ++ caseId ++ "`: pattern `" ++ patternId ++ "`: grounding failed: " ++ source.display
  | .duplicateCaseId suiteName caseId =>
    "duplicate case id `" ++ caseId ++ "` in suite `" ++ suiteName ++ "`"

end RootCause.Benchmark
