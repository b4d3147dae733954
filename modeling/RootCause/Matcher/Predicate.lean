import RootCause.Dsl.Ir
import RootCause.Library.Chain
import RootCause.Matcher.Index

/-! Evaluation of one predicate on a trace: the facts that pass every filter, as
bindings sorted by order. The `transaction` kind describes no single point of
the execution, so its binding has no order. -/
namespace RootCause.Matcher
open Library FactModel Dsl

abbrev OrderKey := Option Nat

structure Binding where
  fact : FactRef
  order : OrderKey
  unresolvedAttrs : List String
  deriving DecidableEq, Repr

def anchor (trace : Trace) : Address := trace.transaction.sender

def ident (p : CompiledPredicate) (name : String) : Option String :=
  match p.attr name with
  | some (.ident s) => some s
  | _ => none

def boolAttr (p : CompiledPredicate) (name : String) : Option Bool :=
  match p.attr name with
  | some (.bool b) => some b
  | _ => none

def intAttr (p : CompiledPredicate) (name : String) : Option Int64 :=
  match p.attr name with
  | some (.int i) => some i
  | _ => none

def strAttr (p : CompiledPredicate) (name : String) : Option String :=
  match p.attr name with
  | some (.str s) => some s
  | _ => none

def callKindMatches (kind : CallKind) (ident : String) : Bool :=
  match kind with
  | .call => ident = "External"
  | .staticCall => ident = "StaticCall"
  | .delegateCall | .callCode => ident = "Delegate"
  | .create | .create2 => ident = "Create"
  | .selfdestruct => ident = "SelfDestruct"

/- The `while let` loop over parents; a chain of distinct calls is no longer than
the list of calls. -/
def ancestorLoop (arena : FactArena) (ident : String) : Nat → Option CallId → Bool
  | 0, _ => false
  | _, none => false
  | fuel + 1, some callId =>
    match arena.call callId with
    | none => false
    | some call => callKindMatches call.kind ident || ancestorLoop arena ident fuel call.parent

def hasAncestorOfKind (trace : Trace) (start : CallId) (ident : String) : Bool :=
  ancestorLoop trace.arena ident (trace.arena.calls.length + 1)
    ((trace.arena.call start).bind Call.parent)

def toDigit16 (byte : UInt8) : Option Nat :=
  let n := byte.toNat
  if 48 ≤ n ∧ n ≤ 57 then some (n - 48)
  else if 97 ≤ n ∧ n ≤ 102 then some (n - 87)
  else if 65 ≤ n ∧ n ≤ 70 then some (n - 55)
  else none

def hexBytes : (n : Nat) → List UInt8 → Option (FixedBytes n)
  | 0, _ => some ⟨[],rfl⟩
  | n + 1, hi :: lo :: rest => do
    let hi ← toDigit16 hi
    let lo ← toDigit16 lo
    let byte ← if hi * 16 + lo < 256 then some (UInt8.ofNat (hi * 16 + lo)) else none
    let tail ← hexBytes n rest
    some ⟨byte :: tail.bytes,by simp [tail.size]⟩
  | _ + 1, _ => none

def stripPrefix0x (cs : List Char) : List Char :=
  match cs with
  | '0' :: 'x' :: rest => rest
  | cs => cs

/- The shared text of the three literal parsers, on the UTF-8 bytes of the digits. -/
def parseHex (n : Nat) (s : String) : Option (FixedBytes n) :=
  let digits := (stripPrefix0x s.toList).flatMap String.utf8EncodeChar
  if digits.length ≠ n * 2 then none else hexBytes n digits

def parseHexWord (s : String) : Option Word := (parseHex 32 s).map Word.mk
def parseHexSelector (s : String) : Option (FixedBytes 4) := parseHex 4 s
def parseAddress (s : String) : Option Address := (parseHex 20 s).map Address.mk

/- A literal that was given and does not parse admits nothing. -/
def literalAdmits {α : Type} [DecidableEq α] (want : Option (Option α)) (actual : Option α) : Bool :=
  match want with
  | none => true
  | some none => false
  | some (some value) => actual = some value

def directionAdmits (want : Option String) (inward outward : Bool) : Bool :=
  want.all fun dir => match dir with
    | "In" => inward
    | "Out" => outward
    | _ => false

def i128Max : Nat := 0x7fffffffffffffffffffffffffffffff

def clampI128 (amount : Nat) : Int := if amount ≤ i128Max then amount else i128Max

def minAdmits (want : Option Int64) (amount : Nat) : Bool :=
  want.all fun min => min.toInt ≤ 0 || min.toInt ≤ clampI128 amount

def maxAdmits (want : Option Int64) (amount : Nat) : Bool :=
  want.all fun max => 0 ≤ max.toInt && clampI128 amount ≤ max.toInt

def parentKindAdmits (trace : Trace) (want : Option String) (parent : Option CallId) : Bool :=
  want.all fun ident => parent.any fun parentId =>
    (trace.arena.call parentId).any fun parent => callKindMatches parent.kind ident

def callAdmits (trace : Trace) (index : TraceIndex) (p : CompiledPredicate) (call : Call) : Bool :=
  (ident p "kind").all (callKindMatches call.kind) &&
  (boolAttr p "reentrant").all (fun want => index.isReentrant call.id == want) &&
  directionAdmits (ident p "value_flow") (call.recipient = some (anchor trace))
    (call.sender = anchor trace) &&
  minAdmits (intAttr p "min_value") call.value.raw.toNat &&
  literalAdmits ((strAttr p "selector").map parseHexSelector) call.selector &&
  (boolAttr p "succeeded").all (fun want => call.succeeded == want) &&
  parentKindAdmits trace (ident p "parent_kind") call.parent &&
  (ident p "ancestor_kind").all (hasAncestorOfKind trace call.id)

def evaluateCall (trace : Trace) (index : TraceIndex) (p : CompiledPredicate) : List Binding :=
  (trace.arena.calls.filter (callAdmits trace index p)).map fun call =>
    ⟨.call call.id,some call.id.index,[]⟩

def storageAdmits (trace : Trace) (p : CompiledPredicate) (change : StorageChange) : Bool :=
  (boolAttr p "changed").all (fun want => change.isNetChange == want) &&
  literalAdmits ((strAttr p "slot").map parseHexWord) (some change.slot.key) &&
  (ident p "call_kind").all fun ident =>
    (trace.arena.call change.callId).any fun call => callKindMatches call.kind ident

def callOrder (trace : Trace) (id : CallId) : OrderKey :=
  (trace.arena.call id).map fun call => call.id.index

def evaluateStorage (trace : Trace) (p : CompiledPredicate) : List Binding :=
  let unresolved := if (p.attr "role").isSome then ["role"] else []
  (trace.arena.storageChangesWithIds.filter fun entry => storageAdmits trace p entry.2).map
    fun entry => ⟨.storageChange entry.1,callOrder trace entry.2.callId,unresolved⟩

def valueFlowAdmits (trace : Trace) (p : CompiledPredicate) (flow : ValueFlow) : Bool :=
  directionAdmits (ident p "direction") (flow.recipient = some (anchor trace))
    (flow.sender = anchor trace) &&
  minAdmits (intAttr p "min") flow.amount.raw.toNat &&
  maxAdmits (intAttr p "max") flow.amount.raw.toNat

def evaluateValueFlow (trace : Trace) (p : CompiledPredicate) : List Binding :=
  (trace.arena.valueFlows.filter (valueFlowAdmits trace p)).map fun flow =>
    ⟨.call flow.callId,some flow.callId.index,[]⟩

def tokenTransferAdmits (trace : Trace) (p : CompiledPredicate) (transfer : TokenTransfer) : Bool :=
  directionAdmits (ident p "direction") (transfer.recipient = anchor trace)
    (transfer.sender = anchor trace) &&
  literalAdmits ((strAttr p "token").map parseAddress) (some transfer.token)

def logOrder (trace : Trace) (id : LogId) : OrderKey :=
  (trace.arena.log id).bind fun log => callOrder trace log.callId

def evaluateTokenTransfer (trace : Trace) (p : CompiledPredicate) : List Binding :=
  let unresolved := if (p.attr "unexpected").isSome then ["unexpected"] else []
  (trace.arena.tokenTransfersWithIds.filter fun entry => tokenTransferAdmits trace p entry.2).map
    fun entry => ⟨.tokenTransfer entry.1,logOrder trace entry.2.logId,unresolved⟩

def statusMatches (status : TxStatus) (ident : String) : Bool :=
  match status with
  | .success => ident = "Success"
  | .reverted => ident = "Reverted"

def transactionAdmits (trace : Trace) (p : CompiledPredicate) : Bool :=
  (ident p "status").all (statusMatches trace.transaction.status) &&
  (intAttr p "gas_used_min").all fun min =>
    min.toInt ≤ 0 || min.toInt ≤ (trace.transaction.gasUsed.raw.toNat : Int)

def evaluateTransaction (trace : Trace) (p : CompiledPredicate) : List Binding :=
  if transactionAdmits trace p then [⟨.call trace.arena.rootCall.id,none,[]⟩] else []

def logAdmits (trace : Trace) (p : CompiledPredicate) (log : LogEvent) : Bool :=
  literalAdmits ((strAttr p "topic0").map parseHexWord) log.topics.head? &&
  (boolAttr p "decoded").all fun want =>
    (trace.arena.tokenTransfers.any fun transfer => transfer.logId = log.id) == want

def evaluateLog (trace : Trace) (p : CompiledPredicate) : List Binding :=
  (trace.arena.logs.filter (logAdmits trace p)).map fun log =>
    ⟨.log log.id,callOrder trace log.callId,[]⟩

/- The bindings in arena order, before the stable sort. -/
def collectBindings (trace : Trace) (index : TraceIndex) (p : CompiledPredicate) : List Binding :=
  match p.kind with
  | "call" => evaluateCall trace index p
  | "storage" => evaluateStorage trace p
  | "value_flow" => evaluateValueFlow trace p
  | "token_transfer" => evaluateTokenTransfer trace p
  | "transaction" => evaluateTransaction trace p
  | "log" => evaluateLog trace p
  | _ => []

def evaluate (trace : Trace) (index : TraceIndex) (p : CompiledPredicate) : List Binding :=
  sortKeys Binding.order (collectBindings trace index p)

variable {trace : Trace} {index : TraceIndex} {p : CompiledPredicate}

theorem memEvaluate {b : Binding} : b ∈ evaluate trace index p ↔ b ∈ collectBindings trace index p :=
  memSortKeys

theorem evaluateSorted : (evaluate trace index p).Pairwise
    (fun a b => keyLe a.order b.order = true) := sortKeysSorted _ _

theorem evaluateNil : evaluate trace index p = [] ↔ collectBindings trace index p = [] := by
  simp only [List.eq_nil_iff_forall_not_mem,memEvaluate]

end RootCause.Matcher
