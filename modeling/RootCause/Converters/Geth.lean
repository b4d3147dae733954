import RootCause.Ingestion.Normalize
import RootCause.Library.Traversal

/-! A call-frame tree as Geth's `callTracer` emits it, converted into the raw trace
document that ingestion reads. Reading the frame from its JSON is not modelled; the
conversion starts from what it gave. -/
namespace RootCause.Converters.Geth
open Library Ingestion

/- The fields of a frame but its children, which are those of the tree. -/
structure GethFrame where
  kind : String
  sender : String
  recipient : Option String
  value : String
  gas : String
  gasUsed : String
  input : Option String
  error : Option String
  deriving DecidableEq, Repr

abbrev GethCallFrame := Rose GethFrame

/- What the tracer does not supply. -/
structure GethTraceContext where
  transactionHash : String
  nonce : String
  blockNumber : String
  chainId : String
  deriving DecidableEq, Repr

inductive GethConvertError where
  | invalidJson (e : String)
  | unknownCallKind (kind : String)
  deriving DecidableEq, Repr

def GethConvertError.display : GethConvertError → String
  | .invalidJson e => "input is not valid JSON: " ++ e
  | .unknownCallKind kind => "call frame has type `" ++ kind ++
      "`, not one of the seven kinds ingestion::raw accepts"

def acceptedKinds : List String :=
  ["call","staticcall","delegatecall","callcode","create","create2","selfdestruct"]

section
/- `str::to_lowercase`, a Unicode table of the standard library. -/
variable (toLowercase : String → String)

mutual
def convertFrame : GethCallFrame → Except GethConvertError RawCall
  | .node frame calls => do
    let kind := toLowercase frame.kind
    if kind ∉ acceptedKinds then .error (.unknownCallKind frame.kind)
    else
      let calls ← convertFrames calls
      pure (.node {
        kind := kind
        sender := frame.sender
        recipient := frame.recipient
        value := frame.value
        gasLimit := frame.gas
        gasUsed := frame.gasUsed
        succeeded := frame.error.isNone
        input := frame.input
        storageChanges := []
        logs := [] } calls)
def convertFrames : List GethCallFrame → Except GethConvertError (List RawCall)
  | [] => pure []
  | frame :: rest => do
    let call ← convertFrame frame
    let calls ← convertFrames rest
    pure (call :: calls)
end

def convert (decoded : Except String GethCallFrame) (ctx : GethTraceContext) :
    Except GethConvertError RawTraceDocument := do
  let .node frame calls ← decoded.mapError .invalidJson
  let rootCall ← convertFrame toLowercase (.node frame calls)
  pure {
    transaction := {
      hash := ctx.transactionHash
      sender := frame.sender
      recipient := frame.recipient
      value := frame.value
      nonce := ctx.nonce
      gasUsed := frame.gasUsed
      status := if frame.error.isNone then "success" else "reverted" }
    block := {
      number := ctx.blockNumber
      timestamp := "0x0"
      chainId := ctx.chainId
      baseFee := none }
    root := rootCall }

def convertFields (frame : GethFrame) : Except GethConvertError RawFrame :=
  if toLowercase frame.kind ∉ acceptedKinds then .error (.unknownCallKind frame.kind)
  else .ok ⟨toLowercase frame.kind,frame.sender,frame.recipient,frame.value,frame.gas,frame.gasUsed,
    frame.error.isNone,frame.input,[],[]⟩

structure Carries (frame : GethFrame) (raw : RawFrame) : Prop where
  kind : raw.kind = toLowercase frame.kind
  sender : raw.sender = frame.sender
  recipient : raw.recipient = frame.recipient
  value : raw.value = frame.value
  gasLimit : raw.gasLimit = frame.gas
  gasUsed : raw.gasUsed = frame.gasUsed
  input : raw.input = frame.input
  succeeded : raw.succeeded = true ↔ frame.error = none

end

section
variable {toLowercase : String → String}

theorem convertFrameTraverses {frame : GethCallFrame} :
    convertFrame toLowercase frame = frame.traverse (convertFields toLowercase) := by
  induction frame using Rose.ind with
  | node value children each =>
    have all (frames : List GethCallFrame)
        (each : ∀ f ∈ frames, convertFrame toLowercase f = f.traverse (convertFields toLowercase)) :
        convertFrames toLowercase frames = Rose.traverseAll (convertFields toLowercase) frames := by
      induction frames with
      | nil => rfl
      | cons f rest ih =>
        obtain ⟨first,later⟩ := List.forall_mem_cons.mp each
        rw [convertFrames,Rose.traverseAll,first,ih later]
    rw [convertFrame,Rose.traverse,all children each,convertFields]
    split
    · rfl
    · rfl

theorem convertFieldsFails {frame : GethFrame} :
    (∃ e, convertFields toLowercase frame = .error e) ↔ toLowercase frame.kind ∉ acceptedKinds := by
  unfold convertFields
  split <;> simp_all

theorem convertFieldsCarries {frame : GethFrame} {raw : RawFrame}
    (converted : convertFields toLowercase frame = .ok raw) :
    Carries toLowercase frame raw ∧ raw.kind ∈ acceptedKinds := by
  unfold convertFields at converted
  split at converted
  · contradiction
  · rename_i known
    cases converted
    exact ⟨⟨rfl,rfl,rfl,rfl,rfl,rfl,rfl,Option.isNone_iff_eq_none⟩,Classical.not_not.mp known⟩

theorem convertRoot {frame : GethCallFrame} (ctx : GethTraceContext) :
    (convert toLowercase (.ok frame) ctx).map RawTraceDocument.root = convertFrame toLowercase frame := by
  obtain ⟨value,children⟩ := frame
  unfold convert
  cases converted : convertFrame toLowercase (.node value children) with
  | error e => simp [Except.mapError,bind,Except.bind,Except.map,converted]
  | ok raw => simp [Except.mapError,bind,Except.bind,pure,Except.pure,Except.map,converted]

end

theorem lowersTo {s t : String} (same : s.toList.map Char.toLower = t.toList) : s.toLower = t := by
  have lowered : s.toLower.toList = s.toList.map Char.toLower := String.toList_map
  exact String.toList_injective (lowered.trans same)

theorem acceptedLower {kind : String} (accepted : kind ∈ acceptedKinds) : kind.toLower = kind := by
  simp only [acceptedKinds,List.mem_cons,List.not_mem_nil,or_false] at accepted
  rcases accepted with rfl | rfl | rfl | rfl | rfl | rfl | rfl <;> exact lowersTo rfl

theorem acceptedParses {path kind : String} (accepted : kind ∈ acceptedKinds) :
    ∃ k, parseCallKind path kind = .ok k := by
  rw [parseCallKind,acceptedLower accepted]
  simp only [acceptedKinds,List.mem_cons,List.not_mem_nil,or_false] at accepted
  rcases accepted with rfl | rfl | rfl | rfl | rfl | rfl | rfl <;> exact ⟨_,rfl⟩

theorem convertExact (toLowercase : String → String) (frame : GethCallFrame) (ctx : GethTraceContext) :
    ((∃ e, convert toLowercase (.ok frame) ctx = .error e) ↔
      ∃ f ∈ frame, toLowercase f.kind ∉ acceptedKinds) ∧
    ∀ doc, convert toLowercase (.ok frame) ctx = .ok doc → Rose.Alike (Carries toLowercase) frame doc.root ∧
      ∀ raw ∈ doc.root, ∀ path, ∃ kind, parseCallKind path raw.kind = .ok kind := by
  constructor
  · have same : (∃ e, convert toLowercase (.ok frame) ctx = .error e) ↔
        ∃ e, convertFrame toLowercase frame = .error e := by
      rw [← convertRoot ctx]
      cases convert toLowercase (.ok frame) ctx <;> simp [Except.map]
    rw [same,convertFrameTraverses,Rose.traverseFails]
    simp only [convertFieldsFails]
  · intro doc converted
    have root : convertFrame toLowercase frame = .ok doc.root := by rw [← convertRoot ctx,converted]; rfl
    rw [convertFrameTraverses] at root
    have alike := Rose.traverseOk.mp root
    refine ⟨alike.imp fun f raw fields => (convertFieldsCarries fields).1,?_⟩
    intro raw mem path
    obtain ⟨f,_,fields⟩ := alike.mem mem
    exact acceptedParses (convertFieldsCarries fields).2

def delegating : GethCallFrame :=
  .node ⟨"CALL","0xaa",some "0xbb","0x1","0x100","0x50",none,some "execution reverted"⟩
    [.node ⟨"DELEGATECALL","0xbb",some "0xcc","0x0","0x80","0x40",some "0x",none⟩ []]

theorem delegatingConverts : ∃ doc, convert String.toLower (.ok delegating) ⟨"0x1","0x1","0x1","0x5"⟩ = .ok doc ∧
    Rose.Alike (Carries String.toLower) delegating doc.root ∧
    ∀ raw ∈ doc.root, ∀ path, ∃ kind, parseCallKind path raw.kind = .ok kind := by
  have call : "CALL".toLower = "call" := lowersTo rfl
  have delegatecall : "DELEGATECALL".toLower = "delegatecall" := lowersTo rfl
  have known : ¬ ∃ e, convert String.toLower (.ok delegating) ⟨"0x1","0x1","0x1","0x5"⟩ = .error e := by
    rw [(convertExact _ _ _).1]
    simp [delegating,Rose.memNode,acceptedKinds,call,delegatecall]
  cases converted : convert String.toLower (.ok delegating) ⟨"0x1","0x1","0x1","0x5"⟩ with
  | error e => exact absurd ⟨e,converted⟩ known
  | ok doc => exact ⟨doc,rfl,(convertExact _ _ _).2 doc converted⟩

end RootCause.Converters.Geth
