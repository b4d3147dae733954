import RootCause.Cli.Analyze
import RootCause.Grounding.Agreement
import RootCause.Grounding.Contradiction
import RootCause.Ingestion.Ownership

/-! The errors of a whole analysis. On an ingested trace the search raises none, and the
only refusal of the grounding that the command can meet is the one for a clause that a
constraint mentions under both signs. -/
namespace RootCause.Cli
open Library FactModel Dsl Matcher Grounding Ingestion

theorem ingestPositional {checks : OverflowChecks} {decoded : Except IngestionError RawTraceDocument}
    {source : TraceSource} {trace : Trace} (ingested : ingest checks decoded source = some (.ok trace)) :
    trace.arena.Positional := by
  cases decoded with
  | error e => simp [ingest] at ingested
  | ok raw =>
    obtain ⟨normalized,_,rest⟩ := Option.map_eq_some_iff.mp ingested
    obtain ⟨nt,_,built⟩ := bindOk.mp rest
    exact buildPositional built

section
variable {u : UnicodeClasses} {h : HashOrder} {trace : Trace} {p : CompiledPattern}
  {patterns : List CompiledPattern} {cs : List CandidateMatch} {c : CandidateMatch}

theorem matchResolves (positional : trace.arena.Positional) {r : EvidenceRef} {b : Binding}
    (mem : b ∈ clauseMatches trace p r) : factResolves trace b.fact = true :=
  keyResolves (stepOrder positional mem).1

theorem candidateResolves (positional : trace.arena.Positional) (compiled : Compiled u p)
    (found : findCandidates h trace (.build trace) p = .ok cs) (mem : c ∈ cs) :
    ∀ binding ∈ c.bindings, factResolves trace binding.fact = true := by
  have wf := compiled.accepted.wellFormed
  obtain ⟨held,emitted⟩ := candidateEmitted wf (wf.distinctSteps compiled.narrow) found mem
  intro binding inside
  obtain ⟨clause,resolved,b,matched,same⟩ := (emittedSound wf held emitted).matched binding inside
  rw [← same]
  exact matchResolves positional (clauseMatchesMem.mpr ⟨clause,resolved,matched⟩)

theorem groundErrors (wf : WellFormed p) (belongs : Belongs c trace p) {e : GroundingError} :
    GroundingEngine.new.ground h c trace p = .error e ↔
      ∃ r, e = .verificationFailure r ∧ Grounding.analyze h p.constraint = .error r := by
  obtain ⟨named,cites⟩ := belongsOk.mp belongs
  unfold GroundingEngine.ground
  rw [named,cites]
  cases signs : Grounding.analyze h p.constraint with
  | error r => simp [bind,Except.bind,eq_comm]
  | ok analyzed => simp [bind,Except.bind,pure,Except.pure,verifyChain wf]

theorem judged (mem : p ∈ patterns) : ∃ q ∈ patterns, firstNamed patterns p = some q ∧
    q.id = p.id ∧ q.version = p.version := by
  have some : (firstNamed patterns p).isSome := List.find?_isSome.mpr ⟨p,mem,by simp⟩
  obtain ⟨q,found⟩ := Option.isSome_iff_exists.mp some
  have same := List.find?_some found
  rw [Bool.and_eq_true,decide_eq_true_eq,decide_eq_true_eq] at same
  exact ⟨q,List.mem_of_find?_eq_some found,found,same⟩

def judge (h : HashOrder) (trace : Trace) (patterns : List CompiledPattern) (c : CandidateMatch) :
    Except GroundingError GroundingResult := do
  let pattern ← match patternFor patterns c with
    | some pattern => .ok pattern
    | none => .error (.incompleteTrace c.patternId c.patternVersion c.patternId c.patternVersion)
  GroundingEngine.new.ground h c trace pattern

theorem judgeErrors (positional : trace.arena.Positional) (compiled : ∀ p ∈ patterns, Compiled u p)
    (mem : p ∈ patterns) (found : findCandidates h trace (.build trace) p = .ok cs) (inside : c ∈ cs)
    {e : GroundingError} : judge h trace patterns c = .error e ↔ ∃ q ∈ firstNamed patterns p,
      ∃ r, e = .verificationFailure r ∧ Grounding.analyze h q.constraint = .error r := by
  have wf := (compiled p mem).accepted.wellFormed
  obtain ⟨q,listed,first,id,version⟩ := judged mem
  obtain ⟨ownId,ownVersion⟩ := candidateIdentity wf found inside
  have belongs : Belongs c trace q := ⟨⟨ownId.trans id.symm,ownVersion.trans version.symm⟩,
    candidateResolves positional (compiled p mem) found inside⟩
  have judgement : judge h trace patterns c = GroundingEngine.new.ground h c trace q := by
    rw [judge,patternForCandidate wf found inside,first]
    rfl
  rw [judgement,groundErrors (compiled q listed).accepted.wellFormed belongs,first]
  simp

theorem searchAll (wf : ∀ p ∈ patterns, WellFormed p) : ∃ find : CompiledPattern → List CandidateMatch,
    ∀ p ∈ patterns, findCandidates h trace (.build trace) p = .ok (find p) := by
  refine ⟨fun p => (findCandidates h trace (.build trace) p).toOption.getD [],?_⟩
  intro p mem
  obtain ⟨cs,ok⟩ : ∃ cs, findCandidates h trace (.build trace) p = .ok cs := searched (boundsOk (wf p mem))
  simp only [ok,Except.toOption,Option.getD_some]

theorem analyzeRefusedIff {checks : OverflowChecks} {decoded : Except IngestionError RawTraceDocument}
    {source : TraceSource} (ingested : ingest checks decoded source = some (.ok trace))
    (compiled : ∀ p ∈ patterns, Compiled u p) :
    ((∃ e, analyze h trace patterns = .error e) ↔ ∃ p ∈ patterns, Matches h trace p ∧
      ∃ q ∈ firstNamed patterns p, ∃ r, TwoSigned q.constraint r) ∧
    ∀ e, analyze h trace patterns = .error e → ∃ q ∈ patterns, ∃ r, TwoSigned q.constraint r ∧
      e = .grounding (.verificationFailure r) := by
  have positional := ingestPositional ingested
  have wf : ∀ p ∈ patterns, WellFormed p := fun p mem => (compiled p mem).accepted.wellFormed
  obtain ⟨find,found⟩ : ∃ find : CompiledPattern → List CandidateMatch,
      ∀ p ∈ patterns, findCandidates h trace (.build trace) p = .ok (find p) := searchAll wf
  -- Matching compiled patterns does not fail: an error is the judgement of one candidate.
  have batch : analyze h trace patterns =
      ((patterns.flatMap find).mapM (judge h trace patterns)).mapError .grounding := by
    rw [analyze,findAllMatchesOk found]
    rfl
  have errors {p : CompiledPattern} (mem : p ∈ patterns) {c : CandidateMatch} (inside : c ∈ find p)
      {e : GroundingError} := judgeErrors positional compiled mem (found p mem) inside (e := e)
  constructor
  · have failed : (∃ e, analyze h trace patterns = .error e) ↔
        ∃ c ∈ patterns.flatMap find, ∃ e, judge h trace patterns c = .error e := by
      rw [← mapMFails,batch]
      cases (patterns.flatMap find).mapM (judge h trace patterns) <;> simp [Except.mapError]
    rw [failed]
    constructor
    · rintro ⟨c,listed,e,refused⟩
      obtain ⟨p,mem,inside⟩ := List.mem_flatMap.mp listed
      obtain ⟨q,first,r,_,signs⟩ := (errors mem inside).mp refused
      exact ⟨p,mem,(matchesIff (wf p mem) (found p mem)).mpr ⟨c,inside⟩,q,first,r,analyzeRefuses signs⟩
    · rintro ⟨p,mem,matched,q,first,r,signed⟩
      obtain ⟨c,inside⟩ := (matchesIff (wf p mem) (found p mem)).mp matched
      obtain ⟨r',signs⟩ := analyzeRefusesIff.mpr ⟨r,signed⟩
      exact ⟨c,List.mem_flatMap.mpr ⟨p,mem,inside⟩,_,(errors mem inside).mpr ⟨q,first,r',rfl,signs⟩⟩
  · intro e refused
    rw [batch] at refused
    obtain ⟨e',failed,same⟩ : ∃ e', (patterns.flatMap find).mapM (judge h trace patterns) = .error e' ∧
        .grounding e' = e := by
      cases run : (patterns.flatMap find).mapM (judge h trace patterns) with
      | error e' =>
        rw [run] at refused
        exact ⟨e',rfl,Except.error.inj refused⟩
      | ok _ =>
        rw [run] at refused
        cases refused
    obtain ⟨c,listed,own⟩ := mapMErrorMem failed
    obtain ⟨p,mem,inside⟩ := List.mem_flatMap.mp listed
    obtain ⟨q,first,r,named,signs⟩ := (errors mem inside).mp own
    rw [← same,named]
    exact ⟨q,List.mem_of_find?_eq_some first,r,analyzeRefuses signs,rfl⟩

end
set_option maxRecDepth 4000

def signedSource : String := "pattern p version 1 \x7b family: F severity: Low evidence \x7b
  required a: call(kind: Delegate) \x7d constraint: OR(a, NOT(a)) \x7d"

theorem analyzeRefusedSigned : ∃ trace p, patternOf signedSource = some p ∧
    ingest .on (.ok proxyDocument) (.archiveNodeRpc "") = some (.ok trace) ∧
    ((∃ e, analyze .insertion trace [p] = .error e) ↔ ∃ q ∈ [p], Matches .insertion trace q ∧
      ∃ q' ∈ firstNamed [p] q, ∃ r, TwoSigned q'.constraint r) ∧
    ∃ e, analyze .insertion trace [p] = .error e := by
  have some : ∃ p ∈ patternOf signedSource, p.evidence.length ≤ UInt32.size ∧
      ∃ nt ∈ (normalizeVisited proxyDocument).toOption, ∃ trace ∈ (build .on nt (.archiveNodeRpc "")).toOption,
        ∃ e ∈ refusal (analyze .insertion trace [p]), e = .grounding (.verificationFailure ⟨0⟩) := by
    rw [show signedSource = String.ofList _ from rfl,patternOfList]
    decide +kernel
  obtain ⟨p,source,narrow,nt,found,trace,made,e,refused,_⟩ := some
  have normalized : normalize .on proxyDocument = Option.some (.ok nt) := by
    rw [normalizeVisits]
    exact congrArg Option.some (raiseOk.mpr (toOptionOk.mp found))
  have ingested : ingest .on (.ok proxyDocument) (.archiveNodeRpc "") = Option.some (.ok trace) := by
    simp only [ingest,normalized,Option.map_some]
    exact congrArg Option.some (bindOk.mpr ⟨nt,rfl,toOptionOk.mp made⟩)
  have compiled : ∀ q ∈ [p], Compiled .ascii q := by
    intro q mem
    cases List.mem_singleton.mp mem
    exact ⟨patternOfAccepted source,narrow⟩
  exact ⟨trace,p,source,ingested,(analyzeRefusedIff ingested compiled).1,e,refusalIs refused⟩

end RootCause.Cli
