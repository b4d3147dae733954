import RootCause.Dsl.Meaning
import RootCause.Matcher.Candidates

/-! A compiled pattern at the matcher: its references are those its tree names, so the
check of the bounds never stops the search. -/
namespace RootCause.Matcher
open Library FactModel Dsl Ast

theorem boundedOk {p : CompiledPattern} (bounded : ∀ r ∈ p.refs, r.index < p.evidence.length) :
    checkInBounds p = .ok () := by
  refine checkInBoundsOk.mpr ⟨?_,?_,?_⟩
  · intro r mem
    exact bounded r (by simp [CompiledPattern.refs,mem])
  · intro seq given r mem
    rw [Option.mem_def] at given
    exact bounded r (by simp [CompiledPattern.refs,given,mem])
  · intro sc given r mem
    rw [Option.mem_def] at given
    exact bounded r (by simp [CompiledPattern.refs,given,mem])

theorem searched {h : HashOrder} {trace : Trace} {index : TraceIndex} {p : CompiledPattern}
    (bounded : checkInBounds p = .ok ()) : ∃ cs, findCandidates h trace index p = .ok cs := by
  unfold findCandidates
  rw [bounded]
  cases anchorIndex p with
  | none => exact ⟨_,rfl⟩
  | some anchorIdx => exact ⟨_,rfl⟩

theorem compilationPreserves {ast : PatternAst} {p : CompiledPattern} (compiled : compile ast = .ok p)
    (narrow : ast.evidence.length < UInt32.size) : Preserved ast p ∧
      ∀ h trace index, ∃ cs, findCandidates h trace index p = .ok cs := by
  have preserved := compilePreserved compiled narrow
  refine ⟨preserved,?_⟩
  intro h trace index
  exact searched (boundedOk preserved.bounded)

set_option maxRecDepth 4000

def crossedSource : String := "pattern p version 1 \x7b family: F severity: Low evidence \x7b
  required a: call(kind: StaticCall) required b: storage(changed: true) optional c: call(kind: Create) \x7d
  constraint: OR(NOT(c), AND(b, a)) sequence: [a, b] same_call: [b, a] \x7d"

theorem crossedPattern : ∃ p ∈ patternOf crossedSource, p.evidence.length < UInt32.size ∧
    p.constraint = .or [.not (.leaf ⟨2⟩),.and [.leaf ⟨1⟩,.leaf ⟨0⟩]] := by
  rw [show crossedSource = String.ofList _ from rfl,patternOfList]
  decide +kernel

theorem compilationPreservesCrossed : ∃ ast p, patternOf crossedSource = some p ∧
    compile ast = .ok p ∧ Preserved ast p ∧
    ∀ h trace index, ∃ cs, findCandidates h trace index p = .ok cs := by
  obtain ⟨p,source,narrow,_⟩ := crossedPattern
  obtain ⟨ast,_,compiled⟩ := compileStrTree (patternOfCompiled source)
  obtain ⟨_,_,_,_,evidence⟩ := compileParts compiled
  rw [evidence,List.length_map] at narrow
  exact ⟨ast,p,source,compiled,compilationPreserves compiled narrow⟩

end RootCause.Matcher
