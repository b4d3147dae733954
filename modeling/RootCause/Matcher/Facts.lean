import RootCause.Matcher.Engine

/-! What a match says on a trace whose ids are positions: its fact exists, and the
order key of the fact is the order of the match. The `transaction` kind is the
exception: its match has no order, its fact is the root call, whose key is 0. -/
namespace RootCause.Matcher
open Library FactModel Dsl

variable {trace : Trace} {index : TraceIndex} {p : CompiledPredicate} {b : Binding}

theorem callOrderAt (positional : trace.arena.Positional) {id : CallId}
    (resolves : (trace.arena.call id).isSome) : callOrder trace id = some id.index := by
  obtain ⟨c,found⟩ := Option.isSome_iff_exists.mp resolves
  have same : c.id.index = id.index := positional.calls id.index c found
  simp [callOrder,found,same]

theorem logOrderAt (positional : trace.arena.Positional) {id : LogId} {l : LogEvent}
    (found : trace.arena.log id = some l) : logOrder trace id = some l.callId.index := by
  have mem : l ∈ trace.arena.logs := List.mem_of_getElem? found
  rw [logOrder,found,Option.bind_some,callOrderAt positional (trace.arena.resolves.2.1 l mem)]

def factKey (p : CompiledPredicate) (b : Binding) : OrderKey :=
  if p.kind = "transaction" then some 0 else b.order

theorem transactionUnordered (kind : p.kind = "transaction") (mem : b ∈ evaluate trace index p) :
    b.order = none := by
  simp only [memEvaluate,collectBindings,kind,evaluateTransaction] at mem
  split at mem
  · cases List.mem_singleton.mp mem
    rfl
  · simp at mem

theorem evaluateKey (positional : trace.arena.Positional) (mem : b ∈ evaluate trace index p) :
    orderKey trace b.fact = factKey p b ∧ (orderKey trace b.fact).isSome := by
  obtain ⟨changes,logs,transfers⟩ := trace.arena.resolves
  rw [memEvaluate] at mem
  unfold collectBindings at mem
  unfold factKey
  split at mem
  · rename_i kind
    obtain ⟨c,listed,rfl⟩ := List.mem_map.mp mem
    have found := positional.callAt (List.mem_of_mem_filter listed)
    simp [orderKey,callOrder,found,kind]
  · rename_i kind
    obtain ⟨⟨id,change⟩,listed,rfl⟩ := List.mem_map.mp mem
    have given := List.mem_of_mem_filter listed
    have found := positional.storageChangeAt given
    have key := callOrderAt positional (changes change (List.mem_of_getElem? found))
    simp [orderKey,found,key,kind]
  · rename_i kind
    obtain ⟨flow,listed,rfl⟩ := List.mem_map.mp mem
    obtain ⟨c,inside,same⟩ := List.mem_filterMap.mp (List.mem_of_mem_filter listed)
    have found := positional.callAt inside
    unfold ValueFlow.fromCall at same
    split at same
    · contradiction
    · cases Option.some.inj same
      simp [orderKey,callOrder,found,kind]
  · rename_i kind
    obtain ⟨⟨id,transfer⟩,listed,rfl⟩ := List.mem_map.mp mem
    have found := positional.tokenTransferAt (List.mem_of_mem_filter listed)
    obtain ⟨l,source⟩ := Option.isSome_iff_exists.mp
      (transfers transfer (List.mem_of_getElem? found))
    simp [orderKey,found,logOrderAt positional source,kind]
  · rename_i kind
    unfold evaluateTransaction at mem
    split at mem
    · cases List.mem_singleton.mp mem
      obtain ⟨found,first⟩ := positional.rootAt
      simp [orderKey,callOrder,found,first,kind]
    · simp at mem
  · rename_i kind
    obtain ⟨l,listed,rfl⟩ := List.mem_map.mp mem
    have inside := List.mem_of_mem_filter listed
    have found := positional.logAt inside
    have key := callOrderAt positional (logs l inside)
    simp [orderKey,logOrder,found,key,kind]
  · simp at mem

end RootCause.Matcher
