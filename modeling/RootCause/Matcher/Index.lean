import RootCause.FactModel.Trace
import RootCause.Library.Hash

/-! The per-trace index: calls by id and the reentrant calls, found in one pass
that gives every call the targets of its strict ancestors. -/
namespace RootCause.Matcher
open Library FactModel

structure TraceIndex where
  trace : Trace
  callsById : HashMap CallId Call
  reentrantCalls : List CallId

structure Ancestry where
  ancestorTargets : HashMap CallId (List Address)
  reentrantCalls : List CallId

def ancestryStep (callsById : HashMap CallId Call) (s : Ancestry) (call : Call) : Ancestry :=
  let inherited := (call.parent.bind fun parentId => s.ancestorTargets.lookup parentId).getD []
  let parentTarget := (call.parent.bind fun p => callsById.lookup p).bind Call.recipient
  let thisCallTargets := match parentTarget with
    | some parentTo => inherited.insert parentTo
    | none => inherited
  let reentrant := match call.recipient with
    | some to' => thisCallTargets.contains to'
    | none => false
  ⟨s.ancestorTargets.insert call.id thisCallTargets,
    if reentrant then s.reentrantCalls.insert call.id else s.reentrantCalls⟩

namespace TraceIndex

def build (trace : Trace) : TraceIndex :=
  let callsById := HashMap.collect (trace.arena.calls.map fun call => (call.id,call))
  ⟨trace,callsById,(trace.arena.calls.foldl (ancestryStep callsById) ⟨∅,[]⟩).reentrantCalls⟩

def isReentrant (index : TraceIndex) (id : CallId) : Bool := index.reentrantCalls.contains id

end TraceIndex
end RootCause.Matcher
