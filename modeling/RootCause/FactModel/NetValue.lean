import Mathlib.Algebra.Order.BigOperators.Group.List
import RootCause.FactModel.Trace
import RootCause.FactModel.History
import RootCause.Library.Checked

/-! The net value of an address. The sum is checked after each flow, so it is there exactly
when every amount and every running total fits, and then it is the exact difference. -/
namespace RootCause.FactModel
open Library

def i128 : IntRange := ⟨-2 ^ 127,2 ^ 127 - 1⟩

def Wei.value (amount : Wei) : Int := amount.raw.toNat

def Wei.tryI128 (amount : Wei) : Option Int := i128.checked amount.value

def ValueFlow.addNet (address : Address) (net : Int) (flow : ValueFlow) : Option Int := do
  let net ← if flow.recipient = some address then do
      i128.checked (net + (← flow.amount.tryI128))
    else pure net
  if flow.sender = address then do
    i128.checked (net - (← flow.amount.tryI128))
  else pure net

def FactArena.netValueExtracted (arena : FactArena) (address : Address) : Option Int :=
  arena.valueFlows.foldlM (ValueFlow.addNet address) 0

def ValueFlow.steps (flow : ValueFlow) (address : Address) : List Int :=
  (if flow.recipient = some address then [flow.amount.value] else []) ++
    if flow.sender = address then [-flow.amount.value] else []

def ValueFlow.Touches (flow : ValueFlow) (address : Address) : Prop :=
  flow.recipient = some address ∨ flow.sender = address

def totalReceived (flows : List ValueFlow) (address : Address) : Int :=
  ((flows.filter fun flow => flow.recipient = some address).map fun flow => flow.amount.value).sum

def totalSent (flows : List ValueFlow) (address : Address) : Int :=
  ((flows.filter fun flow => flow.sender = address).map fun flow => flow.amount.value).sum

def netSteps (flows : List ValueFlow) (address : Address) : List Int :=
  flows.flatMap fun flow => flow.steps address

/- Every amount of the address fits, and so does the total after each of its steps. -/
structure NetFits (flows : List ValueFlow) (address : Address) : Prop where
  amounts : ∀ flow ∈ flows, flow.Touches address → i128.Holds flow.amount.value
  totals : ∀ k < (netSteps flows address).length,
    i128.Holds (((netSteps flows address).take (k + 1)).sum)

theorem netStepsCount (count : Int → Int) (flows : List ValueFlow) (address : Address) :
    ((netSteps flows address).map count).sum =
      ((flows.filter fun flow => flow.recipient = some address).map fun flow =>
        count flow.amount.value).sum +
      ((flows.filter fun flow => flow.sender = address).map fun flow =>
        count (-flow.amount.value)).sum := by
  induction flows with
  | nil => rfl
  | cons flow flows ih =>
    rw [netSteps,List.flatMap_cons,List.map_append,List.sum_append]
    unfold netSteps at ih
    rw [ih]
    unfold ValueFlow.steps
    by_cases received : flow.recipient = some address <;> by_cases sent : flow.sender = address <;>
      simp [received,sent] <;> omega

theorem sumNegated (flows : List ValueFlow) : (flows.map fun flow => -flow.amount.value).sum =
    -(flows.map fun flow => flow.amount.value).sum := by
  rw [List.sum_neg,List.map_map]
  rfl

theorem netStepsSum (flows : List ValueFlow) (address : Address) :
    (netSteps flows address).sum = totalReceived flows address - totalSent flows address := by
  have counted := netStepsCount id flows address
  rw [List.map_id] at counted
  simp only [id_eq] at counted
  rw [counted,sumNegated,totalReceived,totalSent,Int.sub_eq_add_neg]

theorem netStepsBounds (flows : List ValueFlow) (address : Address) :
    gains (netSteps flows address) = totalReceived flows address ∧
      losses (netSteps flows address) = -totalSent flows address := by
  have natural (amount : Wei) : 0 ≤ amount.value := Int.natCast_nonneg _
  constructor
  · have kept (flow : ValueFlow) : max 0 flow.amount.value = flow.amount.value := max_eq_right (natural _)
    have dropped (flow : ValueFlow) : max 0 (-flow.amount.value) = 0 :=
      max_eq_left (Int.neg_nonpos_of_nonneg (natural _))
    rw [gains,netStepsCount]
    simp [kept,dropped,totalReceived]
  · have dropped (flow : ValueFlow) : min 0 flow.amount.value = 0 := min_eq_left (natural _)
    have kept (flow : ValueFlow) : min 0 (-flow.amount.value) = -flow.amount.value :=
      min_eq_right (Int.neg_nonpos_of_nonneg (natural _))
    rw [losses,netStepsCount]
    simp [kept,dropped,totalSent,sumNegated]

theorem addNetOk {address : Address} {net r : Int} {flow : ValueFlow} :
    flow.addNet address net = some r ↔ (flow.Touches address → i128.Holds flow.amount.value) ∧
      i128.checkedSum net (flow.steps address) = some r := by
  have converted : flow.amount.tryI128 = if i128.Holds flow.amount.value then some flow.amount.value
      else none := rfl
  unfold ValueFlow.addNet ValueFlow.steps ValueFlow.Touches
  rw [converted]
  by_cases fits : i128.Holds flow.amount.value
  · by_cases received : flow.recipient = some address <;> by_cases sent : flow.sender = address <;>
      simp [received,sent,fits,Int.sub_eq_add_neg]
  · by_cases received : flow.recipient = some address <;> by_cases sent : flow.sender = address <;>
      simp [received,sent,fits]

theorem addNetsOk {address : Address} {net r : Int} {flows : List ValueFlow} :
    flows.foldlM (ValueFlow.addNet address) net = some r ↔
      (∀ flow ∈ flows, flow.Touches address → i128.Holds flow.amount.value) ∧
      i128.checkedSum net (netSteps flows address) = some r := by
  induction flows generalizing net with
  | nil => simp [netSteps]
  | cons flow flows ih =>
    rw [List.foldlM_cons,netSteps,List.flatMap_cons,IntRange.checkedSumAppend,List.forall_mem_cons]
    constructor
    · intro run
      obtain ⟨total,first,rest⟩ := Option.bind_eq_some_iff.mp run
      obtain ⟨fits,stepped⟩ := addNetOk.mp first
      obtain ⟨later,summed⟩ := ih.mp rest
      exact ⟨⟨fits,later⟩,Option.bind_eq_some_iff.mpr ⟨total,stepped,summed⟩⟩
    · intro given
      obtain ⟨⟨fits,later⟩,summed⟩ := given
      obtain ⟨total,stepped,rest⟩ := Option.bind_eq_some_iff.mp summed
      exact Option.bind_eq_some_iff.mpr ⟨total,addNetOk.mpr ⟨fits,stepped⟩,ih.mpr ⟨later,rest⟩⟩

theorem amountBounded {address : Address} {flows : List ValueFlow} {flow : ValueFlow} (mem : flow ∈ flows)
    (touches : flow.Touches address) :
    flow.amount.value ≤ totalReceived flows address ∨ flow.amount.value ≤ totalSent flows address := by
  have single {keeps : ValueFlow → Bool} (kept : keeps flow = true) :
      flow.amount.value ≤ ((flows.filter keeps).map fun flow => flow.amount.value).sum := by
    refine List.single_le_sum ?_ _ (List.mem_map_of_mem (List.mem_filter.mpr ⟨mem,kept⟩))
    intro amount listed
    obtain ⟨other,_,rfl⟩ := List.mem_map.mp listed
    exact Int.natCast_nonneg _
  rcases touches with received | sent
  · exact Or.inl (single (decide_eq_true received))
  · exact Or.inr (single (decide_eq_true sent))

theorem netOk {arena : FactArena} {address : Address} {r : Int} :
    arena.netValueExtracted address = some r ↔ NetFits arena.valueFlows address ∧
      r = totalReceived arena.valueFlows address - totalSent arena.valueFlows address := by
  rw [FactArena.netValueExtracted,addNetsOk,IntRange.checkedSumExact,Int.zero_add,netStepsSum,← and_assoc]
  simp only [Int.zero_add]
  exact and_congr_left' ⟨fun given => ⟨given.1,given.2⟩,fun fits => ⟨fits.amounts,fits.totals⟩⟩

theorem netValueExact (arena : FactArena) (address : Address) :
    (∀ r, arena.netValueExtracted address = some r ↔ NetFits arena.valueFlows address ∧
      r = totalReceived arena.valueFlows address - totalSent arena.valueFlows address) ∧
    (totalReceived arena.valueFlows address < 2 ^ 127 → totalSent arena.valueFlows address < 2 ^ 127 →
      arena.netValueExtracted address =
        some (totalReceived arena.valueFlows address - totalSent arena.valueFlows address)) ∧
    ∀ other : FactArena, other.valueFlows.Perm arena.valueFlows → ∀ r s,
      arena.netValueExtracted address = some r → other.netValueExtracted address = some s → s = r := by
  refine ⟨fun r => netOk,fun received sent => netOk.mpr ⟨⟨?_,?_⟩,rfl⟩,?_⟩
  · intro flow mem touches
    have bounded := amountBounded mem touches
    have natural : 0 ≤ flow.amount.value := Int.natCast_nonneg _
    simp only [IntRange.Holds,i128]
    omega
  · obtain ⟨gained,lost⟩ := netStepsBounds arena.valueFlows address
    have run : i128.checkedSum 0 (netSteps arena.valueFlows address) = some _ :=
      IntRange.checkedSumOf (by simp only [lost,i128]; omega) (by simp only [gained,i128]; omega)
    have totals := (IntRange.checkedSumExact.mp run).1
    simpa only [Int.zero_add] using totals
  · intro other perm r s here there
    rw [(netOk.mp here).2,(netOk.mp there).2,totalReceived,totalReceived,totalSent,totalSent,
      ((perm.filter _).map _).sum_eq,((perm.filter _).map _).sum_eq]

def account : Address := ⟨.replicate 20 1⟩

def selfCall : Call :=
  ⟨⟨0⟩,none,.call,⟨0⟩,account,some account,⟨.twoPow 128 127⟩,⟨0⟩,⟨0⟩,true,none⟩

def flowsOf (ops : List BuilderOp) : Option (List ValueFlow) :=
  (history ops).toOption.map fun builder => builder.calls.filterMap ValueFlow.fromCall

theorem flowsBuilt (ops : List BuilderOp)
    (accepted : (history ops >>= fun builder => builder.validate .on) = .ok ()) :
    ∃ arena, buildHistory .on ops = .ok arena ∧ flowsOf ops = some arena.valueFlows := by
  obtain ⟨arena,built,ran⟩ := historyBuilt ops accepted
  refine ⟨arena,built,?_⟩
  rw [flowsOf,ran]
  rfl

/- A call to oneself of `2^127` has no answer, though nothing is gained or lost. -/
theorem netValueOverflows : ∃ arena, buildHistory .on [.addCall selfCall] = .ok arena ∧
    totalReceived arena.valueFlows account - totalSent arena.valueFlows account = 0 ∧
    arena.netValueExtracted account = none := by
  obtain ⟨arena,built,flows⟩ := flowsBuilt [.addCall selfCall] (by decide +kernel)
  have answer : ∀ flows ∈ flowsOf [.addCall selfCall],
      totalReceived flows account - totalSent flows account = 0 ∧
      flows.foldlM (ValueFlow.addNet account) 0 = none := by decide +kernel
  exact ⟨arena,built,answer _ flows⟩

end RootCause.FactModel
