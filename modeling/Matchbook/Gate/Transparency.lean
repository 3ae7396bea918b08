import Matchbook.Engine.Handlers
import Matchbook.Gate.RiskGate

namespace Matchbook

/-! # The gate is transparent

What the gate lets through reaches a bare engine that nobody guards, call by call. -/

def Op.refused : Op → Ret
  | .submitMarket _ qty _ _ => .qty qty
  | .modify .. => .ok false
  | _ => .id invalidOrderId

namespace RiskGate

variable {H : Type}

/-! ## Verdicts -/

def verdict (g : RiskGate H) : Call → Option RiskReject
  | .order (.submitLimit side price qty _ owner _) =>
      g.countMessage.refusal owner side qty price true
  | .order (.submitMarket side qty owner _) => g.countMessage.marketRefusal owner side qty
  | .order (.submitIceberg side price totalQty _ _ owner _) =>
      g.countMessage.refusal owner side totalQty price true
  | .order (.submitStop side _ qty owner _) => g.countMessage.refusal owner side qty 0 false
  | .order (.submitStopLimit side _ limitPrice qty owner _) =>
      g.countMessage.refusal owner side qty limitPrice true
  | .order (.modify _ newPrice newQty) => g.countMessage.modifyRefusal newPrice newQty
  | _ => none

/-- The gate at the moment it hands an operation on. -/
def ready (g : RiskGate H) : Op → RiskGate H
  | .submitLimit _ _ _ _ owner _ => g.countMessage.setPendingOwner owner
  | .submitMarket _ _ owner _ => g.countMessage.setPendingOwner owner
  | .submitIceberg _ _ _ _ _ owner _ => g.countMessage.setPendingOwner owner
  | .submitStop _ _ _ owner _ => g.countMessage.setPendingOwner owner
  | .submitStopLimit _ _ _ _ owner _ => g.countMessage.setPendingOwner owner
  | .cancel _ => g.countMessage
  | .reduce _ _ => g.countMessage
  | .modify _ _ _ => g.countMessage
  | _ => g

theorem verdict_unlimited (g : RiskGate H) (limits : g.limits = {}) (on : g.killed = false)
    (call : Call) : g.verdict call = none := by
  have refusal (owner : OwnerId) (side : Side) (qty : Qty) (px : Price) (checksPrice : Bool) :
      g.countMessage.refusal owner side qty px checksPrice = none := by
    simp [refusal, countMessage, overBudget, checkQty, checkNotional, checkCollar,
      checkOpenOrders, checkPosition, limits, on]
  cases call with
  | order op =>
      cases op with
      | submitMarket =>
          simp [verdict, marketRefusal, countMessage, overBudget, checkQty, checkNotional,
            checkOpenOrders, checkPosition, limits, on]
      | modify =>
          simp [verdict, modifyRefusal, countMessage, overBudget, checkQty, checkNotional,
            checkCollar, limits, on]
      | submitLimit | submitIceberg | submitStop | submitStopLimit => exact refusal ..
      | _ => rfl
  | _ => rfl

theorem call_of_verdict {g : RiskGate H} {call : Call} {reason : RiskReject}
    (refused : g.verdict call = some reason) : ∃ op, call = .order op := by
  cases call with
  | order op => exact ⟨op, rfl⟩
  | _ => cases refused

section handler

variable [Handler H]

theorem step_turnedAway (g : RiskGate H) (op : Op) {reason : RiskReject}
    (refused : g.verdict (.order op) = some reason) :
    g.step (.order op) = some (g.countMessage.fail reason, op.refused) := by
  have entered (owner : OwnerId) : g.countMessage.enter (some reason) op.refused owner op =
      some (g.countMessage.fail reason, op.refused) := rfl
  cases op with
  | submitLimit | submitMarket | submitIceberg | submitStop | submitStopLimit =>
      rw [← entered, ← refused]
      rfl
  | modify id newPrice newQty =>
      have refused : g.countMessage.modifyRefusal newPrice newQty = some reason := refused
      simp only [step, modify, refused]
      rfl
  | _ => cases refused

theorem step_admitted (g : RiskGate H) (op : Op) (admitted : g.verdict (.order op) = none) :
    g.step (.order op) = (g.ready op).forward op := by
  have entered (owner : OwnerId) : g.countMessage.enter none op.refused owner op =
      (g.countMessage.setPendingOwner owner).forward op := rfl
  cases op with
  | submitLimit | submitMarket | submitIceberg | submitStop | submitStopLimit =>
      refine Eq.trans ?_ (entered _)
      rw [← admitted]
      rfl
  | modify id newPrice newQty =>
      have admitted : g.countMessage.modifyRefusal newPrice newQty = none := admitted
      simp only [step, modify, admitted]
      rfl
  | _ => rfl

/-! ## Runs -/

def run (g : RiskGate H) : List Call → Option (RiskGate H × List Ret)
  | [] => some (g, [])
  | call :: calls => do
      let (g, ret) ← g.step call
      let (g, rets) ← g.run calls
      some (g, ret :: rets)

/-- The calls of a run that the gate lets through, with its answers. -/
def admitted (g : RiskGate H) : List Call → List (Call × Ret)
  | [] => []
  | call :: calls =>
      match g.step call with
      | none => []
      | some (next, ret) =>
          if g.verdict call = none then (call, ret) :: next.admitted calls
          else next.admitted calls

end handler

end RiskGate

/-! ## The bare engine -/

namespace MatchingEngine

variable {H : Type} [Handler H]

def cancelEach (s : MatchingEngine H) : List OrderId → Option (MatchingEngine H)
  | [] => some s
  | id :: ids => do
      let (s, _) ← s.step (.cancel id)
      s.cancelEach ids

def cancelOpen (s : MatchingEngine H) : Option (MatchingEngine H) := do
  let bids ← s.visitOrders .buy
  let asks ← s.visitOrders .sell
  let stops ← s.visitStops
  s.cancelEach (bids.map Prod.fst ++ asks.map Prod.fst ++ stops)

def callStep (s : MatchingEngine H) : RiskGate.Call → Option (MatchingEngine H × Ret)
  | .order op => s.step op
  | .killAndCancelAll => s.cancelOpen.map fun s => (s, .done)
  | _ => some (s, .done)

def runCalls (s : MatchingEngine H) :
    List RiskGate.Call → Option (MatchingEngine H × List Ret)
  | [] => some (s, [])
  | call :: calls => do
      let (s, ret) ← s.callStep call
      let (s, rets) ← s.runCalls calls
      some (s, ret :: rets)

end MatchingEngine

namespace RiskGate

variable {H : Type} {g : RiskGate H} {s : MatchingEngine H}

structure Guards (g : RiskGate H) (s : MatchingEngine H) : Prop where
  live : s.Live
  shows : g.engine.mapHandler Sink.user = s

theorem guards_new (band : Band) (user : H) (limits : RiskLimits) (expectedOrders : Nat) :
    (RiskGate.new band user limits expectedOrders).Guards (.new band user expectedOrders) :=
  ⟨MatchingEngine.live_new band user expectedOrders, rfl⟩

theorem Guards.ready (guards : g.Guards s) (op : Op) : (g.ready op).Guards s := by
  cases op <;> exact ⟨guards.live, guards.shows⟩

variable [Handler H]

theorem sink_commutes : Handler.Commutes (Sink.user : Sink H → H) := fun _ _ => rfl

theorem Guards.forward (guards : g.Guards s) (op : Op) :
    ∃ engine s' ret, g.forward op = some ({ g with engine }, ret) ∧
      s.step op = some (s', ret) ∧ ({ g with engine } : RiskGate H).Guards s' := by
  rcases guards.live.step op with ⟨s', ret, stepped, live, -⟩
  have mapped := MatchingEngine.mapHandler_step sink_commutes g.engine op
  rw [guards.shows, stepped] at mapped
  cases result : g.engine.step op with
  | none =>
      rw [result] at mapped
      cases mapped
  | some outcome =>
      rw [result] at mapped
      have same : (s', ret) = MatchingEngine.mapResult Sink.user outcome := Option.some.inj mapped
      refine ⟨outcome.1, s', ret, ?_, stepped, live, (congrArg Prod.fst same).symm⟩
      simp only [RiskGate.forward, result, Option.bind_eq_bind, Option.bind_some]
      exact congrArg (fun ret => some (_, ret)) (congrArg Prod.snd same).symm

theorem Guards.cancelAll (guards : g.Guards s) (ids : List OrderId) :
    ∃ engine s', g.cancelAll ids = some { g with engine } ∧ s.cancelEach ids = some s' ∧
      ({ g with engine } : RiskGate H).Guards s' := by
  induction ids generalizing g s with
  | nil => exact ⟨g.engine, s, rfl, rfl, guards⟩
  | cons id ids induction =>
      rcases guards.forward (.cancel id) with ⟨engine, s', ret, handed, stepped, guards'⟩
      rcases induction guards' with ⟨last, s'', cancelled, each, guards''⟩
      refine ⟨last, s'', ?_, ?_, guards''⟩
      · simp only [RiskGate.cancelAll, handed, Option.bind_eq_bind, Option.bind_some, cancelled]
      · simp only [MatchingEngine.cancelEach, stepped, Option.bind_eq_bind, Option.bind_some, each]

theorem Guards.step (guards : g.Guards s) (call : Call) (admitted : g.verdict call = none) :
    ∃ g' s' ret, g.step call = some (g', ret) ∧ s.callStep call = some (s', ret) ∧
      g'.Guards s' ∧ g'.rejectCount = g.rejectCount := by
  cases call with
  | order op =>
      rcases (guards.ready op).forward op with ⟨engine, s', ret, handed, stepped, guards'⟩
      refine ⟨_, s', ret, (g.step_admitted op admitted).trans handed, stepped, guards', ?_⟩
      cases op <;> rfl
  | killAndCancelAll =>
      let thrown : RiskGate H := { g with killed := true }
      have guards' : thrown.Guards s := ⟨guards.live, guards.shows⟩
      rcases guards.live.visitOrders .buy with ⟨bids, buys⟩
      rcases guards.live.visitOrders .sell with ⟨asks, sells⟩
      rcases guards.live.visitStops with ⟨ids, stops⟩
      rcases guards'.cancelAll (bids.map Prod.fst ++ asks.map Prod.fst ++ ids) with
        ⟨engine, s', cancelled, each, guards''⟩
      refine ⟨_, s', .done, ?_, ?_, guards'', rfl⟩
      · rw [← guards.shows] at buys sells stops
        have visits : g.killAndCancelAll =
            thrown.cancelAll (bids.map Prod.fst ++ asks.map Prod.fst ++ ids) := by
          rw [MatchingEngine.mapHandler_visitOrders] at buys sells
          rw [MatchingEngine.mapHandler_visitStops] at stops
          simp only [RiskGate.killAndCancelAll, buys, sells, stops, Option.bind_eq_bind,
            Option.bind_some]
          rfl
        simp only [RiskGate.step, visits, cancelled, Option.map_some]
      · simp only [MatchingEngine.callStep, MatchingEngine.cancelOpen, buys, sells, stops,
          Option.bind_eq_bind, Option.bind_some, each, Option.map_some]
  | setLimits limits => exact ⟨_, s, .done, rfl, rfl, ⟨guards.live, guards.shows⟩, rfl⟩
  | newWindow => exact ⟨_, s, .done, rfl, rfl, ⟨guards.live, guards.shows⟩, rfl⟩
  | kill => exact ⟨_, s, .done, rfl, rfl, ⟨guards.live, guards.shows⟩, rfl⟩
  | clearKill => exact ⟨_, s, .done, rfl, rfl, ⟨guards.live, guards.shows⟩, rfl⟩

theorem Guards.run (guards : g.Guards s) (calls : List Call) :
    ∃ g' s' rets, g.run calls = some (g', rets) ∧
      s.runCalls ((g.admitted calls).map Prod.fst) = some (s', (g.admitted calls).map Prod.snd) ∧
      g'.Guards s' := by
  induction calls generalizing g s with
  | nil => exact ⟨g, s, [], rfl, rfl, guards⟩
  | cons call calls induction =>
      cases decided : g.verdict call with
      | none =>
          rcases guards.step call decided with ⟨g₁, s₁, ret, stepped, bare, guards₁, -⟩
          rcases induction guards₁ with ⟨g', s', rets, ran, ranBare, guards'⟩
          have first : g.admitted (call :: calls) = (call, ret) :: g₁.admitted calls := by
            simp only [admitted, stepped, decided, if_true]
          refine ⟨g', s', ret :: rets, ?_, ?_, guards'⟩
          · simp only [RiskGate.run, stepped, ran, Option.bind_eq_bind, Option.bind_some]
          · simp only [first, List.map_cons, MatchingEngine.runCalls, bare, ranBare,
              Option.bind_eq_bind, Option.bind_some]
      | some reason =>
          rcases call_of_verdict decided with ⟨op, rfl⟩
          have stepped := g.step_turnedAway op decided
          have guards₁ : (g.countMessage.fail reason).Guards s := ⟨guards.live, guards.shows⟩
          rcases induction guards₁ with ⟨g', s', rets, ran, ranBare, guards'⟩
          have none : g.admitted (.order op :: calls) =
              (g.countMessage.fail reason).admitted calls := by
            simp only [admitted, stepped, decided, reduceCtorEq, if_false]
          refine ⟨g', s', op.refused :: rets, ?_, none ▸ ranBare, guards'⟩
          simp only [RiskGate.run, stepped, ran, Option.bind_eq_bind, Option.bind_some]

/-- A run of a gate is the run of a bare engine that is given what the gate lets through:
the same engine, the same handler and the same answers. What the gate refuses, it counts
and drops, and without limits it refuses nothing. -/
theorem run_transparent (band : Band) (user : H) (limits : RiskLimits) (expectedOrders : Nat)
    (calls : List Call) :
    (∃ g rets, (new band user limits expectedOrders).run calls = some (g, rets) ∧
      (MatchingEngine.new band user expectedOrders).runCalls
          (((new band user limits expectedOrders).admitted calls).map Prod.fst) =
        some (g.engine.mapHandler Sink.user,
          ((new band user limits expectedOrders).admitted calls).map Prod.snd)) ∧
    (∀ (g : RiskGate H) (call : Call) (reason : RiskReject), g.verdict call = some reason →
      ∃ g' ret, g.step call = some (g', ret) ∧ g'.engine = g.engine ∧
        g'.rejectCount = Function.update g.rejectCount reason (g.rejectCount reason + 1)) ∧
    ∀ (g : RiskGate H) (call : Call), g.limits = {} → g.killed = false →
      g.verdict call = none := by
  refine ⟨?_, ?_, fun g call none on => g.verdict_unlimited none on call⟩
  · rcases (guards_new band user limits expectedOrders).run calls with
      ⟨g, s, rets, ran, bare, guards⟩
    exact ⟨g, rets, ran, guards.shows ▸ bare⟩
  · intro g call reason refused
    rcases call_of_verdict refused with ⟨op, rfl⟩
    exact ⟨_, _, g.step_turnedAway op refused, rfl, rfl⟩

end RiskGate

end Matchbook
