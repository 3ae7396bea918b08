import Mathlib.Data.List.ReduceOption
import Matchbook.Gate.Killed

namespace Matchbook

/-! # The message budget

A window is what the caller makes of it: every order entry, cancel and reduce counts as a message
until the next window, and new flow beyond the budget is refused. The gate counts its refusals by
their reasons. -/

def Op.isMessage : Op → Bool
  | .halt => false
  | .resume => false
  | .uncross => false
  | _ => true

namespace RiskGate

/-- The messages of the window after a call. -/
def Call.meter (messages : Nat) : Call → Nat
  | .order op => if op.isMessage then messages + 1 else messages
  | .newWindow => 0
  | _ => messages

def Call.Steady : Call → Prop
  | .newWindow => False
  | .setLimits _ => False
  | _ => True

def Call.isFlow : Call → Bool
  | .order op => op.isFlow
  | _ => false

variable {H : Type} {g g' : RiskGate H} {call : Call} {ret : Ret} {s : MatchingEngine H}

section verdicts

variable [Handler H]

def verdicts (g : RiskGate H) : List Call → List (Option RiskReject)
  | [] => []
  | call :: calls =>
      match g.step call with
      | none => []
      | some (next, _) => g.verdict call :: next.verdicts calls

def passed (g : RiskGate H) : List Call → Nat
  | [] => 0
  | call :: calls =>
      match g.step call with
      | none => 0
      | some (next, _) =>
          (if call.isFlow ∧ g.verdict call = none then 1 else 0) + next.passed calls

end verdicts

structure Counts (g : RiskGate H) (call : Call) (g' : RiskGate H) : Prop where
  windowMsgs : ∀ messages : Nat, g.windowMsgs = UInt64.ofNat messages →
    g'.windowMsgs = UInt64.ofNat (call.meter messages)
  rejectCount : ∀ reason, g'.rejectCount reason =
    g.rejectCount reason + if g.verdict call = some reason then 1 else 0
  lastReject : g'.lastReject = (g.verdict call).getD g.lastReject
  maxMessages : call.Steady → g'.limits.maxMessages = g.limits.maxMessages

theorem countMessage_windowMsgs {messages : Nat} (counted : g.windowMsgs = UInt64.ofNat messages) :
    g.countMessage.windowMsgs = UInt64.ofNat (messages + 1) := by
  rw [countMessage, counted, UInt64.ofNat_add]
  rfl

theorem Counts.refused {op : Op} {reason : RiskReject}
    (refused : g.verdict (.order op) = some reason) :
    g.Counts (.order op) (g.countMessage.fail reason) where
  windowMsgs messages counted := by
    have message : op.isMessage := by cases op <;> first | rfl | cases refused
    rw [Call.meter, if_pos message]
    exact countMessage_windowMsgs counted
  rejectCount other := by
    rw [refused]
    by_cases same : other = reason
    · rw [same, if_pos rfl]
      exact Function.update_self ..
    · rw [if_neg (fun isReason => same (Option.some.inj isReason).symm), UInt64.add_zero]
      exact Function.update_of_ne same ..
  lastReject := by rw [refused]; rfl
  maxMessages _ := rfl

theorem Counts.ready {op : Op} (admitted : g.verdict (.order op) = none)
    (engine : MatchingEngine (Sink H)) : g.Counts (.order op) { g.ready op with engine } where
  windowMsgs messages counted := by
    cases op with
    | halt | resume | uncross => exact counted
    | _ => exact countMessage_windowMsgs counted
  rejectCount reason := by
    rw [admitted, if_neg (by simp), UInt64.add_zero]
    cases op <;> rfl
  lastReject := by
    rw [admitted]
    cases op <;> rfl
  maxMessages _ := by cases op <;> rfl

theorem Call.meter_le (messages : Nat) (call : Call) : call.meter messages ≤ messages + 1 := by
  cases call with
  | order op =>
      rw [meter]
      split <;> lia
  | newWindow => exact Nat.zero_le _
  | _ => exact Nat.le_succ messages

theorem Call.meter_foldl_le (calls : List Call) (messages : Nat) :
    calls.foldl Call.meter messages ≤ messages + calls.length := by
  induction calls generalizing messages with
  | nil => exact Nat.le_refl messages
  | cons call calls induction =>
      have first := Call.meter_le messages call
      have rest := induction (call.meter messages)
      rw [List.foldl_cons, List.length_cons]
      lia

theorem inBudget_of_passes {op : Op} (flow : op.isFlow) (passes : g.verdict (.order op) = none) :
    g.countMessage.overBudget = false := by
  by_contra out
  rw [Bool.not_eq_false] at out
  cases op with
  | cancel | reduce | halt | resume | uncross => cases flow
  | _ =>
      simp only [verdict, refusal, marketRefusal, modifyRefusal, out, if_true] at passes
      split at passes <;> cases passes

theorem within_of_passes (flow : call.isFlow) (passes : g.verdict call = none)
    (limited : g.limits.maxMessages ≠ 0) {messages : Nat}
    (counted : g.windowMsgs = UInt64.ofNat messages) (few : messages + 1 < 2 ^ 64) :
    call.meter messages = messages + 1 ∧ messages + 1 ≤ g.limits.maxMessages.toNat := by
  cases call with
  | order op =>
      have message : op.isMessage := by
        cases op with
        | cancel | reduce | halt | resume | uncross => cases flow
        | _ => rfl
      have inBudget := inBudget_of_passes flow passes
      have size : g.countMessage.windowMsgs.toNat = messages + 1 := by
        rw [countMessage_windowMsgs counted]
        exact UInt64.toNat_ofNat_of_lt' few
      refine ⟨by rw [Call.meter, if_pos message], ?_⟩
      rw [overBudget, decide_eq_false_iff_not, not_and] at inBudget
      have below := inBudget limited
      rw [UInt64.not_lt, UInt64.le_iff_toNat_le, size] at below
      exact below
  | _ => cases flow

variable [Handler H]

theorem Guards.kills (guards : g.Guards s) :
    ∃ engine s', g.killAndCancelAll = some { g with killed := true, engine } ∧
      ({ g with killed := true, engine } : RiskGate H).Guards s' := by
  let thrown : RiskGate H := { g with killed := true }
  have guards' : thrown.Guards s := ⟨guards.live, guards.shows⟩
  rcases guards.live.visitOrders .buy with ⟨bids, buys⟩
  rcases guards.live.visitOrders .sell with ⟨asks, sells⟩
  rcases guards.live.visitStops with ⟨ids, stops⟩
  rw [← guards.shows, MatchingEngine.mapHandler_visitOrders] at buys sells
  rw [← guards.shows, MatchingEngine.mapHandler_visitStops] at stops
  rcases guards'.cancelAll (bids.map Prod.fst ++ asks.map Prod.fst ++ ids) with
    ⟨engine, s', cancelled, -, guards''⟩
  refine ⟨engine, s', ?_, guards''⟩
  simp only [killAndCancelAll, buys, sells, stops, Option.bind_eq_bind, Option.bind_some]
  exact cancelled

theorem Guards.counts (guards : g.Guards s) (call : Call) :
    ∃ g' ret s', g.step call = some (g', ret) ∧ g'.Guards s' ∧ g.Counts call g' := by
  have silent (reason : RiskReject) : g.rejectCount reason =
      g.rejectCount reason + if (none : Option RiskReject) = some reason then 1 else 0 := by
    rw [if_neg (by simp), UInt64.add_zero]
  cases call with
  | order op =>
      cases decided : g.verdict (.order op) with
      | none =>
          rcases (guards.ready op).forward op with ⟨engine, s', ret, handed, -, guards'⟩
          exact ⟨_, ret, s', (g.step_admitted op decided).trans handed, guards',
            .ready decided engine⟩
      | some reason =>
          exact ⟨_, op.refused, s, g.step_turnedAway op decided, ⟨guards.live, guards.shows⟩,
            .refused decided⟩
  | killAndCancelAll =>
      rcases guards.kills with ⟨engine, s', killed, guards'⟩
      refine ⟨_, .done, s', by rw [RiskGate.step, killed]; rfl, guards', fun _ counted => counted,
        silent, rfl, fun _ => rfl⟩
  | setLimits limits =>
      exact ⟨_, .done, s, rfl, ⟨guards.live, guards.shows⟩, fun _ counted => counted, silent, rfl,
        fun steady => steady.elim⟩
  | newWindow =>
      exact ⟨_, .done, s, rfl, ⟨guards.live, guards.shows⟩, fun _ _ => rfl, silent, rfl,
        fun steady => steady.elim⟩
  | kill =>
      exact ⟨_, .done, s, rfl, ⟨guards.live, guards.shows⟩, fun _ counted => counted, silent, rfl,
        fun _ => rfl⟩
  | clearKill =>
      exact ⟨_, .done, s, rfl, ⟨guards.live, guards.shows⟩, fun _ counted => counted, silent, rfl,
        fun _ => rfl⟩

/-- The refusals of a run are what the counters show, and the messages since the last window. -/
theorem Guards.counted (guards : g.Guards s) (calls : List Call) {messages : Nat}
    (counted : g.windowMsgs = UInt64.ofNat messages) :
    ∃ g' rets s', g.run calls = some (g', rets) ∧ g'.Guards s' ∧
      g'.windowMsgs = UInt64.ofNat (calls.foldl Call.meter messages) ∧
      (∀ reason, g'.rejectCount reason =
        g.rejectCount reason + UInt64.ofNat ((g.verdicts calls).count (some reason))) ∧
      g'.lastReject = ((g.verdicts calls).reduceOption.getLast?).getD g.lastReject := by
  induction calls generalizing g s messages with
  | nil =>
      refine ⟨g, [], s, rfl, guards, counted, fun reason => ?_, rfl⟩
      exact (UInt64.add_zero _).symm
  | cons call calls induction =>
      rcases guards.counts call with ⟨g₁, ret, s₁, stepped, guards₁, counts⟩
      rcases induction guards₁ (counts.windowMsgs messages counted) with
        ⟨g', rets, s', ran, guards', windowMsgs, rejectCount, lastReject⟩
      have refusals : g.verdicts (call :: calls) = g.verdict call :: g₁.verdicts calls := by
        rw [verdicts, stepped]
      refine ⟨g', ret :: rets, s', ?_, guards', windowMsgs, fun reason => ?_, ?_⟩
      · simp only [RiskGate.run, stepped, ran, Option.bind_eq_bind, Option.bind_some]
      · rw [rejectCount, counts.rejectCount, refusals, List.count_cons, UInt64.add_assoc]
        congr 1
        by_cases refused : g.verdict call = some reason
        · simp [refused, UInt64.ofNat_add, UInt64.add_comm]
        · simp [refused]
      · rw [lastReject, counts.lastReject, refusals]
        cases decided : g.verdict call with
        | none => rfl
        | some reason =>
            rw [List.reduceOption_cons_of_some, List.getLast?_cons]
            cases (g₁.verdicts calls).reduceOption.getLast? <;> rfl

theorem Guards.passed_le (guards : g.Guards s) {calls : List Call}
    (steady : ∀ call ∈ calls, call.Steady) (limited : g.limits.maxMessages ≠ 0) {messages : Nat}
    (counted : g.windowMsgs = UInt64.ofNat messages) (few : messages + calls.length < 2 ^ 64) :
    g.passed calls ≤ g.limits.maxMessages.toNat - messages := by
  induction calls generalizing g s messages with
  | nil => exact Nat.zero_le _
  | cons call calls induction =>
      rcases guards.counts call with ⟨g₁, ret, s₁, stepped, guards₁, counts⟩
      have same := counts.maxMessages (steady call List.mem_cons_self)
      have upper := call.meter_le messages
      have lower : messages ≤ call.meter messages := by
        cases call with
        | order op =>
            rw [Call.meter]
            split <;> lia
        | newWindow => exact (steady _ List.mem_cons_self).elim
        | _ => exact Nat.le_refl messages
      rw [List.length_cons] at few
      have rest := induction guards₁ (fun other member => steady other (.tail call member))
        (same ▸ limited) (counts.windowMsgs messages counted) (by lia)
      rw [same] at rest
      rw [passed, stepped]
      show (if call.isFlow ∧ g.verdict call = none then 1 else 0) + g₁.passed calls ≤ _
      split
      case isTrue passes =>
        have within := within_of_passes passes.1 passes.2 limited counted (by lia)
        lia
      case isFalse => lia

theorem verdicts_length_le (g : RiskGate H) (calls : List Call) :
    (g.verdicts calls).length ≤ calls.length := by
  induction calls generalizing g with
  | nil => exact Nat.le_refl 0
  | cons call calls induction =>
      rw [verdicts]
      split
      · exact Nat.zero_le _
      · exact Nat.succ_le_succ (induction _)

/-- After any run the counters of the gate are those of its refusals and of the messages since the
last window; and whatever comes until the next, no more new flow gets through than the budget has
left. -/
theorem run_metered (band : Band) (user : H) (limits : RiskLimits) (expectedOrders : Nat)
    (before after : List Call) (few : before.length + after.length < 2 ^ 64)
    (steady : ∀ call ∈ after, call.Steady) :
    ∃ g rets, (new band user limits expectedOrders).run before = some (g, rets) ∧
      g.windowMsgs.toNat = before.foldl Call.meter 0 ∧
      (∀ reason, (g.rejectCount reason).toNat =
        ((new band user limits expectedOrders).verdicts before).count (some reason)) ∧
      g.lastReject =
        (((new band user limits expectedOrders).verdicts before).reduceOption.getLast?).getD .none ∧
      (g.limits.maxMessages ≠ 0 →
        g.passed after ≤ g.limits.maxMessages.toNat - g.windowMsgs.toNat) := by
  rcases (guards_new band user limits expectedOrders).counted before rfl with
    ⟨g, rets, s, ran, guards, windowMsgs, rejectCount, lastReject⟩
  have bounded := Call.meter_foldl_le before 0
  have size : g.windowMsgs.toNat = before.foldl Call.meter 0 := by
    rw [windowMsgs]
    exact UInt64.toNat_ofNat_of_lt' (by lia)
  refine ⟨g, rets, ran, size, fun reason => ?_, lastReject, fun limited => ?_⟩
  · have length := (List.count_le_length (a := some reason)).trans
      ((new band user limits expectedOrders).verdicts_length_le before)
    rw [rejectCount]
    refine (congrArg UInt64.toNat (UInt64.zero_add _)).trans ?_
    exact UInt64.toNat_ofNat_of_lt' (by lia)
  · rw [size]
    exact guards.passed_le steady limited windowMsgs (by lia)

/-- A budget of two messages: a cancel after a bid, a new window, and an order in it. -/
theorem run_metered_window :
    let band : Band := ⟨5, 15, by decide, by decide, by decide⟩
    let limits : RiskLimits := { maxMessages := 2 }
    let limit (side : Side) (qty : Qty) : Call :=
      .order (.submitLimit side 10 qty .gtc 1 .cancelTaker)
    let before : List Call := [limit .buy 5, .order (.cancel 1), .newWindow, limit .buy 6]
    let after : List Call := [.order .halt, limit .sell 1, limit .sell 2, .clearKill, limit .sell 3]
    let start := new band ([] : Tape) limits 16
    ∃ g rets, start.run before = some (g, rets) ∧ g.windowMsgs.toNat = 1 ∧
      (∀ reason, (g.rejectCount reason).toNat = (start.verdicts before).count (some reason)) ∧
      g.lastReject = ((start.verdicts before).reduceOption.getLast?).getD .none ∧
      (g.limits.maxMessages ≠ 0 →
        g.passed after ≤ g.limits.maxMessages.toNat - g.windowMsgs.toNat) :=
  run_metered _ _ _ _ _ _ (by decide) (by simp [Call.Steady])

end RiskGate

end Matchbook
