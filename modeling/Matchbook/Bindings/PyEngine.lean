import Matchbook.Engine.Records

namespace Matchbook

/-! # The engine of the bindings

Events are collected behind the engine and drained between calls. -/

structure Collector where
  trades : List Trade := []
  cancels : List OrderId := []
  rejects : UInt64 := 0

namespace Collector

def onTrade (collector : Collector) (t : Trade) : Collector :=
  { collector with trades := collector.trades ++ [t] }

def onCancel (collector : Collector) (id : OrderId) : Collector :=
  { collector with cancels := collector.cancels ++ [id] }

def onReject (collector : Collector) : Collector :=
  { collector with rejects := collector.rejects + 1 }

instance : Handler Collector where
  on collector event :=
    match event with
    | .trade t => collector.onTrade t
    | .cancel id => collector.onCancel id
    | .reject _ => collector.onReject
    | _ => collector

end Collector

structure PyEngine where
  engine : MatchingEngine Collector

namespace PyEngine

def new (band : Band) (expectedOrders : Nat) : PyEngine where
  engine := .new band {} expectedOrders

def rejects (e : PyEngine) : UInt64 := e.engine.h.rejects

def setHandler (e : PyEngine) (handler : Collector) : PyEngine where
  engine := { e.engine with h := handler }

def takeTrades (e : PyEngine) : PyEngine × List Trade :=
  (e.setHandler { e.engine.h with trades := [] }, e.engine.h.trades)

def takeCancels (e : PyEngine) : PyEngine × List OrderId :=
  (e.setHandler { e.engine.h with cancels := [] }, e.engine.h.cancels)

inductive Call
  | op (op : Op)
  | takeTrades
  | takeCancels

inductive Answer
  | ret (ret : Ret)
  | trades (trades : List Trade)
  | cancels (cancels : List OrderId)

def step (e : PyEngine) : Call → Option (PyEngine × Answer)
  | .op op => (e.engine.step op).map fun (engine, ret) => ({ engine }, .ret ret)
  | .takeTrades => some (e.takeTrades.map id .trades)
  | .takeCancels => some (e.takeCancels.map id .cancels)

def run (e : PyEngine) : List Call → Option (PyEngine × List Answer)
  | [] => some (e, [])
  | call :: calls => do
      let (e, answer) ← e.step call
      let (e, answers) ← e.run calls
      some (e, answer :: answers)

def Call.op? : Call → Option Op
  | .op asked => some asked
  | _ => none

namespace Answer

def ret? : Answer → Option Ret
  | .ret answer => some answer
  | _ => none

def fills : Answer → List Trade
  | .trades drained => drained
  | _ => []

def kills : Answer → List OrderId
  | .cancels drained => drained
  | _ => []

end Answer

end PyEngine

/-! ## What is collected -/

def Event.cancel? : Event → Option OrderId
  | .cancel id => some id
  | _ => none

def Event.isReject : Event → Bool
  | .reject _ => true
  | _ => false

def cancelsOf (events : List Event) : List OrderId := events.filterMap Event.cancel?

theorem cancelsOf_append (events later : List Event) :
    cancelsOf (events ++ later) = cancelsOf events ++ cancelsOf later :=
  List.filterMap_append

theorem Collector.onAll_eq (collector : Collector) (events : List Event) :
    Handler.onAll collector events =
      { trades := collector.trades ++ tradesOf events
        cancels := collector.cancels ++ cancelsOf events
        rejects := collector.rejects + UInt64.ofNat (events.countP Event.isReject) } := by
  induction events generalizing collector with
  | nil => simp [tradesOf, cancelsOf]
  | cons event events induction =>
      refine (induction (Handler.on collector event)).trans ?_
      simp only [tradesOf, cancelsOf, List.filterMap_cons, List.countP_cons]
      cases event with
      | trade t => simp [Handler.on, onTrade, Event.trade?, Event.cancel?, Event.isReject]
      | cancel id => simp [Handler.on, onCancel, Event.trade?, Event.cancel?, Event.isReject]
      | reject id =>
          simp [Handler.on, onReject, Event.trade?, Event.cancel?, Event.isReject, UInt64.ofNat_add,
            UInt64.add_assoc, UInt64.add_comm]
      | _ => simp [Handler.on, Event.trade?, Event.cancel?, Event.isReject]

namespace PyEngine

structure Collected (e : PyEngine) (answers : List Answer) (s : MatchingEngine Tape) (m : Market) :
    Prop where
  records : e.engine.Records s m
  trades : answers.flatMap Answer.fills ++ e.engine.h.trades = tradesOf s.h
  cancels : answers.flatMap Answer.kills ++ e.engine.h.cancels = cancelsOf s.h
  rejects : e.rejects = UInt64.ofNat (s.h.countP Event.isReject)

variable {e : PyEngine} {answers : List Answer} {s : MatchingEngine Tape} {m : Market}

theorem Collected.step (collected : e.Collected answers s m) (call : Call) :
    ∃ e' answer s' m', e.step call = some (e', answer) ∧
      s.runOps call.op?.toList = some (s', answer.ret?.toList) ∧
      e'.Collected (answers ++ [answer]) s' m' := by
  cases call with
  | op op =>
      rcases collected.records.step op with
        ⟨engine, s', ret, m', events, stepped, recorded, records, -, heard, tape⟩
      rw [Collector.onAll_eq] at heard
      refine ⟨⟨engine⟩, .ret ret, s', m', by rw [PyEngine.step, stepped]; rfl, ?_, records, ?_, ?_,
        ?_⟩
      · rw [Call.op?, Option.toList_some, MatchingEngine.runOps, recorded]
        rfl
      · rw [heard, tape, tradesOf_append, ← collected.trades]
        simp [Answer.fills]
      · rw [heard, tape, cancelsOf_append, ← collected.cancels]
        simp [Answer.kills]
      · rw [PyEngine.rejects, heard, tape, List.countP_append, UInt64.ofNat_add,
          ← collected.rejects]
        rfl
  | takeTrades =>
      refine ⟨_, _, s, m, rfl, rfl, collected.records.setHandler _, ?_, ?_, collected.rejects⟩
      · rw [← collected.trades]
        simp [Answer.fills, setHandler]
      · rw [← collected.cancels]
        simp [Answer.kills, setHandler]
  | takeCancels =>
      refine ⟨_, _, s, m, rfl, rfl, collected.records.setHandler _, ?_, ?_, collected.rejects⟩
      · rw [← collected.trades]
        simp [Answer.fills, setHandler]
      · rw [← collected.cancels]
        simp [Answer.kills, setHandler]

theorem Collected.run (collected : e.Collected answers s m) (calls : List Call) :
    ∃ e' later s' m', e.run calls = some (e', later) ∧
      s.runOps (calls.filterMap Call.op?) = some (s', later.filterMap Answer.ret?) ∧
      e'.Collected (answers ++ later) s' m' := by
  induction calls generalizing e answers s m with
  | nil => exact ⟨e, [], s, m, rfl, rfl, by rw [List.append_nil]; exact collected⟩
  | cons call calls induction =>
      rcases collected.step call with ⟨e₁, answer, s₁, m₁, stepped, asked, collected₁⟩
      rcases induction collected₁ with ⟨e', later, s', m', ran, recorded, collected'⟩
      have first (call : Call) (calls : List Call) : (call :: calls).filterMap Call.op? =
          call.op?.toList ++ calls.filterMap Call.op? := by
        cases call <;> rfl
      have answered : (answer :: later).filterMap Answer.ret? =
          answer.ret?.toList ++ later.filterMap Answer.ret? := by
        cases answer <;> rfl
      refine ⟨e', answer :: later, s', m', ?_, ?_, ?_⟩
      · simp only [PyEngine.run, stepped, ran, Option.bind_eq_bind, Option.bind_some]
      · rw [first, answered]
        exact MatchingEngine.runOps_append asked recorded
      · rw [List.append_cons]
        exact collected'

/-- Whenever a script drains, and however often: no fill and no cancel is lost, told twice or out of
order, the rejects are counted, and the engine is the one of a run that was never drained. -/
theorem run_collects (band : Band) (expectedOrders : Nat) (calls : List Call) :
    ∃ e answers s, (new band expectedOrders).run calls = some (e, answers) ∧
      (MatchingEngine.new band ([] : Tape) expectedOrders).runOps (calls.filterMap Call.op?) =
        some (s, answers.filterMap Answer.ret?) ∧
      e.engine = s.mapHandler (fun _ => e.engine.h) ∧
      answers.flatMap Answer.fills ++ e.engine.h.trades = tradesOf s.h ∧
      answers.flatMap Answer.kills ++ e.engine.h.cancels = cancelsOf s.h ∧
      e.rejects = UInt64.ofNat (s.h.countP Event.isReject) := by
  have start : (new band expectedOrders).Collected [] (.new band [] expectedOrders) (.new band) :=
    ⟨MatchingEngine.records_new band _ expectedOrders, rfl, rfl, rfl⟩
  rcases start.run calls with ⟨e, answers, s, m, ran, recorded, collected⟩
  exact ⟨e, answers, s, ran, recorded, collected.records.same, collected.trades, collected.cancels,
    collected.rejects⟩

end PyEngine

end Matchbook
