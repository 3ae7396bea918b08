import Matchbook.Engine.Records
import Matchbook.Engine.SerialSchedule
import Matchbook.Ouch.Gateway
import Matchbook.Ouch.Stream

namespace Matchbook

namespace Ouch

open Itch (byteAt be32 be64)

/-! # What a gateway reports

A session is a run of the bare engine, and the executions it sends are the trades of that run. -/

/-! ## Executions on the wire -/

def executionOf (m : List UInt8) : Option (UInt32 × Int64 × UInt64) :=
  (decodeOut m).bind OutMsg.execution

def executionsOf (out : List (List UInt8)) : List (UInt32 × Int64 × UInt64) :=
  out.filterMap executionOf

/-- What both sides are told of a trade. -/
def matchOf (t : Trade) : UInt32 × Int64 := (t.qty.toUInt32, Int64.ofInt t.price)

theorem executionsOf_append (first second : List (List UInt8)) :
    executionsOf (first ++ second) = executionsOf first ++ executionsOf second :=
  List.filterMap_append

theorem executionOf_encodeExecuted (token : List UInt8) (qty : UInt32) (price : Price)
    (number : UInt64) : executionOf (encodeExecuted token qty price number) =
      some (qty, Int64.ofInt price, number) := by
  have kind : byteAt (encodeExecuted token qty price number) 0 = 'E'.toUInt8 := rfl
  have whole : ¬ (encodeExecuted token qty price number).length < executedSize := by
    rw [encodeExecuted, length_putToken_append]
    exact Nat.lt_irrefl _
  have amount : be32 ((encodeExecuted token qty price number).drop 15) = qty :=
    (congrArg be32 (drop_putToken _ _ _ 0)).trans (be32_put32 qty _)
  have priced : (be64 ((encodeExecuted token qty price number).drop 19)).toInt64 =
      Int64.ofInt price :=
    (congrArg (fun bytes => (be64 bytes).toInt64) (drop_putToken _ _ _ 4)).trans
      (getPrice_putPrice price _)
  have numbered : be64 ((encodeExecuted token qty price number).drop 27) = number :=
    (congrArg be64 (drop_putToken _ _ _ 12)).trans (Mold.be64_put64 number [])
  rw [executionOf, decodeOut, if_neg (by simp [encodeExecuted]), kind, if_neg (by decide),
    if_pos rfl,
    if_neg whole, amount, priced, numbered]
  rfl

section other

variable {kind : UInt8} (other : kind ≠ 'E'.toUInt8) (fields : List UInt8)
include other

theorem executionOf_other : executionOf (kind :: fields) = none := by
  have first : byteAt (kind :: fields) 0 ≠ 'E'.toUInt8 := other
  rw [executionOf, decodeOut, if_neg first]
  split_ifs <;> rfl

theorem executionsOf_insert (out : List (List UInt8)) (pos : Nat) :
    executionsOf (out.take pos ++ (kind :: fields) :: out.drop pos) = executionsOf out := by
  have split := executionsOf_append (out.take pos) (out.drop pos)
  rw [List.take_append_drop] at split
  rw [executionsOf_append, split, executionsOf, executionsOf, executionsOf,
    List.filterMap_cons_none (executionOf_other other fields)]

theorem executionsOf_emit (out : List (List UInt8)) :
    executionsOf (out ++ [kind :: fields]) = executionsOf out := by
  rw [executionsOf_append, executionsOf, executionsOf,
    List.filterMap_cons_none (executionOf_other other fields), List.filterMap_nil, List.append_nil]

end other

namespace Session

structure Reports (session : Session) (earlier : List (List UInt8)) (trades : List Trade) :
    Prop where
  numbered : session.matchSeq = UInt64.ofNat trades.length
  reported : executionsOf (earlier ++ session.out) = bothSides (trades.map matchOf) 1

variable {session : Session} {earlier : List (List UInt8)} {trades : List Trade}

theorem Reports.congr {session' : Session} (reports : session.Reports earlier trades)
    (numbered : session'.matchSeq = session.matchSeq)
    (same : executionsOf session'.out = executionsOf session.out) :
    session'.Reports earlier trades where
  numbered := numbered.trans reports.numbered
  reported := by
    have reported := reports.reported
    rwa [executionsOf_append, ← same, ← executionsOf_append] at reported

theorem Reports.trade (reports : session.Reports earlier trades) (t : Trade) :
    (session.evTrade t).Reports earlier (trades ++ [t]) where
  numbered := by
    show session.matchSeq + 1 = _
    rw [reports.numbered, List.length_append, UInt64.ofNat_add]
    rfl
  reported := by
    have reported := reports.reported
    have number : session.matchSeq + 1 = UInt64.ofNat (1 + (trades.map matchOf).length) := by
      rw [reports.numbered, List.length_map, Nat.add_comm, UInt64.ofNat_add]
      rfl
    rw [List.map_append, List.map_singleton, matchOf, bothSides_snoc, ← reported, ← number]
    show executionsOf (earlier ++ (session.out ++ [_] ++ [_])) = _
    rw [List.append_assoc, ← List.append_assoc, executionsOf_append]
    congr 1
    simp [executionsOf, executionOf_encodeExecuted]

theorem Reports.on (reports : session.Reports earlier trades) (event : Event) :
    (Handler.on session event : Session).Reports earlier (trades ++ tradesOf [event]) := by
  cases event with
  | trade t => exact reports.trade t
  | accept id side price qty =>
      rw [show tradesOf [.accept id side price qty] = [] from rfl, List.append_nil]
      show (session.evAccept id side price qty).Reports earlier trades
      rw [evAccept]
      split
      · exact reports
      split
      · exact reports
      · exact reports.congr rfl (executionsOf_emit (by decide) _ _)
  | cancel id =>
      rw [show tradesOf [.cancel id] = [] from rfl, List.append_nil]
      show (session.evCancel id).Reports earlier trades
      rw [evCancel]
      split
      · exact reports
      · exact reports.congr rfl (executionsOf_emit (by decide) _ _)
  | reject id =>
      rw [show tradesOf [.reject id] = [] from rfl, List.append_nil]
      show session.evReject.Reports earlier trades
      rw [evReject]
      split
      · exact reports
      · exact reports.congr rfl (executionsOf_emit (by decide) _ _)
  | rest id side price qty =>
      rw [show tradesOf [.rest id side price qty] = [] from rfl, List.append_nil]
      exact reports

theorem Reports.onAll (reports : session.Reports earlier trades) (events : List Event) :
    (Handler.onAll session events).Reports earlier (trades ++ tradesOf events) := by
  induction events generalizing session trades with
  | nil => simpa [tradesOf] using reports
  | cons event events induction =>
      have rest := induction (reports.on event)
      rw [List.append_assoc, ← tradesOf_append] at rest
      exact rest

end Session

namespace Gateway

variable {g : Gateway} {s : MatchingEngine Tape} {m : Market} {earlier : List (List UInt8)}
  {trades : List Trade}

def opOf (g : Gateway) : Call → Option Op
  | .takeOut => none
  | .message p =>
      match decodeIn p with
      | none => none
      | some (.enter token side qty price tif display owner stp) =>
          if (g.byToken token).isSome then none
          else if display ≠ 0 ∧ display < qty then
            some (.submitIceberg side price qty.toUInt64 display.toUInt64 tif owner stp)
          else some (.submitLimit side price qty.toUInt64 tif owner stp)
      | some (.replace token newToken qty price) =>
          if (g.byToken newToken).isSome then none
          else (g.orderOf token).map fun id => .modify id price qty.toUInt64
      | some (.cancel token) => (g.orderOf token).map .cancel

def ops (g : Gateway) : List Call → List Op
  | [] => []
  | call :: calls =>
      match g.step call with
      | none => []
      | some (next, _) => (g.opOf call).toList ++ next.ops calls

structure Reports (engine : MatchingEngine Session) (earlier : List (List UInt8))
    (s : MatchingEngine Tape) (m : Market) : Prop where
  records : engine.Records s m
  told : engine.h.Reports earlier (tradesOf s.h)

variable {engine : MatchingEngine Session}

theorem Reports.congr (reports : Reports engine earlier s m) {session : Session}
    (numbered : session.matchSeq = engine.h.matchSeq)
    (same : executionsOf session.out = executionsOf engine.h.out) :
    Reports { engine with h := session } earlier s m :=
  ⟨reports.records.setHandler session, reports.told.congr numbered same⟩

theorem Reports.emit (reports : Reports g.engine earlier s m) {kind : UInt8}
    (other : kind ≠ 'E'.toUInt8) (fields : List UInt8) :
    Reports (g.emit (kind :: fields)).engine earlier s m :=
  reports.congr rfl (executionsOf_emit other fields _)

theorem Reports.call {α : Type} {call : Option (MatchingEngine Session × α)}
    (reports : Reports engine earlier s m) (op : Op) {answer : α → Ret}
    (step : engine.step op = call.map (·.map id answer)) :
    ∃ engine' result s' m', call = some (engine', result) ∧ s.step op = some (s', answer result) ∧
      Reports engine' earlier s' m' := by
  rcases reports.records.call op step with
    ⟨engine', result, s', m', events, called, stepped, records, -, heard, tape⟩
  refine ⟨engine', result, s', m', called, stepped, records, ?_⟩
  rw [heard, tape, tradesOf_append]
  exact reports.told.onAll events

theorem Reports.rested (reports : Reports engine earlier s m) :
    Reports (Gateway.rested engine) earlier s m :=
  reports.congr rfl rfl

theorem Reports.handleEnter (reports : Reports g.engine earlier s m) (token : List UInt8)
    (side : Side) (qty : UInt32) (price : Price) (tif : TimeInForce) (display : UInt32)
    (owner : OwnerId) (stp : StpPolicy) :
    ∃ g' s' rets m', g.handleEnter token side qty price tif display owner stp = some g' ∧
      s.runOps (if (g.byToken token).isSome then []
        else if display ≠ 0 ∧ display < qty then
          [.submitIceberg side price qty.toUInt64 display.toUInt64 tif owner stp]
        else [.submitLimit side price qty.toUInt64 tif owner stp]) = some (s', rets) ∧
      Reports g'.engine earlier s' m' := by
  by_cases used : (g.byToken token).isSome
  · rw [if_pos used]
    exact ⟨_, s, [], m, handleEnter_used used, rfl, reports.emit (by decide) _⟩
  · rw [if_neg used]
    have begun : Reports (g.beginEnter token).engine earlier s m := reports.congr rfl rfl
    by_cases dark : display ≠ 0 ∧ display < qty
    · rcases begun.call (.submitIceberg side price qty.toUInt64 display.toUInt64 tif owner stp) rfl
        with ⟨engine, id, s', m', called, stepped, reports'⟩
      refine ⟨_, s', [.id id], m', handleEnter_submitted used
        (by rw [submit, if_pos dark]; exact called),
        ?_, reports'.rested⟩
      rw [if_pos dark, MatchingEngine.runOps, stepped]
      rfl
    · rcases begun.call (.submitLimit side price qty.toUInt64 tif owner stp) rfl
        with ⟨engine, id, s', m', called, stepped, reports'⟩
      refine ⟨_, s', [.id id], m', handleEnter_submitted used
        (by rw [submit, if_neg dark]; exact called),
        ?_, reports'.rested⟩
      rw [if_neg dark, MatchingEngine.runOps, stepped]
      rfl

theorem Reports.handleCancel (reports : Reports g.engine earlier s m) (token : List UInt8) :
    ∃ g' s' rets m', g.handleCancel token = some g' ∧
      s.runOps ((g.orderOf token).map Op.cancel).toList = some (s', rets) ∧
      Reports g'.engine earlier s' m' := by
  cases known : g.orderOf token with
  | none =>
      exact ⟨_, s, [], m, handleCancel_unknown known, rfl, reports.emit (by decide) _⟩
  | some id =>
      have begun : Reports (g.setMode .cancel).engine earlier s m := reports.congr rfl rfl
      rcases begun.call (.cancel id) rfl with ⟨engine, ok, s', m', called, stepped, reports'⟩
      refine ⟨_, s', [.ok ok], m', handleCancel_known known called, ?_, ?_⟩
      · rw [Option.map_some, Option.toList_some, MatchingEngine.runOps, stepped]
        rfl
      · cases ok with
        | true => exact reports'.rested
        | false =>
            exact reports'.rested.emit (g := { g with engine := Gateway.rested engine })
              (by decide) _

theorem Reports.handleReplace (reports : Reports g.engine earlier s m) (token newToken : List UInt8)
    (qty : UInt32) (price : Price) :
    ∃ g' s' rets m', g.handleReplace token newToken qty price = some g' ∧
      s.runOps (if (g.byToken newToken).isSome then none
        else (g.orderOf token).map fun id => Op.modify id price qty.toUInt64).toList =
          some (s', rets) ∧ Reports g'.engine earlier s' m' := by
  cases known : g.orderOf token with
  | none =>
      refine ⟨_, s, [], m, handleReplace_unknown known, ?_, reports.emit (by decide) _⟩
      split <;> rfl
  | some id =>
      by_cases used : (g.byToken newToken).isSome
      · rw [if_pos used]
        exact ⟨_, s, [], m, handleReplace_used known used, rfl, reports.emit (by decide) _⟩
      · rw [if_neg used]
        have begun : Reports (g.beginReplace id newToken).engine earlier s m :=
          reports.congr rfl rfl
        rcases begun.call (.modify id price qty.toUInt64) rfl with
          ⟨engine, ok, s', m', called, stepped, reports'⟩
        refine ⟨_, s', [.ok ok], m', handleReplace_modified known used called, ?_, ?_⟩
        · rw [Option.map_some, Option.toList_some, MatchingEngine.runOps, stepped]
          rfl
        · cases ok with
          | true => exact reports'.rested.congr rfl (executionsOf_insert (by decide) _ _ _)
          | false => exact reports'.rested.congr rfl (executionsOf_emit (by decide) _ _)

theorem Reports.step (reports : Reports g.engine earlier s m) (call : Call) :
    ∃ g' taken s' rets m', g.step call = some (g', taken) ∧
      s.runOps (g.opOf call).toList = some (s', rets) ∧
      Reports g'.engine (earlier ++ taken) s' m' := by
  cases call with
  | takeOut =>
      refine ⟨_, _, s, [], m, rfl, rfl, reports.records.setHandler _, reports.told.numbered, ?_⟩
      show executionsOf (earlier ++ g.session.out ++ []) = _
      rw [List.append_nil]
      exact reports.told.reported
  | message p =>
      have handled {g' : Gateway} (answer : Bool) (seen : g.onMessage p = some (g', answer)) :
          g.step (.message p) = some (g', []) := by
        rw [Gateway.step, seen]
        rfl
      cases read : decodeIn p with
      | none =>
          refine ⟨g, [], s, [], m, handled false
            (by rw [onMessage, read]), by rw [opOf, read]; rfl, ?_⟩
          rw [List.append_nil]
          exact reports
      | some message =>
          rw [opOf, read]
          cases message with
          | enter token side qty price tif display owner stp =>
              rcases reports.handleEnter token side qty price tif display owner stp with
                ⟨g', s', rets, m', entered, ran, reports'⟩
              refine ⟨g', [], s', rets, m',
                handled true (by simp only [onMessage, read, entered, Option.map_some]), ?_, ?_⟩
              · rw [← ran]
                dsimp only
                split
                · rfl
                · split <;> rfl
              · rw [List.append_nil]
                exact reports'
          | replace token newToken qty price =>
              rcases reports.handleReplace token newToken qty price with
                ⟨g', s', rets, m', replaced, ran, reports'⟩
              refine ⟨g', [], s', rets, m',
                handled true (by simp only [onMessage, read, replaced, Option.map_some]), ran, ?_⟩
              rw [List.append_nil]
              exact reports'
          | cancel token =>
              rcases reports.handleCancel token with ⟨g', s', rets, m', cancelled, ran, reports'⟩
              refine ⟨g', [], s', rets, m',
                handled true (by simp only [onMessage, read, cancelled, Option.map_some]), ran, ?_⟩
              rw [List.append_nil]
              exact reports'

theorem Reports.run (reports : Reports g.engine earlier s m) (calls : List Call) :
    ∃ g' taken s' rets m', g.run calls = some (g', taken) ∧
      s.runOps (g.ops calls) = some (s', rets) ∧ Reports g'.engine (earlier ++ taken) s' m' := by
  induction calls generalizing g s m earlier with
  | nil => exact ⟨g, [], s, [], m, rfl, rfl, by rw [List.append_nil]; exact reports⟩
  | cons call calls induction =>
      rcases reports.step call with ⟨g₁, taken₁, s₁, rets₁, m₁, stepped, asked, reports₁⟩
      rcases induction reports₁ with ⟨g', taken, s', rets, m', ran, recorded, reports'⟩
      refine ⟨g', taken₁ ++ taken, s', rets₁ ++ rets, m', ?_, ?_, ?_⟩
      · simp only [Gateway.run, stepped, ran, Option.bind_eq_bind, Option.bind_some]
      · rw [ops, stepped]
        exact MatchingEngine.runOps_append asked recorded
      · rw [← List.append_assoc]
        exact reports'

/-- Any session, whatever its messages: the engine behind the gateway is the bare engine after the
operations that were asked of it, and each of its trades has been told to both sides, once, in
order, and under a number of its own. -/
theorem run_reports (band : Band) (expectedOrders : Nat) (calls : List Call) :
    ∃ g taken s rets, (new band expectedOrders).run calls = some (g, taken) ∧
      (MatchingEngine.new band ([] : Tape) expectedOrders).runOps
        ((new band expectedOrders).ops calls) = some (s, rets) ∧
      g.engine = s.mapHandler (fun _ => g.session) ∧
      executionsOf (taken ++ g.session.out) = bothSides ((tradesOf s.h).map matchOf) 1 := by
  have start : Reports (new band expectedOrders).engine [] (.new band [] expectedOrders)
      (.new band) :=
    ⟨MatchingEngine.records_new band _ expectedOrders, rfl, rfl⟩
  rcases start.run calls with ⟨g, taken, s, rets, m, ran, recorded, reports⟩
  exact ⟨g, taken, s, rets, ran, recorded, reports.records.same, reports.told.reported⟩

end Gateway

end Ouch

end Matchbook
