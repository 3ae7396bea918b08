import Matchbook.Gate.Flatten
import Matchbook.Market.Caps

namespace Matchbook

open Transitions

/-! # After the kill switch

Once everything is cancelled the book stays empty, whatever is called, until the switch is
cleared. -/

def Op.silenced : Op → Ret
  | .cancel _ => .ok false
  | .reduce _ _ => .ok false
  | .halt => .done
  | .resume => .done
  | .uncross => .qty 0
  | op => op.refused

def Op.isFlow : Op → Bool
  | .cancel _ => false
  | .reduce _ _ => false
  | .halt => false
  | .resume => false
  | .uncross => false
  | _ => true

theorem Op.IsSubmit.isFlow {op : Op} (submit : op.IsSubmit) : op.isFlow := by
  cases op <;> first | rfl | exact submit.elim

namespace Market

variable {m m' : Market} {op : Op} {events : List Event} {ret : Ret}

theorem settled_of_closed (closed : ∀ id, ¬ m.IsOpen id) : m.Settled :=
  .inr fun o member => absurd (isOpen_of_stop member) (closed o.id)

theorem Performs.silenced (closed : ∀ id, ¬ m.IsOpen id) (quiet : ¬ op.isFlow)
    (performs : m.Performs op events m' ret) :
    events = [] ∧ ret = op.silenced ∧ (∀ id, ¬ m'.IsOpen id) ∧ m'.last = m.last := by
  have notSubmit : ¬ op.IsSubmit := fun submit => quiet submit.isFlow
  have closed' (id : OrderId) (isOpen : m'.IsOpen id) : False :=
    (performs.isOpen_origin isOpen).elim (closed id) fun new => notSubmit new.1
  have noOrder {side : Side} {px : Price} {front back : List RO} {o : RO}
      (place : m.levels side px = front ++ o :: back) : False :=
    have member : o ∈ m.levels side px := by simp [place]
    closed o.id (isOpen_of_mem member)
  have noStop {front back : List RO} {o : RO} (place : m.stops = front ++ o :: back) : False :=
    closed o.id (isOpen_of_stop (by simp [place]))
  cases performs with
  | @intro first later m₁ phase _ _ start steps settled answers =>
      have still (m₁ : Market) (closed : ∀ id, ¬ m₁.IsOpen id)
          (steps : Run Step (m₁, .idle) later (m', .idle)) : later = [] ∧ m' = m₁ := by
        rcases (settled_of_closed closed).still steps with ⟨none, same⟩
        cases same
        exact ⟨none, rfl⟩
      cases start with
      | reject submit => exact absurd submit notSubmit
      | refuse entry => exact absurd entry.isSubmit notSubmit
      | enter entry => exact absurd entry.isSubmit notSubmit
      | market => exact absurd trivial notSubmit
      | trigger entry => exact absurd entry.isSubmit notSubmit
      | park entry => exact absurd entry.isSubmit notSubmit
      | decline target =>
          rcases still m closed steps with ⟨rfl, rfl⟩
          cases target with
          | cancel => exact ⟨rfl, rfl, closed', rfl⟩
          | reduce => exact ⟨rfl, rfl, closed', rfl⟩
          | modify => exact absurd rfl quiet
      | cancel cancels place => exact (noOrder place).elim
      | cancelStop cancels place => exact (noStop place).elim
      | erase reduces place => exact (noOrder place).elim
      | reduce reduces place => exact (noOrder place).elim
      | replace place => exact (noOrder place).elim
      | halt =>
          rcases still { m with halted := true } closed steps with ⟨rfl, rfl⟩
          exact ⟨rfl, rfl, closed', rfl⟩
      | resume =>
          rcases still { m with halted := false } closed steps with ⟨rfl, rfl⟩
          exact ⟨rfl, rfl, closed', rfl⟩
      | flat =>
          rcases still m closed steps with ⟨rfl, rfl⟩
          exact ⟨rfl, rfl, closed', rfl⟩
      | uncross bestBid =>
          rcases List.exists_cons_of_ne_nil bestBid.occupied with ⟨o, others, level⟩
          exact (noOrder (show m.levels .buy _ = [] ++ o :: others from level)).elim

end Market

namespace RiskGate

variable {H : Type} {g : RiskGate H} {m : Market}

/-- What a call answers while the switch is thrown and nothing is open. -/
def Call.silenced : Call → Ret
  | .order op => op.silenced
  | _ => .done

structure Silenced (g : RiskGate H) (m : Market) : Prop where
  killed : g.killed = true
  holds : g.engine.Holds m
  closed : ∀ id, ¬ m.IsOpen id

theorem verdict_killed (killed : g.killed = true) {op : Op} (flow : op.isFlow) :
    g.verdict (.order op) = some .killed := by
  cases op with
  | cancel | reduce | halt | resume | uncross => cases flow
  | _ => simp [verdict, refusal, marketRefusal, modifyRefusal, countMessage, killed]

theorem refused_eq {op : Op} (flow : op.isFlow) : op.refused = op.silenced := by
  cases op <;> first | rfl | cases flow

variable [Handler H]

theorem Silenced.forward (silenced : g.Silenced m) {op : Op} (quiet : ¬ op.isFlow) :
    ∃ g' m', g.forward op = some (g', op.silenced) ∧ g'.Silenced m' ∧ g'.engine.h = g.engine.h ∧
      m'.last = m.last := by
  rcases silenced.holds.step op with ⟨engine, ret, m', events, stepped, did⟩
  rcases did.performs.silenced silenced.closed quiet with ⟨rfl, rfl, closed, last⟩
  refine ⟨{ g with engine }, m', ?_, ⟨silenced.killed, did.holds, closed⟩, did.told, last⟩
  rw [RiskGate.forward, stepped]
  rfl

theorem Silenced.step (silenced : g.Silenced m) {call : Call} (locked : call ≠ .clearKill) :
    ∃ g' m', g.step call = some (g', call.silenced) ∧ g'.Silenced m' ∧
      g'.engine.h = g.engine.h ∧ m'.last = m.last := by
  cases call with
  | order op =>
      by_cases flow : op.isFlow
      · have refused := verdict_killed silenced.killed flow
        refine ⟨g.countMessage.fail .killed, m, ?_,
          ⟨silenced.killed, silenced.holds, silenced.closed⟩, rfl, rfl⟩
        rw [g.step_turnedAway op refused, refused_eq flow]
        rfl
      · have counted : g.countMessage.Silenced m :=
          ⟨silenced.killed, silenced.holds, silenced.closed⟩
        cases op with
        | cancel | reduce => exact counted.forward flow
        | halt | resume | uncross => exact silenced.forward flow
        | _ => exact absurd rfl flow
  | killAndCancelAll =>
      have flat := silenced.holds.flat silenced.closed
      refine ⟨{ g with killed := true }, m, ?_, ⟨rfl, silenced.holds, silenced.closed⟩, rfl, rfl⟩
      have buys := flat.visitOrders .buy
      have sells := flat.visitOrders .sell
      have stops := flat.visitStops
      simp only [RiskGate.step, killAndCancelAll, buys, sells, stops, Option.bind_eq_bind,
        Option.bind_some, List.map_nil, List.append_nil, cancelAll, Option.map_some]
      rfl
  | setLimits limits =>
      exact ⟨_, m, rfl, ⟨silenced.killed, silenced.holds, silenced.closed⟩, rfl, rfl⟩
  | newWindow => exact ⟨_, m, rfl, ⟨silenced.killed, silenced.holds, silenced.closed⟩, rfl, rfl⟩
  | kill => exact ⟨_, m, rfl, ⟨rfl, silenced.holds, silenced.closed⟩, rfl, rfl⟩
  | clearKill => exact absurd rfl locked

theorem Silenced.run (silenced : g.Silenced m) {calls : List Call}
    (locked : .clearKill ∉ calls) :
    ∃ g' m', g.run calls = some (g', calls.map Call.silenced) ∧ g'.Silenced m' ∧
      g'.engine.h = g.engine.h ∧ m'.last = m.last := by
  induction calls generalizing g m with
  | nil => exact ⟨g, m, rfl, silenced, rfl, rfl⟩
  | cons call calls induction =>
      have first : call ≠ .clearKill := fun same => locked (same ▸ List.mem_cons_self)
      rcases silenced.step first with ⟨g₁, m₁, stepped, silenced₁, told₁, last₁⟩
      rcases induction silenced₁ (fun member => locked (.tail call member)) with
        ⟨g', m', ran, silenced', told, last⟩
      refine ⟨g', m', ?_, silenced', told.trans told₁, last.trans last₁⟩
      simp only [RiskGate.run, stepped, ran, Option.bind_eq_bind, Option.bind_some, List.map_cons]

theorem Flattens.silenced {s : MatchingEngine H} {g' : RiskGate H} {ids : List OrderId}
    (flattens : g.Flattens ids g') (guards : g'.Guards s) : ∃ m, g'.Silenced m := by
  rcases guards with ⟨⟨band, r, simulates⟩, rfl⟩
  have holds : g'.engine.Holds r.market :=
    (MatchingEngine.mapHandler_holds g'.engine).mp ⟨band, r, simulates, rfl⟩
  refine ⟨r.market, flattens.killed, holds, fun id isOpen => ?_⟩
  have found := (holds.isOpen_iff id).mp isOpen
  rw [flattens.flat.lookup] at found
  cases found

/-- From the kill on, and until the switch is cleared, the book stays empty: whatever is called
is answered as on a dead market, and the handler, the positions and the last trade stay. -/
theorem run_staysFlat (band : Band) (user : H) (limits : RiskLimits) (expectedOrders : Nat)
    (before after : List Call) (locked : .clearKill ∉ after) :
    ∃ g rets g₁ g', (new band user limits expectedOrders).run before = some (g, rets) ∧
      g.killAndCancelAll = some g₁ ∧ g₁.run after = some (g', after.map Call.silenced) ∧
      g'.killed = true ∧ g'.engine.Flat ∧ g'.engine.h = g₁.engine.h ∧
      g'.engine.lastTrade = g₁.engine.lastTrade := by
  rcases (guards_new band user limits expectedOrders).run before with ⟨g, s, rets, ran, -, guards⟩
  rcases guards.flattens with ⟨g₁, ids, killed, flattens, -⟩
  rcases guards.step .killAndCancelAll rfl with ⟨g₁', s₁, ret, stepped, -, guards₁, -⟩
  have same : g₁' = g₁ := by
    have both : some (g₁, Ret.done) = some (g₁', ret) := by
      rw [← stepped, RiskGate.step, killed]
      rfl
    exact (Prod.mk.inj (Option.some.inj both)).1.symm
  subst same
  rcases flattens.silenced guards₁ with ⟨m₁, silenced⟩
  rcases silenced.run locked with ⟨g', m', ranAfter, silenced', told, last⟩
  refine ⟨g, rets, g₁', g', ran, killed, ranAfter, silenced'.killed,
    silenced'.holds.flat silenced'.closed, told, ?_⟩
  rw [silenced'.holds.lastTrade, silenced.holds.lastTrade, last]

/-- Orders, a cancel, an auction and a second kill, after one of two bids was hit. -/
theorem run_staysFlat_kill :
    let band : Band := ⟨5, 15, by decide, by decide, by decide⟩
    let limit (side : Side) (qty : Qty) : Call :=
      .order (.submitLimit side 10 qty .gtc 1 .cancelTaker)
    let after : List Call := [limit .sell 4, .order (.cancel 2), .order .halt, .setLimits {},
      .order .uncross, .order (.submitMarket .buy 3 2 .cancelTaker), .killAndCancelAll]
    ∃ g rets g₁ g', (new band ([] : Tape) {} 16).run [limit .buy 5, limit .buy 6, limit .sell 3] =
        some (g, rets) ∧
      g.killAndCancelAll = some g₁ ∧
      g₁.run after =
        some (g', [.id 0, .ok false, .done, .done, .qty 0, .qty 3, .done]) ∧
      g'.killed = true ∧ g'.engine.Flat ∧ g'.engine.h = g₁.engine.h ∧
      g'.engine.lastTrade = g₁.engine.lastTrade :=
  run_staysFlat _ _ _ _ _ _ (by simp)

end RiskGate

end Matchbook
