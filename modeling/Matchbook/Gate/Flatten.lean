import Matchbook.Engine.Equilibrium
import Matchbook.Engine.OpenOrders
import Matchbook.Gate.Transparency
import Matchbook.Market.Withdrawals

namespace Matchbook

/-! # Killing everything

The switch is thrown, and every order that was open is cancelled, once, with nothing
else happening in between. -/

namespace MatchingEngine

variable {H : Type} {s : MatchingEngine H} {m : Market}

theorem Holds.lastTrade (holds : s.Holds m) : s.lastTrade = m.last := by
  rcases holds with ⟨band, r, simulates, rfl⟩
  rcases simulates.tracks with ⟨cells, mirrors, -⟩
  rw [MatchingEngine.lastTrade, mirrors.last, mirrors.hasLast]
  rfl

variable [Handler H]

theorem Holds.withdraw (holds : s.Holds m) {id : OrderId} (isOpen : m.IsOpen id) :
    ∃ s' ret m', s.step (.cancel id) = some (s', ret) ∧ s'.Holds m' ∧ m.Withdraws id m' ∧
      s'.h = Handler.on s.h (.cancel id) := by
  rcases holds.step (.cancel id) with ⟨s', ret, m', events, stepped, did⟩
  rcases did.performs.withdraws holds.valid holds.settled isOpen with ⟨rfl, withdraws⟩
  exact ⟨s', ret, m', stepped, did.holds, withdraws, did.told⟩

theorem Holds.cancelEach {ids : List OrderId} (holds : s.Holds m) (nodup : ids.Nodup)
    (members : ∀ id, id ∈ ids ↔ m.IsOpen id) :
    ∃ s' m', s.cancelEach ids = some s' ∧ s'.Holds m' ∧ (∀ id, ¬ m'.IsOpen id) ∧
      m'.last = m.last ∧ s'.h = Handler.onAll s.h (ids.map .cancel) := by
  induction ids generalizing s m with
  | nil =>
      have closed (id : OrderId) (isOpen : m.IsOpen id) : False :=
        List.not_mem_nil ((members id).mpr isOpen)
      exact ⟨s, m, rfl, holds, closed, rfl, rfl⟩
  | cons id ids induction =>
      rcases List.nodup_cons.mp nodup with ⟨fresh, nodup'⟩
      rcases holds.withdraw ((members id).mp List.mem_cons_self) with
        ⟨s₁, ret, m₁, stepped, holds₁, withdraws, told⟩
      have left (other : OrderId) : other ∈ ids ↔ m₁.IsOpen other := by
        rw [withdraws.isOpen, ← members, List.mem_cons]
        constructor
        · intro member
          exact ⟨.inr member, fun same => fresh (same ▸ member)⟩
        · exact fun ⟨either, other⟩ => either.resolve_left other
      rcases induction holds₁ nodup' left with ⟨s', m', each, holds', closed, last, rest⟩
      refine ⟨s', m', ?_, holds', closed, last.trans withdraws.last, ?_⟩
      · simp only [MatchingEngine.cancelEach, stepped, Option.bind_eq_bind, Option.bind_some, each]
      · rw [rest, told]
        rfl

end MatchingEngine

namespace RiskGate

variable {H : Type} [Handler H]

/-- What is left after `killAndCancelAll`: a gate that is killed, in front of an engine
without orders, whose handler was told of one cancel for each of `ids` and of nothing
else. -/
structure Flattens (g : RiskGate H) (ids : List OrderId) (g' : RiskGate H) : Prop where
  killed : g'.killed = true
  flat : g'.engine.Flat
  told : g'.engine.h.user = Handler.onAll g.engine.h.user (ids.map .cancel)
  lastTrade : g'.engine.lastTrade = g.engine.lastTrade

theorem Guards.flattens {g : RiskGate H} {s : MatchingEngine H} (guards : g.Guards s) :
    ∃ g' ids, g.killAndCancelAll = some g' ∧ g.Flattens ids g' ∧ ids.Nodup ∧
      ∀ id, id ∈ ids ↔ (g.engine.lookup id).isSome := by
  rcases guards with ⟨live, rfl⟩
  rcases live with ⟨band, r, simulates⟩
  have holds : (g.engine.mapHandler Sink.user).Holds r.market := ⟨band, r, simulates, rfl⟩
  rcases holds.visits with ⟨bids, asks, stops, buys, sells, visited, nodup, members⟩
  rcases holds.cancelEach nodup members with ⟨s', m', each, holds', closed, last, told⟩
  let thrown : RiskGate H := { g with killed := true }
  have guards : thrown.Guards (g.engine.mapHandler Sink.user) := ⟨⟨band, r, simulates⟩, rfl⟩
  rcases guards.cancelAll (bids.map Prod.fst ++ asks.map Prod.fst ++ stops) with
    ⟨engine, s'', cancelled, each', guards'⟩
  cases each.symm.trans each'
  have shows : engine.mapHandler Sink.user = s' := guards'.shows
  have called : g.killAndCancelAll = some { thrown with engine } := by
    rw [MatchingEngine.mapHandler_visitOrders] at buys sells
    rw [MatchingEngine.mapHandler_visitStops] at visited
    simp only [killAndCancelAll, buys, sells, visited, Option.bind_eq_bind, Option.bind_some]
    exact cancelled
  refine ⟨_, _, called, ⟨rfl, ?_, ?_, ?_⟩, nodup, fun id => ?_⟩
  · have flat := holds'.flat closed
    rw [← shows] at flat
    exact ⟨flat.lookup, flat.openOrders, flat.pendingStops, flat.best, flat.levels,
      flat.visitOrders, flat.visitStops⟩
  · rw [← shows] at told
    exact told
  · have same := holds'.lastTrade.trans (last.trans holds.lastTrade.symm)
    rw [← shows] at same
    exact same
  · rw [members, holds.isOpen_iff]
    rfl

/-- Whenever the gate is told to kill and cancel everything, that flattens the book: every
order that was open is cancelled once, and nothing else happens. -/
theorem run_flattens (band : Band) (user : H) (limits : RiskLimits) (expectedOrders : Nat)
    (calls : List Call) :
    ∃ g rets, (new band user limits expectedOrders).run calls = some (g, rets) ∧
      ∃ g' ids, g.killAndCancelAll = some g' ∧ g.Flattens ids g' ∧ ids.Nodup ∧
        ∀ id, id ∈ ids ↔ (g.engine.lookup id).isSome := by
  rcases (guards_new band user limits expectedOrders).run calls with
    ⟨g, s, rets, ran, -, guards⟩
  exact ⟨g, rets, ran, guards.flattens⟩

end RiskGate

end Matchbook
