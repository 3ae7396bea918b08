import Matchbook.Engine.Equilibrium
import Matchbook.Engine.OpenOrders
import Matchbook.Market.FillOrKill

namespace Matchbook

/-! # Fill-or-kill orders of the engine -/

namespace MatchingEngine

variable {H : Type} {s s' : MatchingEngine H} {m m' : Market}

theorem Holds.shows (holds : s.Holds m) : s.Shows m := by
  rcases holds with ⟨band, r, simulates, rfl⟩
  exact simulates.shows

structure SameBook (s s' : MatchingEngine H) : Prop where
  queues : ∀ book px, s'.queue book px = s.queue book px
  last : s'.lastTrade = s.lastTrade

theorem Shows.sameBook (shows : s.Shows m) (shows' : s'.Shows m') (levels : m'.levels = m.levels)
    (stops : m'.stops = m.stops) (last : m'.last = m.last) : s.SameBook s' := by
  constructor
  case queues =>
      intro book px
      rcases book_cases book with ⟨side, rfl | rfl⟩
      · rw [shows'.levels, shows.levels, levels]
      · rw [shows'.stops, shows.stops, stops]
  case last => exact shows'.last.trans (last.trans shows.last.symm)

def Foreign (s : MatchingEngine H) (maker : Side) (price : Price) (owner : OwnerId) : Prop :=
  owner = 0 ∨ ∀ px, maker.Reaches px price → ∀ o ∈ s.queue maker.book px, o.owner ≠ owner

/-- All or nothing of an order that came in between `s` and `s'`. -/
structure AllOrNothing (s : MatchingEngine Tape) (side : Side) (price : Price) (qty : Qty)
    (owner : OwnerId) (id : OrderId) (s' : MatchingEngine Tape) : Prop where
  rejected : ¬ s.inBand price ∨ qty = 0 →
    id = invalidOrderId ∧ s'.h = [.reject invalidOrderId] ∧ s.SameBook s'
  all : s.inBand price → qty ≠ 0 → s.Foreign side.opposite price owner →
    qty.toNat ≤ s.offered side.opposite price →
      id ≠ invalidOrderId ∧ Takes id qty.toNat s'.h ∧ s'.lookup id = none
  nothing : s.inBand price → qty ≠ 0 → s.offered side.opposite price < qty.toNat →
    id ≠ invalidOrderId ∧ s'.h = [.accept id side price qty, .cancel id] ∧ s.SameBook s' ∧
      s'.lookup id = none

section operations

variable {s : MatchingEngine Tape}

theorem Holds.allOrNothing (holds : s.Holds m) (running : s.halted = false) {op : Op} {side : Side}
    {price : Price} {qty peak : Qty} {owner : OwnerId} {stp : StpPolicy}
    (entry : op.Limit side price qty .fok owner stp peak)
    (fits : s.openQty side.opposite < 2 ^ 64) :
    ∃ s' id, { s with h := [] }.step op = some (s', .id id) ∧
      s.AllOrNothing side price qty owner id s' := by
  have shows := holds.shows
  have valid := holds.valid
  have bounded : m.offered side.opposite price < 2 ^ 64 := by
    rw [shows.openQty_eq] at fits
    exact Nat.lt_of_le_of_lt (m.offered_le _ _) fits
  have calm : m.halted = false := shows.halted.symm.trans running
  rcases (holds.setHandler []).step op with ⟨s', ret, m', events, stepped, did⟩
  have shows' := did.holds.shows
  have told : s'.h = events := by
    rw [did.told, Handler.onAll_tape]
    rfl
  have closed {id : OrderId} (isClosed : ¬ m'.IsOpen id) : s'.lookup id = none := by
    rw [did.holds.isOpen_iff] at isClosed
    simpa using isClosed
  by_cases passes : s.inBand price ∧ qty ≠ 0
  · rcases passes with ⟨inside, nonzero⟩
    have insideM := (holds.inBand_iff price).mp inside
    rcases did.performs.fillOrKill valid holds.settled calm entry insideM nonzero bounded with
      ⟨rfl, all, nothing⟩
    have issued : m.nextId ≠ invalidOrderId := Nat.ne_of_gt valid.started
    refine ⟨s', m.nextId, stepped, ?_, ?_, ?_⟩
    · rintro (outside | zero)
      · exact absurd inside outside
      · exact absurd zero nonzero
    · intro _ _ foreign enough
      rw [shows.offered_eq] at enough
      have foreignM : m.Foreign side.opposite price owner := by
        refine foreign.imp_right fun others px reaches o member => others px reaches o ?_
        rwa [shows.levels]
      rcases all enough foreignM with ⟨takes, gone⟩
      exact ⟨issued, told ▸ takes, closed gone⟩
    · intro _ _ dry
      rw [shows.offered_eq] at dry
      rcases nothing dry with ⟨rfl, rfl⟩
      exact ⟨issued, told, shows.sameBook shows' rfl rfl rfl,
        closed fun isOpen => valid.fresh isOpen⟩
  · have fails : ¬ s.inBand price ∨ qty = 0 := by
      rw [not_and_or, not_not] at passes
      exact passes
    have bad : m.Rejects op := by
      rw [holds.inBand_iff] at fails
      cases entry with
      | limit => exact fails
      | iceberg shown => exact fails.imp_right .inl
    rcases did.performs.rejected holds.settled entry.isSubmit bad with ⟨rfl, rfl, rfl⟩
    have answer : op.rejection = .id invalidOrderId := by cases entry <;> rfl
    rw [answer] at stepped
    refine ⟨s', invalidOrderId, stepped, ?_, ?_, ?_⟩
    · exact fun _ => ⟨rfl, told, shows.sameBook shows' rfl rfl rfl⟩
    · exact fun inside nonzero => absurd ⟨inside, nonzero⟩ passes
    · exact fun inside nonzero => absurd ⟨inside, nonzero⟩ passes

end operations

/-- After any run that leaves the engine running, a fill-or-kill order is filled whole
where the other side offers enough within its limit, reserves included, and otherwise
killed with the books as they were. -/
theorem runOps_allOrNothing (band : Band) (expectedOrders : Nat) (ops : List Op) :
    ∃ s rets, (new band ([] : Tape) expectedOrders).runOps ops = some (s, rets) ∧
      (s.halted = false → (∀ side, s.openQty side < 2 ^ 64) →
        ∀ (op : Op) (side : Side) (price : Price) (qty peak : Qty) (owner : OwnerId)
          (stp : StpPolicy), op.Limit side price qty .fok owner stp peak →
            ∃ s' id, { s with h := [] }.step op = some (s', .id id) ∧
              s.AllOrNothing side price qty owner id s') := by
  rcases (simulates_new band ([] : Tape) expectedOrders).runOps ops with
    ⟨s, r, rets, run, -, simulates⟩
  have holds : s.Holds r.market := ⟨band, r, simulates, rfl⟩
  exact ⟨s, rets, run, fun running fits _ side _ _ _ _ _ entry =>
    holds.allOrNothing running entry (fits side.opposite)⟩

/-- An iceberg of 9 that shows 2, and an order of 4 behind it: 12 are filled, across
the clips and the gap between the levels. -/
theorem runOps_allOrNothing_iceberg :
    let band : Band := ⟨95, 105, by decide, by decide, by decide⟩
    let ops : List Op :=
      [.submitIceberg .sell 100 9 2 .gtc 0 .cancelTaker,
        .submitLimit .sell 103 4 .gtc 0 .cancelTaker]
    ∃ s rets, (new band ([] : Tape) 16).runOps ops = some (s, rets) ∧
      ∃ s' id, { s with h := [] }.step (.submitLimit .buy 104 12 .fok 0 .cancelTaker) =
        some (s', .id id) ∧ Takes id 12 s'.h ∧ s'.lookup id = none := by
  intro band ops
  rcases runOps_allOrNothing band 16 ops with ⟨s, rets, run, whole⟩
  refine ⟨s, rets, run, ?_⟩
  rcases (simulates_new band ([] : Tape) 16).runOps ops with ⟨s₁, r, rets₁, fast, ref, simulates⟩
  rw [run] at fast
  cases fast
  have book : ((ReferenceEngine.new band ([] : Tape)).runOps ops).map (fun result =>
      let m := result.1.market
      (m.halted, m.min, m.max, m.openQty .buy, m.openQty .sell, m.offered .sell 104)) =
      some (false, 95, 105, 0, 13, 13) := by
    decide +kernel
  simp only [ref, Option.map_some, Option.some_inj, Prod.mk.injEq] at book
  rcases book with ⟨running, low, high, bids, asks, offered⟩
  have shows := simulates.shows
  have holds : s.Holds r.market := ⟨band, r, simulates, rfl⟩
  have fits (side : Side) : s.openQty side < 2 ^ 64 := by
    rw [shows.openQty_eq]
    cases side with
    | buy => lia
    | sell => lia
  rcases whole (shows.halted.trans running) fits _ .buy 104 12 0 0 .cancelTaker .limit with
    ⟨s', id, stepped, outcome⟩
  have inside : s.inBand 104 := (holds.inBand_iff 104).mpr ⟨by lia, by lia⟩
  have enough : UInt64.toNat 12 ≤ s.offered .sell 104 := by
    rw [shows.offered_eq, offered]
    decide
  rcases outcome.all inside (by decide) (.inl rfl) enough with ⟨-, takes, gone⟩
  exact ⟨s', id, stepped, takes, gone⟩

end MatchingEngine

end Matchbook
