import Matchbook.Engine.Journal
import Matchbook.Market.Reflection

namespace Matchbook

/-! # Buyers and sellers

The two halves of the fast engine do the same: mirrored operations have mirrored
events and leave a mirrored book. -/

def Op.IsStop : Op → Prop
  | .submitStop .. | .submitStopLimit .. => True
  | _ => False

theorem Op.Stop.isStop {op : Op} {id : OrderId} {o : RO} (entry : op.Stop id o) : op.IsStop := by
  cases entry <;> trivial

theorem Market.Continuous.reflect {op : Op} (centre : Price) (continuous : Continuous op) :
    Continuous (op.reflect centre) := by
  cases op <;> cases continuous <;> trivial

namespace MatchingEngine

variable {H : Type}

theorem parkedAt_reflect (centre : Price) (side : Side) (px : Price) (stops : List RO) :
    parkedAt side.opposite (centre - px) (stops.map (RO.reflectStop centre)) =
      (parkedAt side px stops).map (RO.reflectStop centre) := by
  rw [parkedAt, parkedAt, List.filter_map]
  congr 1
  apply List.filter_congr
  intro o _
  have sides : o.side.opposite = side.opposite ↔ o.side = side := by
    cases o.side <;> cases side <;> decide
  have prices : centre - o.price = centre - px ↔ o.price = px := Int.sub_right_inj centre
  simp [sides, prices]

structure Reflects (centre : Price) (s s' : MatchingEngine H) : Prop where
  levels : ∀ (side : Side) (px : Price), s'.queue side.opposite.book (centre - px) =
    (s.queue side.book px).map (RO.reflect centre)
  stops : ∀ (side : Side) (px : Price), s'.queue side.opposite.stopBook (centre - px) =
    (s.queue side.stopBook px).map (RO.reflectStop centre)
  hasLast : s'.hasLast = s.hasLast
  last : s.hasLast = true → s'.lastPx = centre - s.lastPx

theorem Shows.reflects {centre : Price} {s s' : MatchingEngine H} {m : Market}
    (shows : s.Shows m) (mirrored : s'.Shows (m.reflect centre)) : Reflects centre s s' := by
  have last := mirrored.last
  rw [Market.reflect_last, ← shows.last] at last
  constructor
  case levels =>
      intro side px
      rw [mirrored.levels, shows.levels, Market.reflect_levels]
  case stops =>
      intro side px
      rw [mirrored.stops, shows.stops, Market.reflect_stops, parkedAt_reflect]
  case hasLast =>
      cases traded : s.hasLast <;> cases traded' : s'.hasLast <;> simp [traded, traded'] at last ⊢
  case last =>
      intro traded
      cases traded' : s'.hasLast <;> simp [traded, traded'] at last
      exact last

/-- Operations of continuous trading, no stop before the first trade. -/
def Ordinary (s : MatchingEngine Tape) (_ : Unit) (op : Op) : Prop :=
  Market.Continuous op ∧ (op.IsStop → s.hasLast = true)

/-- Two engines run side by side, the second in the mirror: every operation answers
the same, shows the same and leaves the same. -/
def SideBySide (centre : Price) : MatchingEngine Tape → MatchingEngine Tape → List Op → Prop
  | _, _, [] => True
  | s, s', op :: ops => ∃ s₁ s₁' ret, { s with h := [] }.step op = some (s₁, ret) ∧
      { s' with h := [] }.step (op.reflect centre) = some (s₁', ret) ∧
      s₁'.h = s₁.h.map (op.reflectEvent centre) ∧ Reflects centre s₁ s₁' ∧
      SideBySide centre s₁ s₁' ops

section symmetry

variable {band : Band} {centre : Price} {s s' : MatchingEngine Tape}
  {r r' : ReferenceEngine Tape}

theorem Simulates.centred (simulates : Simulates band s r)
    (middle : centre = band.min + band.max) : centre = r.market.min + r.market.max := by
  rcases simulates.tracks with ⟨cells, mirrors, -⟩
  have refMin : r.market.min = band.min := mirrors.refMin
  have refMax : r.market.max + 1 = band.min + Band.levels band := mirrors.refMax
  have ordered := band.min_le_max
  have levels : (Band.levels band : Int) = band.max - band.min + 1 :=
    Int.toNat_of_nonneg (by lia)
  rw [refMin, middle]
  lia

theorem Simulates.sideBySide (simulates : Simulates band s r) (simulates' : Simulates band s' r')
    (middle : centre = band.min + band.max) (same : r'.market = r.market.reflect centre)
    (orderly : Orderly (r.market, .idle)) {ops : List Op}
    (ordinary : Abides (fun _ _ => ()) Ordinary s () ops) : SideBySide centre s s' ops := by
  induction ops generalizing s s' r r' with
  | nil => trivial
  | cons op ops induction =>
      rcases ordinary with ⟨⟨continuous, afterTrade⟩, later⟩
      rcases (simulates.rewind []).step op with ⟨s₁, r₁, ret, fast, -, simulates₁, performed⟩
      rcases (simulates'.rewind []).step (op.reflect centre) with
        ⟨s₁', r₁', ret', fast', -, simulates₁', performed'⟩
      rcases performed.performs with ⟨events, performs, tape⟩
      rcases performed'.performs with ⟨events', performs', tape'⟩
      have traded (o : RO) (entry : op.Stop r.market.nextId o) : r.market.last ≠ none := by
        rw [← simulates.shows.last, if_pos (afterTrade entry.isStop)]
        nofun
      rcases performs.reflect (simulates.centred middle) simulates.sound.settled orderly continuous
        traded with ⟨mirrored, orderly₁, -⟩
      have valid : (r.market.reflect centre).Valid := same ▸ simulates'.sound.valid
      have performs' : (r.market.reflect centre).Performs (op.reflect centre) events' r₁'.market
          ret' := same ▸ performs'
      rcases mirrored.deterministic valid (continuous.reflect centre) performs' with
        ⟨rfl, same₁, rfl⟩
      refine ⟨s₁, s₁', ret, fast, fast', ?_, ?_, ?_⟩
      · have told : s₁.h = events := simulates₁.told tape
        rw [told]
        exact simulates₁'.told tape'
      · exact simulates₁.shows.reflects (same₁ ▸ simulates₁'.shows)
      · exact induction simulates₁ simulates₁' same₁.symm orderly₁ (later s₁ ret fast)

end symmetry

/-- The mirrored operations do the same in the mirror. -/
theorem runs_sideBySide (band : Band) (expectedOrders : Nat) (ops : List Op)
    (ordinary : Abides (fun _ _ => ()) Ordinary (new band [] expectedOrders) () ops) :
    SideBySide (band.min + band.max) (new band [] expectedOrders) (new band [] expectedOrders)
      ops := by
  have simulates := simulates_new band ([] : Tape) expectedOrders
  have empty : (Market.new band).reflect (band.min + band.max) = Market.new band := rfl
  have orderly : Orderly (Market.new band, .idle) :=
    ⟨rfl, nofun, fun _ => rfl, fun _ member => nomatch member⟩
  apply simulates.sideBySide simulates rfl
  · rw [market_new, empty]
  · rw [market_new]
    exact orderly
  · exact ordinary

/-- A trade, a stop limit on either side, and trades that fire them one after the other. -/
theorem runs_sideBySide_stops :
    let band : Band := ⟨95, 105, by decide, by decide, by decide⟩
    let ops : List Op :=
      [.submitLimit .sell 100 3 .gtc 0 .cancelTaker, .submitMarket .buy 1 0 .cancelTaker,
        .submitStop .sell 98 2 0 .cancelTaker, .submitStopLimit .buy 102 103 4 0 .cancelTaker,
        .submitIceberg .sell 102 6 2 .gtc 0 .cancelTaker,
        .submitLimit .buy 97 3 .gtc 0 .cancelTaker,
        .submitLimit .buy 102 7 .ioc 0 .cancelTaker]
    SideBySide 200 (new band [] 16) (new band [] 16) ops := by
  intro band ops
  let ordinary (r : ReferenceEngine Tape) (_ : Unit) : Op → Bool
    | .submitStop .. | .submitStopLimit .. => r.hasLast
    | .halt | .resume | .uncross => false
    | _ => true
  have decides (s : MatchingEngine Tape) (r : ReferenceEngine Tape) (observer : Unit) (op : Op)
      (simulates : Simulates band s r) (passes : ordinary r observer op = true) :
      s.Ordinary observer op := by
    rcases simulates.tracks with ⟨cells, mirrors, -⟩
    cases op with
    | submitStop => exact ⟨trivial, fun _ => mirrors.hasLast.trans passes⟩
    | submitStopLimit => exact ⟨trivial, fun _ => mirrors.hasLast.trans passes⟩
    | halt => cases passes
    | resume => cases passes
    | uncross => cases passes
    | _ => exact ⟨trivial, fun isStop => nomatch isStop⟩
  apply runs_sideBySide band 16 ops
  exact (simulates_new band [] 16).abides_of decides (by decide +kernel)

end MatchingEngine

end Matchbook
