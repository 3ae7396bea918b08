import Matchbook.Engine.Journal
import Matchbook.Market.StopPump

namespace Matchbook

open Transitions

/-! # Stops that are armed when the pump starts

The pump reads the last trade anew after every stop it fires. -/

namespace MatchingEngine

variable {H : Type} {s s' : MatchingEngine H} {m m' : Market}

def Arms (s : MatchingEngine H) (side : Side) (stop : Price) : Prop :=
  s.hasLast = true ∧ stopTriggered side stop s.lastPx

/-- Every stop that is armed when the body of the operation is done has left the
stop books when the operation returns, unless the engine is halted. -/
def FiresArmed [Handler H] (s : MatchingEngine H) (op : Op) : Prop :=
  ∀ s₁ ret s' ret', s.body op = some (s₁, ret) → s.step op = some (s', ret') →
    s'.halted = false → ∀ (side : Side) (px : Price), s₁.Arms side px →
      ∀ o ∈ s₁.queue side.stopBook px,
        ∀ (side' : Side) (px' : Price), o ∉ s'.queue side'.stopBook px'

theorem Shows.arms_iff (shows : s.Shows m) {o : RO} : s.Arms o.side o.price ↔ m.Armed o := by
  have triggered : stopTriggered o.side o.price s.lastPx ↔
      o.side.opposite.Reaches o.price s.lastPx := by
    cases o.side <;> exact Iff.rfl
  rw [Arms, Market.Armed, ← shows.last, triggered]
  by_cases printed : s.hasLast = true
  · simp [printed]
  · simp [printed]

theorem Shows.sameStops (shows : s.Shows m) (shows' : s.Shows m') : m.SameStops m' := by
  constructor
  case others =>
      have max : m.max = m'.max := by
        have one := shows.max
        have two := shows'.max
        lia
      have levels : m.levels = m'.levels := by
        funext side px
        exact (shows.levels side px).symm.trans (shows'.levels side px)
      have min := shows.min.symm.trans shows'.min
      have nextId := shows.nextId.symm.trans shows'.nextId
      have last := shows.last.symm.trans shows'.last
      have halted := shows.halted.symm.trans shows'.halted
      rcases m with ⟨_, _, _, stops, _, _, _⟩
      rcases m' with ⟨_, _, _, stops', _, _, _⟩
      cases max
      cases levels
      cases min
      cases nextId
      cases last
      cases halted
      rfl
  case parked =>
      intro side px
      exact (shows'.stops side px).symm.trans (shows.stops side px)

/-- After any run, an operation whose pump starts with stops that stay armed fires all
of those that are armed. -/
theorem runOps_firesArmed [Handler H] (band : Band) (h : H) (expectedOrders : Nat)
    (ops : List Op) (op : Op) :
    ∃ s rets s₁ ret s', (new band h expectedOrders).runOps ops = some (s, rets) ∧
      s.body op = some (s₁, ret) ∧ s.step op = some (s', ret) ∧
      ∀ m, s₁.Shows m → m.KeepsArmed → s.FiresArmed op := by
  rcases (simulates_new band h expectedOrders).runOps ops with ⟨s, r, rets, fast, -, simulates⟩
  rcases simulates.step op with ⟨s', r', ret, step, ref, simulates', -⟩
  rcases body_lockstep simulates.tracks simulates.sound ref with
    ⟨s₁, body, r₁, ⟨cells, mirrors, -⟩, valid, keyed, pump⟩
  have shows₁ := mirrors.shows valid
  refine ⟨s, rets, s₁, ret, s', fast, body, step, fun m shows keeps => ?_⟩
  intro s₂ ret₂ s₃ ret₃ body' step' running side px arms o parked side' px' stays
  rw [body] at body'
  cases body'
  rw [step] at step'
  cases step'
  rcases ReferenceEngine.pump_spec valid keyed with ⟨r'', pumped, took, -, settled⟩
  rw [pump] at pumped
  cases pumped
  rcases took with ⟨events, run, -⟩
  have shows' := simulates'.shows
  have halted : r'.market.halted = false := shows'.halted.symm.trans running
  have keeps₁ : r₁.market.KeepsArmed := (shows₁.sameStops shows).keepsArmed keeps
  rcases shows₁.mem_stops.mp parked with ⟨member, rfl, rfl⟩
  have gone := Run.armed_fire run keeps₁ settled halted o member (shows₁.arms_iff.mp arms)
  exact gone (shows'.mem_stops.mp stays).1

theorem fires_of_pumpRound [Handler H] {r r' : ReferenceEngine H} (valid : r.market.Valid)
    (keyed : r.Keyed) (running : r.halted = false) (printed : r.hasLast = true)
    (round : r.pumpRound = some (.again r')) (one : r'.stops.length + 1 = r.stops.length) :
    r.market.Fires r'.market := by
  rcases ReferenceEngine.pumpRound_spec valid keyed running printed with
    ⟨left, -⟩ | ⟨r'', again, took, -⟩
  · rw [round] at left
    cases left
  · rw [round] at again
    cases again
    rcases took with ⟨events, run, -⟩
    exact Market.fires_of_length_stops (Market.fires_of_run run) one

/-- A buy stop and a sell stop are armed by a print at 105. The first one takes the
ask at 106, not the one at 110 that would disarm the other. -/
theorem runOps_firesArmed_within :
    let band : Band := ⟨95, 120, by decide, by decide, by decide⟩
    let ops : List Op :=
      [.submitLimit .sell 105 1 .gtc 0 .cancelTaker, .submitMarket .buy 1 0 .cancelTaker, .halt,
        .submitLimit .sell 106 5 .gtc 0 .cancelTaker,
        .submitLimit .sell 110 20 .gtc 0 .cancelTaker,
        .submitLimit .buy 100 20 .gtc 0 .cancelTaker, .submitStop .buy 103 5 0 .cancelTaker,
        .submitStop .sell 107 5 0 .cancelTaker]
    ∃ s rets s₁ s' ret m, (new band ([] : Tape) 0).runOps ops = some (s, rets) ∧
      s.body .resume = some (s₁, ret) ∧ s.step .resume = some (s', ret) ∧ s'.halted = false ∧
      s₁.Shows m ∧ m.stops.length = 2 ∧ (∀ o ∈ m.stops, m.Armed o) ∧ m.KeepsArmed ∧
      s.FiresArmed .resume := by
  intro band ops
  rcases runOps_firesArmed band ([] : Tape) 0 ops .resume with
    ⟨s, rets, s₁, ret, s', fast, body, step, fires⟩
  rcases (simulates_new band ([] : Tape) 0).runOps ops with ⟨s₂, r, rets₂, fast₂, ref, simulates⟩
  rw [fast] at fast₂
  cases fast₂
  cases body
  let buyStop : RO :=
    { id := 6, side := .buy, price := 103, qty := 5, owner := 0, stp := .cancelTaker,
      stopMarket := true }
  let sellStop : RO :=
    { id := 7, side := .sell, price := 107, qty := 5, owner := 0, stp := .cancelTaker,
      stopMarket := true }
  let r₁ := { r with halted := false }
  have start : ((ReferenceEngine.new band ([] : Tape)).runOps ops).map
      (fun result => (result.1.stops, result.1.last, result.1.hasLast)) =
        some ([buyStop, sellStop], 105, true) := by
    decide +kernel
  have round : (((ReferenceEngine.new band ([] : Tape)).runOps ops).bind fun result =>
      { result.1 with halted := false }.pumpRound).map (fun turn => match turn with
        | .leave _ => none
        | .again r => some (r.stops, r.last, r.hasLast)) =
        some (some ([sellStop], 106, true)) := by
    decide +kernel
  have after : (((ReferenceEngine.new band ([] : Tape)).runOps ops).bind fun result =>
      result.1.step .resume).map (fun result => result.1.halted) = some false := by
    decide +kernel
  rcases simulates.step .resume with ⟨s₂, r', ret', step', ref', simulates', -⟩
  rw [step] at step'
  cases step'
  simp only [ref, Option.map_some, Option.some_inj, Prod.mk.injEq] at start
  simp only [ref, ref', Option.bind_some, Option.map_some, Option.some_inj] at round after
  rcases Option.map_eq_some_iff.mp round with ⟨turn, pumped, left⟩
  cases turn with
  | leave _ => cases left
  | again r₂ =>
      simp only [Option.some_inj, Prod.mk.injEq] at left
      have valid : r₁.market.Valid := simulates.sound.valid.setHalted false
      have fired : r₁.market.Fires r₂.market := by
        apply fires_of_pumpRound valid simulates.sound.keyed rfl start.2.2 pumped
        rw [left.1, start.1]
        rfl
      have two : r₁.market.stops.length = 2 := congrArg List.length start.1
      have shows : { s with halted := false }.Shows r₁.market :=
        { simulates.shows with halted := rfl }
      have keeps : r₁.market.KeepsArmed := by
        apply Market.keepsArmed_of_fires _ fired
        · intro o member
          have isSell : o = sellStop := by
            have member : o ∈ r₂.stops := member
            simpa [left.1] using member
          refine ⟨106, ?_, isSell ▸ by decide⟩
          simp [ReferenceEngine.market, left.2.1, left.2.2]
        · exact two
      refine ⟨s, rets, _, s', _, r₁.market, fast, rfl, step, ?_, shows, two, ?_, keeps,
        fires _ shows keeps⟩
      · exact simulates'.shows.halted.trans after
      · intro o member
        have last : r₁.market.last = some 105 := by
          simp [r₁, ReferenceEngine.market, start.2.1, start.2.2]
        have member : o ∈ r.stops := member
        rw [start.1] at member
        refine ⟨105, last, ?_⟩
        rcases List.mem_pair.mp member with rfl | rfl <;> decide

/-- Two buy stops are armed by an auction print at 105, and the first of them trades
at 100. -/
theorem not_runOps_firesArmed :
    ¬ ∀ (band : Band) (expectedOrders : Nat) (ops : List Op) (op : Op) (s : MatchingEngine Tape)
      (rets : List Ret), (new band [] expectedOrders).runOps ops = some (s, rets) →
        s.FiresArmed op := by
  intro claim
  let band : Band := ⟨95, 110, by decide, by decide, by decide⟩
  let ops : List Op :=
    [.submitLimit .sell 105 1 .gtc 0 .cancelTaker, .submitMarket .buy 1 0 .cancelTaker, .halt,
      .submitLimit .sell 100 20 .gtc 0 .cancelTaker, .submitStop .buy 103 5 0 .cancelTaker,
      .submitStop .buy 105 5 0 .cancelTaker]
  let first : RO :=
    { id := 4, side := .buy, price := 103, qty := 5, owner := 0, stp := .cancelTaker,
      stopMarket := true }
  let second : RO := { first with id := 5, price := 105 }
  rcases (simulates_new band ([] : Tape) 0).runOps ops with ⟨s, r, rets, fast, ref, simulates⟩
  rcases simulates.step .resume with ⟨s', r', ret, step, ref', simulates', -⟩
  have before : ((ReferenceEngine.new band ([] : Tape)).runOps ops).map
      (fun result => (result.1.stops, result.1.last, result.1.hasLast)) =
        some ([first, second], 105, true) := by
    decide +kernel
  have after : (((ReferenceEngine.new band ([] : Tape)).runOps ops).bind fun result =>
      result.1.step .resume).map (fun result => (result.1.stops, result.1.halted)) =
        some ([second], false) := by
    decide +kernel
  simp only [ref, ref', Option.bind_some, Option.map_some, Option.some_inj,
    Prod.mk.injEq] at before after
  have shows := simulates.shows
  have shows' := simulates'.shows
  have arms : s.Arms .buy 105 := by
    apply (shows.arms_iff (o := second)).mpr
    refine ⟨105, ?_, by decide⟩
    simp [ReferenceEngine.market, before.2.1, before.2.2]
  have parked : second ∈ s.queue Side.buy.stopBook 105 := by
    rw [shows.mem_stops]
    refine ⟨?_, rfl, rfl⟩
    show second ∈ r.stops
    simp [before.1]
  have stays : second ∈ s'.queue Side.buy.stopBook 105 := by
    rw [shows'.mem_stops]
    refine ⟨?_, rfl, rfl⟩
    show second ∈ r'.stops
    simp [after.1]
  have running : s'.halted = false := shows'.halted.trans after.2
  exact claim band 0 ops .resume s rets fast { s with halted := false } .done s' ret rfl step
    running .buy 105 arms second parked .buy 105 stays

end MatchingEngine

end Matchbook
