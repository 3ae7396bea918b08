import Matchbook.Engine.Handlers
import Matchbook.Engine.Journal

namespace Matchbook

open BoundedLoop

/-! # The band decides what is refused, and nothing else

How many levels there are is how the engine keeps its book. Two engines whose bands agree on
the prices they are asked for answer alike. -/

namespace ReferenceEngine

variable {H : Type}

def reband (band : Band) (r : ReferenceEngine H) : ReferenceEngine H :=
  { r with min := band.min, max := band.max }

def rebanded {α : Type*} (band : Band) : ReferenceEngine H × α → ReferenceEngine H × α
  | (r, result) => (r.reband band, result)

/-! ## What does not look at the band -/

section silent

variable (band : Band) (r : ReferenceEngine H)

theorem reband_eraseIfEmpty (side : Side) (px : Price) :
    (r.reband band).eraseIfEmpty side px = (r.eraseIfEmpty side px).reband band := by
  rw [eraseIfEmpty, eraseIfEmpty, apply_ite (reband band)]
  rfl

theorem reband_findResting (id : OrderId) : (r.reband band).findResting id = r.findResting id := rfl

theorem reband_eraseResting (id : OrderId) :
    (r.reband band).eraseResting id = (r.eraseResting id).reband band := by
  unfold eraseResting
  rw [reband_findResting]
  cases r.findResting id with
  | none => rfl
  | some place =>
      rcases place with ⟨side, px, front, -, back⟩
      exact reband_eraseIfEmpty band (r.setLevel side px (front ++ back)) side px

theorem reband_pick : (r.reband band).pick = r.pick := by
  have scan (side : Side) (stops : List (RO × Nat)) (picked : Option (RO × Nat)) :
      (r.reband band).pickFrom side stops picked = r.pickFrom side stops picked := by
    induction stops generalizing picked with
    | nil => rfl
    | cons stop stops induction =>
        rcases stop with ⟨o, i⟩
        simp only [pickFrom, induction]
        rfl
  rw [pick, pick, scan, scan]
  rfl

theorem reband_findClearing (lo hi : Price) :
    (r.reband band).findClearing lo hi = r.findClearing lo hi := rfl

variable [Handler H]

theorem reband_emit (event : Event) :
    (r.reband band).emit event = (r.emit event).reband band := rfl

theorem reband_restShaped (id : OrderId) (side : Side) (price : Price) (qty peak : Qty)
    (owner : OwnerId) (stp : StpPolicy) :
    (r.reband band).restShaped id side price qty peak owner stp =
      (r.restShaped id side price qty peak owner stp).reband band := by
  rw [restShaped, restShaped, apply_ite (reband band)]
  rfl

end silent

/-! ## Sweeps -/

variable [Handler H] (band : Band) (r : ReferenceEngine H)

theorem reband_sweepRound (maker : Side) (px : Price) (taker : OrderId) (side : Side)
    (owner : OwnerId) (stp : StpPolicy) (state : ReferenceEngine H × Qty) :
    sweepRound maker px taker side owner stp (rebanded band state) =
      (sweepRound maker px taker side owner stp state).map
        (Turn.map (rebanded band) (rebanded band)) := by
  rcases state with ⟨r, qty⟩
  simp only [rebanded, sweepRound]
  have level : (r.reband band).level maker px = r.level maker px := rfl
  rw [level]
  cases r.level maker px with
  | nil => rfl
  | cons o rest =>
      refine ite_map Iff.rfl (fun _ => rfl) (fun _ => ?_)
      refine ite_map Iff.rfl (fun _ => ?_) (fun _ => ?_)
      · cases stp <;> rfl
      · refine ite_map Iff.rfl (fun _ => ?_) (fun _ => rfl)
        exact ite_map Iff.rfl (fun _ => rfl) (fun _ => rfl)

theorem reband_matchRound (taker : OrderId) (side : Side) (limit : Option Price)
    (owner : OwnerId) (stp : StpPolicy) (state : ReferenceEngine H × Qty) :
    matchRound taker side limit owner stp (rebanded band state) =
      (matchRound taker side limit owner stp state).map
        (Turn.map (rebanded band) (rebanded band)) := by
  rcases state with ⟨r, qty⟩
  simp only [rebanded, matchRound]
  have best : (r.reband band).best side.opposite = r.best side.opposite := by
    cases side <;> rfl
  rw [best]
  cases r.best side.opposite with
  | none => rfl
  | some px =>
      refine ite_map Iff.rfl (fun _ => rfl) (fun _ => ?_)
      refine bind_map (loop_map (reband_sweepRound band side.opposite px taker side owner stp) _
        (r, qty)) fun swept => ?_
      rcases swept with ⟨r', left, haltFlag⟩
      simp only [rebanded, reband_eraseIfEmpty]
      exact ite_map Iff.rfl (fun _ => rfl) (fun _ => rfl)

theorem reband_matchOrder (taker : OrderId) (side : Side) (qty : Qty) (limit : Option Price)
    (owner : OwnerId) (stp : StpPolicy) :
    (r.reband band).matchOrder taker side qty limit owner stp =
      (r.matchOrder taker side qty limit owner stp).map (rebanded band) :=
  loop_map (reband_matchRound band taker side limit owner stp) _ (r, qty)

theorem reband_place (id : OrderId) (side : Side) (price : Price) (qty : Qty) (tif : TimeInForce)
    (owner : OwnerId) (stp : StpPolicy) (peak : Qty) :
    (r.reband band).place id side price qty tif owner stp peak =
      (r.place id side price qty tif owner stp peak).map (reband band) := by
  refine ite_map Iff.rfl (fun _ => congrArg some (reband_restShaped ..)) (fun _ => ?_)
  refine bind_map (reband_matchOrder ..) fun matched => ?_
  rcases matched with ⟨r', left, haltFlag⟩
  refine ite_map Iff.rfl (fun _ => ?_) (fun _ => ?_)
  · exact congrArg some (ite_map Iff.rfl (fun _ => rfl) fun _ => rfl)
  · refine ite_map Iff.rfl (fun _ => ?_) (fun _ => rfl)
    exact ite_map Iff.rfl (fun _ => rfl) fun _ => congrArg some (reband_restShaped ..)

/-! ## Stops -/

theorem reband_fire (id : OrderId) (side : Side) (limitPrice : Price) (qty : Qty)
    (isMarket : Bool) (owner : OwnerId) (stp : StpPolicy) :
    (r.reband band).fire id side limitPrice qty isMarket owner stp =
      (r.fire id side limitPrice qty isMarket owner stp).map (reband band) := by
  cases isMarket with
  | false => exact reband_place band r id side limitPrice qty .gtc owner stp 0
  | true => exact bind_map (reband_matchOrder ..) fun _ => rfl

theorem reband_pumpRound :
    pumpRound (r.reband band) = (pumpRound r).map (Turn.map (reband band) (reband band)) := by
  unfold pumpRound
  rw [reband_pick]
  cases r.pick with
  | none => rfl
  | some picked =>
      rcases picked with ⟨o, i⟩
      exact bind_map (reband_fire band { r with stops := r.stops.eraseIdx i } ..) fun _ => rfl

theorem reband_pump : (r.reband band).pump = r.pump.map (reband band) :=
  ite_map Iff.rfl (fun _ => rfl) fun _ => loop_map (reband_pumpRound band) _ r

/-! ## Operations -/

section operations

variable (side : Side) (price : Price) (qty : Qty) (tif : TimeInForce) (owner : OwnerId)
  (stp : StpPolicy) (peak : Qty)

theorem reband_enter : (r.reband band).enter side price qty tif owner stp peak =
    (r.enter side price qty tif owner stp peak).map (rebanded band) := by
  have crosses (r : ReferenceEngine H) : (r.reband band).wouldCross side price ↔
      r.wouldCross side price := by
    have best : (r.reband band).best side.opposite = r.best side.opposite := by
      cases side <;> rfl
    rw [wouldCross, best]
    rfl
  have fills (r : ReferenceEngine H) : (r.reband band).fillable side price qty =
      r.fillable side price qty := by
    cases side <;> rfl
  let accepted := { r with nextId := r.nextId + 1 }.emit (.accept r.nextId side price qty)
  refine ite_map Iff.rfl (fun _ => ?_) (fun _ => ?_)
  · refine ite_map Iff.rfl (fun _ => rfl) fun _ => ?_
    have rested := reband_restShaped band accepted r.nextId side price qty peak owner stp
    exact congrArg (fun r' => some (r', r.nextId)) rested
  refine ite_map (and_congr Iff.rfl ?_) (fun _ => rfl) (fun _ => ?_)
  · exact (congrArg (· < qty) (fills accepted)).to_iff
  refine ite_map (and_congr Iff.rfl (crosses accepted)) (fun _ => rfl) (fun _ => ?_)
  refine bind_map (reband_place band accepted ..) fun placed => ?_
  exact bind_map (reband_pump band placed) fun _ => rfl

theorem reband_submitLimit (agree : (r.reband band).inBand price ↔ r.inBand price) :
    (r.reband band).submitLimit side price qty tif owner stp =
      (r.submitLimit side price qty tif owner stp).map (rebanded band) :=
  ite_map (or_congr (not_congr agree) Iff.rfl) (fun _ => rfl) fun _ => reband_enter ..

theorem reband_submitIceberg (display : Qty)
    (agree : (r.reband band).inBand price ↔ r.inBand price) :
    (r.reband band).submitIceberg side price qty display tif owner stp =
      (r.submitIceberg side price qty display tif owner stp).map (rebanded band) :=
  ite_map (or_congr (not_congr agree) Iff.rfl) (fun _ => rfl) fun _ => reband_enter ..

theorem reband_submitMarket :
    (r.reband band).submitMarket side qty owner stp =
      (r.submitMarket side qty owner stp).map (rebanded band) := by
  let accepted := { r with nextId := r.nextId + 1 }.emit (.accept r.nextId side 0 qty)
  refine ite_map Iff.rfl (fun _ => rfl) (fun _ => ?_)
  refine bind_map (reband_matchOrder band accepted ..) fun matched => ?_
  exact bind_map (reband_pump band matched.1) fun _ => rfl

theorem reband_doStop (limitPrice : Price) (isMarket : Bool)
    (agree : (r.reband band).inBand price ↔ r.inBand price)
    (agreeLimit : isMarket = false → ((r.reband band).inBand limitPrice ↔ r.inBand limitPrice)) :
    (r.reband band).doStop side price limitPrice qty isMarket owner stp =
      (r.doStop side price limitPrice qty isMarket owner stp).map (rebanded band) := by
  let accepted := { r with nextId := r.nextId + 1 }.emit (.accept r.nextId side price qty)
  refine ite_map ?_ (fun _ => rfl) (fun _ => ?_)
  · cases isMarket with
    | true => simp [agree]
    | false => simp [agree, agreeLimit rfl]
  refine ite_map Iff.rfl (fun _ => ?_) (fun _ => ?_)
  · refine bind_map (reband_fire band accepted ..) fun fired => ?_
    exact bind_map (reband_pump band fired) fun _ => rfl
  · let o : RO :=
      { id := r.nextId, side, price, qty, owner, stp, stopMarket := isMarket,
        stopLimit := limitPrice }
    exact bind_map (reband_pump band { accepted with stops := accepted.stops ++ [o] }) fun _ => rfl

end operations

theorem reband_cancel (id : OrderId) :
    (r.reband band).cancel id = (r.cancel id).map (rebanded band) := by
  unfold cancel
  rw [reband_findResting]
  cases r.findResting id with
  | some place =>
      rcases place with ⟨side, px, front, -, back⟩
      let left := (r.setLevel side px (front ++ back)).eraseIfEmpty side px
      have erased : _ = left.reband band :=
        reband_eraseIfEmpty band (r.setLevel side px (front ++ back)) side px
      have pumped := (congrArg (fun r' => (r'.emit (.cancel id)).pump) erased).trans
        (reband_pump band (left.emit (.cancel id)))
      exact bind_map pumped fun _ => rfl
  | none =>
      have parked : (r.reband band).findStop id = r.findStop id := rfl
      simp only [parked]
      cases r.findStop id with
      | none => rfl
      | some place =>
          rcases place with ⟨front, -, back⟩
          let left : ReferenceEngine H := { r with stops := front ++ back }
          exact bind_map (reband_pump band (left.emit (.cancel id))) fun _ => rfl

theorem reband_reduce (id : OrderId) (delta : Qty) :
    (r.reband band).reduce id delta = (r.reduce id delta).map (rebanded band) := by
  unfold reduce
  rw [reband_findResting]
  cases r.findResting id with
  | none => rfl
  | some place =>
      rcases place with ⟨side, px, front, o, back⟩
      simp only [reband_eraseResting]
      have pumped (r' r'' : ReferenceEngine H) (same : r' = r''.reband band) :
          (r'.pump.bind fun r => some (r, true)) =
            (r''.pump.bind fun r => some (r, true)).map (rebanded band) := by
        rw [same]
        exact bind_map (reband_pump band r'') fun _ => rfl
      apply pumped
      exact ite_map Iff.rfl (fun _ => rfl) fun _ => rfl

theorem reband_modify (id : OrderId) (newPrice : Price) (newQty : Qty)
    (agree : (r.reband band).inBand newPrice ↔ r.inBand newPrice) :
    (r.reband band).modify id newPrice newQty =
      (r.modify id newPrice newQty).map (rebanded band) := by
  have parked : (r.reband band).findStop id = r.findStop id := rfl
  unfold modify
  rw [parked]
  refine ite_map Iff.rfl (fun _ => rfl) (fun _ => ?_)
  refine ite_map Iff.rfl (fun _ => reband_cancel band r id) (fun _ => ?_)
  refine ite_map (not_congr agree) (fun _ => rfl) (fun _ => ?_)
  rw [reband_findResting]
  cases r.findResting id with
  | none => rfl
  | some place =>
      rcases place with ⟨-, -, -, o, -⟩
      refine ite_map Iff.rfl (fun _ => reband_reduce ..) (fun _ => ?_)
      rw [reband_eraseResting]
      refine bind_map (reband_place band (((r.eraseResting id).emit (.cancel id)).emit
        (.accept id o.side newPrice newQty)) ..) fun placed => ?_
      exact bind_map (reband_pump band placed) fun _ => rfl

/-! ## Auctions -/

theorem reband_crossConsume (side : Side) (bookPx : Price) (f : Qty) (px : Price) :
    (r.reband band).crossConsume side bookPx f px =
      (r.crossConsume side bookPx f px).reband band := by
  unfold crossConsume
  have level : (r.reband band).level side bookPx = r.level side bookPx := rfl
  rw [level]
  cases r.level side bookPx with
  | nil => rfl
  | cons o rest =>
      refine ite_map Iff.rfl (fun _ => rfl) (fun _ => ?_)
      exact ite_map Iff.rfl (fun _ => rfl) (fun _ => rfl)

theorem reband_crossRound (clearing : Price) (state : ReferenceEngine H × Qty) :
    crossRound clearing (rebanded band state) =
      (crossRound clearing state).map (Turn.map (rebanded band) (rebanded band)) := by
  rcases state with ⟨r, crossed⟩
  have bestBid : (r.reband band).bestBid = r.bestBid := rfl
  have bestAsk : (r.reband band).bestAsk = r.bestAsk := rfl
  have level (side : Side) (px : Price) : (r.reband band).level side px = r.level side px := rfl
  simp only [rebanded, crossRound, bestBid, bestAsk, level]
  cases r.bestBid with
  | none => rfl
  | some bpx =>
      cases r.bestAsk with
      | none => rfl
      | some apx =>
          refine ite_map Iff.rfl (fun _ => ?_) (fun _ => rfl)
          cases r.level .buy bpx with
          | nil => rfl
          | cons b bids =>
              cases r.level .sell apx with
              | nil => rfl
              | cons a asks =>
                  have last : (r.reband band).setLast clearing = (r.setLast clearing).reband band :=
                    rfl
                  simp only [last, reband_emit, reband_crossConsume, reband_eraseIfEmpty]
                  rfl

theorem reband_uncross : (r.reband band).uncross = r.uncross.map (rebanded band) := by
  have cross : (r.reband band).doUncross = r.doUncross.map (rebanded band) := by
    have bestBid : (r.reband band).bestBid = r.bestBid := rfl
    have bestAsk : (r.reband band).bestAsk = r.bestAsk := rfl
    simp only [doUncross, bestBid, bestAsk, reband_findClearing]
    cases r.bestBid with
    | none => rfl
    | some hi =>
        cases r.bestAsk with
        | none => rfl
        | some lo =>
            refine ite_map Iff.rfl (fun _ => rfl) (fun _ => ?_)
            refine ite_map Iff.rfl (fun _ => rfl) (fun _ => ?_)
            exact loop_map (reband_crossRound band _) _ (r, 0)
  refine bind_map cross fun crossed => ?_
  exact bind_map (reband_pump band crossed.1) fun _ => rfl

end ReferenceEngine

/-! ## Runs -/

def Op.prices : Op → List Price
  | .submitLimit _ price _ _ _ _ => [price]
  | .submitIceberg _ price _ _ _ _ _ => [price]
  | .submitStop _ stopPrice _ _ _ => [stopPrice]
  | .submitStopLimit _ stopPrice limitPrice _ _ _ => [stopPrice, limitPrice]
  | .modify _ newPrice _ => [newPrice]
  | _ => []

def Band.Agree (band band' : Band) (price : Price) : Prop :=
  (band.min ≤ price ∧ price ≤ band.max) ↔ (band'.min ≤ price ∧ price ≤ band'.max)

instance (band band' : Band) (price : Price) : Decidable (band.Agree band' price) := by
  unfold Band.Agree
  exact inferInstance

namespace ReferenceEngine

variable {H : Type} [Handler H] (band : Band) (r : ReferenceEngine H)

theorem reband_step (op : Op)
    (agree : ∀ price ∈ op.prices, ((r.reband band).inBand price ↔ r.inBand price)) :
    (r.reband band).step op = (r.step op).map (rebanded band) := by
  have renamed {α : Type} {answer : α → Ret} {call' call : Option (ReferenceEngine H × α)}
      (same : call' = call.map (rebanded band)) :
      call'.map (·.map id answer) = (call.map (·.map id answer)).map (rebanded band) := by
    rw [same]
    cases call <;> rfl
  cases op with
  | submitLimit side price =>
      exact renamed (reband_submitLimit _ _ _ _ _ _ _ _ (agree price (by simp [Op.prices])))
  | submitMarket => exact renamed (reband_submitMarket ..)
  | submitIceberg side price =>
      exact renamed (reband_submitIceberg _ _ _ _ _ _ _ _ _ (agree price (by simp [Op.prices])))
  | submitStop side stopPrice =>
      exact renamed (reband_doStop _ _ _ _ _ _ _ _ _ (agree stopPrice (by simp [Op.prices]))
        fun limited => nomatch limited)
  | submitStopLimit side stopPrice limitPrice =>
      exact renamed (reband_doStop _ _ _ _ _ _ _ _ _ (agree stopPrice (by simp [Op.prices]))
        fun _ => agree limitPrice (by simp [Op.prices]))
  | cancel id => exact renamed (reband_cancel ..)
  | reduce id delta => exact renamed (reband_reduce ..)
  | modify id newPrice =>
      exact renamed (reband_modify _ _ _ _ _ (agree newPrice (by simp [Op.prices])))
  | halt => rfl
  | resume =>
      let running : ReferenceEngine H := { r with halted := false }
      have pumped := reband_pump band running
      change (running.reband band).pump.map (·, Ret.done) =
        (running.pump.map (·, Ret.done)).map (rebanded band)
      rw [pumped]
      cases running.pump <;> rfl
  | uncross => exact renamed (reband_uncross ..)

end ReferenceEngine

namespace MatchingEngine

theorem Simulates.refMin {H : Type} {band : Band} {s : MatchingEngine H} {r : ReferenceEngine H}
    (simulates : Simulates band s r) : r.min = band.min := by
  rcases simulates.tracks with ⟨cells, mirrors, -⟩
  exact mirrors.refMin

theorem Simulates.refMax {H : Type} {band : Band} {s : MatchingEngine H} {r : ReferenceEngine H}
    (simulates : Simulates band s r) : r.max = band.max := by
  rcases simulates.tracks with ⟨cells, mirrors, -⟩
  have refMax : r.market.max + 1 = band.min + Band.levels band := mirrors.refMax
  have ordered := band.min_le_max
  have same : r.market.max = r.max := rfl
  unfold Band.levels at refMax
  lia

section bands

variable {band band' : Band} {s s' : MatchingEngine Tape} {r : ReferenceEngine Tape}

/-- What two engines that represent one book for their bands answer, tell and show. -/
theorem Simulates.trace_reband (simulates : Simulates band s r)
    (simulates' : Simulates band' s' (r.reband band')) {ops : List Op}
    (agree : ∀ op ∈ ops, ∀ price ∈ op.prices, band.Agree band' price) :
    ∃ seen last last' rets, s.trace ops = some seen ∧ s'.trace ops = some seen ∧
      s.runOps ops = some (last, rets) ∧ s'.runOps ops = some (last', rets) ∧
      ∀ (book : BookName) (px : Price), last.queue book px = last'.queue book px := by
  induction ops generalizing s s' r with
  | nil =>
      refine ⟨[], s, s', [], rfl, rfl, rfl, rfl, fun book px => ?_⟩
      have shows := simulates.shows
      have shows' := simulates'.shows
      cases book with
      | bids => exact (shows.levels .buy px).trans (shows'.levels .buy px).symm
      | asks => exact (shows.levels .sell px).trans (shows'.levels .sell px).symm
      | stopBids => exact (shows.stops .buy px).trans (shows'.stops .buy px).symm
      | stopAsks => exact (shows.stops .sell px).trans (shows'.stops .sell px).symm
  | cons op ops induction =>
      rcases simulates.step op with ⟨s₁, r₁, ret, fast, ref, simulates₁, -⟩
      rcases simulates'.step op with ⟨s₁', r₁', ret', fast', ref', simulates₁', -⟩
      have asked : ∀ price ∈ op.prices, ((r.reband band').inBand price ↔ r.inBand price) := by
        intro price member
        rw [ReferenceEngine.inBand, ReferenceEngine.inBand, simulates.refMin, simulates.refMax]
        exact (agree op List.mem_cons_self price member).symm
      rw [r.reband_step band' op asked, ref] at ref'
      cases ref'
      rcases induction simulates₁ simulates₁' fun op member =>
        agree op (List.mem_cons_of_mem _ member)
        with ⟨seen, last, last', rets, traced, traced', run, run', same⟩
      rcases simulates₁.tracks with ⟨cells, mirrors, -⟩
      rcases simulates₁'.tracks with ⟨cells', mirrors', -⟩
      have view : s₁'.view = s₁.view :=
        (mirrors'.view_eq simulates₁'.sound.valid).trans
        (mirrors.view_eq simulates₁.sound.valid).symm
      have tape : s₁'.h = s₁.h := mirrors'.h.trans mirrors.h.symm
      refine ⟨(ret, s₁.h, s₁.view) :: seen, last, last', ret :: rets, ?_, ?_, ?_, ?_, same⟩
      · simp only [trace, fast, traced, Option.bind_eq_bind, Option.bind_some]
      · simp only [trace, fast', traced', view, tape, Option.bind_eq_bind, Option.bind_some]
      · simp only [MatchingEngine.runOps, fast, run, Option.bind_eq_bind, Option.bind_some]
      · simp only [MatchingEngine.runOps, fast', run', Option.bind_eq_bind, Option.bind_some]

end bands

/-- Operations that ask for prices in both bands or in neither give the same answers, tapes and
books in engines of any two bands and sizes. -/
theorem trace_bands (band band' : Band) (expectedOrders expectedOrders' : Nat) {ops : List Op}
    (agree : ∀ op ∈ ops, ∀ price ∈ op.prices, band.Agree band' price) :
    ∃ seen last last' rets,
      (new band ([] : Tape) expectedOrders).trace ops = some seen ∧
      (new band' ([] : Tape) expectedOrders').trace ops = some seen ∧
      (new band ([] : Tape) expectedOrders).runOps ops = some (last, rets) ∧
      (new band' ([] : Tape) expectedOrders').runOps ops = some (last', rets) ∧
      ∀ (book : BookName) (px : Price), last.queue book px = last'.queue book px :=
  (simulates_new band ([] : Tape) expectedOrders).trace_reband
    (simulates_new band' ([] : Tape) expectedOrders') agree

/-- A stop cascade and an auction, at eleven prices and at a million. One order is below
both bands. -/
theorem trace_bands_wide :
    let band : Band := ⟨95, 105, by decide, by decide, by decide⟩
    let band' : Band := ⟨-500000, 500000, by decide, by decide, by decide⟩
    let ops : List Op :=
      [.submitLimit .sell 100 5 .gtc 0 .cancelTaker, .submitStop .buy 100 2 0 .cancelTaker,
        .submitIceberg .sell 101 9 2 .gtc 0 .cancelTaker,
        .submitLimit .buy (-600000) 1 .gtc 0 .cancelTaker,
        .submitLimit .buy 100 3 .gtc 0 .cancelTaker, .halt, .modify 3 97 6,
        .submitLimit .buy 105 8 .gtc 0 .cancelTaker, .uncross, .resume]
    ∃ seen last last' rets,
      (new band ([] : Tape) 16).trace ops = some seen ∧
      (new band' ([] : Tape) 4096).trace ops = some seen ∧
      (new band ([] : Tape) 16).runOps ops = some (last, rets) ∧
      (new band' ([] : Tape) 4096).runOps ops = some (last', rets) ∧
      ∀ (book : BookName) (px : Price), last.queue book px = last'.queue book px :=
  trace_bands ⟨95, 105, by decide, by decide, by decide⟩
    ⟨-500000, 500000, by decide, by decide, by decide⟩ 16 4096 (by decide)

end MatchingEngine

end Matchbook
