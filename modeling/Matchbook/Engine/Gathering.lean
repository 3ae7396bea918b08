import Matchbook.Engine.Bands
import Matchbook.Engine.Equilibrium
import Matchbook.Market.Reports

namespace Matchbook

open CallAuction Transitions

/-! # A call phase may gather in any order

An auction sees of the book only how much is open at every price. So the orders that wait for it
may come in any order: it trades the same quantity at the same price and leaves as much at every
price. Who trades is another matter. -/

/-! ## What an auction drains -/

section taking

variable {m m₀ : Market} {p : Price} {state next : Market × Phase} {seen events : List Event}

structure Drains (m : Market) (p : Price) (state : Market × Phase) (seen : List Event) : Prop where
  offered : ∀ side q, state.1.offered side q = m.offered side q - Market.printed seen
  unmoved : Market.printed seen = 0 → state.1.last = m.last
  moved : Market.printed seen ≠ 0 → state.1.last = some p

/-- One pair. -/
theorem Market.Valid.offered_cross (valid : m.Valid) {bpx apx : Price} {b a : RO}
    {bids asks : List RO} {f : Qty} (bestBid : m.Best .buy bpx) (bestAsk : m.Best .sell apx)
    (bidHead : m.levels .buy bpx = b :: bids) (askHead : m.levels .sell apx = a :: asks)
    (bidWithin : f ≤ b.total) (askWithin : f ≤ a.total) (side : Side) (q : Price) :
    ((m.setLevel .buy bpx (consume p f (b :: bids)).1).setLevel .sell apx
      (consume p f (a :: asks)).1).offered side q = m.offered side q - f.toNat := by
  let bidFilled := m.setLevel .buy bpx (consume p f (b :: bids)).1
  have valid' : bidFilled.Valid := valid.fillHead p bidHead bidWithin
  have askHead' : bidFilled.levels .sell apx = a :: asks := by
    rw [Market.setLevel_levels_side _ _ _ _ _ _ (by decide), askHead]
  have first := valid.offered_consume (s := side) (p := q) p bidHead bidWithin
  have second := valid'.offered_consume (s := side) (p := q) p askHead' askWithin
  have beyond {best : Price} (isBest : m.Best side best) (out : ¬ side.Reaches best q) :
      m.offered side q = 0 := by
    by_contra some
    exact out (isBest.reaches_of_offered valid some)
  cases side with
  | buy =>
      rw [if_neg (by simp), Nat.add_zero] at second
      rw [second]
      by_cases reaches : Side.buy.Reaches bpx q
      · rw [if_pos ⟨rfl, reaches⟩] at first
        exact Nat.eq_sub_of_add_eq first
      · rw [if_neg fun both => reaches both.2, Nat.add_zero] at first
        rw [first, beyond bestBid reaches, Nat.zero_sub]
  | sell =>
      rw [if_neg (by simp), Nat.add_zero] at first
      rw [← first]
      by_cases reaches : Side.sell.Reaches apx q
      · rw [if_pos ⟨rfl, reaches⟩] at second
        exact Nat.eq_sub_of_add_eq second
      · rw [if_neg fun both => reaches both.2, Nat.add_zero] at second
        have none := beyond bestAsk reaches
        rw [← first] at none
        rw [second, none, Nat.zero_sub]

theorem Drains.step (drains : Drains m p state seen) (auctions : Auctions m p state seen)
    (step : Step state events next) : Drains m p next (seen ++ events) := by
  have valid := auctions.valid
  cases step with
  | @cross m₀ clearing bpx apx b a bids asks f bestBid bestAsk bidHead askHead low high amount =>
      have same : clearing = p := by
        rcases auctions.going with same | ⟨same, -⟩ <;> cases same
        rfl
      subst same
      rcases le_total_of_min amount with ⟨bidWithin, askWithin⟩
      have some : f.toNat ≠ 0 := by
        have bidPos := (valid.shape .buy bpx b (by simp [bidHead])).total_pos
        have askPos := (valid.shape .sell apx a (by simp [askHead])).total_pos
        rw [amount]
        split <;> omega
      have printed (t : Trade) (same : t.qty = f) : Market.printed (seen ++ .trade t ::
          ((consume clearing f (b :: bids)).2 ++ (consume clearing f (a :: asks)).2)) =
          Market.printed seen + f.toNat := by
        rw [Market.printed, Market.tally_append, Market.tally_trade, Market.tally_append,
          Market.tally_consume, Market.tally_consume, same]
        rfl
      constructor
      case offered =>
          intro side q
          rw [printed _ rfl, ← Nat.sub_sub, ← drains.offered side q]
          exact valid.offered_cross bestBid bestAsk bidHead askHead bidWithin askWithin side q
      case unmoved =>
          intro zero
          rw [printed _ rfl] at zero
          omega
      case moved => exact fun _ => rfl
  | crossed apart =>
      rw [List.append_nil]
      exact ⟨drains.offered, drains.unmoved, drains.moved⟩
  | fire next =>
      have running := next.running
      rw [show _ = true from auctions.halted] at running
      contradiction
  | _ => rcases auctions.going with same | ⟨same, -⟩ <;> cases same

theorem Run.drains {m' : Market} (valid : m.Valid) (halted : m.halted = true)
    (run : Run Step (m, .crossing p) events (m', .idle)) :
    Drains m p (m', .idle) events ∧
      Market.printed events = volume (m.offered .buy) (m.offered .sell) p := by
  have auctions := Run.auctions valid halted run
  refine ⟨?_, auctions.executes.volume_eq auctions.used⟩
  have kept (state : Market × Phase) (new : List Event) (next : Market × Phase) (seen : List Event)
      (before : Auctions m p state seen ∧ Drains m p state seen) (step : Step state new next) :
      Auctions m p next (seen ++ new) ∧ Drains m p next (seen ++ new) :=
    ⟨before.1.step step, before.2.step before.1 step⟩
  have both := run.recorded kept
    ⟨⟨valid, halted, .inl rfl, .of_eq rfl, .refl p, fun _ member => absurd member List.not_mem_nil⟩,
      ⟨fun _ _ => rfl, fun _ => rfl, fun some => absurd rfl some⟩⟩
  exact both.2

end taking

/-! ## Books that are open alike -/

namespace Market

structure Alike (m m' : Market) : Prop where
  min : m.min = m'.min
  max : m.max = m'.max
  last : m.last = m'.last
  weighs : ∀ side px, queueTotal (m.levels side px) = queueTotal (m'.levels side px)

variable {m m' : Market} {side : Side} {px : Price}

theorem Alike.offered (alike : m.Alike m') (side : Side) : m.offered side = m'.offered side := by
  funext p
  rw [Market.offered, Market.offered, alike.min, alike.max]
  exact Finset.sum_congr rfl fun px _ => alike.weighs side px

theorem Valid.occupied_iff (valid : m.Valid) :
    m.levels side px ≠ [] ↔ queueTotal (m.levels side px) ≠ 0 := by
  cases head : m.levels side px with
  | nil => simp [queueTotal]
  | cons o rest =>
      have positive := (valid.shape side px o (by simp [head])).positive
      rw [UInt64.lt_iff_toNat_lt, UInt64.toNat_zero] at positive
      simp only [queueTotal, List.map_cons, List.sum_cons, ne_eq, reduceCtorEq, not_false_eq_true,
        true_iff]
      omega

theorem Alike.symm (alike : m.Alike m') : m'.Alike m :=
  ⟨alike.min.symm, alike.max.symm, alike.last.symm, fun side px => (alike.weighs side px).symm⟩

theorem Alike.best (alike : m.Alike m') (valid : m.Valid) (valid' : m'.Valid)
    (isBest : m.Best side px) : m'.Best side px := by
  have occupied (p : Price) : m'.levels side p ≠ [] ↔ m.levels side p ≠ [] := by
    rw [valid.occupied_iff, valid'.occupied_iff, alike.weighs]
  exact ⟨(occupied px).mpr isBest.occupied, fun p stays => isBest.least p ((occupied p).mp stays)⟩

def nextBetter : Side → Price → Price
  | .buy, px => px + 1
  | .sell, px => px - 1

theorem Valid.offered_eq_add (valid : m.Valid) (side : Side) (px : Price) :
    m.offered side px = queueTotal (m.levels side px) + m.offered side (nextBetter side px) := by
  have split (p : Price) : (if side.Reaches p px then queueTotal (m.levels side p) else 0) =
      (if px = p then queueTotal (m.levels side p) else 0) +
        if side.Reaches p (nextBetter side px) then queueTotal (m.levels side p) else 0 := by
    have reaches : side.Reaches p px ↔ px = p ∨ side.Reaches p (nextBetter side px) := by
      cases side <;> simp only [Side.Reaches, nextBetter] <;> lia
    have apart : px = p → ¬ side.Reaches p (nextBetter side px) := by
      cases side <;> simp only [Side.Reaches, nextBetter] <;> lia
    by_cases same : px = p
    · rw [if_pos (reaches.mpr (.inl same)), if_pos same, if_neg (apart same), Nat.add_zero]
    · rw [if_neg same, Nat.zero_add]
      simp only [reaches, same, false_or]
  rw [offered, offered, Finset.sum_filter, Finset.sum_filter,
    Finset.sum_congr rfl fun p _ => split p,
    Finset.sum_add_distrib, Finset.sum_ite_eq]
  split
  · rfl
  · rename_i outside
    have none : m.levels side px = [] := by
      by_contra occupied
      exact outside (mem_pricesBetween.mpr (valid.inside side px occupied))
    rw [none]
    rfl

theorem Alike.of_offered (valid : m.Valid) (valid' : m'.Valid) (min : m.min = m'.min)
    (max : m.max = m'.max) (last : m.last = m'.last)
    (same : ∀ side, m.offered side = m'.offered side) : m.Alike m' := by
  refine ⟨min, max, last, fun side px => ?_⟩
  have first := valid.offered_eq_add side px
  have second := valid'.offered_eq_add side px
  rw [same] at first
  omega

end Market

/-! ## Their auctions -/

namespace ReferenceEngine

variable {H : Type} {r r' : ReferenceEngine H}

theorem findClearing_alike (sound : r.Sound) (sound' : r'.Sound) (alike : r.market.Alike r'.market)
    (lo hi : Price) : r.findClearing lo hi = r'.findClearing lo hi := by
  have executable (side : Side) (p : Price) : r.executable side p = r'.executable side p := by
    rw [executable_eq_offered sound.valid sound.keyed,
      executable_eq_offered sound'.valid sound'.keyed, alike.offered]
  have last := alike.last
  have near (p c : Price) : (r.hasLast = true ∧ (p - r.last).natAbs < (c - r.last).natAbs) ↔
      (r'.hasLast = true ∧ (p - r'.last).natAbs < (c - r'.last).natAbs) := by
    rw [← distance_lt_iff, ← distance_lt_iff, last]
  have consider : r.considerClearing = r'.considerClearing := by
    funext best p
    simp only [considerClearing, executable, near]
  rw [findClearing, findClearing, consider]

variable [Handler H]

theorem Auctioned.alike {r₁ r₁' : ReferenceEngine H} {crossed crossed' : Qty} (sound : r.Sound)
    (sound' : r'.Sound) (valid₁ : r₁.market.Valid) (valid₁' : r₁'.market.Valid)
    (halted : r.halted = true) (halted' : r'.halted = true) (alike : r.market.Alike r'.market)
    (auctioned : r.Auctioned r₁ crossed) (auctioned' : r'.Auctioned r₁' crossed') :
    crossed = crossed' ∧ r₁.market.Alike r₁'.market := by
  have clearing := findClearing_alike sound sound' alike
  have best {side : Side} {px : Price} :=
    @Market.Alike.best _ _ side px alike sound.valid sound'.valid
  cases auctioned with
  | still nothing =>
      cases auctioned' with
      | still _ => exact ⟨rfl, alike⟩
      | crossed bestBid bestAsk overlap some crossing =>
          have back := alike.symm
          refine absurd (nothing _ _ (back.best sound'.valid sound.valid bestBid)
            (back.best sound'.valid sound.valid bestAsk) overlap) ?_
          rw [clearing]
          exact some
  | @crossed hi lo _ _ bestBid bestAsk overlap some crossing =>
      cases auctioned' with
      | still nothing =>
          refine absurd (nothing _ _ (best bestBid) (best bestAsk) overlap) ?_
          rw [← clearing]
          exact some
      | @crossed hi' lo' _ _ bestBid' bestAsk' overlap' some' crossing' =>
          have sameBid : hi = hi' := (best bestBid).unique bestBid'
          have sameAsk : lo = lo' := (best bestAsk).unique bestAsk'
          subst sameBid sameAsk
          rw [← clearing] at crossing'
          rcases crossing.run with ⟨events, run, -, sum⟩
          rcases crossing'.run with ⟨events', run', -, sum'⟩
          rcases Run.drains sound.valid halted run with ⟨drains, amount⟩
          rcases Run.drains sound'.valid halted' run' with ⟨drains', amount'⟩
          have same : Market.printed events = Market.printed events' := by
            rw [amount, amount', alike.offered, alike.offered]
          constructor
          · rw [show crossed = _ from sum, show crossed' = _ from sum', same]
          apply Market.Alike.of_offered valid₁ valid₁'
          case min => exact crossing.frame.min.trans (alike.min.trans crossing'.frame.min.symm)
          case max => exact crossing.frame.max.trans (alike.max.trans crossing'.frame.max.symm)
          case last =>
              by_cases none : Market.printed events = 0
              · exact (drains.unmoved none).trans
                  (alike.last.trans (drains'.unmoved (same ▸ none)).symm)
              · exact (drains.moved none).trans (drains'.moved (same ▸ none)).symm
          case same =>
              intro side
              funext px
              have left := drains.offered side px
              have right := drains'.offered side px
              rw [← same, ← alike.offered] at right
              exact left.trans right.symm

end ReferenceEngine

/-! ## Gathering -/

/-- The call enters an order. -/
def Op.Gathers : Op → Prop
  | .submitLimit .. | .submitMarket .. | .submitIceberg .. | .submitStop .. | .submitStopLimit .. =>
      True
  | _ => False

def Op.brings (low high : Price) (side : Side) (px : Price) : Op → Nat
  | .submitLimit s price qty tif _ _ =>
      if (low ≤ price ∧ price ≤ high ∧ tif = .gtc) ∧ side = s ∧ px = price then qty.toNat else 0
  | .submitIceberg s price totalQty display tif _ _ =>
      if (low ≤ price ∧ price ≤ high ∧ display ≠ 0 ∧ tif = .gtc) ∧ side = s ∧ px = price then
        totalQty.toNat
      else 0
  | _ => 0

/-- What the calls of a list leave open at a price together. -/
def Op.gathered (low high : Price) (ops : List Op) (side : Side) (px : Price) : Nat :=
  (ops.map (Op.brings low high side px)).sum

namespace ReferenceEngine

variable {H : Type} [Handler H] {r r' : ReferenceEngine H}

structure Gains (r r' : ReferenceEngine H) (more : Side → Price → Nat) : Prop where
  min : r'.market.min = r.market.min
  max : r'.market.max = r.market.max
  last : r'.market.last = r.market.last
  halted : r'.halted = r.halted
  weighs : ∀ side px, queueTotal (r'.market.levels side px) =
    queueTotal (r.market.levels side px) + more side px

omit [Handler H] in
theorem Gains.trans {r'' : ReferenceEngine H} {more more' : Side → Price → Nat}
    (first : r.Gains r' more) (second : r'.Gains r'' more') :
    r.Gains r'' fun side px => more side px + more' side px where
  min := second.min.trans first.min
  max := second.max.trans first.max
  last := second.last.trans first.last
  halted := second.halted.trans first.halted
  weighs side px := by
    rw [second.weighs, first.weighs, Nat.add_assoc]

theorem restShaped_gains (r : ReferenceEngine H) (id : OrderId) (side : Side) (price : Price)
    (qty peak : Qty) (owner : OwnerId) (stp : StpPolicy) :
    r.Gains (r.restShaped id side price qty peak owner stp)
      fun s px => if s = side ∧ px = price then qty.toNat else 0 := by
  have rests (qty reserve peak : Qty) : r.Gains (r.rest id side price qty reserve peak owner stp)
      fun s px => if s = side ∧ px = price then qty.toNat + reserve.toNat else 0 := by
    refine ⟨rfl, rfl, rfl, rfl, fun s px => ?_⟩
    rw [rest, emit_market, setLevel_market, Market.setLevel_levels]
    split
    · rename_i same
      rcases same with ⟨rfl, rfl⟩
      simp only [queueTotal, List.map_append, List.sum_append, List.map_cons, List.map_nil,
        List.sum_cons, List.sum_nil, Nat.add_zero]
      rfl
    · rfl
  unfold restShaped
  split
  · rename_i shaped
    have both := rests peak (qty - peak) peak
    have whole : peak.toNat + (qty - peak).toNat = qty.toNat := by
      have less := UInt64.lt_iff_toNat_lt.mp shaped.2
      rw [UInt64.toNat_sub_of_le _ _ (UInt64.le_of_lt shaped.2)]
      omega
    rw [whole] at both
    exact both
  · exact rests qty 0 0

theorem enter_gains (halted : r.halted = true) (side : Side) (price : Price) (qty : Qty)
    (tif : TimeInForce) (owner : OwnerId) (stp : StpPolicy) (peak : Qty) :
    ∃ r' id, r.enter side price qty tif owner stp peak = some (r', id) ∧
      r.Gains r' fun s px => if tif = .gtc ∧ s = side ∧ px = price then qty.toNat else 0 := by
  let accepted := { r with nextId := r.nextId + 1 }.emit (.accept r.nextId side price qty)
  have inCall : accepted.halted = true := halted
  by_cases gtc : tif = .gtc
  · have run : r.enter side price qty tif owner stp peak =
        some (accepted.restShaped r.nextId side price qty peak owner stp, r.nextId) := by
      rw [enter, if_pos inCall, if_neg (not_not.mpr gtc)]
    have gains := accepted.restShaped_gains r.nextId side price qty peak owner stp
    simp only [gtc, true_and] at run ⊢
    exact ⟨_, _, run, gains.min, gains.max, gains.last, gains.halted, gains.weighs⟩
  · have run : r.enter side price qty tif owner stp peak =
        some (accepted.emit (.cancel r.nextId), r.nextId) := by
      rw [enter, if_pos inCall, if_pos gtc]
    refine ⟨_, _, run, rfl, rfl, rfl, rfl, fun s px => ?_⟩
    simp only [gtc, false_and, if_false]
    rfl

omit [Handler H] in
theorem Gains.of_eq {more more' : Side → Price → Nat} (gains : r.Gains r' more)
    (same : ∀ side px, more' side px = more side px) : r.Gains r' more' :=
  ⟨gains.min, gains.max, gains.last, gains.halted,
    fun side px => (gains.weighs side px).trans (by rw [same])⟩

omit [Handler H] in
theorem Gains.none (min : r'.min = r.min) (max : r'.max = r.max)
    (last : r'.market.last = r.market.last) (halted : r'.halted = r.halted)
    (levels : r'.level = r.level) : r.Gains r' fun _ _ => 0 :=
  ⟨min, max, last, halted, fun side px => congrArg (fun l => queueTotal (l side px)) levels⟩

theorem doStop_gains (halted : r.halted = true) (side : Side) (stopPrice limitPrice : Price)
    (qty : Qty) (isMarket : Bool) (owner : OwnerId) (stp : StpPolicy) :
    ∃ r' id, r.doStop side stopPrice limitPrice qty isMarket owner stp = some (r', id) ∧
      r.Gains r' fun _ _ => 0 := by
  by_cases refused : ¬ r.inBand stopPrice ∨ qty = 0 ∨ (¬ isMarket ∧ ¬ r.inBand limitPrice)
  · have run : r.doStop side stopPrice limitPrice qty isMarket owner stp =
        some (r.emit (.reject invalidOrderId), invalidOrderId) := by
      rw [doStop, if_pos refused]
    exact ⟨_, _, run, .none rfl rfl rfl rfl rfl⟩
  · let o : RO :=
      { id := r.nextId, side, price := stopPrice, qty, owner, stp, stopMarket := isMarket,
        stopLimit := limitPrice }
    let accepted := { r with nextId := r.nextId + 1 }.emit (.accept r.nextId side stopPrice qty)
    let parked : ReferenceEngine H := { accepted with stops := accepted.stops ++ [o] }
    have inCall : ¬ (¬ accepted.halted = true ∧ accepted.hasLast ∧
        accepted.triggered side stopPrice) := fun runs => runs.1 halted
    have quiet : parked.pump = some parked := by
      rw [pump, if_pos (.inl halted)]
    have run : r.doStop side stopPrice limitPrice qty isMarket owner stp =
        some (parked, r.nextId) := by
      rw [doStop, if_neg refused]
      refine (if_neg inCall).trans ?_
      change (parked.pump.bind fun pumped => some (pumped, r.nextId)) = _
      rw [quiet]
      rfl
    exact ⟨_, _, run, .none rfl rfl rfl rfl rfl⟩

theorem step_gains (halted : r.halted = true) {op : Op} (gathers : op.Gathers) :
    ∃ r' ret, r.step op = some (r', ret) ∧
      r.Gains r' fun side px => op.brings r.min r.max side px := by
  have idle (event : Event) : r.Gains (r.emit event) fun _ _ => 0 := .none rfl rfl rfl rfl rfl
  cases op with
  | submitLimit side price qty tif owner stp =>
      by_cases refused : ¬ r.inBand price ∨ qty = 0
      · have run : r.submitLimit side price qty tif owner stp =
            some (r.emit (.reject invalidOrderId), invalidOrderId) := by
          rw [submitLimit, if_pos refused]
        refine ⟨_, _, by rw [step, run]; rfl, (idle _).of_eq fun s px => ?_⟩
        rw [Op.brings]
        split
        · rename_i counts
          rcases refused with outside | none
          · exact absurd ⟨counts.1.1, counts.1.2.1⟩ outside
          · rw [none]
            rfl
        · rfl
      · rcases enter_gains halted side price qty tif owner stp 0 with ⟨r', id, run, gains⟩
        have run : r.submitLimit side price qty tif owner stp = some (r', id) := by
          rw [submitLimit, if_neg refused, run]
        refine ⟨_, _, by rw [step, run]; rfl, gains.of_eq fun s px => ?_⟩
        rw [not_or, not_not] at refused
        simp only [Op.brings, refused.1.1, refused.1.2, true_and]
  | submitMarket side qty owner stp =>
      refine ⟨_, _, by rw [step, submitMarket, if_pos halted]; rfl, idle _⟩
  | submitIceberg side price totalQty display tif owner stp =>
      by_cases refused : ¬ r.inBand price ∨ totalQty = 0 ∨ display = 0
      · have run : r.submitIceberg side price totalQty display tif owner stp =
            some (r.emit (.reject invalidOrderId), invalidOrderId) := by
          rw [submitIceberg, if_pos refused]
        refine ⟨_, _, by rw [step, run]; rfl, (idle _).of_eq fun s px => ?_⟩
        rw [Op.brings]
        split
        · rename_i counts
          rcases refused with outside | none | none
          · exact absurd ⟨counts.1.1, counts.1.2.1⟩ outside
          · rw [none]
            rfl
          · exact absurd none counts.1.2.2.1
        · rfl
      · rcases enter_gains halted side price totalQty tif owner stp display with
          ⟨r', id, run, gains⟩
        have run : r.submitIceberg side price totalQty display tif owner stp = some (r', id) := by
          rw [submitIceberg, if_neg refused, run]
        refine ⟨_, _, by rw [step, run]; rfl, gains.of_eq fun s px => ?_⟩
        rw [not_or, not_or, not_not] at refused
        simp only [Op.brings, refused.1.1, refused.1.2, refused.2.2, ne_eq, not_false_eq_true,
          true_and]
  | submitStop side stopPrice qty owner stp =>
      rcases doStop_gains halted side stopPrice 0 qty true owner stp with ⟨r', id, run, gains⟩
      exact ⟨_, _, by rw [step, run]; rfl, gains⟩
  | submitStopLimit side stopPrice limitPrice qty owner stp =>
      rcases doStop_gains halted side stopPrice limitPrice qty false owner stp with
        ⟨r', id, run, gains⟩
      exact ⟨_, _, by rw [step, run]; rfl, gains⟩
  | _ => exact gathers.elim

theorem runOps_gains (halted : r.halted = true) {ops : List Op} (gathers : ∀ op ∈ ops, op.Gathers) :
    ∃ r' rets, r.runOps ops = some (r', rets) ∧ r.Gains r' (Op.gathered r.min r.max ops) := by
  induction ops generalizing r with
  | nil => exact ⟨r, [], rfl, .none rfl rfl rfl rfl rfl⟩
  | cons op ops induction =>
      rcases step_gains halted (gathers op (by simp)) with ⟨r₁, ret, first, gains⟩
      have later := induction (gains.halted.trans halted)
        fun op member => gathers op (by simp [member])
      rcases later with ⟨r₂, rets, run, gains'⟩
      refine ⟨r₂, ret :: rets, by rw [runOps, first]; simp [run], (gains.trans gains').of_eq ?_⟩
      intro side px
      rw [show r₁.min = r.min from gains.min, show r₁.max = r.max from gains.max]
      simp only [Op.gathered, List.map_cons, List.sum_cons]

end ReferenceEngine

/-! ## The fast engine -/

namespace MatchingEngine

/-- As much is open at every price, and a consumer sees the same prices. -/
structure Alike {H : Type} (s s' : MatchingEngine H) : Prop where
  weighs : ∀ (side : Side) (px : Price),
    queueTotal (s.queue side.book px) = queueTotal (s'.queue side.book px)
  hasBest : ∀ side, s.hasBest side ↔ s'.hasBest side
  bestPrice : ∀ side, s.hasBest side → s.bestPrice side = s'.bestPrice side
  last : s.lastTrade = s'.lastTrade

section alike

variable {H : Type} [Handler H] {band : Band} {s s' : MatchingEngine H} {r r' : ReferenceEngine H}

omit [Handler H] in
theorem Simulates.best_alike (simulates : Simulates band s r) (simulates' : Simulates band s' r')
    (alike : r.market.Alike r'.market) {side : Side} (some : s.hasBest side) :
    s'.hasBest side ∧ s'.bestPrice side = s.bestPrice side := by
  rcases simulates.tracks with ⟨cells, mirrors, -⟩
  rcases simulates'.tracks with ⟨cells', mirrors', -⟩
  have isBest := (mirrors.hasBest_iff simulates.sound.keyed side _).mp ⟨some, rfl⟩
  exact (mirrors'.hasBest_iff simulates'.sound.keyed side _).mpr
    (alike.best simulates.sound.valid simulates'.sound.valid isBest)

omit [Handler H] in
theorem Simulates.alike (simulates : Simulates band s r) (simulates' : Simulates band s' r')
    (alike : r.market.Alike r'.market) : s.Alike s' := by
  have shows := simulates.shows
  have shows' := simulates'.shows
  constructor
  case weighs =>
      intro side px
      rw [show s.queue side.book px = _ from shows.levels side px,
        show s'.queue side.book px = _ from shows'.levels side px]
      exact alike.weighs side px
  case hasBest =>
      exact fun side => ⟨fun some => (simulates.best_alike simulates' alike some).1,
        fun some => (simulates'.best_alike simulates alike.symm some).1⟩
  case bestPrice => exact fun side some => (simulates.best_alike simulates' alike some).2.symm
  case last => exact shows.last.trans (alike.last.trans shows'.last.symm)

/-- Two call phases that bring as much to every price, and the auctions after them. -/
theorem Simulates.gathers (simulates : Simulates band s r) (halted : s.halted = true)
    {entries entries' : List Op} (gathers : ∀ op ∈ entries, op.Gathers)
    (gathers' : ∀ op ∈ entries', op.Gathers)
    (same : Op.gathered band.min band.max entries = Op.gathered band.min band.max entries') :
    ∃ s₁ s₁' rets rets', s.runOps entries = some (s₁, rets) ∧
      s.runOps entries' = some (s₁', rets') ∧ s₁.Alike s₁' ∧
      ∃ s₂ s₂' crossed, s₁.step .uncross = some (s₂, .qty crossed) ∧
        s₁'.step .uncross = some (s₂', .qty crossed) ∧ s₂.Alike s₂' := by
  have inCall : r.halted = true := simulates.shows.halted.symm.trans halted
  have low : r.min = band.min := simulates.refMin
  have high : r.max = band.max := simulates.refMax
  rcases r.runOps_gains inCall gathers with ⟨r₁, rets, ref, gains⟩
  rcases r.runOps_gains inCall gathers' with ⟨r₁', rets', ref', gains'⟩
  rcases simulates.runOps entries with ⟨s₁, _, _, fast, again, simulates₁⟩
  rcases simulates.runOps entries' with ⟨s₁', _, _, fast', again', simulates₁'⟩
  rw [ref] at again
  rw [ref'] at again'
  cases again
  cases again'
  have alike : r₁.market.Alike r₁'.market := by
    constructor
    case min => exact gains.min.trans gains'.min.symm
    case max => exact gains.max.trans gains'.max.symm
    case last => exact gains.last.trans gains'.last.symm
    case weighs =>
        intro side px
        rw [gains.weighs, gains'.weighs, low, high, same]
  have halted₁ := gains.halted.trans inCall
  have halted₁' := gains'.halted.trans inCall
  rcases simulates₁.step_uncross_halted (simulates₁.shows.halted.trans halted₁) with
    ⟨s₂, r₂, crossed, -, step, auctioned, simulates₂⟩
  rcases simulates₁'.step_uncross_halted (simulates₁'.shows.halted.trans halted₁') with
    ⟨s₂', r₂', crossed', -, step', auctioned', simulates₂'⟩
  rcases auctioned.alike simulates₁.sound simulates₁'.sound simulates₂.sound.valid
    simulates₂'.sound.valid halted₁ halted₁' alike auctioned' with ⟨rfl, alike'⟩
  exact ⟨s₁, s₁', rets, rets', fast, fast', simulates₁.alike simulates₁' alike, s₂, s₂', crossed,
    step, step', simulates₂.alike simulates₂' alike'⟩

end alike

/-- From any halted engine, orders that bring as much to every price, in whatever order, pieces
and clips, are crossed for the same quantity and leave the same book. -/
theorem runOps_gathers (band : Band) (expectedOrders : Nat) (ops : List Op)
    {entries entries' : List Op} (gathers : ∀ op ∈ entries, op.Gathers)
    (gathers' : ∀ op ∈ entries', op.Gathers)
    (same : Op.gathered band.min band.max entries = Op.gathered band.min band.max entries') :
    ∃ s rets, (new band ([] : Tape) expectedOrders).runOps ops = some (s, rets) ∧
      (s.halted = true →
        ∃ s₁ s₁' rets rets', s.runOps entries = some (s₁, rets) ∧
          s.runOps entries' = some (s₁', rets') ∧ s₁.Alike s₁' ∧
          ∃ s₂ s₂' crossed, s₁.step .uncross = some (s₂, .qty crossed) ∧
            s₁'.step .uncross = some (s₂', .qty crossed) ∧ s₂.Alike s₂') := by
  rcases (simulates_new band ([] : Tape) expectedOrders).runOps ops with
    ⟨s, r, rets, run, -, simulates⟩
  exact ⟨s, rets, run, fun halted => simulates.gathers halted gathers gathers' same⟩

/-- The orders of a call phase backwards, one of them in two pieces, one without its clip, and
with a stop among them. -/
theorem runOps_gathers_backwards :
    let band : Band := ⟨95, 105, by decide, by decide, by decide⟩
    let entries : List Op :=
      [.submitIceberg .buy 102 9 2 .gtc 0 .cancelTaker,
        .submitLimit .buy 100 4 .gtc 0 .cancelTaker, .submitLimit .sell 99 6 .gtc 0 .cancelTaker]
    let entries' : List Op :=
      [.submitLimit .sell 99 5 .gtc 0 .cancelTaker, .submitStop .buy 103 8 0 .cancelTaker,
        .submitLimit .sell 99 1 .gtc 7 .cancelTaker, .submitLimit .buy 100 4 .gtc 7 .cancelMaker,
        .submitLimit .buy 102 9 .gtc 0 .cancelTaker]
    ∃ s rets, (new band ([] : Tape) 16).runOps [.halt] = some (s, rets) ∧
      (s.halted = true →
        ∃ s₁ s₁' rets rets', s.runOps entries = some (s₁, rets) ∧
          s.runOps entries' = some (s₁', rets') ∧ s₁.Alike s₁' ∧
          ∃ s₂ s₂' crossed, s₁.step .uncross = some (s₂, .qty crossed) ∧
            s₁'.step .uncross = some (s₂', .qty crossed) ∧ s₂.Alike s₂') := by
  intro band entries entries'
  refine runOps_gathers band 16 [.halt] ?_ ?_ ?_
  case refine_1 => simp [entries, Op.Gathers]
  case refine_2 => simp [entries', Op.Gathers]
  case refine_3 =>
      funext side px
      cases side with
      | buy => simp [Op.gathered, Op.brings, entries, entries', band, Nat.add_comm]
      | sell =>
          by_cases same : px = 99
          · rw [same]
            decide
          · simp [Op.gathered, Op.brings, entries, entries', band, same]

end MatchingEngine

end Matchbook
