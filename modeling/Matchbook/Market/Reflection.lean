import Matchbook.Market.Determinism

namespace Matchbook

open Transitions

/-! # The market in a mirror

Sides change places and every price `p` becomes `centre - p`. With the middle of
the band doubled for the centre, the band is where it was. -/

variable {centre : Price}

/-! ## Prices -/

namespace Side

theorem reaches_reflect (maker : Side) (p q : Price) :
    maker.opposite.Reaches (centre - p) (centre - q) ↔ maker.Reaches p q := by
  cases maker <;> exact Int.sub_le_sub_left_iff

theorem within_reflect (maker : Side) (p : Price) (limit : Option Price) :
    maker.opposite.Within (centre - p) (limit.map (centre - ·)) ↔ maker.Within p limit := by
  cases limit with
  | none => rfl
  | some limit => exact reaches_reflect maker p limit

end Side

theorem triggersBefore_reflect (side : Side) (p q : Price) :
    ReferenceEngine.triggersBefore side.opposite (centre - p) (centre - q) ↔
      ReferenceEngine.triggersBefore side p q := by
  cases side <;> exact Int.sub_lt_sub_left_iff

/-! ## Orders, takers and events -/

namespace RO

def reflect (centre : Price) (o : RO) : RO :=
  { o with side := o.side.opposite, price := centre - o.price }

def reflectStop (centre : Price) (o : RO) : RO :=
  { o.reflect centre with
    stopLimit := if o.stopMarket then o.stopLimit else centre - o.stopLimit }

section fields

variable (o : RO)

@[simp] theorem reflect_id : (o.reflect centre).id = o.id := rfl
@[simp] theorem reflect_side : (o.reflect centre).side = o.side.opposite := rfl
@[simp] theorem reflect_price : (o.reflect centre).price = centre - o.price := rfl
@[simp] theorem reflect_qty : (o.reflect centre).qty = o.qty := rfl
@[simp] theorem reflect_reserve : (o.reflect centre).reserve = o.reserve := rfl
@[simp] theorem reflect_peak : (o.reflect centre).peak = o.peak := rfl
@[simp] theorem reflect_owner : (o.reflect centre).owner = o.owner := rfl
@[simp] theorem reflect_stp : (o.reflect centre).stp = o.stp := rfl
@[simp] theorem reflect_total : (o.reflect centre).total = o.total := rfl
@[simp] theorem reflect_clip : (o.reflect centre).clip = o.clip := rfl
@[simp] theorem reflect_consumed (f : Qty) :
    (o.reflect centre).consumed f = (o.consumed f).reflect centre := rfl
@[simp] theorem reflect_replenished :
    (o.reflect centre).replenished = o.replenished.reflect centre := rfl
@[simp] theorem reflect_reduced (delta : Qty) :
    (o.reflect centre).reduced delta = (o.reduced delta).reflect centre := rfl

@[simp] theorem reflectStop_id : (o.reflectStop centre).id = o.id := rfl
@[simp] theorem reflectStop_side : (o.reflectStop centre).side = o.side.opposite := rfl
@[simp] theorem reflectStop_price : (o.reflectStop centre).price = centre - o.price := rfl
@[simp] theorem reflectStop_qty : (o.reflectStop centre).qty = o.qty := rfl
@[simp] theorem reflectStop_stopMarket :
    (o.reflectStop centre).stopMarket = o.stopMarket := rfl

end fields

end RO

def Remainder.reflect (centre : Price) : Remainder → Remainder
  | .rest price peak => .rest (centre - price) peak
  | .cancel => .cancel
  | .discard => .discard

namespace Taker

def reflect (centre : Price) (t : Taker) : Taker :=
  { t with
    side := t.side.opposite
    limit := t.limit.map (centre - ·)
    remainder := t.remainder.reflect centre }

section fields

variable (t : Taker)

@[simp] theorem reflect_id : (t.reflect centre).id = t.id := rfl
@[simp] theorem reflect_side : (t.reflect centre).side = t.side.opposite := rfl
@[simp] theorem reflect_maker : (t.reflect centre).maker = t.maker.opposite := rfl
@[simp] theorem reflect_qty : (t.reflect centre).qty = t.qty := rfl
@[simp] theorem reflect_limit : (t.reflect centre).limit = t.limit.map (centre - ·) := rfl
@[simp] theorem reflect_stp : (t.reflect centre).stp = t.stp := rfl
@[simp] theorem reflect_remainder :
    (t.reflect centre).remainder = t.remainder.reflect centre := rfl
@[simp] theorem reflect_withQty (qty : Qty) :
    (t.reflect centre).withQty qty = (t.withQty qty).reflect centre := rfl
@[simp] theorem reflect_owns (o : RO) : (t.reflect centre).Owns (o.reflect centre) ↔ t.Owns o :=
  Iff.rfl

end fields

theorem reflect_resting (t : Taker) (price : Price) (peak : Qty) :
    (t.reflect centre).resting (centre - price) peak =
      (t.resting price peak).reflect centre := by
  by_cases iceberg : peak ≠ 0 ∧ peak < t.qty
  · have mirrored : peak ≠ 0 ∧ peak < (t.reflect centre).qty := iceberg
    simp only [resting, if_pos iceberg, if_pos mirrored]
    rfl
  · have mirrored : ¬ (peak ≠ 0 ∧ peak < (t.reflect centre).qty) := iceberg
    simp only [resting, if_neg iceberg, if_neg mirrored]
    rfl

theorem reflect_ofLimit (id : OrderId) (side : Side) (price : Price) (qty : Qty)
    (tif : TimeInForce) (owner : OwnerId) (stp : StpPolicy) (peak : Qty) :
    (ofLimit id side price qty tif owner stp peak).reflect centre =
      ofLimit id side.opposite (centre - price) qty tif owner stp peak := by
  cases tif <;> rfl

end Taker

theorem RO.reflectStop_fired (o : RO) :
    (o.reflectStop centre).fired = o.fired.reflect centre := by
  by_cases market : o.stopMarket
  · rw [fired, fired, reflectStop_stopMarket, if_pos market, if_pos market]
    rfl
  · rw [fired, fired, reflectStop_stopMarket, if_neg market, if_neg market, Taker.reflect_ofLimit]
    simp only [reflectStop, if_neg market]
    rfl

namespace Op

def reflect (centre : Price) : Op → Op
  | .submitLimit side price qty tif owner stp =>
      .submitLimit side.opposite (centre - price) qty tif owner stp
  | .submitMarket side qty owner stp => .submitMarket side.opposite qty owner stp
  | .submitIceberg side price totalQty display tif owner stp =>
      .submitIceberg side.opposite (centre - price) totalQty display tif owner stp
  | .submitStop side stopPrice qty owner stp =>
      .submitStop side.opposite (centre - stopPrice) qty owner stp
  | .submitStopLimit side stopPrice limitPrice qty owner stp =>
      .submitStopLimit side.opposite (centre - stopPrice) (centre - limitPrice) qty owner stp
  | .modify id newPrice newQty => .modify id (centre - newPrice) newQty
  | .cancel id => .cancel id
  | .reduce id delta => .reduce id delta
  | .halt => .halt
  | .resume => .resume
  | .uncross => .uncross

def reflectAccepted (centre : Price) (op : Op) (price : Price) : Price :=
  match op with
  | .submitMarket .. => price
  | _ => centre - price

def reflectEvent (centre : Price) (op : Op) : Event → Event
  | .accept id side price qty => .accept id side.opposite (op.reflectAccepted centre price) qty
  | .trade trade => .trade
      { trade with price := centre - trade.price, takerSide := trade.takerSide.opposite }
  | .cancel id => .cancel id
  | .reject id => .reject id
  | .rest id side price displayed => .rest id side.opposite (centre - price) displayed

end Op

theorem consume_reflect (op : Op) (px : Price) (f : Qty) (queue : List RO) :
    consume (centre - px) f (queue.map (RO.reflect centre)) =
      ((consume px f queue).1.map (RO.reflect centre),
        (consume px f queue).2.map (op.reflectEvent centre)) := by
  cases queue with
  | nil => rfl
  | cons o rest =>
      have left : ((o.reflect centre).consumed f).qty = (o.consumed f).qty := rfl
      have hidden : ((o.reflect centre).consumed f).reserve = (o.consumed f).reserve := rfl
      rw [List.map_cons]
      simp only [consume, left, hidden]
      split
      · rw [List.map_append]
        rfl
      · split <;> rfl

/-! ## Markets -/

namespace Market

def reflect (centre : Price) (m : Market) : Market :=
  { m with
    levels := fun side px => (m.levels side.opposite (centre - px)).map (RO.reflect centre)
    stops := m.stops.map (RO.reflectStop centre)
    last := m.last.map (centre - ·) }

section fields

variable (m : Market)

@[simp] theorem reflect_min : (m.reflect centre).min = m.min := rfl
@[simp] theorem reflect_max : (m.reflect centre).max = m.max := rfl
@[simp] theorem reflect_stops :
    (m.reflect centre).stops = m.stops.map (RO.reflectStop centre) := rfl
@[simp] theorem reflect_nextId : (m.reflect centre).nextId = m.nextId := rfl
@[simp] theorem reflect_last : (m.reflect centre).last = m.last.map (centre - ·) := rfl
@[simp] theorem reflect_halted : (m.reflect centre).halted = m.halted := rfl

@[simp] theorem reflect_levels (side : Side) (px : Price) :
    (m.reflect centre).levels side.opposite (centre - px) =
      (m.levels side px).map (RO.reflect centre) := by
  rw [reflect]
  simp only [Side.opposite_opposite, Int.sub_sub_self]

end fields

variable {m m' : Market} {side : Side} {px price : Price}

theorem levels_reflect_ne (occupied : (m.reflect centre).levels side px ≠ []) :
    m.levels side.opposite (centre - px) ≠ [] := by
  intro empty
  apply occupied
  rw [reflect]
  simp only [empty, List.map_nil]

theorem reflect_setLevel (level : List RO) :
    (m.setLevel side px level).reflect centre =
      (m.reflect centre).setLevel side.opposite (centre - px)
        (level.map (RO.reflect centre)) := by
  have levels : ((m.setLevel side px level).reflect centre).levels =
      ((m.reflect centre).setLevel side.opposite (centre - px)
        (level.map (RO.reflect centre))).levels := by
    funext s p
    have place : (s.opposite = side ∧ centre - p = px) ↔
        (s = side.opposite ∧ p = centre - px) := by
      apply and_congr
      · cases s <;> cases side <;> decide
      · grind
    rw [setLevel_levels]
    simp only [reflect, setLevel_levels, place]
    split <;> rfl
  rw [Market.mk.injEq]
  exact ⟨rfl, rfl, levels, rfl, rfl, rfl, rfl⟩

theorem Best.reflect (best : m.Best side px) :
    (m.reflect centre).Best side.opposite (centre - px) := by
  constructor
  case occupied =>
      rw [reflect_levels]
      exact mt List.map_eq_nil_iff.mp best.occupied
  case least =>
      intro p occupied
      have reaches := best.least (centre - p) (by simpa using levels_reflect_ne occupied)
      rw [← side.reaches_reflect px (centre - p)] at reaches
      rwa [Int.sub_sub_self] at reaches

theorem armed_reflect (o : RO) :
    (m.reflect centre).Armed (o.reflectStop centre) ↔ m.Armed o := by
  cases traded : m.last with
  | none => simp [Armed, traded]
  | some last =>
      have reaches := @Side.reaches_reflect centre o.side.opposite o.price last
      simpa [Armed, traded] using reaches

theorem Settled.reflect (settled : m.Settled) : (m.reflect centre).Settled := by
  apply settled.imp_right
  intro unarmed o member
  rcases List.mem_map.mp member with ⟨stop, parked, rfl⟩
  exact mt (armed_reflect stop).mp (unarmed stop parked)

theorem wouldCross_reflect :
    (m.reflect centre).WouldCross side.opposite (centre - price) ↔ m.WouldCross side price := by
  constructor
  · rintro ⟨p, occupied, reaches⟩
    refine ⟨centre - p, ?_, ?_⟩
    · simpa using levels_reflect_ne occupied
    · rw [← Side.reaches_reflect, Int.sub_sub_self]
      exact reaches
  · rintro ⟨p, occupied, reaches⟩
    refine ⟨centre - p, ?_, (side.opposite.reaches_reflect p price).mpr reaches⟩
    rw [reflect_levels]
    exact mt List.map_eq_nil_iff.mp occupied

section centred

variable (centred : centre = m.min + m.max)
include centred

theorem inBand_reflect (p : Price) : (m.reflect centre).inBand (centre - p) ↔ m.inBand p := by
  simp only [inBand, reflect_min, reflect_max, centred]
  grind

theorem ladder_reflect :
    (m.reflect centre).ladder side.opposite = (m.ladder side).map (centre - ·) := by
  rw [ladder, ladder, List.map_map]
  apply List.map_congr_left
  intro k _
  cases side <;> simp only [Side.opposite, reflect_min, reflect_max, Function.comp, centred] <;>
    grind

theorem fillable_reflect (want : Qty) :
    (m.reflect centre).fillable side.opposite (centre - price) want =
      m.fillable side price want := by
  rw [fillable, fillable, ladder_reflect centred, List.foldl_map]
  congr 1
  funext sum p
  simp only [Side.reaches_reflect, reflect_levels, List.foldl_map]
  rfl

theorem refuses_reflect (qty : Qty) (tif : TimeInForce) :
    (m.reflect centre).Refuses side.opposite (centre - price) qty tif ↔
      m.Refuses side price qty tif := by
  cases tif with
  | gtc => rfl
  | ioc => rfl
  | fok => rw [Refuses, Refuses, fillable_reflect centred, reflect_halted]
  | postOnly => rw [Refuses, Refuses, wouldCross_reflect, reflect_halted]

theorem Rejects.reflect {op : Op} (bad : m.Rejects op) :
    (m.reflect centre).Rejects (op.reflect centre) := by
  have inside := inBand_reflect centred
  cases op with
  | submitLimit => exact bad.imp_left (mt (inside _).mp)
  | submitMarket => exact bad
  | submitIceberg => exact bad.imp_left (mt (inside _).mp)
  | submitStop => exact bad.imp_left (mt (inside _).mp)
  | submitStopLimit =>
      exact bad.imp (mt (inside _).mp) (Or.imp_right (mt (inside _).mp))
  | _ => cases bad

end centred

theorem isOpen_reflect {id : OrderId} : (m.reflect centre).IsOpen id ↔ m.IsOpen id := by
  apply or_congr
  · constructor
    · rintro ⟨side, px, o, member, rfl⟩
      rcases List.mem_map.mp member with ⟨old, rests, rfl⟩
      exact ⟨_, _, old, rests, rfl⟩
    · rintro ⟨side, px, o, member, rfl⟩
      refine ⟨side.opposite, centre - px, o.reflect centre, ?_, rfl⟩
      rw [reflect_levels]
      exact List.mem_map_of_mem member
  · simp

theorem rests_reflect {id : OrderId} : (m.reflect centre).Rests id ↔ m.Rests id := by
  constructor
  · rintro ⟨side, px, o, member, rfl⟩
    rcases List.mem_map.mp member with ⟨old, rests, rfl⟩
    exact ⟨_, _, old, rests, rfl⟩
  · rintro ⟨side, px, o, member, rfl⟩
    refine ⟨side.opposite, centre - px, o.reflect centre, ?_, rfl⟩
    rw [reflect_levels]
    exact List.mem_map_of_mem member

theorem Declines.reflect {op : Op} (centred : centre = m.min + m.max)
    (declined : m.Declines op) : (m.reflect centre).Declines (op.reflect centre) := by
  cases op with
  | cancel id => exact mt isOpen_reflect.mp declined
  | reduce id delta => exact mt rests_reflect.mp declined
  | modify id price qty =>
      rw [Declines] at declined
      rw [Op.reflect, Declines, isOpen_reflect, inBand_reflect centred, rests_reflect]
      exact declined
  | _ => cases declined

/-! ## Stops

In continuous trading no buy stop and sell stop are armed at once, so that buy
stops fire first is never seen. -/

def Divided (m : Market) : Prop :=
  ∀ up ∈ m.stops, ∀ down ∈ m.stops, up.side = .buy → down.side = .sell → down.price < up.price

theorem Divided.one_side (divided : m.Divided) {o other : RO} (member : o ∈ m.stops)
    (member' : other ∈ m.stops) (armed : m.Armed o) (armed' : m.Armed other) :
    o.side = other.side := by
  rcases armed with ⟨last, isLast, through⟩
  rcases armed' with ⟨last', isLast', through'⟩
  cases isLast.symm.trans isLast'
  cases side : o.side <;> cases side' : other.side
  · rfl
  · have apart := divided o member other member' side side'
    simp only [side, side', Side.opposite, Side.Reaches] at through through'
    exact absurd (Int.lt_of_lt_of_le apart through) (Int.not_lt.mpr through')
  · have apart := divided other member' o member side' side
    simp only [side, side', Side.opposite, Side.Reaches] at through through'
    exact absurd (Int.lt_of_lt_of_le apart through') (Int.not_lt.mpr through)
  · rfl

theorem Divided.sublist {stops : List RO} (divided : m.Divided) (fewer : stops.Sublist m.stops)
    (same : m'.stops = stops) : m'.Divided := by
  intro up isUp down isDown
  rw [same] at isUp isDown
  exact divided up (fewer.subset isUp) down (fewer.subset isDown)

theorem divided_of_unarmed {last : Price} (traded : m.last = some last)
    (unarmed : ∀ o ∈ m.stops, ¬ m.Armed o) : m.Divided := by
  have ahead (o : RO) (member : o ∈ m.stops) : ¬ o.side.opposite.Reaches o.price last :=
    fun reaches => unarmed o member ⟨last, traded, reaches⟩
  intro up isUp down isDown isBuy isSell
  have above := ahead up isUp
  have below := ahead down isDown
  simp only [isBuy, isSell, Side.opposite, Side.Reaches] at above below
  exact Int.lt_trans (Int.not_le.mp below) (Int.not_le.mp above)

theorem firesBefore_reflect {first second : RO} (same : first.side = second.side) :
    FiresBefore (first.reflectStop centre) (second.reflectStop centre) ↔
      FiresBefore first second := by
  have oneSide {first second : RO} (same : first.side = second.side) :
      FiresBefore first second ↔
        ReferenceEngine.triggersBefore first.side first.price second.price := by
    constructor
    · rintro (⟨isBuy, isSell⟩ | ⟨-, before⟩)
      · rw [isBuy, isSell] at same
        contradiction
      · exact before
    · exact fun before => .inr ⟨same, before⟩
  have mirrored : (first.reflectStop centre).side = (second.reflectStop centre).side :=
    congrArg Side.opposite same
  rw [oneSide mirrored, oneSide same]
  exact triggersBefore_reflect first.side first.price second.price

theorem NextStop.reflect {front back : List RO} {o : RO} (centre : Price) (divided : m.Divided)
    (next : m.NextStop front o back) :
    (m.reflect centre).NextStop (front.map (RO.reflectStop centre)) (o.reflectStop centre)
      (back.map (RO.reflectStop centre)) := by
  have parked : o ∈ m.stops := by simp [next.parked]
  have side (other : RO) (member : other ∈ m.stops) (armed : m.Armed other) :
      other.side = o.side := divided.one_side member parked armed next.armed
  constructor
  case running => exact next.running
  case parked => simp [next.parked]
  case armed => exact (armed_reflect o).mpr next.armed
  case first =>
      intro other member armed
      rcases List.mem_map.mp member with ⟨old, isParked, rfl⟩
      rw [armed_reflect] at armed
      rw [firesBefore_reflect (side old isParked armed)]
      exact next.first old isParked armed
  case fifo =>
      intro other member armed
      rcases List.mem_map.mp member with ⟨old, inFront, rfl⟩
      rw [armed_reflect] at armed
      have isParked : old ∈ m.stops := by simp [next.parked, inFront]
      rw [firesBefore_reflect (side old isParked armed).symm]
      exact next.fifo old inFront armed

end Market

/-! ## Steps -/

namespace Taker

variable {m : Market} {t : Taker} {px : Price} {o : RO} {rest : List RO}

theorem Meets.reflect (centre : Price) (meets : t.Meets m px o rest) :
    (t.reflect centre).Meets (m.reflect centre) (centre - px) (o.reflect centre)
      (rest.map (RO.reflect centre)) := by
  constructor
  case running => exact meets.running
  case hungry => exact meets.hungry
  case best => exact meets.best.reflect
  case head =>
      rw [reflect_maker, Market.reflect_levels, meets.head]
      rfl
  case within => exact (t.maker.within_reflect px t.limit).mpr meets.within

theorem Blocked.reflect (blocked : t.Blocked m) :
    (t.reflect centre).Blocked (m.reflect centre) := by
  apply blocked.imp_right
  intro beyond px occupied within
  apply beyond (centre - px)
  · simpa using Market.levels_reflect_ne occupied
  · rw [← Side.within_reflect, Int.sub_sub_self]
    exact within

theorem Remainder.reflect_ne {remainder : Remainder} (announced : remainder ≠ .discard) :
    remainder.reflect centre ≠ .discard := by
  cases remainder with
  | rest price peak => nofun
  | cancel => nofun
  | discard => contradiction

end Taker

def Phase.reflect (centre : Price) : Phase → Phase
  | .idle => .idle
  | .taking t => .taking (t.reflect centre)
  | .stopped t => .stopped (t.reflect centre)
  | .crossing clearing => .crossing (centre - clearing)

def reflectState (centre : Price) (state : Market × Phase) : Market × Phase :=
  (state.1.reflect centre, state.2.reflect centre)

structure Orderly (state : Market × Phase) : Prop where
  running : state.1.halted = false
  continuous : ∀ clearing, state.2 ≠ .crossing clearing
  traded : state.1.last = none → state.1.stops = []
  divided : state.1.Divided

section steps

variable {m m' : Market} {phase : Phase} {state next : Market × Phase} {events : List Event}

theorem Orderly.same (orderly : Orderly state) (halted : m'.halted = state.1.halted)
    (last : m'.last = none → state.1.last = none) (stops : m'.stops = state.1.stops)
    (uncrossed : ∀ clearing, phase ≠ .crossing clearing) : Orderly (m', phase) where
  running := halted.trans orderly.running
  continuous := uncrossed
  traded never := stops.trans (orderly.traded (last never))
  divided := orderly.divided.sublist (List.Sublist.refl _) stops

theorem Orderly.unpark {front back : List RO} {o : RO} (orderly : Orderly (m, phase))
    (place : m.stops = front ++ o :: back) {phase' : Phase}
    (uncrossed : ∀ clearing, phase' ≠ .crossing clearing) :
    Orderly ({ m with stops := front ++ back }, phase') where
  running := orderly.running
  continuous := uncrossed
  traded never := by simpa [place] using orderly.traded never
  divided := by
    have fewer : (front ++ back).Sublist (front ++ o :: back) :=
      List.Sublist.append_left (List.sublist_cons_self o back) front
    exact orderly.divided.sublist (place ▸ fewer) rfl

theorem Step.orderly (orderly : Orderly state) (step : Step state events next) :
    Orderly next := by
  cases step with
  | fill => exact orderly.same rfl nofun rfl nofun
  | cancelMaker => exact orderly.same rfl id rfl nofun
  | cancelTaker => exact orderly.same rfl id rfl nofun
  | cancelBoth => exact orderly.same rfl id rfl nofun
  | killed => exact orderly.same rfl id rfl nofun
  | stoppedMarket => exact orderly.same rfl id rfl nofun
  | filled => exact orderly.same rfl id rfl nofun
  | rest => exact orderly.same rfl id rfl nofun
  | cancelRemainder => exact orderly.same rfl id rfl nofun
  | discard => exact orderly.same rfl id rfl nofun
  | fire fires => exact orderly.unpark fires.parked nofun
  | cross => exact absurd rfl (orderly.continuous _)
  | crossed => exact absurd rfl (orderly.continuous _)

theorem Step.reflect (op : Op) (orderly : Orderly state) (step : Step state events next) :
    Step (reflectState centre state) (events.map (op.reflectEvent centre))
      (reflectState centre next) := by
  cases step with
  | @fill m t px o rest amount meets other isAmount =>
      have mirrored := Step.fill (meets.reflect centre) other isAmount
      rw [← List.map_cons, consume_reflect op, Taker.reflect_maker,
        ← Market.reflect_setLevel] at mirrored
      exact mirrored
  | cancelMaker meets own policy =>
      have mirrored := Step.cancelMaker (meets.reflect centre) own policy
      rw [Taker.reflect_maker, ← Market.reflect_setLevel] at mirrored
      exact mirrored
  | cancelTaker meets own policy => exact .cancelTaker (meets.reflect centre) own policy
  | cancelBoth meets own policy =>
      have mirrored := Step.cancelBoth (meets.reflect centre) own policy
      rw [Taker.reflect_maker, ← Market.reflect_setLevel] at mirrored
      exact mirrored
  | killed announced => exact .killed (Taker.Remainder.reflect_ne announced)
  | stoppedMarket silent => exact .stoppedMarket (congrArg (Remainder.reflect centre) silent)
  | filled done => exact .filled done
  | @rest m t price peak left blocked rests =>
      have appended : (m.levels t.side price).map (RO.reflect centre) ++
          [(t.resting price peak).reflect centre] =
            (m.levels t.side price ++ [t.resting price peak]).map (RO.reflect centre) := by
        rw [List.map_append, List.map_singleton]
      have mirrored := Step.rest (t := t.reflect centre) left blocked.reflect
        (congrArg (Remainder.reflect centre) rests)
      rw [Taker.reflect_resting, Taker.reflect_side, Market.reflect_levels, appended,
        ← Market.reflect_setLevel] at mirrored
      exact mirrored
  | cancelRemainder left blocked cancels =>
      exact .cancelRemainder left blocked.reflect (congrArg (Remainder.reflect centre) cancels)
  | discard left blocked discards =>
      exact .discard left blocked.reflect (congrArg (Remainder.reflect centre) discards)
  | fire fires =>
      have mirrored := Step.fire (fires.reflect centre orderly.divided)
      rw [RO.reflectStop_fired, ← List.map_append] at mirrored
      exact mirrored
  | cross => exact absurd rfl (orderly.continuous _)
  | crossed => exact absurd rfl (orderly.continuous _)

end steps

/-! ## Operations -/

section operations

variable {op : Op} {side : Side} {price : Price} {qty peak delta : Qty} {tif : TimeInForce}
  {owner : OwnerId} {stp : StpPolicy} {id : OrderId} {o : RO}

theorem Op.Limit.reflect (centre : Price) (entry : op.Limit side price qty tif owner stp peak) :
    (op.reflect centre).Limit side.opposite (centre - price) qty tif owner stp peak := by
  cases entry with
  | limit => exact .limit
  | iceberg shown => exact .iceberg shown

theorem Op.Stop.reflect (centre : Price) (entry : op.Stop id o) :
    (op.reflect centre).Stop id (o.reflectStop centre) := by
  cases entry with
  | market => exact .market
  | limit => exact .limit

theorem Op.Cancels.reflect (centre : Price) (cancels : op.Cancels id) :
    (op.reflect centre).Cancels id := by
  cases cancels with
  | cancel => exact .cancel
  | modify => exact .modify

theorem Op.Reduces.reflect (centre : Price) (reduces : op.Reduces o delta) :
    (op.reflect centre).Reduces (o.reflect centre) delta := by
  cases reduces with
  | reduce => exact .reduce
  | modify nonzero less => exact .modify (o := o.reflect centre) nonzero less

theorem Op.OnOrder.reflect (centre : Price) (target : op.OnOrder id) :
    (op.reflect centre).OnOrder id := by
  cases target with
  | cancel => exact .cancel
  | reduce => exact .reduce
  | modify => exact .modify

theorem Op.IsSubmit.reflect (centre : Price) (submit : op.IsSubmit) :
    (op.reflect centre).IsSubmit := by
  cases op <;> cases submit <;> trivial

theorem Op.reflect_rejection : (op.reflect centre).rejection = op.rejection := by
  cases op <;> rfl

theorem Op.Limit.accepted (entry : op.Limit side price qty tif owner stp peak) (p : Price) :
    op.reflectAccepted centre p = centre - p := by
  cases entry <;> rfl

theorem Op.Stop.accepted (entry : op.Stop id o) (p : Price) :
    op.reflectAccepted centre p = centre - p := by
  cases entry <;> rfl

end operations

namespace Market

variable {m : Market} {op : Op} {events : List Event} {next : Market × Phase} {ret : Ret}

theorem place_reflect {side : Side} {px : Price} {front back : List RO} {o : RO}
    (place : m.levels side px = front ++ o :: back) :
    (m.reflect centre).levels side.opposite (centre - px) =
      front.map (RO.reflect centre) ++ o.reflect centre :: back.map (RO.reflect centre) := by
  rw [reflect_levels, place, List.map_append, List.map_cons]

theorem reflect_remove {side : Side} {px : Price} (front back : List RO) :
    (m.setLevel side px (front ++ back)).reflect centre =
      (m.reflect centre).setLevel side.opposite (centre - px)
        (front.map (RO.reflect centre) ++ back.map (RO.reflect centre)) := by
  rw [reflect_setLevel, List.map_append]

theorem Begin.reflect (centred : centre = m.min + m.max) (continuous : Continuous op)
    (start : m.Begin op events next ret) :
    (m.reflect centre).Begin (op.reflect centre) (events.map (op.reflectEvent centre))
      (reflectState centre next) ret := by
  have inside (p : Price) := (inBand_reflect (m := m) centred p).mpr
  cases start with
  | reject submit answer bad =>
      exact .reject (submit.reflect centre) (answer.trans Op.reflect_rejection.symm)
        (bad.reflect centred)
  | @refuse _ side price qty tif owner stp peak entry temporary nonzero inBand refused =>
      have mirrored := Begin.refuse (entry.reflect centre) temporary nonzero (inside price inBand)
        ((refuses_reflect centred qty tif).mpr refused)
      rw [List.map_cons, Op.reflectEvent, entry.accepted]
      exact mirrored
  | @enter _ side price qty tif owner stp peak entry nonzero inBand admitted =>
      have mirrored := Begin.enter (entry.reflect centre) nonzero (inside price inBand)
        (mt (refuses_reflect centred qty tif).mp admitted)
      rw [← Taker.reflect_ofLimit] at mirrored
      rw [List.map_cons, Op.reflectEvent, entry.accepted]
      exact mirrored
  | market running => exact .market running
  | @trigger _ o entry nonzero inBand limit running armed =>
      have limited (isLimit : o.stopMarket = false) :
          (m.reflect centre).inBand (o.reflectStop centre).stopLimit := by
        simp only [RO.reflectStop, isLimit]
        exact inside o.stopLimit (limit isLimit)
      have mirrored := Begin.trigger (m := m.reflect centre) (entry.reflect centre) nonzero
        (inside o.price inBand) limited running ((armed_reflect o).mpr armed)
      rw [RO.reflectStop_fired] at mirrored
      rw [List.map_cons, Op.reflectEvent, entry.accepted]
      exact mirrored
  | @park _ o entry nonzero inBand limit waits =>
      have limited (isLimit : o.stopMarket = false) :
          (m.reflect centre).inBand (o.reflectStop centre).stopLimit := by
        simp only [RO.reflectStop, isLimit]
        exact inside o.stopLimit (limit isLimit)
      have mirrored := Begin.park (m := m.reflect centre) (entry.reflect centre) nonzero
        (inside o.price inBand) limited (waits.imp_right (mt (armed_reflect o).mp))
      have appended : (m.reflect centre).stops ++ [o.reflectStop centre] =
          (m.stops ++ [o]).map (RO.reflectStop centre) := by
        rw [reflect_stops, List.map_append, List.map_singleton]
      rw [appended] at mirrored
      rw [List.map_cons, Op.reflectEvent, entry.accepted]
      exact mirrored
  | decline target declined => exact .decline (target.reflect centre) (declined.reflect centred)
  | @cancel _ side px front o back cancels place =>
      have mirrored := Begin.cancel (o := o.reflect centre) (cancels.reflect centre)
        (place_reflect place)
      rw [← reflect_remove] at mirrored
      exact mirrored
  | @cancelStop _ front o back cancels place =>
      have parked : (m.reflect centre).stops = front.map (RO.reflectStop centre) ++
          o.reflectStop centre :: back.map (RO.reflectStop centre) := by
        rw [reflect_stops, place, List.map_append, List.map_cons]
      have mirrored := Begin.cancelStop (o := o.reflectStop centre) (cancels.reflect centre) parked
      rw [← List.map_append] at mirrored
      exact mirrored
  | erase reduces place all =>
      have mirrored := Begin.erase (reduces.reflect centre) (place_reflect place) all
      rw [← reflect_remove] at mirrored
      exact mirrored
  | reduce reduces place some =>
      have mirrored := Begin.reduce (reduces.reflect centre) (place_reflect place) some
      rw [RO.reflect_reduced, ← List.map_cons, ← reflect_remove] at mirrored
      exact mirrored
  | @replace side px front o back newPrice newQty place nonzero inBand moved =>
      have elsewhere : ¬ (centre - newPrice = centre - o.price ∧ newQty ≤ o.total) :=
        fun same => moved ⟨Int.sub_right_inj _ |>.mp same.1, same.2⟩
      have mirrored := Begin.replace (place_reflect place) nonzero (inside newPrice inBand)
        elsewhere
      rw [← reflect_remove] at mirrored
      exact mirrored
  | halt => cases continuous
  | resume => cases continuous
  | flat => cases continuous
  | uncross => cases continuous

theorem Begin.orderly (settled : m.Settled) (orderly : Orderly (m, .idle))
    (continuous : Continuous op) (afterTrade : ∀ o, op.Stop m.nextId o → m.last ≠ none)
    (start : m.Begin op events next ret) : Orderly next := by
  cases start with
  | reject => exact orderly
  | refuse => exact orderly.same rfl id rfl nofun
  | enter => exact orderly.same rfl id rfl nofun
  | market => exact orderly.same rfl id rfl nofun
  | trigger => exact orderly.same rfl id rfl nofun
  | @park _ o entry nonzero inside limit waits =>
      have traded := afterTrade o entry
      have idle : ∀ other ∈ m.stops, ¬ m.Armed other := by
        apply settled.resolve_left
        rw [orderly.running]
        exact Bool.false_ne_true
      have unarmed : ¬ m.Armed o := by
        apply waits.resolve_left
        rw [orderly.running]
        exact Bool.false_ne_true
      refine ⟨orderly.running, nofun, fun never => absurd never traded, ?_⟩
      rcases Option.ne_none_iff_exists'.mp traded with ⟨last, isLast⟩
      apply divided_of_unarmed (m := { m with nextId := m.nextId + 1, stops := m.stops ++ [o] })
        isLast
      intro other member
      rcases List.mem_append.mp member with old | new
      · exact idle other old
      · rw [List.mem_singleton.mp new]
        exact unarmed
  | decline => exact orderly
  | cancel => exact orderly.same rfl id rfl nofun
  | cancelStop cancels place => exact orderly.unpark place nofun
  | erase => exact orderly.same rfl id rfl nofun
  | reduce => exact orderly.same rfl id rfl nofun
  | replace => exact orderly.same rfl id rfl nofun
  | halt => cases continuous
  | resume => cases continuous
  | flat => cases continuous
  | uncross => cases continuous

theorem filled_reflect (id : OrderId) (events : List Event) :
    filled id (events.map (op.reflectEvent centre)) = filled id events := by
  rw [filled, filled, tally, tally, List.map_map]
  congr 2
  funext event
  cases event <;> rfl

theorem Answers.reflect (answers : m.Answers events op ret) :
    (m.reflect centre).Answers (events.map (op.reflectEvent centre)) (op.reflect centre) ret := by
  cases op with
  | submitMarket side qty owner stp =>
      intro running
      rw [reflect_nextId, filled_reflect]
      exact answers running
  | _ => trivial

/-- An operation of continuous trading in the mirror. -/
theorem Performs.reflect {m' : Market} (centred : centre = m.min + m.max) (settled : m.Settled)
    (orderly : Orderly (m, .idle)) (continuous : Continuous op)
    (afterTrade : ∀ o, op.Stop m.nextId o → m.last ≠ none)
    (performs : m.Performs op events m' ret) :
    (m.reflect centre).Performs (op.reflect centre) (events.map (op.reflectEvent centre))
      (m'.reflect centre) ret ∧ Orderly (m', .idle) ∧ m'.Settled := by
  cases performs with
  | intro start steps settled' answers =>
      have mirrored := steps.image (reflectState centre) (op.reflectEvent centre)
        (fun _ _ _ orderly step => ⟨step.reflect op orderly, step.orderly orderly⟩)
        (start.orderly settled orderly continuous afterTrade)
      rw [List.map_append]
      exact ⟨.intro (start.reflect centred continuous) mirrored.1 settled'.reflect answers.reflect,
        mirrored.2, settled'⟩

end Market

end Matchbook
