import Matchbook.Market.Origins

namespace Matchbook

open Transitions

/-! # What an order may trade at

The worst price an order may trade at is the one its submission named, or the last
modification that entered it again. -/

/-- A side, and the worst price on it, if not any price will do. -/
structure Mandate where
  side : Side
  limit : Option Price
deriving DecidableEq

def Mandate.Allows (mandate : Mandate) (px : Price) : Prop :=
  ∀ limit ∈ mandate.limit, mandate.side.Reaches limit px

theorem Side.opposite_reaches {side : Side} {px limit : Price} :
    side.opposite.Reaches px limit ↔ side.Reaches limit px := by
  cases side <;> exact Iff.rfl

def Op.limit? : Op → Option Price
  | .submitLimit _ price _ _ _ _ => some price
  | .submitIceberg _ price _ _ _ _ _ => some price
  | .submitStopLimit _ _ limitPrice _ _ _ => some limitPrice
  | .modify _ newPrice _ => some newPrice
  | _ => none

/-- The operation under way, and the mandate of each id as of its last accept. -/
structure Mandates where
  calling : Option Op
  mandate : OrderId → Option Mandate

namespace Mandates

def start : Mandates where
  calling := none
  mandate _ := none

def see (mandates : Mandates) : Entry → Mandates
  | .called op _ => { mandates with calling := some op }
  | .seen (.accept id side _ _) =>
      let mandate : Mandate := ⟨side, mandates.calling.bind Op.limit?⟩
      { mandates with mandate := Function.update mandates.mandate id (some mandate) }
  | .seen _ => mandates

/-- Both parties of a trade are on their sides and within their limits, and outside an auction
it is the maker's limit. Nor does an order come to rest there at another price. -/
def Kept (mandates : Mandates) : Entry → Prop
  | .seen (.trade trade) => ∃ taker maker, mandates.mandate trade.taker = some taker ∧
      mandates.mandate trade.maker = some maker ∧ taker.side = trade.takerSide ∧
      maker.side = trade.takerSide.opposite ∧ taker.Allows trade.price ∧
      maker.Allows trade.price ∧
      (mandates.calling ≠ some .uncross → maker.limit = some trade.price)
  | .seen (.rest id side price _) => mandates.calling ≠ some .uncross →
      mandates.mandate id = some ⟨side, some price⟩
  | _ => True

end Mandates

/-- What a stop may trade at when it has fired. -/
def RO.fires (o : RO) : Mandate := ⟨o.side, if o.stopMarket then none else some o.stopLimit⟩

def Taker.mandate (t : Taker) : Mandate := ⟨t.side, t.limit⟩

structure Mandated (state : Market × Phase) (mandates : Mandates) : Prop where
  resting : ∀ side px, ∀ o ∈ state.1.levels side px, mandates.mandate o.id = some ⟨side, some px⟩
  parked : ∀ o ∈ state.1.stops, mandates.mandate o.id = some o.fires
  taking : ∀ t, state.2 = .taking t ∨ state.2 = .stopped t →
    mandates.mandate t.id = some t.mandate ∧
      ∀ price peak, t.remainder = .rest price peak → t.limit = some price
  crossing : ∀ clearing, state.2 = .crossing clearing → mandates.calling = some .uncross

/-! ## Mandates of what enters -/

theorem RO.fired_mandate (o : RO) : o.fired.mandate = o.fires := by
  rw [RO.fires, RO.fired]
  split <;> rfl

theorem Taker.ofLimit_mandate (id : OrderId) (side : Side) (price : Price) (qty : Qty)
    (tif : TimeInForce) (owner : OwnerId) (stp : StpPolicy) (peak : Qty) :
    (Taker.ofLimit id side price qty tif owner stp peak).mandate = ⟨side, some price⟩ := rfl

theorem Taker.ofLimit_rests {id : OrderId} {side : Side} {price p : Price} {qty peak peak' : Qty}
    {tif : TimeInForce} {owner : OwnerId} {stp : StpPolicy}
    (rests : (Taker.ofLimit id side price qty tif owner stp peak).remainder = .rest p peak') :
    (Taker.ofLimit id side price qty tif owner stp peak).limit = some p := by
  simp only [Taker.ofLimit] at rests ⊢
  split at rests
  · cases rests
  · cases rests
    rfl

theorem RO.fired_rests {o : RO} {p : Price} {peak : Qty}
    (rests : o.fired.remainder = .rest p peak) :
    o.fired.limit = some p := by
  unfold RO.fired at rests ⊢
  split at rests
  · cases rests
  · rename_i limited
    rw [if_neg limited]
    exact Taker.ofLimit_rests rests

theorem Op.Limit.names_limit {op : Op} {side : Side} {price : Price} {qty : Qty} {tif : TimeInForce}
    {owner : OwnerId} {stp : StpPolicy} {peak : Qty}
    (entry : op.Limit side price qty tif owner stp peak) : op.limit? = some price := by
  cases entry <;> rfl

theorem Op.Stop.names_limit {op : Op} {id : OrderId} {o : RO} (entry : op.Stop id o) :
    (⟨o.side, op.limit?⟩ : Mandate) = o.fires := by
  cases entry <;> rfl

namespace Mandates

theorem see_seen {mandates : Mandates} {event : Event}
    (notAccept : ∀ id side price qty, event ≠ .accept id side price qty) :
    mandates.see (.seen event) = mandates := by
  cases event with
  | accept id side price qty => exact absurd rfl (notAccept id side price qty)
  | _ => rfl

theorem see_step {state next : Market × Phase} {events : List Event}
    (step : Step state events next) (mandates : Mandates) :
    ∀ entry ∈ events.map Entry.seen, mandates.see entry = mandates := by
  intro entry member
  rcases List.mem_map.mp member with ⟨event, isEvent, rfl⟩
  exact see_seen fun id side price qty same => step.not_accept (same ▸ isEvent)

end Mandates

namespace Mandated

variable {state next : Market × Phase} {mandates : Mandates}

theorem new (band : Band) : Mandated (Market.new band, .idle) .start where
  resting _ _ _ member := absurd member List.not_mem_nil
  parked _ member := absurd member List.not_mem_nil
  taking t taking := by rcases taking with same | same <;> cases same
  crossing _ crossing := nomatch crossing

/-! ## Steps -/

theorem step {events : List Event} (mandated : Mandated state mandates)
    (step : Step state events next) : Mandated next mandates := by
  constructor
  case resting =>
      intro side px o' member
      rcases step.resting_origin member with ⟨o, before, continues⟩ |
        ⟨t, price, peak, taking, rests, rfl, rfl, rfl, -⟩
      · rw [continues.id]
        exact mandated.resting side px o before
      · rcases mandated.taking t (.inl taking) with ⟨named, limit⟩
        rw [Taker.resting_id, named, Taker.mandate, limit px peak rests]
  case parked => exact fun o member => mandated.parked o (step.stops_origin.subset member)
  case taking =>
      intro t' taking
      rcases step.taker_origin taking with ⟨t, before, same⟩ | ⟨-, o, parked, rfl⟩
      · rw [same]
        exact mandated.taking t (.inl before)
      · rw [RO.fired_id, RO.fired_mandate]
        exact ⟨mandated.parked o parked, fun _ _ => RO.fired_rests⟩
  case crossing =>
      intro clearing crossing
      cases step <;> cases crossing
      exact mandated.crossing _ rfl

/-- A clip of an order that rests at its limit. -/
theorem clip {m : Market} {phase : Phase} (mandated : Mandated (m, phase) mandates)
    (valid : m.Valid)
    {side : Side} {px announced : Price} {level : List RO} (queue : m.levels side px = level)
    {f : Qty} {event : Event} (member : event ∈ (consume announced f level).2) :
    ∃ id displayed, event = .rest id side announced displayed ∧
      mandates.mandate id = some ⟨side, some px⟩ := by
  rcases mem_consume_events member with ⟨o, queued, rfl, -⟩
  rw [← queue] at queued
  have home := (valid.home side px o queued).1
  rw [home]
  exact ⟨_, _, rfl, mandated.resting side px o queued⟩

theorem kept {events : List Event} (valid : ValidState state) (mandated : Mandated state mandates)
    (step : Step state events next) : ∀ entry ∈ events.map Entry.seen, mandates.Kept entry := by
  intro entry member
  rcases List.mem_map.mp member with ⟨event, isEvent, rfl⟩
  cases step with
  | @fill m t px o rest fill meets other amount =>
      rcases List.mem_cons.mp isEvent with rfl | isClip
      · have taker := (mandated.taking t (.inl rfl)).1
        have maker := mandated.resting t.maker px o (by simp [meets.head])
        refine ⟨_, _, taker, maker, rfl, rfl, ?_, ?_, fun _ => rfl⟩
        · rintro limit named
          have within := meets.within
          rw [show t.limit = some limit from named] at within
          exact Side.opposite_reaches.mp within
        · rintro limit ⟨⟩
          exact t.maker.reaches_refl px
      · rcases mandated.clip valid.1 meets.head isClip with ⟨id, displayed, rfl, named⟩
        exact fun _ => named
  | @cross m clearing bpx apx b a bids asks f bestBid bestAsk bidHead askHead low high amount =>
      have calling : mandates.calling = some .uncross := mandated.crossing clearing rfl
      rcases List.mem_cons.mp isEvent with rfl | isClip
      · have bid := mandated.resting .buy bpx b (by simp [bidHead])
        have ask := mandated.resting .sell apx a (by simp [askHead])
        refine ⟨_, _, bid, ask, rfl, rfl, ?_, ?_, fun notAuction => absurd calling notAuction⟩
        · rintro limit ⟨⟩
          exact low
        · rintro limit ⟨⟩
          exact high
      · rcases List.mem_append.mp isClip with isClip | isClip
        · rcases mem_consume_events isClip with ⟨o, -, rfl, -⟩
          exact fun notAuction => absurd calling notAuction
        · rcases mem_consume_events isClip with ⟨o, -, rfl, -⟩
          exact fun notAuction => absurd calling notAuction
  | @rest m t price peak left blocked rests =>
      rw [List.mem_singleton.mp isEvent]
      rcases mandated.taking t (.inl rfl) with ⟨named, limit⟩
      rw [Taker.mandate, limit price peak rests] at named
      exact fun _ => named
  | cancelMaker => rw [List.mem_singleton.mp isEvent]; trivial
  | cancelBoth => rw [List.mem_singleton.mp isEvent]; trivial
  | killed => rw [List.mem_singleton.mp isEvent]; trivial
  | cancelRemainder => rw [List.mem_singleton.mp isEvent]; trivial
  | _ => exact absurd isEvent List.not_mem_nil

/-! ## Operations -/

theorem called {m : Market} (mandated : Mandated (m, .idle) mandates) (op : Op) (ret : Ret) :
    Mandated (m, .idle) (mandates.see (.called op ret)) where
  resting := mandated.resting
  parked := mandated.parked
  taking := mandated.taking
  crossing _ crossing := nomatch crossing

/-- The book keeps its mandates while orders stay or leave. -/
theorem of_shrinks {m m' : Market} {phase : Phase} (mandated : Mandated (m, .idle) mandates)
    (shrinks : m.Shrinks m') (stops : m'.stops ⊆ m.stops)
    (taking : ∀ t, phase = .taking t ∨ phase = .stopped t →
      mandates.mandate t.id = some t.mandate ∧
        ∀ price peak, t.remainder = .rest price peak → t.limit = some price)
    (crossing : ∀ clearing, phase = .crossing clearing → mandates.calling = some .uncross) :
    Mandated (m', phase) mandates where
  resting side px o' member := by
    rcases shrinks side px o' member with ⟨o, before, continues⟩
    rw [continues.id]
    exact mandated.resting side px o before
  parked o member := mandated.parked o (stops member)
  taking := taking
  crossing := crossing

theorem idle {m m' : Market} (mandated : Mandated (m, .idle) mandates) (shrinks : m.Shrinks m')
    (stops : m'.stops ⊆ m.stops) : Mandated (m', .idle) mandates := by
  apply mandated.of_shrinks shrinks stops
  · intro t taking
    rcases taking with same | same <;> cases same
  · exact fun _ crossing => nomatch crossing

theorem enters {m m' : Market} {t : Taker} (mandated : Mandated (m, .idle) mandates)
    (shrinks : m.Shrinks m') (stops : m'.stops ⊆ m.stops)
    (named : mandates.mandate t.id = some t.mandate)
    (rests : ∀ price peak, t.remainder = .rest price peak → t.limit = some price) :
    Mandated (m', .taking t) mandates := by
  apply mandated.of_shrinks shrinks stops
  · intro t' taking
    rcases taking with same | same <;> cases same
    exact ⟨named, rests⟩
  · exact fun _ crossing => nomatch crossing

theorem accepted {m : Market} (mandated : Mandated (m, .idle) mandates) {id : OrderId}
    (fresh : ¬ m.IsOpen id) {op : Op} (calling : mandates.calling = some op) (side : Side)
    (price : Price) (qty : Qty) :
    let told := mandates.see (.seen (.accept id side price qty))
    told.mandate id = some ⟨side, op.limit?⟩ ∧ Mandated (m, .idle) told := by
  have other {id' : OrderId} (isOpen : m.IsOpen id') :
      (mandates.see (.seen (.accept id side price qty))).mandate id' = mandates.mandate id' := by
    apply Function.update_of_ne
    rintro rfl
    exact fresh isOpen
  constructor
  · simp only [Mandates.see, calling, Option.bind_some, Function.update_self]
  constructor
  case resting =>
      intro s p o member
      exact (other (Market.isOpen_of_mem member)).trans (mandated.resting s p o member)
  case parked =>
      intro o member
      exact (other (Market.isOpen_of_stop member)).trans (mandated.parked o member)
  case taking =>
      intro t taking
      rcases taking with same | same <;> cases same
  case crossing => exact fun _ crossing => nomatch crossing

theorem begin {m : Market} {op : Op} {ret : Ret} {events : List Event} (valid : m.Valid)
    (mandated : Mandated (m, .idle) mandates) (start : m.Begin op events next ret) :
    Mandated next ((.called op ret :: events.map Entry.seen).foldl Mandates.see mandates) := by
  have called := mandated.called op ret
  have calling : (mandates.see (.called op ret)).calling = some op := rfl
  rw [List.foldl_cons]
  generalize mandates.see (.called op ret) = told at called calling
  have accepted := called.accepted valid.fresh calling
  have shrinks := start.shrinks
  have same (m : Market) : m.Shrinks { m with nextId := m.nextId + 1 } := .of_eq rfl
  cases start with
  | @refuse op side price qty tif owner stp peak entry temporary =>
      exact (accepted side price qty).2.idle (same m) (List.Subset.refl _)
  | @enter op side price qty tif owner stp peak entry nonzero inside resting =>
      have accepted := accepted side price qty
      apply accepted.2.enters (same m) (List.Subset.refl _)
      · rw [Taker.ofLimit_mandate, ← entry.names_limit]
        exact accepted.1
      · exact fun _ _ => Taker.ofLimit_rests
  | @market side qty owner stp ret running =>
      have accepted := accepted side 0 qty
      exact accepted.2.enters (same m) (List.Subset.refl _) accepted.1 fun _ _ rests =>
        nomatch rests
  | @trigger op o entry nonzero inside limit running armed =>
      have accepted := accepted o.side o.price o.qty
      apply accepted.2.enters (same m) (List.Subset.refl _)
      · rw [RO.fired_id, RO.fired_mandate, entry.id_eq, ← entry.names_limit]
        exact accepted.1
      · exact fun _ _ => RO.fired_rests
  | @park op o entry nonzero inside limit waits =>
      have accepted := accepted o.side o.price o.qty
      refine ⟨accepted.2.resting, ?_, accepted.2.taking, accepted.2.crossing⟩
      intro other member
      rcases List.mem_append.mp member with old | new
      · exact accepted.2.parked other old
      · rw [List.mem_singleton.mp new, entry.id_eq, ← entry.names_limit]
        exact accepted.1
  | @replace side px front o back newPrice newQty place nonzero inside moved =>
      have left := called.idle shrinks (List.Subset.refl _)
      have gone := valid.not_isOpen_remove place
      have accepted := left.accepted gone calling o.side newPrice newQty
      exact accepted.2.enters (.of_eq rfl) (List.Subset.refl _) accepted.1
        fun _ _ => Taker.ofLimit_rests
  | cancel cancels place => exact called.idle shrinks (List.Subset.refl _)
  | @cancelStop op front o back cancels place =>
      apply called.idle shrinks
      rw [place]
      exact ((List.sublist_cons_self o back).append_left front).subset
  | erase reduces place all => exact called.idle shrinks (List.Subset.refl _)
  | reduce reduces place some => exact called.idle shrinks (List.Subset.refl _)
  | reject submit answer => exact called
  | decline target cancel => exact called
  | halt => exact called.idle shrinks (List.Subset.refl _)
  | resume => exact called.idle shrinks (List.Subset.refl _)
  | flat => exact called
  | uncross bestBid bestAsk low high =>
      apply called.of_shrinks shrinks (List.Subset.refl _)
      · intro t taking
        rcases taking with same | same <;> cases same
      · exact fun _ _ => calling

end Mandated

/-- Throughout a history every trade is within both mandates. -/
theorem Run.mandated {state next : Market × Phase} {log : List Entry} {mandates : Mandates}
    (run : Run Market.Move state log next) (valid : ValidState state)
    (mandated : Mandated state mandates) :
    Throughout Mandates.see Mandates.Kept mandates log ∧
      Mandated next (log.foldl Mandates.see mandates) := by
  have kept : ∀ state entries next mandates, ValidState state ∧ Mandated state mandates →
      Market.Move state entries next →
      Throughout Mandates.see Mandates.Kept mandates entries ∧
        ValidState next ∧ Mandated next (entries.foldl Mandates.see mandates) := by
    intro state entries next mandates good move
    have valid := move.valid good.1
    cases move with
    | begin settled start =>
        refine ⟨throughout_of_forall ?_, valid, good.2.begin good.1.1 start⟩
        intro mandates entry member
        rcases List.mem_cons.mp member with rfl | seen
        · trivial
        · rcases List.mem_map.mp seen with ⟨event, isEvent, rfl⟩
          cases event with
          | trade trade => exact absurd isEvent start.not_trade
          | rest => exact absurd isEvent start.not_rest
          | _ => trivial
    | step taken =>
        have ignored := Mandates.see_step taken mandates
        refine ⟨throughout_ignored ignored (good.2.kept good.1 taken), valid, ?_⟩
        rw [foldl_ignored ignored]
        exact good.2.step taken
  have both := run.throughout kept ⟨valid, mandated⟩
  exact ⟨both.1, both.2.2⟩

end Matchbook
