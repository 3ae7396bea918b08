import Matchbook.Market.Auction
import Matchbook.Market.FillOrKill
import Matchbook.Market.PostOnly

namespace Matchbook

open Transitions

/-! # Takers that stop themselves

A taker whose policy stops it at its own orders comes to one of them exactly if it wants more
than there is to fill before: all of the better prices, and the clips shown at the price. -/

def Side.inside (maker : Side) (px : Price) : Price :=
  match maker with
  | .sell => px - 1
  | .buy => px + 1

theorem Side.reaches_inside {maker : Side} {p px : Price} :
    maker.Reaches p (maker.inside px) ↔ maker.Reaches p px ∧ p ≠ px := by
  cases maker <;> simp only [Reaches, inside] <;> lia

def shownQty (level : List RO) : Nat := (level.map fun o => o.qty.toNat).sum

theorem shownQty_cons (o : RO) (level : List RO) :
    shownQty (o :: level) = o.qty.toNat + shownQty level :=
  rfl

theorem behind_of_snoc {α : Type*} {rest front back : List α} {last own : α}
    (place : rest ++ [last] = front ++ own :: back) (other : own ≠ last) :
    ∃ back', rest = front ++ own :: back' := by
  rcases List.eq_nil_or_concat back with rfl | ⟨back', final, rfl⟩
  · have same := (List.append_inj' place rfl).2
    exact absurd (List.cons.inj same).1.symm other
  · rw [List.concat_eq_append, ← List.cons_append, ← List.append_assoc] at place
    exact ⟨back', (List.append_inj' place rfl).1⟩

namespace Market

def ahead (m : Market) (maker : Side) (px : Price) (front : List RO) : Nat :=
  m.offered maker (maker.inside px) + shownQty front

def SelfStops (m : Market) (o : RO) (price : Price) (qty : Qty) : Prop :=
  o.owner ≠ 0 ∧ o.stp ≠ .cancelMaker ∧ ∃ px front own back,
    m.levels o.side.opposite px = front ++ own :: back ∧ own.owner = o.owner ∧
      o.side.opposite.Reaches px price ∧ m.ahead o.side.opposite px front < qty.toNat

variable {m : Market} {side s : Side} {px p : Price}

theorem Best.offered_inside (best : m.Best side px) (valid : m.Valid) :
    m.offered side (side.inside px) = 0 := by
  by_contra some
  rcases valid.offered_ne_zero.mp some with ⟨p, occupied, reaches⟩
  rcases Side.reaches_inside.mp reaches with ⟨better, apart⟩
  exact apart (Side.reaches_antisymm better (best.least p occupied))

end Market

open Market

theorem Step.unstopped {state next : Market × Phase} {events : List Event}
    (step : Step state events next) (unstopped : state.1.stops = []) : next.1.stops = [] := by
  cases step with
  | fire next => simp [next.parked] at unstopped
  | _ => exact unstopped

theorem Step.not_idle {state next : Market × Phase} {events : List Event}
    (step : Step state events next) (idle : state.2 = .idle) : state.1.stops ≠ [] := by
  cases step with
  | fire next => simp [next.parked]
  | _ => cases idle

def Spared (m : Market) (t : Taker) : Prop :=
  t.stp = .cancelMaker ∨ ∀ px front own back, m.levels t.maker px = front ++ own :: back →
    t.Owns own → t.maker.Within px t.limit → t.qty.toNat ≤ m.ahead t.maker px front

namespace Spared

variable {m : Market} {t : Taker} {px : Price} {o : RO} {rest : List RO}

theorem not_stopped (spared : Spared m t) (valid : m.Valid) (meets : t.Meets m px o rest)
    (own : t.Owns o) (policy : t.stp ≠ .cancelMaker) : False := by
  rcases spared with cancels | filled
  · exact policy cancels
  · have within := filled px [] o rest meets.head own meets.within
    have nothing : m.ahead t.maker px [] = 0 := by
      rw [ahead, meets.best.offered_inside valid]
      rfl
    rw [nothing, Nat.le_zero] at within
    exact meets.hungry (UInt64.toNat_inj.mp within)

theorem fill {fill : Qty} (spared : Spared m t) (valid : m.Valid) (meets : t.Meets m px o rest)
    (other : ¬ t.Owns o) (amount : fill = if t.qty < o.qty then t.qty else o.qty) :
    Spared (m.setLevel t.maker px (consume px fill (o :: rest)).1) (t.withQty (t.qty - fill)) := by
  have taken := toNat_fill amount
  rcases spared with cancels | filled
  · exact .inl cancels
  right
  intro px' front own back place owns within
  have left : (t.withQty (t.qty - fill)).qty.toNat = t.qty.toNat - fill.toNat := by
    rw [Taker.withQty_qty]
    omega
  rw [left]
  have shape := valid.shape t.maker px o (by simp [meets.head])
  have fits : fill ≤ o.total := by
    have displayed := shape.qty_le_total
    grind
  have lost := valid.offered_consume (s := t.maker) (p := t.maker.inside px') px meets.head fits
  have same : (m.setLevel t.maker px (consume px fill (o :: rest)).1).ahead t.maker px' front =
      (m.setLevel t.maker px (consume px fill (o :: rest)).1).offered t.maker
        (t.maker.inside px') + shownQty front := rfl
  rw [Taker.withQty_maker, same]
  rw [Taker.withQty_maker, setLevel_levels] at place
  by_cases here : px' = px
  · subst here
    rw [if_pos ⟨rfl, rfl⟩] at place
    have apart : ¬ (t.maker = t.maker ∧ t.maker.Reaches px' (t.maker.inside px')) :=
      fun both => (Side.reaches_inside.mp both.2).2 rfl
    rw [if_neg apart, Nat.add_zero] at lost
    rw [lost]
    by_cases all : o.qty ≤ t.qty
    · -- The head is used up, and what stood behind it has moved up.
      have whole : fill = o.qty := by
        rw [amount, if_neg (UInt64.not_lt.mpr all)]
      have behind : ∃ back', rest = front ++ own :: back' := by
        have used := shape.consumed_qty (f := fill)
        rw [whole] at used
        rcases consume_cases px' fill o rest with ⟨some, equal⟩ | ⟨-, -, equal⟩ | ⟨-, -, equal⟩
        · rw [whole] at some
          exact absurd (UInt64.toNat_inj.mp (by simpa using used)) some
        · rw [equal] at place
          exact ⟨back, place⟩
        · rw [equal] at place
          have notLast : own ≠ (o.consumed fill).replenished := by
            rintro rfl
            exact other ⟨owns.1, owns.2⟩
          exact behind_of_snoc place notLast
      rcases behind with ⟨back', rfl⟩
      have before := filled px' (o :: front) own back' meets.head owns within
      rw [ahead, shownQty_cons] at before
      rw [whole]
      omega
    · have none : t.qty.toNat - fill.toNat = 0 := by
        rw [amount, if_pos (UInt64.not_le.mp all), Nat.sub_self]
      omega
  · rw [if_neg fun both => here both.2] at place
    have better : t.maker.Reaches px (t.maker.inside px') := by
      refine Side.reaches_inside.mpr ⟨meets.best.least px' ?_, Ne.symm here⟩
      rw [place]
      simp
    rw [if_pos ⟨rfl, better⟩] at lost
    have before := filled px' front own back place owns within
    rw [ahead] at before
    omega

/-- A fill of an order, or a cancel of one of its own, leaves a spared taker spared, and a
taker that rests leaves the market without a cancel. -/
theorem step {next : Market × Phase} {events : List Event} (spared : Spared m t)
    (valid : ValidState (m, .taking t)) {price : Price} {peak : Qty}
    (rests : t.remainder = .rest price peak) (step : Step (m, .taking t) events next) :
    .cancel t.id ∉ events ∧ ((∃ m' qty, next = (m', .taking (t.withQty qty)) ∧
      Spared m' (t.withQty qty)) ∨ next.2 = .idle) := by
  have validM : m.Valid := valid.1
  have foreign {px : Price} {o : RO} {rest : List RO} (meets : t.Meets m px o rest) :
      o.id ≠ t.id := fun same =>
    valid.2.fresh (same ▸ isOpen_of_mem (by simp [meets.head] : o ∈ m.levels t.maker px))
  cases step with
  | fill meets other amount =>
      refine ⟨?_, .inl ⟨_, _, rfl, spared.fill validM meets other amount⟩⟩
      intro member
      rcases List.mem_cons.mp member with same | clip
      · cases same
      · rcases mem_consume_events clip with ⟨_, -, same, -⟩
        cases same
  | cancelMaker meets own policy =>
      refine ⟨?_, .inl ⟨_, t.qty, rfl, .inl policy⟩⟩
      intro member
      exact foreign meets (Event.cancel.inj (List.mem_singleton.mp member)).symm
  | cancelTaker meets own policy =>
      exact (spared.not_stopped validM meets own (by rw [policy]; decide)).elim
  | cancelBoth meets own policy =>
      exact (spared.not_stopped validM meets own (by rw [policy]; decide)).elim
  | filled done => exact ⟨List.not_mem_nil, .inr rfl⟩
  | rest left blocked => exact ⟨by simp, .inr rfl⟩
  | cancelRemainder left blocked cancels =>
      rw [rests] at cancels
      cases cancels
  | discard left blocked discards => exact ⟨List.not_mem_nil, .inr rfl⟩

theorem run {m' : Market} {events : List Event} (spared : Spared m t)
    (valid : ValidState (m, .taking t)) (unstopped : m.stops = []) {price : Price} {peak : Qty}
    (rests : t.remainder = .rest price peak) (run : Run Step (m, .taking t) events (m', .idle)) :
    .cancel t.id ∉ events := by
  have kept : ∀ state new next seen, (ValidState state ∧ state.1.stops = [] ∧
      ((∃ m₁ qty, state = (m₁, .taking (t.withQty qty)) ∧ Spared m₁ (t.withQty qty)) ∨
        state.2 = .idle) ∧ .cancel t.id ∉ seen) → Step state new next →
      (ValidState next ∧ next.1.stops = [] ∧
        ((∃ m₁ qty, next = (m₁, .taking (t.withQty qty)) ∧ Spared m₁ (t.withQty qty)) ∨
          next.2 = .idle) ∧ .cancel t.id ∉ seen ++ new) := by
    rintro state new next seen ⟨valid, unstopped, going, untold⟩ step
    refine ⟨step.valid valid, step.unstopped unstopped, ?_⟩
    rcases going with ⟨m₁, qty, rfl, spared⟩ | idle
    · rcases spared.step valid rests step with ⟨now, after⟩
      refine ⟨after, ?_⟩
      rw [List.mem_append, not_or]
      exact ⟨untold, now⟩
    · exact (step.not_idle idle unstopped).elim
  have start := run.recorded kept ⟨valid, unstopped, .inl ⟨m, t.qty, rfl, spared⟩, List.not_mem_nil⟩
  exact start.2.2.2

end Spared

/-- An order that does not come to one of its owner is spared when it enters again. -/
theorem Market.spared_of_not_selfStops {m : Market} {o : RO} {newPrice : Price} {newQty : Qty}
    {side : Side} (px : Price) (level : List RO) (home : side = o.side)
    (spares : ¬ m.SelfStops o newPrice newQty) :
    Spared (m.setLevel side px level)
      (.ofLimit o.id o.side newPrice newQty .gtc o.owner o.stp o.peak) := by
  subst home
  by_cases policy : o.stp = .cancelMaker
  · exact .inl policy
  right
  intro px' front own back place owns within
  by_contra less
  apply spares
  have maker : (Taker.ofLimit o.id o.side newPrice newQty .gtc o.owner o.stp o.peak).maker =
      o.side.opposite := rfl
  rw [maker, setLevel_levels_side _ _ _ _ _ _ (Side.opposite_ne o.side)] at place
  have same : (m.setLevel o.side px level).ahead o.side.opposite px' front =
      m.ahead o.side.opposite px' front := by
    rw [ahead, ahead, offered_setLevel_other (.inl (Side.opposite_ne o.side))]
  rw [maker, same] at less
  exact ⟨owns.1, policy, px', front, own, back, place, owns.2, within, Nat.lt_of_not_le less⟩

namespace Market

variable {m m₁ m' : Market} {id : OrderId} {price : Price} {qty : Qty} {phase : Phase}
  {first events : List Event} {op : Op} {ret : Ret}

def Spares (m : Market) (id : OrderId) (price : Price) (qty : Qty) : Prop :=
  ∀ side px, ∀ o ∈ m.levels side px, o.id = id → m.Reenters o price qty → ¬ m.SelfStops o price qty

theorem still_of_unstopped (unstopped : m.stops = [])
    (run : Run Step (m, .idle) events (m', .idle)) :
    events = [] ∧ m' = m := by
  have settled : m.Settled := .inr (by simp [unstopped])
  rcases settled.still run with ⟨rfl, same⟩
  exact ⟨rfl, congrArg Prod.fst same⟩

theorem Begin.unstopped (target : op.OnOrder id) (unstopped : m.stops = [])
    (start : m.Begin op first (m₁, phase) ret) : m₁.stops = [] := by
  cases start with
  | park entry => cases target <;> cases entry
  | cancelStop cancels place => simp [place] at unstopped
  | _ => exact unstopped

theorem Begin.spared (valid : m.Valid) (unstopped : m.stops = []) (spares : m.Spares id price qty)
    (start : m.Begin (.modify id price qty) first (m₁, phase) ret)
    (run : Run Step (m₁, phase) events (m', .idle)) : .cancel id ∉ events := by
  have still (idle : phase = .idle) : .cancel id ∉ events := by
    subst idle
    rcases still_of_unstopped (start.unstopped .modify unstopped) run with ⟨rfl, -⟩
    exact List.not_mem_nil
  have validNext := start.valid valid
  cases start with
  | @replace side px front o back _ _ place nonzero inside moved =>
      have member : o ∈ m.levels side px := by simp [place]
      have home : side = o.side := (valid.home side px o member).1.symm
      have spared := spared_of_not_selfStops px (front ++ back) home
        (spares side px o member rfl ⟨nonzero, inside, moved⟩)
      exact spared.run validNext unstopped rfl run
  | enter entry => cases entry
  | trigger entry => cases entry
  | _ => exact still rfl

end Market

end Matchbook
