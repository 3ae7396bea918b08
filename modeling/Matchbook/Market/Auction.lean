import Mathlib.Algebra.BigOperators.Group.Finset.Basic
import Mathlib.Algebra.Order.BigOperators.Group.Finset
import Mathlib.Order.Interval.Finset.Basic
import Mathlib.Data.Finset.Max
import Mathlib.Data.Int.Interval
import Matchbook.Foundation.CallAuction
import Matchbook.Market.Fills

namespace Matchbook

open CallAuction Transitions

/-! # The auction trades the volume of its price

Every pair takes the same quantity off both sides at the price or better, and
the best orders first. -/

def queueTotal (level : List RO) : Nat :=
  (level.map fun o => o.qty.toNat + o.reserve.toNat).sum

theorem queueTotal_consume (px : Price) {f : Qty} {o : RO} (rest : List RO) (shape : o.Shape)
    (within : f ≤ o.total) :
    queueTotal (consume px f (o :: rest)).1 + f.toNat = queueTotal (o :: rest) := by
  have total := shape.total_toNat
  have bound := UInt64.le_iff_toNat_le.mp within
  have qty := shape.consumed_qty (f := f)
  have reserve := shape.consumed_reserve within
  rcases consume_cases px f o rest with ⟨some, equal⟩ | ⟨out, none, equal⟩ |
    ⟨out, hidden, equal⟩
  · simp only [equal, queueTotal, List.map_cons, List.sum_cons]
    omega
  · rw [out] at qty
    rw [none] at reserve
    simp only [equal, queueTotal, List.map_cons, List.sum_cons, UInt64.toNat_zero] at qty reserve ⊢
    omega
  · have clip := RO.replenished_reserve (o := o.consumed f)
    have small := UInt64.le_iff_toNat_le.mp (RO.clip_le_reserve (o := o.consumed f))
    rw [out] at qty
    simp only [equal, queueTotal, List.map_append, List.map_cons, List.map_nil, List.sum_append,
      List.sum_cons, List.sum_nil, RO.replenished_qty, UInt64.toNat_zero] at qty ⊢
    omega

def pricesBetween (low high : Price) : Finset Price :=
  Int.instLocallyFiniteOrder.finsetIcc low high

theorem mem_pricesBetween {low high p : Price} :
    p ∈ pricesBetween low high ↔ low ≤ p ∧ p ≤ high :=
  Int.instLocallyFiniteOrder.finset_mem_Icc low high p

namespace Market

def offered (m : Market) (side : Side) (p : Price) : Nat :=
  ∑ px ∈ pricesBetween m.min m.max with side.Reaches px p, queueTotal (m.levels side px)

section offered

variable {m : Market} {side s : Side} {px p : Price} {level : List RO}

theorem offered_setLevel_other (other : s ≠ side ∨ ¬ s.Reaches px p) :
    (m.setLevel side px level).offered s p = m.offered s p := by
  apply Finset.sum_congr rfl
  intro p' member
  have reaches := (Finset.mem_filter.mp member).2
  rw [setLevel_levels, if_neg]
  rintro ⟨sameSide, samePrice⟩
  rcases other with otherSide | apart
  · exact otherSide sameSide
  · exact apart (samePrice ▸ reaches)

theorem offered_setLevel (level : List RO) (inside : m.inBand px) (reaches : side.Reaches px p) :
    (m.setLevel side px level).offered side p + queueTotal (m.levels side px) =
      m.offered side p + queueTotal level := by
  have counted : px ∈ (pricesBetween m.min m.max).filter fun px => side.Reaches px p :=
    Finset.mem_filter.mpr ⟨mem_pricesBetween.mpr inside, reaches⟩
  have split (m' : Market) (same : m'.min = m.min ∧ m'.max = m.max) : m'.offered side p =
      queueTotal (m'.levels side px) + ∑ px ∈ ((pricesBetween m.min m.max).filter
        fun px => side.Reaches px p).erase px, queueTotal (m'.levels side px) := by
    rw [offered, same.1, same.2]
    exact (Finset.add_sum_erase _ _ counted).symm
  have others : ∑ p' ∈ ((pricesBetween m.min m.max).filter fun px => side.Reaches px p).erase px,
      queueTotal ((m.setLevel side px level).levels side p') =
      ∑ p' ∈ ((pricesBetween m.min m.max).filter fun px => side.Reaches px p).erase px,
        queueTotal (m.levels side p') := by
    apply Finset.sum_congr rfl
    intro p' member
    rw [setLevel_levels, if_neg]
    exact fun same => (Finset.mem_erase.mp member).1 same.2
  have after := split (m.setLevel side px level) ⟨rfl, rfl⟩
  have before := split m ⟨rfl, rfl⟩
  rw [others, setLevel_levels_self] at after
  omega

theorem Valid.offered_ne_zero (valid : m.Valid) :
    m.offered side p ≠ 0 ↔ ∃ px, m.levels side px ≠ [] ∧ side.Reaches px p := by
  constructor
  · intro some
    rcases Finset.exists_ne_zero_of_sum_ne_zero some with ⟨px, member, total⟩
    refine ⟨px, fun empty => total ?_, (Finset.mem_filter.mp member).2⟩
    rw [empty]
    rfl
  · rintro ⟨px, occupied, reaches⟩ none
    have counted : px ∈ (pricesBetween m.min m.max).filter fun px => side.Reaches px p :=
      Finset.mem_filter.mpr ⟨mem_pricesBetween.mpr (valid.inside side px occupied), reaches⟩
    have total := Finset.sum_eq_zero_iff.mp none px counted
    rcases List.exists_cons_of_ne_nil occupied with ⟨o, rest, head⟩
    have positive := (valid.shape side px o (by simp [head])).positive
    rw [UInt64.lt_iff_toNat_lt, UInt64.toNat_zero] at positive
    rw [head, queueTotal, List.map_cons, List.sum_cons] at total
    omega

theorem Valid.offered_consume (valid : m.Valid) (announced : Price) {f : Qty} {o : RO}
    {rest : List RO} (head : m.levels side px = o :: rest) (within : f ≤ o.total) :
    (m.setLevel side px (consume announced f (o :: rest)).1).offered s p +
      (if s = side ∧ s.Reaches px p then f.toNat else 0) = m.offered s p := by
  have inside := valid.inside side px (by simp [head])
  split
  · rename_i counted
    rcases counted with ⟨rfl, reaches⟩
    have sum := offered_setLevel (consume announced f (o :: rest)).1 inside reaches
    have lost := queueTotal_consume announced rest (valid.shape s px o (by simp [head])) within
    rw [head] at sum
    omega
  · rename_i other
    rw [offered_setLevel_other (by tauto), Nat.add_zero]

end offered

end Market

/-! ## The run of an auction -/

def Market.Limits (m : Market) (side : Side) (id : OrderId) (p : Price) : Prop :=
  ∃ px, side.Reaches px p ∧ ∃ o ∈ m.levels side px, o.id = id

structure Auctions (m : Market) (p : Price) (state : Market × Phase) (seen : List Event) :
    Prop where
  valid : state.1.Valid
  halted : state.1.halted = true
  going : state.2 = .crossing p ∨
    (state.2 = .idle ∧ (state.1.offered .buy p = 0 ∨ state.1.offered .sell p = 0))
  shrinks : m.Shrinks state.1
  executes : Executes (m.offered .buy) (m.offered .sell) (state.1.offered .buy)
    (state.1.offered .sell) p (Market.printed seen)
  trades : ∀ trade, .trade trade ∈ seen →
    trade.price = p ∧ m.Limits .buy trade.taker p ∧ m.Limits .sell trade.maker p

theorem Market.Best.reaches_of_offered {m : Market} {side : Side} {best p : Price} (valid : m.Valid)
    (isBest : m.Best side best) (some : m.offered side p ≠ 0) : side.Reaches best p := by
  rcases valid.offered_ne_zero.mp some with ⟨px, occupied, reaches⟩
  exact side.reaches_trans (isBest.least px occupied) reaches

variable {m : Market} {p : Price} {state next : Market × Phase} {seen events : List Event}

theorem Market.Valid.exists_best (valid : m.Valid) {side : Side} {px : Price}
    (occupied : m.levels side px ≠ []) : ∃ top, m.Best side top := by
  let prices := (pricesBetween m.min m.max).filter fun px => m.levels side px ≠ []
  have member {px : Price} (occupied : m.levels side px ≠ []) : px ∈ prices :=
    Finset.mem_filter.mpr ⟨mem_pricesBetween.mpr (valid.inside side px occupied), occupied⟩
  cases side with
  | buy =>
      rcases prices.exists_max_image id ⟨px, member occupied⟩ with ⟨top, isPrice, greatest⟩
      exact ⟨top, (Finset.mem_filter.mp isPrice).2, fun p stays => greatest p (member stays)⟩
  | sell =>
      rcases prices.exists_min_image id ⟨px, member occupied⟩ with ⟨top, isPrice, least⟩
      exact ⟨top, (Finset.mem_filter.mp isPrice).2, fun p stays => least p (member stays)⟩

/-- One pair takes the same quantity off both sides, at the price and better. -/
theorem Market.Valid.executes_cross (valid : m.Valid) {bpx apx : Price} {b a : RO}
    {bids asks : List RO} {f : Qty} (bestBid : m.Best .buy bpx) (bestAsk : m.Best .sell apx)
    (bidHead : m.levels .buy bpx = b :: bids) (askHead : m.levels .sell apx = a :: asks)
    (bidReaches : p ≤ bpx) (askReaches : apx ≤ p) (bidWithin : f ≤ b.total)
    (askWithin : f ≤ a.total) {m' : Market}
    (after : m'.offered = ((m.setLevel .buy bpx (consume p f (b :: bids)).1).setLevel .sell apx
      (consume p f (a :: asks)).1).offered) :
    Executes (m.offered .buy) (m.offered .sell) (m'.offered .buy) (m'.offered .sell) p f.toNat := by
  let bidFilled := m.setLevel .buy bpx (consume p f (b :: bids)).1
  have valid' : bidFilled.Valid := valid.fillHead p bidHead bidWithin
  have askHead' : bidFilled.levels .sell apx = a :: asks := by
    rw [Market.setLevel_levels_side _ _ _ _ _ _ (by decide), askHead]
  have bids (q : Price) : m'.offered .buy q + (if q ≤ bpx then f.toNat else 0) =
      m.offered .buy q := by
    have first := valid.offered_consume (s := .buy) (p := q) p bidHead bidWithin
    have second := valid'.offered_consume (s := .buy) (p := q) p askHead' askWithin
    rw [if_neg (by simp), Nat.add_zero] at second
    rw [after, second, ← first]
    simp [Side.Reaches, bidFilled]
  have asks (q : Price) : m'.offered .sell q + (if apx ≤ q then f.toNat else 0) =
      m.offered .sell q := by
    have first := valid.offered_consume (s := .sell) (p := q) p bidHead bidWithin
    have second := valid'.offered_consume (s := .sell) (p := q) p askHead' askWithin
    rw [if_neg (by simp), Nat.add_zero] at first
    rw [after, ← first, ← second]
    simp [Side.Reaches, bidFilled]
  constructor
  case demand =>
      intro q left
      have sum := bids q
      rw [if_pos] at sum
      · exact sum
      · rcases left with some | below
        · exact bestBid.reaches_of_offered valid fun none => some (by omega)
        · exact Int.le_trans below bidReaches
  case supply =>
      intro q left
      have sum := asks q
      rw [if_pos] at sum
      · exact sum
      · rcases left with some | above
        · exact bestAsk.reaches_of_offered valid fun none => some (by omega)
        · exact Int.le_trans askReaches above

theorem Auctions.step (auctions : Auctions m p state seen) (step : Step state events next) :
    Auctions m p next (seen ++ events) := by
  rcases auctions with ⟨valid, halted, going, shrinks, executes, trades⟩
  have valid' : next.1.Valid := by
    have validState : ValidState state := by
      refine ⟨valid, ?_⟩
      rcases going with same | ⟨same, -⟩ <;> rw [same] <;> trivial
    exact (step.valid validState).1
  cases step with
  | @cross m₀ clearing bpx apx b a bids asks f bestBid bestAsk bidHead askHead low high amount =>
      have same : clearing = p := by
        rcases going with same | ⟨same, -⟩ <;> cases same
        rfl
      subst same
      rcases le_total_of_min amount with ⟨bidWithin, askWithin⟩
      have bidMember : b ∈ m₀.levels .buy bpx := by simp [bidHead]
      have askMember : a ∈ m₀.levels .sell apx := by simp [askHead]
      have askHead' : (m₀.setLevel .buy bpx (consume clearing f (b :: bids)).1).levels
          .sell apx = a :: asks := by
        rw [Market.setLevel_levels_side _ _ _ _ _ _ (by decide), askHead]
      have bidShrinks := Market.shrinks_consume clearing f bidHead
      have limits {side : Side} {px : Price} {o : RO} (member : o ∈ m₀.levels side px)
          (reaches : side.Reaches px clearing) : m.Limits side o.id clearing := by
        rcases shrinks side px o member with ⟨before, old, continues⟩
        exact ⟨px, reaches, before, old, continues.id.symm⟩
      constructor
      case valid => exact valid'
      case halted => exact halted
      case going => exact .inl rfl
      case shrinks =>
          exact shrinks.trans (bidShrinks.trans (Market.shrinks_consume clearing f askHead'))
      case executes =>
          let m₁ : Market := { (m₀.setLevel .buy bpx (consume clearing f (b :: bids)).1).setLevel
            .sell apx (consume clearing f (a :: asks)).1 with last := some clearing }
          have pair : Executes (m₀.offered .buy) (m₀.offered .sell) (m₁.offered .buy)
              (m₁.offered .sell) clearing f.toNat :=
            valid.executes_cross bestBid bestAsk bidHead askHead low high bidWithin askWithin rfl
          have both := executes.trans pair
          rw [Market.printed, Market.tally_append, Market.tally_trade, Market.tally_append,
            Market.tally_consume, Market.tally_consume]
          exact both
      case trades =>
          intro trade member
          rcases List.mem_append.mp member with old | new
          · exact trades trade old
          · rcases List.mem_cons.mp new with same | clip
            · cases same
              exact ⟨rfl, limits bidMember low, limits askMember high⟩
            · rcases List.mem_append.mp clip with bidClip | askClip
              · rcases mem_consume_events bidClip with ⟨o, -, same, -⟩
                cases same
              · rcases mem_consume_events askClip with ⟨o, -, same, -⟩
                cases same
  | @crossed m₀ clearing apart =>
      have same : clearing = p := by
        rcases going with same | ⟨same, -⟩ <;> cases same
        rfl
      subst same
      rw [List.append_nil]
      refine ⟨valid', halted, .inr ⟨rfl, ?_⟩, shrinks, executes, trades⟩
      by_contra both
      rw [not_or] at both
      rcases valid.offered_ne_zero.mp both.1 with ⟨bid, hasBid, -⟩
      rcases valid.offered_ne_zero.mp both.2 with ⟨ask, hasAsk, -⟩
      rcases valid.exists_best hasBid with ⟨bpx, bestBid⟩
      rcases valid.exists_best hasAsk with ⟨apx, bestAsk⟩
      exact apart bpx apx bestBid bestAsk ⟨bestBid.reaches_of_offered valid both.1,
        bestAsk.reaches_of_offered valid both.2⟩
  | fire next =>
      have running := next.running
      rw [show _ = true from halted] at running
      contradiction
  | _ => rcases going with same | ⟨same, -⟩ <;> cases same

theorem Run.auctions {m' : Market} (valid : m.Valid) (halted : m.halted = true)
    (run : Run Step (m, .crossing p) events (m', .idle)) : Auctions m p (m', .idle) events :=
  run.recorded (fun _ _ _ _ auctions step => auctions.step step)
    ⟨valid, halted, .inl rfl, .of_eq rfl, .refl p, fun _ member => absurd member List.not_mem_nil⟩

theorem Auctions.used {m' : Market} (auctions : Auctions m p (m', .idle) seen) :
    m'.offered .buy p = 0 ∨ m'.offered .sell p = 0 := by
  rcases auctions.going with same | ⟨-, used⟩
  · cases same
  · exact used

end Matchbook
