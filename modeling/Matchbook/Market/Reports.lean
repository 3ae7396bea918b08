import Matchbook.Market.Ledger

namespace Matchbook

open Transitions

/-! # What a step reports

A trade or a cancel names orders that are open at that point, and takes no more than
is open of them. A step reports one trade or one cancel at most. -/

def Phase.Hungry : Phase → Prop
  | .stopped t => t.qty ≠ 0
  | _ => True

def OnlyRests (events : List Event) : Prop :=
  ∀ event ∈ events, ∃ id side price displayed, event = .rest id side price displayed

theorem onlyRests_nil : OnlyRests [] := fun _ member => absurd member List.not_mem_nil

theorem onlyRests_consume (px : Price) (f : Qty) (level : List RO) :
    OnlyRests (consume px f level).2 := by
  intro event member
  rcases mem_consume_events member with ⟨o, -, same, -⟩
  exact ⟨_, _, _, _, same⟩

def OpenFor (state : Market × Phase) (id : OrderId) (qty : Nat) : Prop :=
  ∃ q discards, Open state id q discards ∧ qty ≤ q

inductive Reports (state : Market × Phase) : List Event → Prop
  | nothing {events} (rests : OnlyRests events) : Reports state events
  | trade {t events} (rests : OnlyRests events) (apart : t.taker ≠ t.maker)
      (some : 0 < t.qty.toNat) (taker : OpenFor state t.taker t.qty.toNat)
      (maker : OpenFor state t.maker t.qty.toNat) : Reports state (.trade t :: events)
  | cancel {id} (isOpen : OpenFor state id 1) : Reports state [.cancel id]

section steps

variable {m : Market} {t : Taker} {phase : Phase} {state next : Market × Phase}
  {events : List Event}

theorem openFor_mem (valid : m.Valid) {side : Side} {px : Price} {o : RO} {qty : Nat}
    (member : o ∈ m.levels side px) (within : qty ≤ o.total.toNat) :
    OpenFor (m, phase) o.id qty :=
  ⟨o.total.toNat, false, .inl ((valid.holds_of_mem member).mpr ⟨rfl, rfl⟩), within⟩

theorem openFor_taker {qty : Nat} (going : phase = .taking t ∨ phase = .stopped t)
    (within : qty ≤ t.qty.toNat) : OpenFor (m, phase) t.id qty :=
  ⟨t.qty.toNat, _, (open_going going).mpr (.inr ⟨rfl, rfl, rfl⟩), within⟩

theorem toNat_pos {qty : Qty} (nonzero : qty ≠ 0) : 0 < qty.toNat := by
  have := mt UInt64.toNat_inj.mp nonzero
  lia

theorem RO.Shape.total_pos {o : RO} (shape : o.Shape) : 0 < o.total.toNat := by
  have pos := UInt64.lt_iff_toNat_lt.mp shape.positive
  have whole := shape.total_toNat
  lia

theorem Step.hungry (step : Step state events next) (before : state.2.Hungry) :
    next.2.Hungry := by
  cases step with
  | cancelTaker meets => exact meets.hungry
  | cancelBoth meets => exact meets.hungry
  | _ => trivial

theorem Step.reports (step : Step state events next) (valid : ValidState state)
    (hungry : state.2.Hungry) : Reports state events := by
  cases step with
  | @fill m t px o rest fill meets other amount =>
      rcases valid with ⟨market, taker⟩
      have member : o ∈ m.levels t.maker px := by simp [meets.head]
      have apart : t.id ≠ o.id := fun same => taker.fresh (same ▸ Market.isOpen_of_mem member)
      have shape := market.shape _ _ o member
      have shown := UInt64.le_iff_toNat_le.mp shape.qty_le_total
      have amount : fill.toNat = min t.qty.toNat o.qty.toNat := by
        rw [amount]
        split <;> rename_i order <;> rw [UInt64.lt_iff_toNat_lt] at order <;> lia
      have hungry := toNat_pos meets.hungry
      have displayed := UInt64.lt_iff_toNat_lt.mp shape.positive
      have zero : (0 : Qty).toNat = 0 := rfl
      exact .trade (onlyRests_consume _ _ _) apart (by show 0 < fill.toNat; lia)
        (openFor_taker (.inl rfl) (by show fill.toNat ≤ _; lia))
        (openFor_mem market member (by show fill.toNat ≤ _; lia))
  | @cancelMaker m t px o rest meets own policy =>
      have member : o ∈ m.levels t.maker px := by simp [meets.head]
      exact .cancel (openFor_mem valid.1 member (valid.1.shape _ _ o member).total_pos)
  | cancelTaker meets own policy => exact .nothing onlyRests_nil
  | @cancelBoth m t px o rest meets own policy =>
      have member : o ∈ m.levels t.maker px := by simp [meets.head]
      exact .cancel (openFor_mem valid.1 member (valid.1.shape _ _ o member).total_pos)
  | @killed m t announced => exact .cancel (openFor_taker (.inr rfl) (toNat_pos hungry))
  | stoppedMarket silent => exact .nothing onlyRests_nil
  | filled done => exact .nothing onlyRests_nil
  | rest left blocked rests =>
      refine .nothing fun event member => ?_
      rw [List.mem_singleton.mp member]
      exact ⟨_, _, _, _, rfl⟩
  | @cancelRemainder m t left blocked cancels =>
      exact .cancel (openFor_taker (.inl rfl) (toNat_pos left))
  | discard left blocked discards => exact .nothing onlyRests_nil
  | fire next => exact .nothing onlyRests_nil
  | @cross m clearing bpx apx b a bids asks f bestBid bestAsk bidHead askHead low high amount =>
      have market := valid.1
      have bid : b ∈ m.levels .buy bpx := by simp [bidHead]
      have ask : a ∈ m.levels .sell apx := by simp [askHead]
      have apart : b.id ≠ a.id := fun same =>
        absurd (market.place _ _ _ _ b bid a ask same).1 (by decide)
      rcases le_total_of_min amount with ⟨bidWithin, askWithin⟩
      have bidPos := (market.shape _ _ b bid).total_pos
      have askPos := (market.shape _ _ a ask).total_pos
      have some : 0 < f.toNat := by
        rw [amount]
        split
        · exact bidPos
        · exact askPos
      have rests : OnlyRests ((consume clearing f (b :: bids)).2 ++
          (consume clearing f (a :: asks)).2) := by
        intro event member
        rcases List.mem_append.mp member with first | second
        · exact onlyRests_consume _ _ _ event first
        · exact onlyRests_consume _ _ _ event second
      exact .trade rests apart some (openFor_mem market bid (UInt64.le_iff_toNat_le.mp bidWithin))
        (openFor_mem market ask (UInt64.le_iff_toNat_le.mp askWithin))
  | crossed apart => exact .nothing onlyRests_nil

end steps

end Matchbook
