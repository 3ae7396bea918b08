import Matchbook.Market.OpenQuantity

namespace Matchbook

open Transitions

/-! # Caps on single orders, and on their number

What a cap admits at a limit price it admits in smaller quantities. Then it is
enough to look at the operations that bring an order in. -/

structure Cap where
  Admits : Option Price → Qty → Prop
  mono : ∀ {limit : Option Price} {less more : Qty}, less ≤ more → Admits limit more →
    Admits limit less

def Op.Admitted (cap : Cap) : Op → Prop
  | .submitLimit _ price qty _ _ _ => cap.Admits (some price) qty
  | .submitMarket _ qty _ _ => cap.Admits none qty
  | .submitIceberg _ price totalQty _ _ _ _ => cap.Admits (some price) totalQty
  | .submitStop _ _ qty _ _ => cap.Admits none qty
  | .submitStopLimit _ _ limitPrice qty _ _ => cap.Admits (some limitPrice) qty
  | .modify _ newPrice newQty => newQty ≠ 0 → cap.Admits (some newPrice) newQty
  | _ => True

structure Market.Capped (m : Market) (cap : Cap) : Prop where
  resting : ∀ side px, ∀ o ∈ m.levels side px, cap.Admits (some px) o.total
  parked : ∀ o ∈ m.stops, cap.Admits o.fired.limit o.qty

def Phase.Capped (cap : Cap) : Phase → Prop
  | .taking t => cap.Admits t.limit t.qty
  | _ => True

section orders

variable {cap : Cap} {m : Market} {side : Side} {px : Price}

theorem RO.total_consumed_le {o : RO} {f : Qty} (within : f ≤ o.total) :
    (o.consumed f).total ≤ o.total := by
  rw [o.total_consumed]
  exact RO.sub_le_of_le within

theorem total_of_mem_consume {announced : Price} {f : Qty} {o o' : RO} {rest : List RO}
    (within : f ≤ o.total) (member : o' ∈ (consume announced f (o :: rest)).1) :
    ∃ before ∈ o :: rest, o'.total ≤ before.total := by
  have smaller := RO.total_consumed_le within
  rcases consume_cases announced f o rest with ⟨-, equal⟩ | ⟨-, -, equal⟩ | ⟨out, -, equal⟩ <;>
    rw [equal] at member
  · rcases List.mem_cons.mp member with rfl | behind
    · exact ⟨o, List.mem_cons_self, smaller⟩
    · exact ⟨o', List.mem_cons_of_mem o behind, UInt64.le_refl _⟩
  · exact ⟨o', List.mem_cons_of_mem o member, UInt64.le_refl _⟩
  · rcases List.mem_append.mp member with behind | clip
    · exact ⟨o', List.mem_cons_of_mem o behind, UInt64.le_refl _⟩
    · rw [List.mem_singleton.mp clip, RO.total_replenished out]
      exact ⟨o, List.mem_cons_self, smaller⟩

namespace Market

theorem Capped.setLevel (capped : m.Capped cap) {level : List RO}
    (admits : ∀ o ∈ level, cap.Admits (some px) o.total) :
    (m.setLevel side px level).Capped cap := by
  refine ⟨?_, capped.parked⟩
  intro s p o member
  rw [setLevel_levels] at member
  split at member
  · rename_i same
    rw [same.2]
    exact admits o member
  · exact capped.resting s p o member

theorem Capped.sublist (capped : m.Capped cap) {level : List RO}
    (sub : level.Sublist (m.levels side px)) : (m.setLevel side px level).Capped cap :=
  capped.setLevel fun o member => capped.resting side px o (sub.subset member)

theorem Capped.fillHead (capped : m.Capped cap) (announced : Price) {f : Qty} {o : RO}
    {rest : List RO} (head : m.levels side px = o :: rest) (within : f ≤ o.total) :
    (m.setLevel side px (consume announced f (o :: rest)).1).Capped cap := by
  apply capped.setLevel
  intro o' member
  rcases total_of_mem_consume within member with ⟨before, present, less⟩
  exact cap.mono less (capped.resting side px before (head ▸ present))

end Market

end orders

/-! ## Steps -/

section steps

variable {cap : Cap} {state next : Market × Phase} {events : List Event}

theorem Step.capped (step : Step state events next) (valid : ValidState state)
    (market : state.1.Capped cap) (phase : state.2.Capped cap) :
    next.1.Capped cap ∧ next.2.Capped cap := by
  cases step with
  | @fill m t px o rest fill meets other amount =>
      have atHead : o ∈ m.levels t.maker px := by simp [meets.head]
      have shown := (valid.1.shape _ _ o atHead).qty_le_total
      have within : fill ≤ o.total := by grind
      have most : fill ≤ t.qty := by grind
      have filled := market.fillHead px meets.head within
      exact ⟨⟨filled.resting, filled.parked⟩, cap.mono (RO.sub_le_of_le most) phase⟩
  | @cancelMaker m t px o rest meets own policy =>
      exact ⟨market.sublist (meets.head ▸ List.sublist_cons_self o rest), phase⟩
  | cancelTaker meets own policy => exact ⟨market, trivial⟩
  | @cancelBoth m t px o rest meets own policy =>
      exact ⟨market.sublist (meets.head ▸ List.sublist_cons_self o rest), trivial⟩
  | killed announced => exact ⟨market, trivial⟩
  | stoppedMarket silent => exact ⟨market, trivial⟩
  | filled done => exact ⟨market, trivial⟩
  | @rest m t price peak left blocked rests =>
      refine ⟨market.setLevel ?_, trivial⟩
      intro o member
      rcases List.mem_append.mp member with before | new
      · exact market.resting _ _ o before
      · have phase : cap.Admits t.limit t.qty := phase
        rw [List.mem_singleton.mp new, Taker.total_resting, ← (valid.2.rests price peak rests).2]
        exact phase
  | cancelRemainder left blocked cancels => exact ⟨market, trivial⟩
  | discard left blocked discards => exact ⟨market, trivial⟩
  | @fire m front o back next =>
      have admits := market.parked o (by simp [next.parked])
      refine ⟨⟨market.resting, fun other member => market.parked other ?_⟩, ?_⟩
      · rw [next.parked]
        simp only [List.mem_append, List.mem_cons] at member ⊢
        tauto
      · simp only [Phase.Capped, RO.fired_qty]
        exact admits
  | @cross m clearing bpx apx b a bids asks f bestBid bestAsk bidHead askHead low high amount =>
      rcases le_total_of_min amount with ⟨bidWithin, askWithin⟩
      have askHead' : (m.setLevel .buy bpx (consume clearing f (b :: bids)).1).levels
          .sell apx = a :: asks := by
        rw [Market.setLevel_levels_side _ _ _ _ _ _ (by decide), askHead]
      have filled :=
        (market.fillHead clearing bidHead bidWithin).fillHead clearing askHead' askWithin
      exact ⟨⟨filled.resting, filled.parked⟩, trivial⟩
  | crossed apart => exact ⟨market, trivial⟩

theorem Step.run_capped (run : Run Step state events next) (valid : ValidState state)
    (market : state.1.Capped cap) (phase : state.2.Capped cap) :
    next.1.Capped cap ∧ next.2.Capped cap := by
  induction run with
  | refl => exact ⟨market, phase⟩
  | snoc run last induction => exact last.capped (Run.valid run valid) induction.1 induction.2

end steps

/-! ## Operations -/

section operations

variable {cap : Cap} {m m' : Market} {op : Op} {events : List Event} {next : Market × Phase}
  {ret : Ret}

theorem Op.Limit.admitted {side : Side} {price : Price} {qty : Qty} {tif : TimeInForce}
    {owner : OwnerId} {stp : StpPolicy} {peak : Qty}
    (entry : op.Limit side price qty tif owner stp peak) (admitted : op.Admitted cap) :
    cap.Admits (some price) qty := by
  cases entry <;> exact admitted

theorem Op.Stop.admitted {id : OrderId} {o : RO} (entry : op.Stop id o)
    (admitted : op.Admitted cap) : cap.Admits o.fired.limit o.qty := by
  cases entry <;> exact admitted

theorem Market.Begin.capped (start : m.Begin op events next ret) (capped : m.Capped cap)
    (admitted : op.Admitted cap) : next.1.Capped cap ∧ next.2.Capped cap := by
  have kept {m₁ : Market} (levels : m₁.levels = m.levels) (stops : m₁.stops = m.stops) :
      m₁.Capped cap := ⟨levels ▸ capped.resting, stops ▸ capped.parked⟩
  cases start with
  | reject => exact ⟨capped, trivial⟩
  | refuse => exact ⟨kept rfl rfl, trivial⟩
  | enter entry => exact ⟨kept rfl rfl, entry.admitted admitted⟩
  | market => exact ⟨kept rfl rfl, admitted⟩
  | @trigger op o entry =>
      refine ⟨kept rfl rfl, ?_⟩
      simp only [Phase.Capped, RO.fired_qty]
      exact entry.admitted admitted
  | @park op o entry =>
      refine ⟨⟨capped.resting, ?_⟩, trivial⟩
      intro other member
      rcases List.mem_append.mp member with before | new
      · exact capped.parked other before
      · rw [List.mem_singleton.mp new]
        exact entry.admitted admitted
  | decline => exact ⟨capped, trivial⟩
  | @cancel op side px front o back cancels place =>
      exact ⟨capped.sublist (place ▸ (List.sublist_cons_self o back).append_left front), trivial⟩
  | @cancelStop op front o back cancels place =>
      refine ⟨⟨capped.resting, fun other member => capped.parked other ?_⟩, trivial⟩
      rw [place]
      exact ((List.sublist_cons_self o back).append_left front).subset member
  | @erase op side px front o back delta reduces place =>
      exact ⟨capped.sublist (place ▸ (List.sublist_cons_self o back).append_left front), trivial⟩
  | @reduce op side px front o back delta reduces place some =>
      refine ⟨capped.setLevel ?_, trivial⟩
      have before (other : RO) (member : other ∈ front ++ o :: back) :
          cap.Admits (Option.some px) other.total := capped.resting side px other (place ▸ member)
      intro other member
      rcases List.mem_append.mp member with inFront | rest
      · exact before other (by simp [inFront])
      rcases List.mem_cons.mp rest with rfl | inBack
      · refine cap.mono ?_ (before o (by simp))
        rw [RO.total_reduced]
        exact RO.sub_le_of_le (UInt64.le_of_lt some)
      · exact before other (by simp [inBack])
  | @replace side px front o back newPrice newQty place nonzero =>
      exact ⟨capped.sublist (place ▸ (List.sublist_cons_self o back).append_left front),
        admitted nonzero⟩
  | halt => exact ⟨kept rfl rfl, trivial⟩
  | resume => exact ⟨kept rfl rfl, trivial⟩
  | flat => exact ⟨capped, trivial⟩
  | uncross => exact ⟨capped, trivial⟩

theorem Market.Performs.capped (performs : m.Performs op events m' ret) (valid : m.Valid)
    (capped : m.Capped cap) (admitted : op.Admitted cap) : m'.Capped cap := by
  cases performs with
  | intro start steps settled answers =>
      rcases start.capped capped admitted with ⟨market, phase⟩
      exact (Step.run_capped steps (start.valid valid) market phase).1

end operations

/-! ## The number of orders -/

section number

variable {m m' : Market} {op : Op} {events : List Event} {state next : Market × Phase} {ret : Ret}
  {id : OrderId}

def Alive (state : Market × Phase) (id : OrderId) : Prop :=
  state.1.IsOpen id ∨ ∃ t, state.2 = .taking t ∧ t.id = id

theorem Step.alive_origin (step : Step state events next) (alive : Alive next id) :
    Alive state id := by
  rcases alive with (⟨side, px, o, member, rfl⟩ | ⟨o, parked, rfl⟩) | ⟨t, taking, rfl⟩
  · rcases step.resting_origin member with ⟨before, present, continues⟩ |
      ⟨t, price, peak, taking, -, rfl, -⟩
    · rw [continues.id]
      exact .inl (Market.isOpen_of_mem present)
    · exact .inr ⟨t, taking, (Taker.resting_id price peak).symm⟩
  · exact .inl (Market.isOpen_of_stop (step.stops_origin.subset parked))
  · rcases step.taker_origin (.inl taking) with ⟨before, was, same⟩ | ⟨-, o, parked, rfl⟩
    · rw [same]
      exact .inr ⟨before, was, rfl⟩
    · rw [RO.fired_id]
      exact .inl (Market.isOpen_of_stop parked)

theorem Step.run_alive_origin (run : Run Step state events next) (alive : Alive next id) :
    Alive state id := by
  induction run with
  | refl => exact alive
  | snoc run last induction => exact induction (last.alive_origin alive)

theorem Op.Limit.isSubmit {side : Side} {price : Price} {qty : Qty} {tif : TimeInForce}
    {owner : OwnerId} {stp : StpPolicy} {peak : Qty}
    (entry : op.Limit side price qty tif owner stp peak) : op.IsSubmit := by
  cases entry <;> trivial

theorem Op.Stop.isSubmit {o : RO} (entry : op.Stop id o) : op.IsSubmit := by
  cases entry <;> trivial

theorem Market.Begin.alive_origin (start : m.Begin op events next ret) (alive : Alive next id) :
    m.IsOpen id ∨ (op.IsSubmit ∧ id = m.nextId) := by
  rcases alive with (⟨side, px, o, member, rfl⟩ | ⟨o, parked, rfl⟩) | ⟨t, taking, rfl⟩
  · rcases start.shrinks side px o member with ⟨before, present, continues⟩
    rw [continues.id]
    exact .inl (Market.isOpen_of_mem present)
  · rcases start.stops_origin parked with before | ⟨entry, -⟩
    · exact .inl (Market.isOpen_of_stop before)
    · exact .inr ⟨entry.isSubmit, entry.id_eq⟩
  · cases start with
    | enter entry =>
        cases taking
        exact .inr ⟨entry.isSubmit, rfl⟩
    | market =>
        cases taking
        exact .inr ⟨trivial, rfl⟩
    | @trigger op o entry =>
        cases taking
        rw [RO.fired_id]
        exact .inr ⟨entry.isSubmit, entry.id_eq⟩
    | @replace side px front o back newPrice newQty place =>
        cases taking
        have atPlace : o ∈ m.levels side px := by simp [place]
        exact .inl (Market.isOpen_of_mem atPlace)
    | _ => cases taking

theorem Market.Performs.isOpen_origin (performs : m.Performs op events m' ret)
    (isOpen : m'.IsOpen id) : m.IsOpen id ∨ (op.IsSubmit ∧ id = m.nextId) := by
  cases performs with
  | intro start steps settled answers =>
      exact start.alive_origin (Step.run_alive_origin steps (.inl isOpen))

end number

end Matchbook
