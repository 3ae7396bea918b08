import Matchbook.Market.History

namespace Matchbook

open Transitions

/-! # Where orders come from

Whatever rests after a step rested before it, up to its quantities, or is what
the taker leaves. Whatever takes was taking before, or is a stop that fired. -/

structure RO.Continues (o o' : RO) : Prop where
  id : o'.id = o.id
  side : o'.side = o.side
  price : o'.price = o.price
  peak : o'.peak = o.peak
  owner : o'.owner = o.owner
  stp : o'.stp = o.stp
  shown : o'.qty ≤ o.qty ∨ o'.qty ≤ o.peak

namespace RO

variable {o o' o'' : RO} {f : Qty}

theorem Continues.refl (o : RO) : o.Continues o :=
  ⟨rfl, rfl, rfl, rfl, rfl, rfl, .inl (UInt64.le_refl _)⟩

theorem Continues.trans (first : o.Continues o') (second : o'.Continues o'') :
    o.Continues o'' where
  id := second.id.trans first.id
  side := second.side.trans first.side
  price := second.price.trans first.price
  peak := second.peak.trans first.peak
  owner := second.owner.trans first.owner
  stp := second.stp.trans first.stp
  shown := by
    rcases second.shown with less | clip
    · exact first.shown.imp (UInt64.le_trans less) (UInt64.le_trans less)
    · rw [first.peak] at clip
      exact .inr clip

theorem sub_le_of_le {qty amount : Qty} (le : amount ≤ qty) : qty - amount ≤ qty := by
  rw [UInt64.le_iff_toNat_le, UInt64.toNat_sub_of_le _ _ le]
  exact Nat.sub_le _ _

theorem continues_consumed (o : RO) (f : Qty) : o.Continues (o.consumed f) := by
  refine ⟨rfl, rfl, rfl, rfl, rfl, rfl, .inl (sub_le_of_le ?_)⟩
  split
  · rename_i less
    exact UInt64.le_of_lt less
  · exact UInt64.le_refl _

theorem continues_replenished (o : RO) : o.Continues o.replenished :=
  ⟨rfl, rfl, rfl, rfl, rfl, rfl, .inr clip_le_peak⟩

theorem reduced_qty_le {delta : Qty} (less : delta < o.total) : (o.reduced delta).qty ≤ o.qty := by
  refine sub_le_of_le ?_
  rw [total] at less
  split
  · simp
  · rename_i notLess
    have covered := UInt64.not_lt.mp notLess
    rw [UInt64.le_iff_toNat_le] at covered ⊢
    rw [UInt64.lt_iff_toNat_lt, UInt64.toNat_add] at less
    rw [UInt64.toNat_sub_of_le _ _ (UInt64.le_iff_toNat_le.mpr covered)]
    have bound := o.qty.toNat_lt
    omega

theorem continues_reduced {delta : Qty} (less : delta < o.total) :
    o.Continues (o.reduced delta) :=
  ⟨rfl, rfl, rfl, rfl, rfl, rfl, .inl (reduced_qty_le less)⟩

@[simp] theorem fired_id (o : RO) : o.fired.id = o.id := by
  unfold fired
  split <;> rfl

@[simp] theorem fired_side (o : RO) : o.fired.side = o.side := by
  unfold fired
  split <;> rfl

@[simp] theorem fired_owner (o : RO) : o.fired.owner = o.owner := by
  unfold fired
  split <;> rfl

end RO

theorem consume_origin {px : Price} {f : Qty} {level : List RO} {o' : RO}
    (member : o' ∈ (consume px f level).1) : ∃ o ∈ level, o.Continues o' := by
  cases level with
  | nil => exact absurd member List.not_mem_nil
  | cons o rest =>
      rcases mem_consume member with behind | ⟨-, rfl⟩ | ⟨-, rfl⟩
      · exact ⟨o', List.mem_cons_of_mem o behind, .refl o'⟩
      · exact ⟨o, List.mem_cons_self, o.continues_consumed f⟩
      · exact ⟨o, List.mem_cons_self,
          (o.continues_consumed f).trans (o.consumed f).continues_replenished⟩

namespace Market

def Shrinks (m m' : Market) : Prop :=
  ∀ side px, ∀ o' ∈ m'.levels side px, ∃ o ∈ m.levels side px, o.Continues o'

variable {m m' m'' : Market}

theorem Shrinks.of_eq (same : m'.levels = m.levels) : m.Shrinks m' :=
  fun _ _ o' member => ⟨o', same ▸ member, .refl o'⟩

theorem Shrinks.trans (first : m.Shrinks m') (second : m'.Shrinks m'') : m.Shrinks m'' := by
  intro side px o'' member
  rcases second side px o'' member with ⟨o', member', later⟩
  rcases first side px o' member' with ⟨o, member, earlier⟩
  exact ⟨o, member, earlier.trans later⟩

theorem shrinks_setLevel {side : Side} {px : Price} {level : List RO}
    (origin : ∀ o' ∈ level, ∃ o ∈ m.levels side px, o.Continues o') :
    m.Shrinks (m.setLevel side px level) := by
  intro s p o' member
  rw [setLevel_levels] at member
  split at member
  · rename_i same
    rw [same.1, same.2]
    exact origin o' member
  · exact ⟨o', member, .refl o'⟩

theorem shrinks_consume {side : Side} {px : Price} {o : RO} {rest : List RO} (announced : Price)
    (f : Qty) (head : m.levels side px = o :: rest) :
    m.Shrinks (m.setLevel side px (consume announced f (o :: rest)).1) := by
  rw [← head]
  exact shrinks_setLevel fun _ => consume_origin

def Thins (m m' : Market) : Prop :=
  ∀ side px, m'.levels side px ≠ [] → m.levels side px ≠ []

theorem thins_setLevel {side : Side} {px : Price} (level : List RO)
    (occupied : m.levels side px ≠ []) : m.Thins (m.setLevel side px level) := by
  intro s p stays
  rw [setLevel_levels] at stays
  split at stays
  · rename_i same
    rw [same.1, same.2]
    exact occupied
  · exact stays

theorem Thins.trans {m'' : Market} (first : m.Thins m') (second : m'.Thins m'') :
    m.Thins m'' := fun side px stays => first side px (second side px stays)

theorem shrinks_sublist {side : Side} {px : Price} {level : List RO}
    (sub : level.Sublist (m.levels side px)) : m.Shrinks (m.setLevel side px level) :=
  shrinks_setLevel fun o' member => ⟨o', sub.subset member, .refl o'⟩

end Market

/-! ## Steps -/

variable {state next : Market × Phase} {events : List Event}

/-- What rests after a step. -/
theorem Step.resting_origin (step : Step state events next) {side : Side} {px : Price} {o' : RO}
    (member : o' ∈ next.1.levels side px) :
    (∃ o ∈ state.1.levels side px, o.Continues o') ∨
      ∃ t price peak, state.2 = .taking t ∧ t.remainder = .rest price peak ∧
        o' = t.resting price peak ∧ side = t.side ∧ px = price ∧
        events = [.rest t.id t.side price o'.qty] := by
  have shrunk (shrinks : state.1.Shrinks next.1) := shrinks side px o' member
  cases step with
  | @fill m t px' o rest fill meets other amount =>
      exact .inl (shrunk (Market.shrinks_consume px' fill meets.head))
  | @cancelMaker m t px' o rest meets own policy =>
      apply Or.inl
      apply shrunk
      apply Market.shrinks_sublist
      rw [meets.head]
      exact List.sublist_cons_self o rest
  | @cancelBoth m t px' o rest meets own policy =>
      apply Or.inl
      apply shrunk
      apply Market.shrinks_sublist
      rw [meets.head]
      exact List.sublist_cons_self o rest
  | @rest m t price peak left blocked rests =>
      rw [Market.setLevel_levels] at member
      split at member
      · rename_i same
        rcases List.mem_append.mp member with old | new
        · rw [same.1, same.2]
          exact .inl ⟨o', old, .refl o'⟩
        · have isNew := List.mem_singleton.mp new
          exact .inr ⟨t, price, peak, rfl, rests, isNew, same.1, same.2, by rw [isNew]⟩
      · exact .inl ⟨o', member, .refl o'⟩
  | @cross m clearing bpx apx b a bids asks f bestBid bestAsk bidHead askHead low high amount =>
      have askHead' : (m.setLevel .buy bpx (consume clearing f (b :: bids)).1).levels
          .sell apx = a :: asks := by
        rw [Market.setLevel_levels_side _ _ _ _ _ _ (by decide), askHead]
      have bid := Market.shrinks_consume clearing f bidHead
      exact .inl (shrunk (bid.trans (Market.shrinks_consume clearing f askHead')))
  | cancelTaker meets own policy => exact .inl (shrunk (.of_eq rfl))
  | killed announced => exact .inl (shrunk (.of_eq rfl))
  | stoppedMarket silent => exact .inl (shrunk (.of_eq rfl))
  | filled done => exact .inl (shrunk (.of_eq rfl))
  | cancelRemainder left blocked cancels => exact .inl (shrunk (.of_eq rfl))
  | discard left blocked discards => exact .inl (shrunk (.of_eq rfl))
  | fire next => exact .inl (shrunk (.of_eq rfl))
  | crossed apart => exact .inl (shrunk (.of_eq rfl))

theorem mem_consume_events {px : Price} {f : Qty} {level : List RO} {event : Event}
    (member : event ∈ (consume px f level).2) :
    ∃ o ∈ level, event = .rest o.id o.side px (o.consumed f).clip ∧
      0 < (o.consumed f).reserve := by
  cases level with
  | nil => exact absurd member List.not_mem_nil
  | cons o rest =>
      rcases consume_cases px f o rest with ⟨-, equal⟩ | ⟨-, -, equal⟩ | ⟨-, hidden, equal⟩ <;>
        rw [equal] at member
      · exact absurd member List.not_mem_nil
      · exact absurd member List.not_mem_nil
      · exact ⟨o, List.mem_cons_self, List.mem_singleton.mp member, hidden⟩

theorem Step.not_accept (step : Step state events next) {id : OrderId} {side : Side}
    {price : Price} {qty : Qty} : .accept id side price qty ∉ events := by
  intro member
  cases step with
  | fill meets other amount =>
      rcases List.mem_cons.mp member with same | clip
      · cases same
      · rcases mem_consume_events clip with ⟨o, -, same, -⟩
        cases same
  | cross bestBid bestAsk bidHead askHead low high amount =>
      rcases List.mem_cons.mp member with same | clips
      · cases same
      rcases List.mem_append.mp clips with clip | clip <;>
        rcases mem_consume_events clip with ⟨o, -, same, -⟩ <;>
        cases same
  | _ => simp at member

theorem Step.run_not_accept (run : Run Step state events next) {id : OrderId} {side : Side}
    {price : Price} {qty : Qty} : .accept id side price qty ∉ events := by
  induction run with
  | refl => exact List.not_mem_nil
  | snoc run last induction =>
      intro member
      rcases List.mem_append.mp member with before | now
      · exact induction before
      · exact last.not_accept now

theorem Step.stops_origin (step : Step state events next) :
    next.1.stops.Sublist state.1.stops := by
  cases step with
  | fire next =>
      rw [next.parked]
      exact (List.sublist_cons_self _ _).append_left _
  | _ => exact List.Sublist.refl _

theorem Step.taker_origin (step : Step state events next) {t' : Taker}
    (taking : next.2 = .taking t' ∨ next.2 = .stopped t') :
    (∃ t, state.2 = .taking t ∧ t' = t.withQty t'.qty) ∨
      (state.2 = .idle ∧ ∃ o ∈ state.1.stops, t' = o.fired) := by
  have kept {t : Taker} {qty : Qty} (same : t' = t.withQty qty) :
      t' = t.withQty t'.qty := by rw [same]; rfl
  cases step with
  | fill meets other amount =>
      rcases taking with same | same <;> cases same
      exact .inl ⟨_, rfl, rfl⟩
  | cancelMaker meets own policy =>
      rcases taking with same | same <;> cases same
      exact .inl ⟨_, rfl, rfl⟩
  | cancelTaker meets own policy =>
      rcases taking with same | same <;> cases same
      exact .inl ⟨_, rfl, rfl⟩
  | cancelBoth meets own policy =>
      rcases taking with same | same <;> cases same
      exact .inl ⟨_, rfl, rfl⟩
  | fire next =>
      rcases taking with same | same <;> cases same
      exact .inr ⟨rfl, _, by simp [next.parked], rfl⟩
  | killed announced => rcases taking with same | same <;> cases same
  | stoppedMarket silent => rcases taking with same | same <;> cases same
  | filled done => rcases taking with same | same <;> cases same
  | rest left blocked rests => rcases taking with same | same <;> cases same
  | cancelRemainder left blocked cancels => rcases taking with same | same <;> cases same
  | discard left blocked discards => rcases taking with same | same <;> cases same
  | cross bestBid bestAsk bidHead askHead low high amount =>
      rcases taking with same | same <;> cases same
  | crossed apart => rcases taking with same | same <;> cases same

namespace Market

variable {m : Market} {op : Op} {ret : Ret}

theorem Begin.shrinks (start : m.Begin op events next ret) : m.Shrinks next.1 := by
  cases start with
  | @cancel op side px front o back cancels place =>
      apply shrinks_sublist
      rw [place]
      exact (List.sublist_cons_self o back).append_left front
  | @erase op side px front o back delta reduces place all =>
      apply shrinks_sublist
      rw [place]
      exact (List.sublist_cons_self o back).append_left front
  | @replace side px front o back newPrice newQty place nonzero inside moved =>
      apply shrinks_sublist
      rw [place]
      exact (List.sublist_cons_self o back).append_left front
  | @reduce op side px front o back delta reduces place some =>
      apply shrinks_setLevel
      intro o' member
      rw [place]
      rcases List.mem_append.mp member with before | after
      · exact ⟨o', by simp [before], .refl o'⟩
      rcases List.mem_cons.mp after with same | behind
      · exact ⟨o, by simp, same ▸ RO.continues_reduced some⟩
      · exact ⟨o', by simp [behind], .refl o'⟩
  | reject submit answer => exact .of_eq rfl
  | refuse entry temporary => exact .of_eq rfl
  | enter entry nonzero inside resting => exact .of_eq rfl
  | market running => exact .of_eq rfl
  | trigger entry nonzero inside limit running armed => exact .of_eq rfl
  | park entry nonzero inside limit waits => exact .of_eq rfl
  | decline target cancel => exact .of_eq rfl
  | cancelStop cancels place => exact .of_eq rfl
  | halt => exact .of_eq rfl
  | resume => exact .of_eq rfl
  | flat => exact .of_eq rfl
  | uncross bestBid bestAsk low high => exact .of_eq rfl

theorem Begin.not_trade (start : m.Begin op events next ret) {trade : Trade} :
    .trade trade ∉ events := by
  cases start <;> simp

theorem Begin.not_rest (start : m.Begin op events next ret) {id : OrderId} {side : Side}
    {price : Price} {displayed : Qty} : .rest id side price displayed ∉ events := by
  cases start <;> simp

theorem Begin.stops_origin (start : m.Begin op events next ret) {o : RO}
    (parked : o ∈ next.1.stops) : o ∈ m.stops ∨
      (op.Stop m.nextId o ∧ events = [.accept m.nextId o.side o.price o.qty]) := by
  cases start with
  | park entry nonzero inside limit waits =>
      rcases List.mem_append.mp parked with old | new
      · exact .inl old
      · have same := List.mem_singleton.mp new
        exact .inr ⟨same ▸ entry, by rw [same]⟩
  | cancelStop cancels place =>
      left
      rw [place]
      exact ((List.sublist_cons_self _ _).append_left _).subset parked
  | _ => exact .inl parked

end Market

/-! ## Meeting an order -/

theorem Market.Best.unique {m : Market} {side : Side} {px px' : Price} (best : m.Best side px)
    (best' : m.Best side px') : px = px' :=
  side.reaches_antisymm (best.least px' best'.occupied) (best'.least px best.occupied)

theorem Taker.Meets.unique {t : Taker} {m : Market} {px px' : Price} {o o' : RO}
    {rest rest' : List RO} (meets : t.Meets m px o rest) (meets' : t.Meets m px' o' rest') :
    px = px' ∧ o = o' ∧ rest = rest' := by
  have price := meets.best.unique meets'.best
  have head := meets.head.symm.trans (price ▸ meets'.head)
  exact ⟨price, List.cons.inj head⟩

theorem Taker.Meets.not_blocked {t : Taker} {m : Market} {px : Price} {o : RO} {rest : List RO}
    (meets : t.Meets m px o rest) : ¬ t.Blocked m := by
  rintro (halted | clear)
  · rw [meets.running] at halted
    contradiction
  · exact clear px meets.best.occupied meets.within

end Matchbook
