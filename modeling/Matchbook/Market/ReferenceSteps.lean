import Mathlib.Data.List.Nodup
import Matchbook.Market.Reference

namespace Matchbook

open BoundedLoop Transitions

namespace ReferenceEngine

variable {H : Type} [Handler H]

/-! # Loops of the reference engine as runs of the market -/

def Took (r : ReferenceEngine H) (phase : Phase) (r' : ReferenceEngine H) (phase' : Phase) :
    Prop :=
  ∃ events, Run Step (r.market, phase) events (r'.market, phase') ∧
    r'.h = Handler.onAll r.h events

structure Frame (r r' : ReferenceEngine H) : Prop where
  min : r'.min = r.min
  max : r'.max = r.max
  stops : r'.stops = r.stops
  nextId : r'.nextId = r.nextId
  halted : r'.halted = r.halted

namespace Took

variable {r r₁ r₂ : ReferenceEngine H} {phase phase₁ phase₂ : Phase}

theorem refl (r : ReferenceEngine H) (phase : Phase) : r.Took phase r phase :=
  ⟨[], .refl, rfl⟩

theorem trans (first : r.Took phase r₁ phase₁) (second : r₁.Took phase₁ r₂ phase₂) :
    r.Took phase r₂ phase₂ := by
  rcases first with ⟨events, run, handled⟩
  rcases second with ⟨events', run', handled'⟩
  exact ⟨events ++ events', run.trans run', by rw [handled', handled, Handler.onAll_append]⟩

theorem step (events : List Event)
    (taken : Step (r.market, phase) events (r₁.market, phase₁))
    (handled : r₁.h = Handler.onAll r.h events) : r.Took phase r₁ phase₁ :=
  ⟨events, .single taken, handled⟩

theorem valid (took : r.Took phase r₁ phase₁) (valid : ValidState (r.market, phase)) :
    ValidState (r₁.market, phase₁) := by
  rcases took with ⟨events, run, -⟩
  exact Run.valid run valid

theorem hasLast (took : r.Took phase r₁ phase₁) (printed : r.hasLast = true) :
    r₁.hasLast = true := by
  rcases took with ⟨events, run, -⟩
  have kept := Run.last_isSome run (by simp [market, printed])
  simp only [market] at kept
  split at kept <;> simp_all

theorem congr {r₂ : ReferenceEngine H} (took : r.Took phase r₁ phase₁)
    (market : r₂.market = r₁.market) (handled : r₂.h = r₁.h) : r.Took phase r₂ phase₁ := by
  rcases took with ⟨events, run, handled'⟩
  exact ⟨events, market ▸ run, handled.trans handled'⟩

end Took

namespace Frame

variable {r r₁ r₂ : ReferenceEngine H}

omit [Handler H]

theorem refl (r : ReferenceEngine H) : r.Frame r := ⟨rfl, rfl, rfl, rfl, rfl⟩

theorem trans (first : r.Frame r₁) (second : r₁.Frame r₂) : r.Frame r₂ :=
  ⟨second.min.trans first.min, second.max.trans first.max, second.stops.trans first.stops,
    second.nextId.trans first.nextId, second.halted.trans first.halted⟩

theorem setLevel (r : ReferenceEngine H) (side : Side) (px : Price) (level : List RO) :
    r.Frame (r.setLevel side px level) := ⟨rfl, rfl, rfl, rfl, rfl⟩

theorem eraseIfEmpty (r : ReferenceEngine H) (side : Side) (px : Price) :
    r.Frame (r.eraseIfEmpty side px) := by
  unfold ReferenceEngine.eraseIfEmpty
  split <;> exact ⟨rfl, rfl, rfl, rfl, rfl⟩

end Frame

/-! ## Counting -/

omit [Handler H] in
theorem length_le_nextId {m : Market} (valid : m.Valid) {orders : List RO}
    (distinct : (orders.map RO.id).Nodup) (isOpen : ∀ o ∈ orders, m.IsOpen o.id) :
    orders.length ≤ m.nextId := by
  have sub : (orders.map RO.id).Subperm (List.range m.nextId) :=
    List.subperm_of_subset distinct fun id member => by
      rcases List.mem_map.mp member with ⟨o, inOrders, rfl⟩
      exact List.mem_range.mpr (valid.issued _ (isOpen o inOrders)).2
  simpa using sub.length_le

omit [Handler H] in
theorem level_length_le {r : ReferenceEngine H} (valid : r.market.Valid) (side : Side)
    (px : Price) : (r.level side px).length ≤ r.nextId :=
  length_le_nextId valid (valid.distinct side px) fun _ member =>
    Market.isOpen_of_mem (m := r.market) member

omit [Handler H] in
theorem size_le_nextId {r : ReferenceEngine H} (valid : r.market.Valid) (keyed : r.Keyed)
    (side : Side) : (r.book side).size ≤ r.nextId := by
  let headId px := ((r.level side px).map RO.id).headD 0
  have heads : ∀ px ∈ (r.book side).keys, ∃ o ∈ r.level side px, o.id = headId px := by
    intro px member
    rw [Std.ExtTreeMap.mem_keys, keyed] at member
    rcases List.exists_cons_of_ne_nil member with ⟨o, rest, head⟩
    exact ⟨o, by simp [head], by simp [headId, head]⟩
  have nodup : ((r.book side).keys.map headId).Nodup := by
    apply List.Nodup.map_on _ Std.ExtTreeMap.nodup_keys
    intro px member px' member' same
    rcases heads px member with ⟨o, atLevel, isHead⟩
    rcases heads px' member' with ⟨o', atLevel', isHead'⟩
    exact (valid.place _ _ _ _ o atLevel o' atLevel' (by rw [isHead, isHead', same])).2
  have sub : ((r.book side).keys.map headId).Subperm (List.range r.nextId) :=
    List.subperm_of_subset nodup fun id member => by
      rcases List.mem_map.mp member with ⟨px, inKeys, rfl⟩
      rcases heads px inKeys with ⟨o, atLevel, isHead⟩
      have issued := valid.issued _ (Market.isOpen_of_mem (m := r.market) atLevel)
      exact List.mem_range.mpr (isHead ▸ issued.2)
  simpa using sub.length_le

/-! ## Sweeping a level -/

section rounds

variable {r : ReferenceEngine H} {t : Taker} {px : Price} {o : RO} {rest : List RO}

/-- A round of the sweep that fills. -/
theorem sweepRound_fill {fill : Qty} (head : r.level t.maker px = o :: rest)
    (hungry : t.qty ≠ 0) (other : ¬ t.Owns o)
    (amount : fill = if t.qty < o.qty then t.qty else o.qty) :
    ∃ r', sweepRound t.maker px t.id t.side t.owner t.stp (r, t.qty) =
        some (.again (r', t.qty - fill)) ∧
      r'.market = { r.market.setLevel t.maker px (consume px fill (o :: rest)).1 with
        last := some px } ∧
      r'.h = Handler.onAll r.h
        (.trade ⟨t.id, o.id, px, fill, t.side⟩ :: (consume px fill (o :: rest)).2) ∧
      r.Frame r' ∧
      ∀ s p, p ∈ r'.book s ↔ (s = t.maker ∧ p = px) ∨ p ∈ r.book s := by
  have shown : fill ≤ o.qty := by grind
  have left := RO.consumed_of_le shown
  have notOwn : ¬ (t.owner ≠ 0 ∧ o.owner = t.owner) := other
  rcases consume_cases px fill o rest with ⟨out, equal⟩ | ⟨out, hidden, equal⟩ |
    ⟨out, hidden, equal⟩
  · simp only [left] at out equal
    simp only [sweepRound, head, hungry, notOwn, ← amount, out, equal, if_false]
    refine ⟨_, rfl, ?_, ?_, ?_, ?_⟩
    · simp [setLast_market]
    · simp [Handler.onAll]
    · exact ⟨rfl, rfl, rfl, rfl, rfl⟩
    · exact fun s p => mem_setLevel _ _ _ _ _ _
  · simp only [left] at out hidden equal
    simp only [sweepRound, head, hungry, notOwn, ← amount, out, hidden, equal, if_true,
      if_false, UInt64.lt_irrefl]
    refine ⟨_, rfl, ?_, ?_, ?_, ?_⟩
    · simp [setLast_market, Market.setLevel]
    · simp [Handler.onAll]
    · exact ⟨rfl, rfl, rfl, rfl, rfl⟩
    · intro s p
      simp only [mem_setLevel, emit_book, setLast_book]
      grind
  · simp only [left] at out hidden equal
    simp only [sweepRound, head, hungry, notOwn, ← amount, out, hidden, equal, if_true,
      if_false]
    refine ⟨_, rfl, ?_, ?_, ?_, ?_⟩
    · simp [setLast_market, Market.setLevel]
    · simp [Handler.onAll]
    · exact ⟨rfl, rfl, rfl, rfl, rfl⟩
    · intro s p
      simp only [mem_setLevel, emit_book, setLast_book]
      grind

end rounds

def takerPhase (t : Taker) (qty : Qty) (haltFlag : Bool) : Phase :=
  if haltFlag then .stopped (t.withQty qty) else .taking (t.withQty qty)

structure Sweeping (r : ReferenceEngine H) (t : Taker) (px : Price) (haltFlag : Bool)
    (r' : ReferenceEngine H) (qty : Qty) : Prop where
  took : r.Took (.taking t) r' (takerPhase t qty haltFlag)
  frame : r.Frame r'
  keys : ∀ side p, p ∈ r'.book side ↔ p ∈ r.book side
  elsewhere : ∀ side p, ¬ (side = t.maker ∧ p = px) → r'.level side p = r.level side p

omit [Handler H] in
theorem level_of_market {r r' : ReferenceEngine H} {side : Side} {px : Price}
    {level : List RO} {last : Option Price}
    (market : r'.market = { r.market.setLevel side px level with last }) (s : Side) (p : Price) :
    r'.level s p = if s = side ∧ p = px then level else r.level s p :=
  (congrArg (fun m => m.levels s p) market).trans (Market.setLevel_levels _ _ _ _ _ _)

/-- Taking the maker at the head away. -/
theorem Sweeping.remove {r r' : ReferenceEngine H} {t : Taker} {px : Price} {qty : Qty}
    {haltFlag : Bool} {id : OrderId} {rest : List RO} (sweeping : r.Sweeping t px false r' qty)
    (present : px ∈ r.book t.maker)
    (taken : Step (r'.market, .taking (t.withQty qty)) [.cancel id]
      (r'.market.setLevel t.maker px rest, takerPhase t qty haltFlag)) :
    r.Sweeping t px haltFlag ((r'.setLevel t.maker px rest).emit (.cancel id)) qty where
  took := by
    refine sweeping.took.trans (.step [.cancel id] ?_ rfl)
    rw [emit_market, setLevel_market]
    exact taken
  frame := sweeping.frame.trans ⟨rfl, rfl, rfl, rfl, rfl⟩
  keys side p := by
    rw [emit_book, mem_setLevel, sweeping.keys]
    grind
  elsewhere side p other := by
    rw [emit_level, level_setLevel, if_neg other, sweeping.elsewhere side p other]

theorem consume_length_le (px : Price) (f : Qty) (level : List RO) :
    (consume px f level).1.length ≤ level.length := by
  cases level with
  | nil => simp [consume]
  | cons o rest => simpa using (consume_ids px f o rest).length_le

theorem fill_pos {t : Taker} {o : RO} (hungry : t.qty ≠ 0) (positive : 0 < o.qty) :
    (t.qty - if t.qty < o.qty then t.qty else o.qty).toNat < t.qty.toNat := by
  rw [UInt64.lt_iff_toNat_lt] at positive
  split
  · have : t.qty.toNat ≠ 0 := fun zero => hungry (UInt64.toNat_inj.mp zero)
    simp
    omega
  · rename_i notLess
    have le := UInt64.not_lt.mp notLess
    have := UInt64.le_iff_toNat_le.mp le
    rw [UInt64.toNat_sub_of_le _ _ le]
    simp at positive
    omega

def Swept (r : ReferenceEngine H) (t : Taker) (px : Price) :
    ReferenceEngine H × Qty × Bool → Prop
  | (r', qty, haltFlag) =>
      r.Sweeping t px haltFlag r' qty ∧
        if haltFlag then qty ≠ 0 else qty = 0 ∨ r'.level t.maker px = []

theorem sweep_spec {r : ReferenceEngine H} {t : Taker} {px : Price}
    (valid : ValidState (r.market, .taking t)) (present : px ∈ r.book t.maker)
    (running : r.halted = false) (best : r.market.Best t.maker px)
    (within : t.maker.Within px t.limit) :
    ∃ result, loop (sweepRound t.maker px t.id t.side t.owner t.stp)
      (r.sweepBound t.qty) (r, t.qty) = some result ∧ r.Swept t px result := by
  apply loop_total (fun state : ReferenceEngine H × Qty =>
      r.Sweeping t px false state.1 state.2) (r.Swept t px)
    (fun state => state.2.toNat + (state.1.level t.maker px).length)
  · rintro ⟨r', qty⟩ sweeping
    simp only at sweeping
    cases head : r'.level t.maker px with
    | nil =>
        exact .inr ⟨(r', qty, false), by simp [sweepRound, head], sweeping, .inr head⟩
    | cons o rest =>
        by_cases hungry : qty = 0
        · exact .inr ⟨(r', qty, false), by simp [sweepRound, head, hungry],
            hungry ▸ sweeping, .inl hungry⟩
        have meets : Taker.Meets (t.withQty qty) r'.market px o rest := by
          refine ⟨sweeping.frame.halted.trans running, hungry, ⟨?_, ?_⟩, head, within⟩
          · exact fun empty => by simpa [head] using head.symm.trans empty
          · intro p occupied
            by_cases same : p = px
            · subst same
              exact Side.reaches_refl _ _
            · have untouched := sweeping.elsewhere t.maker p fun both => same both.2
              exact best.least p fun empty => occupied (untouched.trans empty)
        have validNow := sweeping.took.valid valid
        have atHead : o ∈ r'.market.levels t.maker px := by
          have : r'.market.levels t.maker px = o :: rest := head
          simp [this]
        by_cases own : Taker.Owns (t.withQty qty) o
        · have sameOwner : t.owner ≠ 0 ∧ o.owner = t.owner := own
          cases policy : t.stp with
          | cancelTaker =>
              refine .inr ⟨(r', qty, true), ?_, ?_, hungry⟩
              · simp [sweepRound, head, hungry, sameOwner]
              · exact { sweeping with
                  took := sweeping.took.trans (.step [] (.cancelTaker meets own policy) rfl) }
          | cancelMaker =>
              refine .inl ⟨((r'.setLevel t.maker px rest).emit (.cancel o.id), qty), ?_, ?_, ?_⟩
              · simp [sweepRound, head, hungry, sameOwner]
              · exact sweeping.remove present (.cancelMaker meets own policy)
              · simp [level_setLevel]
          | cancelBoth =>
              refine .inr ⟨((r'.setLevel t.maker px rest).emit (.cancel o.id), qty, true),
                ?_, ?_, hungry⟩
              · simp [sweepRound, head, hungry, sameOwner]
              · exact sweeping.remove present (.cancelBoth meets own policy)
        · rcases sweepRound_fill (t := (t.withQty qty)) head hungry own rfl with
            ⟨next, round, market, handled, frame, keys⟩
          have levels := level_of_market market
          simp only [Taker.withQty_maker, Taker.withQty_qty] at keys levels
          refine .inl ⟨(next, _), round, ⟨?_, ?_, ?_, ?_⟩, ?_⟩
          · refine sweeping.took.trans (.step _ ?_ handled)
            rw [market]
            exact .fill meets own rfl
          · exact sweeping.frame.trans frame
          · intro s p
            rw [keys, sweeping.keys]
            grind
          · intro s p other
            simp only [levels, other, if_false]
            exact sweeping.elsewhere s p other
          · have less := fill_pos (t := t.withQty qty) hungry
              (validNow.1.shape _ _ o atHead).positive
            have shorter := consume_length_le px
              (if qty < o.qty then qty else o.qty) (o :: rest)
            simp only [levels, and_self, if_true, head]
            exact Nat.add_lt_add_of_lt_of_le less shorter
  · exact ⟨.refl r _, .refl r, fun _ _ => Iff.rfl, fun _ _ _ => rfl⟩
  · have := level_length_le valid.1 t.maker px
    simp only [sweepBound]
    omega

/-! ## Matching level by level -/

structure Matching (r : ReferenceEngine H) (t : Taker) (haltFlag : Bool)
    (r' : ReferenceEngine H) (qty : Qty) : Prop where
  took : r.Took (.taking t) r' (takerPhase t qty haltFlag)
  frame : r.Frame r'
  keyed : r'.Keyed

def Matched (r : ReferenceEngine H) (t : Taker) : ReferenceEngine H × Qty × Bool → Prop
  | (r', qty, haltFlag) =>
      r.Matching t haltFlag r' qty ∧
        if haltFlag then qty ≠ 0 else qty = 0 ∨ t.Blocked r'.market

/-- One level of matching. Going on, the taker is filled or a level is gone. -/
theorem matchRound_spec {r r' : ReferenceEngine H} {t : Taker} {qty : Qty}
    (valid : ValidState (r.market, .taking t)) (running : r.halted = false)
    (matching : r.Matching t false r' qty) :
    (∃ next, matchRound t.id t.side t.limit t.owner t.stp (r', qty) = some (.again next) ∧
      r.Matching t false next.1 next.2 ∧ qty ≠ 0 ∧
      (next.2 = 0 ∨ (next.1.book t.maker).size < (r'.book t.maker).size)) ∨
    (∃ result, matchRound t.id t.side t.limit t.owner t.stp (r', qty) =
      some (.leave result) ∧ r.Matched t result) := by
  cases best : r'.best t.maker with
  | none =>
      refine .inr ⟨(r', qty, false), ?_, matching, .inr (.inr fun px occupied => ?_)⟩
      · simp only [matchRound]
        rw [show r'.best t.side.opposite = none from best]
      · exact absurd ((best_eq_none matching.keyed).mp best px) occupied
  | some px =>
      have isBest := (best_eq_some matching.keyed).mp best
      by_cases stop : qty = 0 ∨ ¬ t.maker.Within px t.limit
      · refine .inr ⟨(r', qty, false), ?_, matching, ?_⟩
        · simp only [matchRound]
          rw [show r'.best t.side.opposite = some px from best]
          exact if_pos stop
        · exact stop.imp id fun outside => .inr fun p occupied within =>
            outside (within.mono (isBest.least p occupied))
      · have hungry : qty ≠ 0 := fun zero => stop (.inl zero)
        have within : t.maker.Within px t.limit := by grind
        have present : px ∈ r'.book t.maker := (matching.keyed _ _).mpr isBest.occupied
        obtain ⟨⟨next, left, haltFlag⟩, run, sweeping, done⟩ :=
          sweep_spec (t := t.withQty qty) (matching.took.valid valid) present
            (matching.frame.halted.trans running) isBest within
        simp only [Taker.withQty_maker, Taker.withQty_id, Taker.withQty_side,
          Taker.withQty_owner, Taker.withQty_stp, Taker.withQty_qty] at run done
        have keyed : (next.eraseIfEmpty t.maker px).Keyed := by
          refine keyed_eraseIfEmpty _ _ _ ((sweeping.keys _ _).mpr present) fun s p other => ?_
          rw [sweeping.keys, sweeping.elsewhere s p other, matching.keyed]
        have matched : r.Matching t haltFlag (next.eraseIfEmpty t.maker px) left := by
          refine ⟨matching.took.trans (.congr sweeping.took ?_ ?_), ?_, keyed⟩
          · exact eraseIfEmpty_market _ _ _
          · exact eraseIfEmpty_h _ _ _
          · exact (matching.frame.trans sweeping.frame).trans (.eraseIfEmpty _ _ _)
        have round : matchRound t.id t.side t.limit t.owner t.stp (r', qty) = some
            (if haltFlag then .leave (next.eraseIfEmpty t.maker px, left, true)
              else .again (next.eraseIfEmpty t.maker px, left)) := by
          simp only [matchRound]
          rw [show r'.best t.side.opposite = some px from best]
          simp only [show t.side.opposite = t.maker from rfl, stop, if_false, run,
            Option.bind_eq_bind, Option.bind_some]
          split <;> rfl
        cases haltFlag with
        | true => exact .inr ⟨_, round, matched, done⟩
        | false =>
            refine .inl ⟨_, round, matched, hungry, done.imp id fun empty => ?_⟩
            have sameSize := OrderedMap.size_congr (sweeping.keys t.maker)
            have here := (sweeping.keys t.maker px).mpr present
            have erased : ((next.eraseIfEmpty t.maker px).book t.maker) =
                (next.book t.maker).erase px := by
              simp [eraseIfEmpty, empty, setBook]
            have gone : ((next.book t.maker).erase px).size = (next.book t.maker).size - 1 := by
              rw [Std.ExtTreeMap.size_erase, if_pos (Std.ExtTreeMap.mem_iff_contains.mp here)]
            have occupied : (next.book t.maker).size ≠ 0 := by
              rw [← Std.ExtTreeMap.length_keys]
              have member := Std.ExtTreeMap.mem_keys.mpr here
              exact Nat.ne_of_gt (List.length_pos_of_mem member)
            rw [erased, gone, ← sameSize]
            exact Nat.pred_lt occupied

theorem match_spec {r : ReferenceEngine H} {t : Taker}
    (valid : ValidState (r.market, .taking t)) (keyed : r.Keyed)
    (running : r.halted = false) :
    ∃ result, r.matchOrder t.id t.side t.qty t.limit t.owner t.stp = some result ∧
      r.Matched t result := by
  apply loop_total (fun state : ReferenceEngine H × Qty => r.Matching t false state.1 state.2)
    (r.Matched t)
    (fun state => if state.2 = 0 then 0 else 1 + (state.1.book t.maker).size)
  · rintro ⟨r', qty⟩ matching
    rcases matchRound_spec valid running matching with
      ⟨next, round, matched, hungry, smaller⟩ | ending
    · refine .inl ⟨next, round, matched, ?_⟩
      simp only [hungry, if_false]
      split <;> grind
    · exact .inr ending
  · exact ⟨.refl r _, .refl r, keyed⟩
  · have bound := size_le_nextId valid.1 keyed t.maker
    simp only [sweepBound]
    split
    · omega
    · rename_i hungry
      have : t.qty.toNat ≠ 0 := fun zero => hungry (UInt64.toNat_inj.mp zero)
      omega

/-! ## What becomes of a taker -/

structure Placed (r : ReferenceEngine H) (t : Taker) (r' : ReferenceEngine H) : Prop where
  took : r.Took (.taking t) r' .idle
  frame : r.Frame r'
  keyed : r'.Keyed

theorem restShaped_placed {r : ReferenceEngine H} {t : Taker} {price : Price} {peak : Qty}
    (keyed : r.Keyed) (left : t.qty ≠ 0) (blocked : t.Blocked r.market)
    (rests : t.remainder = .rest price peak) :
    r.Placed t (r.restShaped t.id t.side price t.qty peak t.owner t.stp) := by
  have shaped : r.restShaped t.id t.side price t.qty peak t.owner t.stp =
      (r.setLevel t.side price (r.level t.side price ++ [t.resting price peak])).emit
        (.rest t.id t.side price (t.resting price peak).qty) := by
    unfold restShaped Taker.resting rest
    split <;> rfl
  rw [shaped]
  refine ⟨.step [_] ?_ rfl, ⟨rfl, rfl, rfl, rfl, rfl⟩, fun s p => ?_⟩
  · rw [emit_market, setLevel_market]
    exact .rest left blocked rests
  · rw [emit_book, emit_level, mem_setLevel, level_setLevel, keyed]
    by_cases same : s = t.side ∧ p = price <;> simp [same]

theorem place_spec {r : ReferenceEngine H} {id : OrderId} {side : Side} {price : Price}
    {qty : Qty} {tif : TimeInForce} {owner : OwnerId} {stp : StpPolicy} {peak : Qty}
    (valid : ValidState
      (r.market, .taking (.ofLimit id side price qty tif owner stp peak)))
    (keyed : r.Keyed) (halted : r.halted = true → qty ≠ 0 ∧ tif = .gtc) :
    ∃ r', r.place id side price qty tif owner stp peak = some r' ∧
      r.Placed (.ofLimit id side price qty tif owner stp peak) r' := by
  generalize taker : Taker.ofLimit id side price qty tif owner stp peak = t at valid ⊢
  have fields : t.id = id ∧ t.side = side ∧ t.qty = qty ∧ t.limit = some price ∧
      t.owner = owner ∧ t.stp = stp ∧
      t.remainder = if tif = .ioc ∨ tif = .fok then .cancel else .rest price peak := by
    subst taker
    exact ⟨rfl, rfl, rfl, rfl, rfl, rfl, rfl⟩
  rcases fields with ⟨rfl, rfl, rfl, limit, rfl, rfl, remainder⟩
  by_cases isHalted : r.halted = true
  · rcases halted isHalted with ⟨left, isGtc⟩
    refine ⟨_, by rw [place, if_pos isHalted], ?_⟩
    exact restShaped_placed keyed left (.inl isHalted) (by simpa [isGtc] using remainder)
  · have running : r.halted = false := by simpa using isHalted
    rcases match_spec valid keyed running with ⟨⟨r', qty, haltFlag⟩, run, matching, done⟩
    rw [limit] at run
    have notDiscard : t.remainder ≠ .discard := by
      rw [remainder]
      split <;> simp
    cases haltFlag with
    | true =>
        have positive : 0 < qty := by grind
        refine ⟨r'.emit (.cancel t.id), ?_, ?_, ?_, matching.keyed⟩
        · simp [place, running, run, positive]
        · exact matching.took.trans (.step [_] (.killed notDiscard) rfl)
        · exact matching.frame.trans ⟨rfl, rfl, rfl, rfl, rfl⟩
    | false =>
        by_cases filled : qty = 0
        · refine ⟨r', ?_, ?_, matching.frame, matching.keyed⟩
          · simp [place, running, run, filled]
          · exact matching.took.trans (.step [] (.filled filled) rfl)
        · have positive : 0 < qty := by grind
          have blocked : (t.withQty qty).Blocked r'.market := done.resolve_left filled
          by_cases temporary : tif = .ioc ∨ tif = .fok
          · refine ⟨r'.emit (.cancel t.id), ?_, ?_, ?_, matching.keyed⟩
            · simp [place, running, run, positive, temporary]
            · refine matching.took.trans (.step [_]
                (.cancelRemainder filled blocked ?_) rfl)
              simpa [temporary] using remainder
            · exact matching.frame.trans ⟨rfl, rfl, rfl, rfl, rfl⟩
          · have placed := restShaped_placed (t := t.withQty qty) matching.keyed filled blocked
              (by simpa [temporary] using remainder)
            refine ⟨_, ?_, matching.took.trans placed.took,
              matching.frame.trans placed.frame, placed.keyed⟩
            simp [place, running, run, positive, temporary]

theorem Matched.discard {r r' : ReferenceEngine H} {t : Taker} {left : Qty} {haltFlag : Bool}
    (matched : r.Matched t (r', left, haltFlag)) (discards : t.remainder = .discard) :
    Step (r'.market, takerPhase t left haltFlag) [] (r'.market, .idle) := by
  cases haltFlag with
  | true => exact .stoppedMarket discards
  | false =>
      by_cases filled : left = 0
      · exact .filled filled
      · exact .discard filled (matched.2.resolve_left filled) discards

theorem market_spec {r : ReferenceEngine H} {id : OrderId} {side : Side} {qty : Qty}
    {owner : OwnerId} {stp : StpPolicy}
    (valid : ValidState (r.market, .taking (.ofMarket id side qty owner stp)))
    (keyed : r.Keyed) (running : r.halted = false) :
    ∃ r' left haltFlag, r.matchOrder id side qty none owner stp = some (r', left, haltFlag) ∧
      r.Placed (.ofMarket id side qty owner stp) r' := by
  rcases match_spec valid keyed running with ⟨⟨r', left, haltFlag⟩, run, matched⟩
  have took := matched.1.took.trans (.step [] (matched.discard rfl) rfl)
  exact ⟨r', left, haltFlag, run, took, matched.1.frame, matched.1.keyed⟩

theorem fire_spec {r : ReferenceEngine H} {o : RO}
    (valid : ValidState (r.market, .taking o.fired)) (keyed : r.Keyed)
    (running : r.halted = false) :
    ∃ r', r.fire o.id o.side o.stopLimit o.qty o.stopMarket o.owner o.stp = some r' ∧
      r.Placed o.fired r' := by
  unfold RO.fired at valid ⊢
  cases isMarket : o.stopMarket with
  | true =>
      simp only [isMarket, if_true] at valid ⊢
      rcases market_spec valid keyed running with ⟨r', left, haltFlag, run, placed⟩
      exact ⟨r', by simp [fire, run], placed⟩
  | false =>
      simp only [isMarket, Bool.false_eq_true, if_false] at valid ⊢
      obtain ⟨r', run, placed⟩ := place_spec valid keyed (by simp [running])
      exact ⟨r', by simp [fire, run], placed⟩

/-! ## Picking stops -/

omit [Handler H] in
theorem armed_iff {r : ReferenceEngine H} (printed : r.hasLast = true) (o : RO) :
    r.market.Armed o ↔ r.triggered o.side o.price := by
  simp only [Market.Armed, market, printed, if_true, Option.mem_some_iff, exists_eq_left']
  cases o.side <;> rfl

omit [Handler H] in
theorem triggersBefore_irrefl (side : Side) (price : Price) :
    ¬ triggersBefore side price price := by
  cases side <;> exact Int.lt_irrefl price

omit [Handler H] in
theorem triggersBefore_trans {side : Side} {first second third : Price}
    (left : triggersBefore side first second) (right : triggersBefore side second third) :
    triggersBefore side first third := by
  cases side
  · exact Int.lt_trans left right
  · exact Int.lt_trans right left

omit [Handler H] in
theorem triggersBefore_of_not {side : Side} {first second third : Price}
    (left : triggersBefore side first second) (right : ¬ triggersBefore side third second) :
    triggersBefore side first third := by
  cases side
  · exact Int.lt_of_lt_of_le left (Int.not_lt.mp right)
  · exact Int.lt_of_le_of_lt (Int.not_lt.mp right) left

def Picked (r : ReferenceEngine H) (side : Side) (seen : List RO) : Option (RO × Nat) → Prop
  | none => ∀ o ∈ seen, o.side = side → ¬ r.triggered o.side o.price
  | some (o, i) => ∃ front back, seen = front ++ o :: back ∧ front.length = i ∧
      o.side = side ∧ r.triggered o.side o.price ∧
      (∀ other ∈ seen, other.side = side → r.triggered other.side other.price →
        ¬ triggersBefore side other.price o.price) ∧
      ∀ other ∈ front, other.side = side → r.triggered other.side other.price →
        triggersBefore side o.price other.price

omit [Handler H] in
theorem pickFrom_spec (r : ReferenceEngine H) (side : Side) (rest seen : List RO)
    (pick : Option (RO × Nat)) (picked : r.Picked side seen pick) :
    r.Picked side (seen ++ rest) (r.pickFrom side (rest.zipIdx seen.length) pick) := by
  induction rest generalizing seen pick with
  | nil => simpa [pickFrom] using picked
  | cons o rest induction =>
      have split : seen ++ o :: rest = (seen ++ [o]) ++ rest := by simp
      have index : seen.length + 1 = (seen ++ [o]).length := by simp
      simp only [List.zipIdx_cons, pickFrom, index]
      rw [split]
      have next : ∀ pick, r.Picked side (seen ++ [o]) pick →
          r.Picked side (seen ++ [o] ++ rest)
            (r.pickFrom side (rest.zipIdx (seen ++ [o]).length) pick) :=
        fun pick => induction (seen ++ [o]) pick
      by_cases passed : o.side ≠ side ∨ ¬ r.triggered o.side o.price
      · rw [if_pos passed]
        apply next
        cases pick with
        | none =>
            intro other member
            rcases List.mem_append.mp member with old | new
            · exact picked other old
            · rw [List.mem_singleton.mp new]
              grind
        | some pick =>
            rcases picked with ⟨front, back, rfl, length, sameSide, armed, first, fifo⟩
            refine ⟨front, back ++ [o], by simp, length, sameSide, armed, ?_, fifo⟩
            intro other member
            rcases List.mem_append.mp member with old | new
            · exact first other old
            · rw [List.mem_singleton.mp new]
              grind
      · rw [if_neg passed]
        obtain ⟨sameSide, armed⟩ : o.side = side ∧ r.triggered o.side o.price := by
          grind
        cases pick with
        | none =>
            refine next _ ⟨seen, [], rfl, rfl, sameSide, armed, ?_, ?_⟩
            · intro other member otherSide otherArmed
              rcases List.mem_append.mp member with old | new
              · exact absurd otherArmed (picked other old otherSide)
              · rw [List.mem_singleton.mp new]
                exact triggersBefore_irrefl _ _
            · exact fun other member otherSide otherArmed =>
                absurd otherArmed (picked other member otherSide)
        | some pick =>
            rcases pick with ⟨before, j⟩
            rcases picked with ⟨front, back, rfl, length, beforeSide, beforeArmed, first, fifo⟩
            by_cases sooner : triggersBefore side o.price before.price
            · simp only [sooner, if_true]
              refine next _ ⟨front ++ before :: back, [], rfl, rfl, sameSide, armed, ?_, ?_⟩
              · intro other member otherSide otherArmed
                rcases List.mem_append.mp member with old | new
                · exact fun otherSooner => first other old otherSide otherArmed
                    (triggersBefore_trans otherSooner sooner)
                · rw [List.mem_singleton.mp new]
                  exact triggersBefore_irrefl _ _
              · exact fun other member otherSide otherArmed =>
                  triggersBefore_of_not sooner (first other member otherSide otherArmed)
            · simp only [sooner, if_false]
              refine next _ ⟨front, back ++ [o], by simp, length, beforeSide, beforeArmed,
                ?_, fifo⟩
              intro other member otherSide otherArmed
              rcases List.mem_append.mp member with old | new
              · exact first other old otherSide otherArmed
              · exact List.mem_singleton.mp new ▸ sooner

omit [Handler H] in
theorem eq_or_eq_sell (o : RO) : o.side = .buy ∨ o.side = .sell := by
  cases o.side <;> simp

omit [Handler H] in
theorem pick_spec {r : ReferenceEngine H} (running : r.halted = false)
    (printed : r.hasLast = true) :
    match r.pick with
    | none => ∀ o ∈ r.stops, ¬ r.market.Armed o
    | some (o, i) => ∃ front back, r.stops.eraseIdx i = front ++ back ∧
        r.market.NextStop front o back := by
  have start : ∀ side, r.Picked side [] none := fun side => by simp [Picked]
  have buys := r.pickFrom_spec .buy r.stops [] none (start .buy)
  have sells := r.pickFrom_spec .sell r.stops [] none (start .sell)
  simp only [List.nil_append, List.length_nil] at buys sells
  have erased : ∀ front o back, (front ++ o :: back : List RO).eraseIdx front.length =
      front ++ back := fun front o back => by simp [List.eraseIdx_append_of_length_le]
  unfold pick
  cases buy : r.pickFrom .buy r.stops.zipIdx none with
  | some found =>
      rcases found with ⟨o, i⟩
      rw [buy] at buys
      rcases buys with ⟨front, back, stops, rfl, side, armed, first, fifo⟩
      refine ⟨front, back, by rw [stops, erased], running, stops,
        (armed_iff printed o).mpr armed, ?_, ?_⟩
      · rintro other member otherArmed (⟨-, isSell⟩ | ⟨sameSide, sooner⟩)
        · rw [side] at isSell
          contradiction
        · rw [armed_iff printed] at otherArmed
          rw [side] at sameSide
          exact first other member sameSide otherArmed (sameSide ▸ sooner)
      · intro other member otherArmed
        rw [armed_iff printed] at otherArmed
        rcases eq_or_eq_sell other with isBuy | isSell
        · exact .inr ⟨side.trans isBuy.symm, side ▸ fifo other member isBuy otherArmed⟩
        · exact .inl ⟨side, isSell⟩
  | none =>
      rw [buy] at buys
      have noBuy : ∀ o ∈ r.stops, r.market.Armed o → o.side = .sell := by
        intro o member armed
        rw [armed_iff printed] at armed
        rcases eq_or_eq_sell o with isBuy | isSell
        · exact absurd armed (buys o member isBuy)
        · exact isSell
      cases sell : r.pickFrom .sell r.stops.zipIdx none with
      | none =>
          rw [sell] at sells
          intro o member armed
          exact sells o member (noBuy o member armed) ((armed_iff printed o).mp armed)
      | some found =>
          rcases found with ⟨o, i⟩
          rw [sell] at sells
          rcases sells with ⟨front, back, stops, rfl, side, armed, first, fifo⟩
          refine ⟨front, back, by rw [stops, erased], running, stops,
            (armed_iff printed o).mpr armed, ?_, ?_⟩
          · rintro other member otherArmed (⟨isBuy, -⟩ | ⟨sameSide, sooner⟩)
            · rw [noBuy other member otherArmed] at isBuy
              contradiction
            · rw [side] at sameSide
              exact first other member sameSide ((armed_iff printed other).mp otherArmed)
                (sameSide ▸ sooner)
          · intro other member otherArmed
            have member' : other ∈ r.stops := by simp [stops, member]
            have otherSide := noBuy other member' otherArmed
            exact .inr ⟨side.trans otherSide.symm,
              side ▸ fifo other member otherSide ((armed_iff printed other).mp otherArmed)⟩

/-! ## The trigger pump -/

structure Pumped (r r' : ReferenceEngine H) : Prop where
  took : r.Took .idle r' .idle
  keyed : r'.Keyed
  settled : r'.market.Settled

/-- In a round of the pump one stop fires, unless none is armed. -/
theorem pumpRound_spec {r : ReferenceEngine H} (valid : r.market.Valid) (keyed : r.Keyed)
    (running : r.halted = false) (printed : r.hasLast = true) :
    (r.pumpRound = some (.leave r) ∧ r.market.Settled) ∨
      ∃ r', r.pumpRound = some (.again r') ∧ r.Took .idle r' .idle ∧ r'.Keyed ∧
        r'.halted = false ∧ r'.hasLast = true ∧ r'.stops.length < r.stops.length := by
  have picked := pick_spec running printed
  cases pick : r.pick with
  | none =>
      rw [pick] at picked
      exact .inl ⟨by simp [pumpRound, pick], .inr picked⟩
  | some found =>
      rcases found with ⟨o, i⟩
      rw [pick] at picked
      rcases picked with ⟨front, back, stops, next⟩
      have fire : Step (r.market, .idle) []
          ({ r with stops := r.stops.eraseIdx i }.market, .taking o.fired) := by
        have := Step.fire next
        rw [← stops] at this
        exact this
      have idle : ValidState (r.market, .idle) := ⟨valid, trivial⟩
      obtain ⟨r', run, placed⟩ := fire_spec (r := { r with stops := r.stops.eraseIdx i })
        (fire.valid idle) keyed running
      have round : pumpRound r = some (.again r') := by
        simp only [pumpRound, pick, run, Option.bind_eq_bind, Option.bind_some]
      refine .inr ⟨r', round, (Took.step [] fire rfl).trans placed.took, placed.keyed,
        placed.frame.halted.trans running, placed.took.hasLast printed, ?_⟩
      have before : r.stops = front ++ o :: back := next.parked
      rw [placed.frame.stops, stops, before]
      simp

theorem pump_spec {r : ReferenceEngine H} (valid : r.market.Valid) (keyed : r.Keyed) :
    ∃ r', r.pump = some r' ∧ r.Pumped r' := by
  by_cases quiet : r.halted = true ∨ ¬ r.hasLast = true
  · refine ⟨r, by rw [pump, if_pos quiet], .refl r _, keyed, ?_⟩
    rcases quiet with halted | unprinted
    · exact .inl halted
    · refine .inr fun o _ => ?_
      simp [Market.Armed, market, unprinted]
  · obtain ⟨running, printed⟩ : r.halted = false ∧ r.hasLast = true := by simpa using quiet
    have kept : ∀ r', r.Took .idle r' .idle → r'.market.Valid := fun r' took =>
      (took.valid ⟨valid, trivial⟩).1
    rw [pump, if_neg quiet]
    apply loop_total
      (fun r' => r.Took .idle r' .idle ∧ r'.Keyed ∧ r'.halted = false ∧ r'.hasLast = true)
      r.Pumped (fun r' => r'.stops.length)
    · rintro r' ⟨took, keyed', running', printed'⟩
      rcases pumpRound_spec (kept r' took) keyed' running' printed' with
        ⟨round, settled⟩ | ⟨r'', round, took', keyed'', running'', printed'', fewer⟩
      · exact .inr ⟨r', round, took, keyed', settled⟩
      · exact .inl ⟨r'', round, ⟨took.trans took', keyed'', running'', printed''⟩, fewer⟩
    · exact ⟨.refl r _, keyed, running, printed⟩
    · exact Nat.lt_succ_self _

end ReferenceEngine

end Matchbook
