import Matchbook.Market.Firings

namespace Matchbook

open Transitions

/-! # The stop pump

When stops fire, and what keeps a stop that is armed from being overtaken by one
that fires before it. -/

namespace Market

/-! ## Firing once -/

/-- A move together with the ids of the stops fired so far. A stop leaves by
firing, once, while trading is continuous and the last trade is through its
trigger, or because it is cancelled. -/
inductive Pumps : (Market × Phase) × List OrderId → List Entry →
    (Market × Phase) × List OrderId → Prop
  | fire {m front o back fired} (next : m.NextStop front o back) (once : o.id ∉ fired) :
      Pumps ((m, .idle), fired) []
        (({ m with stops := front ++ back }, .taking o.fired), o.id :: fired)
  | cancel {m op front o back fired} (cancels : op.Cancels o.id)
      (place : m.stops = front ++ o :: back) :
      Pumps ((m, .idle), fired) [.called op (.ok true), .seen (.cancel o.id)]
        (({ m with stops := front ++ back }, .idle), fired)
  | keep {state entries next fired} (move : Move state entries next)
      (kept : state.1.stops ⊆ next.1.stops) : Pumps (state, fired) entries (next, fired)

structure FiredBefore (m : Market) (fired : List OrderId) : Prop where
  gone : ∀ o ∈ m.stops, o.id ∉ fired
  issued : ∀ id ∈ fired, id < m.nextId

variable {m m' : Market} {fired : List OrderId}

theorem FiredBefore.mono (before : m.FiredBefore fired) (stops : m'.stops ⊆ m.stops)
    (nextId : m.nextId ≤ m'.nextId) : m'.FiredBefore fired where
  gone o member := before.gone o (stops member)
  issued id member := Nat.lt_of_lt_of_le (before.issued id member) nextId

theorem nextId_step {state next : Market × Phase} {events : List Event}
    (step : Step state events next) : next.1.nextId = state.1.nextId := by
  cases step <;> rfl

theorem stops_step {state next : Market × Phase} {events : List Event}
    (step : Step state events next) : next.1.stops = state.1.stops ∨
      ∃ front o back, state.1.NextStop front o back ∧ state.2 = .idle ∧ events = [] ∧
        next = ({ state.1 with stops := front ++ back }, .taking o.fired) := by
  cases step with
  | fire next => exact .inr ⟨_, _, _, next, rfl, rfl, rfl⟩
  | _ => exact .inl rfl

theorem nextId_le_begin {op : Op} {events : List Event} {next : Market × Phase} {ret : Ret}
    (start : m.Begin op events next ret) : m.nextId ≤ next.1.nextId := by
  cases start <;> first | exact Nat.le_refl _ | exact Nat.le_succ _

theorem Move.pumps {state next : Market × Phase} {entries : List Entry}
    (valid : ValidState state) (before : state.1.FiredBefore fired)
    (move : Move state entries next) :
    ∃ fired', Pumps (state, fired) entries (next, fired') ∧ next.1.FiredBefore fired' := by
  have isMove := move
  cases move with
  | step taken =>
      rcases stops_step taken with same | ⟨front, o, back, isNext, idle, rfl, rfl⟩
      · have kept : state.1.stops ⊆ next.1.stops := fun _ member => same ▸ member
        refine ⟨fired, .keep isMove kept, before.mono (fun _ member => same ▸ member) ?_⟩
        exact Nat.le_of_eq (nextId_step taken).symm
      · rcases state with ⟨m, phase⟩
        cases idle
        have place : m.stops = front ++ o :: back := isNext.parked
        have parked : o ∈ m.stops := by simp [place]
        refine ⟨o.id :: fired, .fire isNext (before.gone o parked), ?_, ?_⟩
        · intro other member
          rw [List.mem_cons, not_or]
          constructor
          · intro same
            have closed := valid.1.not_isOpen_unpark isNext.parked
            rw [← same] at closed
            exact closed (isOpen_of_stop member)
          · apply before.gone other
            rw [isNext.parked]
            exact ((List.sublist_cons_self o back).append_left front).subset member
        · intro id member
          rcases List.mem_cons.mp member with rfl | old
          · exact (valid.1.issued _ (isOpen_of_stop parked)).2
          · exact before.issued id old
  | @begin m op events next ret settled start =>
      have nextId := nextId_le_begin start
      cases start with
      | park entry nonzero inside limit waits =>
          refine ⟨fired, .keep isMove (List.subset_append_left _ _), ?_, ?_⟩
          · intro other member
            rcases List.mem_append.mp member with old | new
            · exact before.gone other old
            · rw [List.mem_singleton.mp new, entry.id_eq]
              exact fun old => Nat.lt_irrefl _ (before.issued _ old)
          · exact fun id member => Nat.lt_succ_of_lt (before.issued id member)
      | @cancelStop op front o back cancels place =>
          refine ⟨fired, .cancel cancels place, before.mono ?_ nextId⟩
          rw [place]
          exact ((List.sublist_cons_self o back).append_left front).subset
      | _ => exact ⟨fired, .keep isMove (List.Subset.refl _),
          before.mono (List.Subset.refl _) nextId⟩

theorem firedBefore_new (band : Band) : (Market.new band).FiredBefore [] where
  gone _ member := absurd member List.not_mem_nil
  issued _ member := absurd member List.not_mem_nil

end Market

theorem Run.pumps {state next : Market × Phase} {log : List Entry} {fired : List OrderId}
    (run : Run Market.Move state log next) (valid : ValidState state)
    (before : state.1.FiredBefore fired) :
    ∃ fired', Run Market.Pumps (state, fired) log (next, fired') := by
  have kept : ∀ state entries next fired, ValidState state ∧ state.1.FiredBefore fired →
      Market.Move state entries next →
      ∃ fired', Market.Pumps (state, fired) entries (next, fired') ∧
        ValidState next ∧ next.1.FiredBefore fired' := by
    intro state entries next fired good move
    rcases move.pumps good.1 good.2 with ⟨fired', pumps, after⟩
    exact ⟨fired', pumps, move.valid good.1, after⟩
  rcases run.accompanied kept ⟨valid, before⟩ with ⟨fired', pumps, -⟩
  exact ⟨fired', pumps⟩

/-! ## Overtaking

Each print becomes the last trade, and may put a stop out of reach that was armed
and still waits. -/

def RO.ArmedAt (o : RO) (px : Price) : Prop := o.side.opposite.Reaches o.price px

namespace Market

def Precedes (m : Market) (first o : RO) : Prop :=
  FiresBefore first o ∨
    (first.side = o.side ∧ first.price = o.price ∧ [first, o].Sublist m.stops)

/-- A price at which a stop of that side may find an order: one rests there, or will
rest there when the buy stops have fired. -/
def Offers (m : Market) (side : Side) (px : Price) : Prop :=
  m.levels side.opposite px ≠ [] ∨
    (side = .sell ∧
      ∃ b ∈ m.stops, b.side = .buy ∧ m.Armed b ∧ b.stopMarket = false ∧ b.stopLimit = px)

/-- No price at which an armed stop may trade disarms one that fires after it, or
arms a buy stop that would overtake a sell stop. -/
def Harmless (m : Market) : Prop :=
  ∀ first ∈ m.stops, ∀ o ∈ m.stops, m.Armed first → m.Armed o → m.Precedes first o →
    ∀ px, m.Offers first.side px → first.side.opposite.Within px first.fired.limit →
      o.ArmedAt px ∧
        (o.side = .sell → ∀ b ∈ m.stops, b.side = .buy → b.ArmedAt px → m.Armed b)

/-- `o` was armed at the start, and has not fired. -/
structure Waiting (m₀ m : Market) (o : RO) : Prop where
  parked : o ∈ m.stops
  before : o ∈ m₀.stops
  armed : m₀.Armed o

/-- `t` is a stop of `m₀` that fired before `o`. -/
structure Overtakes (m₀ m : Market) (t : Taker) (first o : RO) : Prop where
  parked : first ∈ m₀.stops
  armed : m₀.Armed first
  precedes : m₀.Precedes first o
  side : t.side = first.side
  limit : t.limit = first.fired.limit
  remainder : t.remainder = first.fired.remainder
  offers : ∀ px, m.levels t.maker px ≠ [] → m₀.Offers t.side px

structure Firing (m₀ : Market) (state : Market × Phase) : Prop where
  stops : state.1.stops.Sublist m₀.stops
  armed : ∀ o, Waiting m₀ state.1 o → state.1.Armed o
  quiet : ∀ o, Waiting m₀ state.1 o → o.side = .sell → ∀ b ∈ state.1.stops, b.side = .buy →
    state.1.Armed b → m₀.Armed b
  offers : ∀ o, Waiting m₀ state.1 o → ∀ px, state.1.levels o.side.opposite px ≠ [] →
    m₀.Offers o.side px
  taker : ∀ t, state.2 = .taking t → ∀ o, Waiting m₀ state.1 o →
    ∃ first, Overtakes m₀ state.1 t first o
  phase : ∀ clearing, state.2 ≠ .crossing clearing

variable {m₀ m : Market}

theorem firing_start (m₀ : Market) : Firing m₀ (m₀, .idle) where
  stops := List.Sublist.refl _
  armed _ waiting := waiting.armed
  quiet _ _ _ _ _ _ armed := armed
  offers _ _ _ occupied := .inl occupied
  taker _ taking := nomatch taking
  phase _ crossing := nomatch crossing

theorem Precedes.side {first o : RO} (precedes : m.Precedes first o) :
    first.side = o.side ∨ (first.side = .buy ∧ o.side = .sell) := by
  rcases precedes with (apart | ⟨same, -⟩) | ⟨same, -⟩
  · exact .inr apart
  · exact .inl same
  · exact .inl same

theorem Firing.next_armed (firing : Firing m₀ (m, .idle)) {front back : List RO} {first o : RO}
    (next : m.NextStop front first back) (waiting : Waiting m₀ m o) : m₀.Armed first := by
  have parked : first ∈ m.stops := by simp [next.parked]
  have notBefore := next.first o waiting.parked (firing.armed o waiting)
  rcases waiting.armed with ⟨last, printed, through⟩
  cases side : o.side with
  | buy =>
      rw [side] at through
      cases firstSide : first.side with
      | sell => exact absurd (.inl ⟨side, firstSide⟩) notBefore
      | buy =>
          have later : ¬ o.price < first.price := fun less =>
            notBefore (.inr ⟨side.trans firstSide.symm, by rw [side]; exact less⟩)
          refine ⟨last, printed, ?_⟩
          rw [firstSide]
          exact Int.le_trans (Int.not_lt.mp later) through
  | sell =>
      rw [side] at through
      cases firstSide : first.side with
      | buy => exact firing.quiet o waiting side first parked firstSide next.armed
      | sell =>
          have later : ¬ first.price < o.price := fun less =>
            notBefore (.inr ⟨side.trans firstSide.symm, by rw [side]; exact less⟩)
          refine ⟨last, printed, ?_⟩
          rw [firstSide]
          exact Int.le_trans through (Int.not_lt.mp later)

theorem Firing.next_precedes (firing : Firing m₀ (m, .idle)) {front back : List RO}
    {first o : RO} (next : m.NextStop front first back) (waiting : Waiting m₀ m o)
    (other : o ∈ front ++ back) : m₀.Precedes first o := by
  have armed := firing.armed o waiting
  by_cases before : FiresBefore first o
  · exact .inl before
  · have same := same_trigger (next.first o waiting.parked armed) before
    rcases List.mem_append.mp other with early | late
    · exact absurd (next.fifo o early armed) before
    · have inOrder : [first, o].Sublist (front ++ first :: back) :=
        ((List.singleton_sublist.mpr late).cons_cons first).trans (List.sublist_append_right _ _)
      rw [← next.parked] at inOrder
      exact .inr ⟨same.1, same.2, inOrder.trans firing.stops⟩

theorem Waiting.mono {m' : Market} {o : RO} (waiting : Waiting m₀ m' o)
    (stops : m'.stops ⊆ m.stops) : Waiting m₀ m o :=
  ⟨stops waiting.parked, waiting.before, waiting.armed⟩

theorem armed_congr {m' : Market} (last : m'.last = m.last) (o : RO) :
    m'.Armed o ↔ m.Armed o := by
  unfold Armed
  rw [last]

/-- Nothing printed. -/
theorem Firing.keep {m' : Market} {phase phase' : Phase} (firing : Firing m₀ (m, phase))
    (stops : m'.stops.Sublist m.stops) (last : m'.last = m.last)
    (offers : ∀ o, Waiting m₀ m o → ∀ px, m'.levels o.side.opposite px ≠ [] →
      m.levels o.side.opposite px ≠ [] ∨ m₀.Offers o.side px)
    (taker : ∀ t, phase' = .taking t → ∀ o, Waiting m₀ m' o → ∃ first, Overtakes m₀ m' t first o)
    (notCrossing : ∀ clearing, phase' ≠ .crossing clearing) : Firing m₀ (m', phase') where
  stops := stops.trans firing.stops
  armed o waiting := (armed_congr last o).mpr (firing.armed o (waiting.mono stops.subset))
  quiet o waiting sell b parked buy armed :=
    firing.quiet o (waiting.mono stops.subset) sell b (stops.subset parked) buy
      ((armed_congr last b).mp armed)
  offers o waiting px occupied :=
    (offers o (waiting.mono stops.subset) px occupied).elim
      (firing.offers o (waiting.mono stops.subset) px) id
  taker := taker
  phase := notCrossing

theorem Overtakes.thins {m' : Market} {t t' : Taker} {first o : RO}
    (overtakes : Overtakes m₀ m t first o) (side : t'.side = t.side) (limit : t'.limit = t.limit)
    (remainder : t'.remainder = t.remainder)
    (thins : ∀ px, m'.levels t'.maker px ≠ [] → m.levels t'.maker px ≠ []) :
    Overtakes m₀ m' t' first o where
  parked := overtakes.parked
  armed := overtakes.armed
  precedes := overtakes.precedes
  side := side.trans overtakes.side
  limit := limit.trans overtakes.limit
  remainder := remainder.trans overtakes.remainder
  offers px occupied := by
    have maker : t'.maker = t.maker := congrArg Side.opposite side
    have before := thins px occupied
    rw [maker] at before
    rw [side]
    exact overtakes.offers px before

theorem RO.fired_rest {o : RO} {price : Price} {peak : Qty}
    (rests : o.fired.remainder = .rest price peak) :
    o.stopMarket = false ∧ o.stopLimit = price := by
  rw [RO.fired] at rests
  split at rests
  · contradiction
  · next limit =>
    cases rests
    exact ⟨by simpa using limit, rfl⟩

theorem Firing.step {state next : Market × Phase} {events : List Event} (harmless : m₀.Harmless)
    (firing : Firing m₀ state) (step : Step state events next) : Firing m₀ next := by
  cases step with
  | @fill m t px o rest fill meets other amount =>
      have thins := thins_setLevel (consume px fill (o :: rest)).1 meets.best.occupied
      have deals (s : RO) (waiting : Waiting m₀ m s) : s.ArmedAt px ∧
          (s.side = .sell → ∀ b ∈ m₀.stops, b.side = .buy → b.ArmedAt px → m₀.Armed b) := by
        rcases firing.taker t rfl s waiting with ⟨first, overtakes⟩
        apply harmless first overtakes.parked s waiting.before overtakes.armed waiting.armed
          overtakes.precedes px
        · rw [← overtakes.side]
          exact overtakes.offers px meets.best.occupied
        · rw [← overtakes.side, ← overtakes.limit]
          exact meets.within
      constructor
      case stops => exact firing.stops
      case armed =>
          intro s waiting
          exact ⟨px, rfl, (deals s ⟨waiting.parked, waiting.before, waiting.armed⟩).1⟩
      case quiet =>
          rintro s waiting sell b parked buy ⟨last, printed, through⟩
          cases printed
          have quiet := (deals s ⟨waiting.parked, waiting.before, waiting.armed⟩).2 sell
          exact quiet b (firing.stops.subset parked) buy through
      case offers =>
          intro s waiting p occupied
          have before : Waiting m₀ m s := ⟨waiting.parked, waiting.before, waiting.armed⟩
          exact firing.offers s before p (thins _ _ occupied)
      case taker =>
          intro t' same s waiting
          cases same
          rcases firing.taker t rfl s ⟨waiting.parked, waiting.before, waiting.armed⟩ with
            ⟨first, overtakes⟩
          exact ⟨first, overtakes.thins rfl rfl rfl fun p occupied => thins _ p occupied⟩
      case phase => exact fun _ same => nomatch same
  | @cancelMaker m t px o rest meets own policy =>
      have thins := thins_setLevel rest meets.best.occupied
      apply firing.keep
      · exact List.Sublist.refl _
      · rfl
      · exact fun s _ p occupied => .inl (thins _ _ occupied)
      · intro t' same s waiting
        cases same
        rcases firing.taker t rfl s ⟨waiting.parked, waiting.before, waiting.armed⟩ with
          ⟨first, overtakes⟩
        exact ⟨first, overtakes.thins rfl rfl rfl fun p occupied => thins _ p occupied⟩
      · exact fun _ same => nomatch same
  | @cancelBoth m t px o rest meets own policy =>
      apply firing.keep
      · exact List.Sublist.refl _
      · rfl
      · exact fun s _ p occupied => .inl (thins_setLevel rest meets.best.occupied _ _ occupied)
      · exact fun _ same => nomatch same
      · exact fun _ same => nomatch same
  | @rest m t price peak left blocked rests =>
      apply firing.keep
      · exact List.Sublist.refl _
      · rfl
      · intro s waiting p occupied
        rcases firing.taker t rfl s waiting with ⟨first, overtakes⟩
        rcases overtakes.precedes.side with same | ⟨buy, sell⟩
        · -- a taker of the same side rests away from what the stop trades with
          have apart : s.side.opposite ≠ t.side := by
            rw [overtakes.side, same]
            exact s.side.opposite_ne
          rw [setLevel_levels_side _ _ _ _ _ _ apart] at occupied
          exact .inl occupied
        · by_cases here : p = price
          · have fired := RO.fired_rest (overtakes.remainder.symm.trans rests)
            subst here
            exact .inr (.inr ⟨sell, first, overtakes.parked, buy, overtakes.armed, fired⟩)
          · rw [setLevel_levels, if_neg fun place => here place.2] at occupied
            exact .inl occupied
      · exact fun _ same => nomatch same
      · exact fun _ same => nomatch same
  | @fire m front o back next =>
      have sub : (front ++ back).Sublist m.stops := by
        rw [next.parked]
        exact (List.sublist_cons_self o back).append_left front
      apply firing.keep
      · exact sub
      · rfl
      · exact fun _ _ _ occupied => .inl occupied
      · intro t same s waiting
        cases same
        have before := waiting.mono (m := m) sub.subset
        have armed := firing.next_armed next before
        have parked : o ∈ m.stops := by simp [next.parked]
        have first : Waiting m₀ m o := ⟨parked, firing.stops.subset parked, armed⟩
        have precedes := firing.next_precedes next before waiting.parked
        refine ⟨o, first.before, armed, precedes, RO.fired_side o, rfl, rfl, ?_⟩
        intro px occupied
        rw [Taker.maker, RO.fired_side] at occupied
        rw [RO.fired_side]
        exact firing.offers o first px occupied
      · exact fun _ same => nomatch same
  | cancelTaker meets own policy =>
      apply firing.keep
      · exact List.Sublist.refl _
      · rfl
      · exact fun _ _ _ occupied => .inl occupied
      · exact fun _ same => nomatch same
      · exact fun _ same => nomatch same
  | cross bestBid bestAsk bidHead askHead low high amount =>
      exact absurd rfl (firing.phase _)
  | crossed apart => exact absurd rfl (firing.phase _)
  | _ =>
      apply firing.keep
      · exact List.Sublist.refl _
      · rfl
      · exact fun _ _ _ occupied => .inl occupied
      · exact fun _ same => nomatch same
      · exact fun _ same => nomatch same

theorem Firing.run (harmless : m₀.Harmless) {state next : Market × Phase} {events : List Event}
    (firing : Firing m₀ state) (run : Run Step state events next) : Firing m₀ next :=
  run.invariant (fun _ _ _ firing step => firing.step harmless step) firing

theorem Firing.fires (harmless : m₀.Harmless) {m' : Market} (firing : Firing m₀ (m, .idle))
    (fires : Fires m m') : Firing m₀ (m', .idle) := by
  rcases fires with ⟨next, works⟩
  have work := works.mono fun _ _ _ works => works.1
  exact (firing.step harmless (.fire next)).run harmless work

theorem Harmless.firing (harmless : m₀.Harmless) (chain : Relation.ReflTransGen Fires m₀ m) :
    Firing m₀ (m, .idle) := by
  induction chain with
  | refl => exact firing_start m₀
  | tail chain last induction => exact induction.fires harmless last

theorem Harmless.keepsArmed (harmless : m₀.Harmless) : m₀.KeepsArmed := by
  intro m₁ m₂ o chain last armed disarms
  have firing := (harmless.firing chain).fires harmless last
  have before := firing.stops.subset disarms.waits
  exact disarms.disarmed (firing.armed o ⟨disarms.waits, before, armed⟩)

end Market

end Matchbook
