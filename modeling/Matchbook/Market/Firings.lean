import Mathlib.Logic.Relation
import Matchbook.Market.Determinism

namespace Matchbook

open Relation Transitions

/-! # One stop fires after another

Between two firings the last trade is read anew, and a stop that was armed may be
armed no more. -/

namespace Market

/-- A step of an order that is worked. -/
def Works (state : Market × Phase) (events : List Event) (next : Market × Phase) : Prop :=
  Step state events next ∧ state.2 ≠ .idle

/-- The stop that is next leaves its queue, and its order is worked to the end. -/
inductive Fires (m m' : Market) : Prop
  | intro {front o back events} (next : m.NextStop front o back)
      (works : Run Works ({ m with stops := front ++ back }, .taking o.fired) events
        (m', .idle))

/-- Between `m` and `m'` the last trade leaves a stop that still waits. -/
structure Disarms (m m' : Market) (o : RO) : Prop where
  armed : m.Armed o
  waits : o ∈ m'.stops
  disarmed : ¬ m'.Armed o

/-- Of the firings that follow each other from `m`, none disarms a stop that is armed
in `m`. -/
def KeepsArmed (m : Market) : Prop :=
  ∀ m₁ m₂ o, ReflTransGen Fires m m₁ → Fires m₁ m₂ → m.Armed o → ¬ Disarms m₁ m₂ o

variable {m m' m₀ : Market} {state next : Market × Phase} {events : List Event}

theorem Works.stops_eq (works : Works state events next) : next.1.stops = state.1.stops := by
  rcases works with ⟨step, busy⟩
  cases step with
  | fire next => exact absurd rfl busy
  | _ => rfl

theorem Works.run_stops_eq (works : Run Works state events next) :
    next.1.stops = state.1.stops := by
  induction works with
  | refl => rfl
  | snoc run last induction => exact last.stops_eq.trans induction

theorem Fires.stops (fires : Fires m m') :
    ∃ front o back, m.stops = front ++ o :: back ∧ m'.stops = front ++ back := by
  rcases fires with ⟨next, works⟩
  exact ⟨_, _, _, next.parked, Works.run_stops_eq works⟩

theorem Fires.stops_subset (fires : Fires m m') : m'.stops ⊆ m.stops := by
  rcases fires.stops with ⟨front, o, back, place, left⟩
  rw [place, left]
  exact ((List.sublist_cons_self o back).append_left front).subset

theorem Fires.length_stops (fires : Fires m m') : m'.stops.length + 1 = m.stops.length := by
  rcases fires.stops with ⟨front, o, back, place, left⟩
  simp [place, left, Nat.add_assoc]

theorem length_stops_le (chain : ReflTransGen Fires m m') :
    m'.stops.length ≤ m.stops.length := by
  induction chain with
  | refl => exact Nat.le_refl _
  | tail chain last induction =>
      have one := last.length_stops
      omega

theorem eq_of_length_stops (chain : ReflTransGen Fires m m')
    (same : m'.stops.length = m.stops.length) : m' = m := by
  cases chain with
  | refl => rfl
  | tail chain last =>
      have fewer := length_stops_le chain
      have one := last.length_stops
      omega

theorem fires_of_length_stops (chain : ReflTransGen Fires m m')
    (one : m'.stops.length + 1 = m.stops.length) : Fires m m' := by
  cases chain with
  | refl => omega
  | tail chain last =>
      have lastOne := last.length_stops
      rw [← eq_of_length_stops chain (by omega)]
      exact last

theorem Fires.unique {first second : Market} (fires : Fires m first) (again : Fires m second) :
    first = second := by
  rcases fires with ⟨next, works⟩
  rcases again with ⟨next', works'⟩
  rcases next.unique next' with ⟨rfl, rfl, rfl⟩
  have stuck (state : Market × Phase) (events : List Event) (next : Market × Phase)
      (idle : state.2 = .idle) : ¬ Works state events next := fun works => works.2 idle
  have same := works.unique (fun _ _ _ _ _ step step' => step.1.deterministic step'.1) stuck
    works' rfl rfl
  exact congrArg Prod.fst same.2

/-! ## The run of the pump -/

/-- The states of a run from `m₀`: between two firings, or in one. -/
inductive Pumping (m₀ : Market) : Market × Phase → Prop
  | between {m : Market} (fired : ReflTransGen Fires m₀ m) : Pumping m₀ (m, .idle)
  | within {m : Market} {front : List RO} {o : RO} {back : List RO} {events : List Event}
      {state : Market × Phase} (fired : ReflTransGen Fires m₀ m)
      (next : m.NextStop front o back)
      (works : Run Works ({ m with stops := front ++ back }, .taking o.fired) events state)
      (busy : state.2 ≠ .idle) : Pumping m₀ state

theorem Pumping.step (pumping : Pumping m₀ state) (step : Step state events next) :
    Pumping m₀ next := by
  cases pumping with
  | between fired =>
      cases step with
      | fire next => exact .within fired next .refl fun same => nomatch same
  | within fired isNext works busy =>
      have onward := works.snoc ⟨step, busy⟩
      rcases next with ⟨m', phase⟩
      by_cases idle : phase = .idle
      · cases idle
        exact .between (fired.tail ⟨isNext, onward⟩)
      · exact .within fired isNext onward idle

theorem fires_of_run (run : Run Step (m, .idle) events (m', .idle)) :
    ReflTransGen Fires m m' := by
  have start : Pumping m (m, .idle) := .between .refl
  have pumping := run.invariant (fun _ _ _ pumping step => Pumping.step pumping step) start
  cases pumping with
  | between fired => exact fired
  | within fired next works busy => exact absurd rfl busy

theorem KeepsArmed.armed (keeps : m₀.KeepsArmed) (chain : ReflTransGen Fires m₀ m) {o : RO}
    (waits : o ∈ m.stops) (armed : m₀.Armed o) : m.Armed o := by
  induction chain with
  | refl => exact armed
  | tail chain last induction =>
      have before := induction (last.stops_subset waits)
      by_contra disarmed
      exact keeps _ _ o chain last armed ⟨before, waits, disarmed⟩

theorem keepsArmed_of_fires (two : m.stops.length = 2) (fires : Fires m m')
    (armed : ∀ o ∈ m'.stops, m'.Armed o) : m.KeepsArmed := by
  intro m₁ m₂ o chain last _ disarms
  have some := List.length_pos_of_mem disarms.waits
  have fewer := length_stops_le chain
  have one := last.length_stops
  have first : m₁ = m := eq_of_length_stops chain (by omega)
  rw [first] at last
  rw [last.unique fires] at disarms
  exact disarms.disarmed (armed o disarms.waits)

end Market

theorem Run.armed_fire {m m' : Market} {events : List Event}
    (run : Run Step (m, .idle) events (m', .idle)) (keeps : m.KeepsArmed) (settled : m'.Settled)
    (running : m'.halted = false) : ∀ o ∈ m.stops, m.Armed o → o ∉ m'.stops := by
  intro o parked armed stays
  have chain := Market.fires_of_run run
  rcases settled with halted | quiet
  · rw [running] at halted
    contradiction
  · exact quiet o stays (keeps.armed chain stays armed)

/-! ## Markets with the same queues of stops

Which of the stops of two triggers was parked first makes no difference. -/

namespace Market

/-- The stops of one side and trigger are parked in the same order. -/
structure SameStops (m m' : Market) : Prop where
  others : m' = { m with stops := m'.stops }
  parked : ∀ (side : Side) (trigger : Price),
    m'.stops.filter (fun o => o.side = side ∧ o.price = trigger) =
      m.stops.filter fun o => o.side = side ∧ o.price = trigger

variable {m m' n : Market} {o : RO} {state next : Market × Phase} {events : List Event}

theorem SameStops.mem (same : SameStops m m') : o ∈ m'.stops ↔ o ∈ m.stops := by
  have parked : o ∈ m'.stops.filter (fun s => s.side = o.side ∧ s.price = o.price) ↔
      o ∈ m.stops.filter fun s => s.side = o.side ∧ s.price = o.price := by
    rw [same.parked]
  simpa using parked

theorem SameStops.armed (same : SameStops m m') (o : RO) : m'.Armed o ↔ m.Armed o := by
  unfold Armed
  rw [same.others]

theorem same_trigger {first o : RO} (notAfter : ¬ FiresBefore o first)
    (notBefore : ¬ FiresBefore first o) : first.side = o.side ∧ first.price = o.price := by
  have sides : first.side = o.side := by
    cases firstSide : first.side <;> cases side : o.side
    · rfl
    · exact absurd (.inl ⟨firstSide, side⟩) notBefore
    · exact absurd (.inl ⟨side, firstSide⟩) notAfter
    · rfl
  refine ⟨sides, ?_⟩
  have notBefore : ¬ ReferenceEngine.triggersBefore first.side first.price o.price :=
    fun less => notBefore (.inr ⟨sides, less⟩)
  have notAfter : ¬ ReferenceEngine.triggersBefore first.side o.price first.price :=
    fun less => notAfter (.inr ⟨sides.symm, by rw [← sides]; exact less⟩)
  cases side : first.side <;> rw [side] at notBefore notAfter
  · exact Int.le_antisymm (Int.not_lt.mp notAfter) (Int.not_lt.mp notBefore)
  · exact Int.le_antisymm (Int.not_lt.mp notBefore) (Int.not_lt.mp notAfter)

theorem SameStops.nextStop (same : SameStops m m') {front back : List RO}
    (next : m.NextStop front o back) :
    ∃ front' back', m'.NextStop front' o back' ∧
      SameStops { m with stops := front ++ back } { m' with stops := front' ++ back' } := by
  let here : RO → Bool := fun s => s.side = o.side ∧ s.price = o.price
  have none : front.filter here = [] := by
    apply List.filter_eq_nil_iff.mpr
    intro other early isHere
    have isHere : other.side = o.side ∧ other.price = o.price := by simpa [here] using isHere
    have armed : m.Armed other := by
      have armed := next.armed
      rw [Armed, ← isHere.1, ← isHere.2] at armed
      exact armed
    rcases next.fifo other early armed with ⟨buy, sell⟩ | ⟨-, before⟩
    · rw [isHere.1, buy] at sell
      contradiction
    · rw [isHere.2] at before
      cases side : o.side <;> rw [side] at before <;> exact absurd before (Int.lt_irrefl _)
  have queue : m'.stops.filter here = o :: back.filter here := by
    have queue := same.parked o.side o.price
    rw [next.parked] at queue
    rw [List.filter_append] at queue
    change m'.stops.filter here = front.filter here ++ _ at queue
    rw [queue, none, List.nil_append]
    exact List.filter_cons_of_pos (by simp)
  rcases List.filter_eq_cons_iff.mp queue with ⟨front', back', place, before, -, after⟩
  refine ⟨front', back', ?_, ?_, ?_⟩
  case refine_1 =>
      constructor
      case running => rw [same.others]; exact next.running
      case parked => exact place
      case armed => exact (same.armed o).mpr next.armed
      case first =>
          intro other parked armed
          exact next.first other (same.mem.mp parked) ((same.armed other).mp armed)
      case fifo =>
          intro other early armed
          have parked : other ∈ m'.stops := by simp [place, early]
          have notBefore := next.first other (same.mem.mp parked) ((same.armed other).mp armed)
          by_contra notAfter
          have trigger := same_trigger notBefore notAfter
          exact before other early (by simp [here, trigger])
  case refine_2 => rw [same.others]
  case refine_3 =>
      intro side trigger
      by_cases isHere : o.side = side ∧ o.price = trigger
      · rcases isHere with ⟨rfl, rfl⟩
        have noneBefore : front'.filter here = [] := List.filter_eq_nil_iff.mpr before
        show (front' ++ back').filter here = (front ++ back).filter here
        rw [List.filter_append, List.filter_append, none, noneBefore, after]
      · have queues := same.parked side trigger
        rw [place, next.parked] at queues
        simpa [List.filter_append, List.filter_cons, isHere] using queues

theorem Works.restop (works : Works state events next) (stops : List RO) :
    Works ({ state.1 with stops }, state.2) events ({ next.1 with stops }, next.2) := by
  rcases works with ⟨step, busy⟩
  refine ⟨?_, busy⟩
  cases step with
  | fire next => exact absurd rfl busy
  | fill meets other amount => exact .fill { meets with best := { meets.best with } } other amount
  | cancelMaker meets own policy =>
      exact .cancelMaker { meets with best := { meets.best with } } own policy
  | cancelTaker meets own policy =>
      exact .cancelTaker { meets with best := { meets.best with } } own policy
  | cancelBoth meets own policy =>
      exact .cancelBoth { meets with best := { meets.best with } } own policy
  | killed announced => exact .killed announced
  | stoppedMarket silent => exact .stoppedMarket silent
  | filled done => exact .filled done
  | rest left blocked rests => exact .rest left blocked rests
  | cancelRemainder left blocked cancels => exact .cancelRemainder left blocked cancels
  | discard left blocked discards => exact .discard left blocked discards
  | cross bestBid bestAsk bidHead askHead low high amount =>
      exact .cross { bestBid with } { bestAsk with } bidHead askHead low high amount
  | crossed apart => exact .crossed fun bpx apx bid ask => apart bpx apx { bid with } { ask with }

theorem Works.run_restop (works : Run Works state events next) (stops : List RO) :
    Run Works ({ state.1 with stops }, state.2) events ({ next.1 with stops }, next.2) := by
  induction works with
  | refl => exact .refl
  | snoc run last induction => exact induction.snoc (last.restop stops)

theorem SameStops.fires (same : SameStops m m') (fires : Fires m n) :
    ∃ n', Fires m' n' ∧ SameStops n n' := by
  rcases fires with ⟨next, works⟩
  rename_i front o back events
  rcases same.nextStop next with ⟨front', back', next', left⟩
  have onward : Run Works ({ m' with stops := front' ++ back' }, .taking o.fired) events
      ({ n with stops := front' ++ back' }, .idle) := by
    rw [same.others]
    exact Works.run_restop works (front' ++ back')
  have stops : n.stops = front ++ back := Works.run_stops_eq works
  refine ⟨{ n with stops := front' ++ back' }, ⟨next', onward⟩, rfl, ?_⟩
  intro side trigger
  rw [stops]
  exact left.parked side trigger

theorem SameStops.chain (same : SameStops m m') (chain : ReflTransGen Fires m n) :
    ∃ n', ReflTransGen Fires m' n' ∧ SameStops n n' := by
  induction chain with
  | refl => exact ⟨m', .refl, same⟩
  | tail chain last induction =>
      rcases induction with ⟨middle, chain', same'⟩
      rcases same'.fires last with ⟨n', last', left⟩
      exact ⟨n', chain'.tail last', left⟩

theorem SameStops.keepsArmed (same : SameStops m m') (keeps : m'.KeepsArmed) : m.KeepsArmed := by
  rintro m₁ m₂ o chain last armed ⟨before, waits, disarmed⟩
  rcases same.chain chain with ⟨m₁', chain', same₁⟩
  rcases same₁.fires last with ⟨m₂', last', same₂⟩
  apply keeps m₁' m₂' o chain' last' ((same.armed o).mpr armed)
  exact ⟨(same₁.armed o).mpr before, same₂.mem.mpr waits, mt (same₂.armed o).mp disarmed⟩

end Market

end Matchbook
