import Matchbook.Foundation.ArrivalStamps
import Matchbook.Market.Origins

namespace Matchbook

open Transitions

/-! # Price-time priority

An order gets a fresh arrival stamp whenever quantity of it is announced as
resting: when it rests, also after a cancel-replace, and when its next clip is
shown from the back of the queue. -/

abbrev Stamps := ArrivalStamps OrderId

def Stamps.see (stamps : Stamps) : Entry → Stamps
  | .seen (.rest id _ _ _) => stamps.stamp id
  | _ => stamps

namespace Market

def Ordered (m : Market) (stamps : Stamps) : Prop :=
  ∀ side px, stamps.InOrder ((m.levels side px).map RO.id)

structure First (m : Market) (stamps : Stamps) (side : Side) (o : RO) : Prop where
  resting : o ∈ m.levels side o.price
  best : ∀ px, m.levels side px ≠ [] → side.Reaches o.price px
  earliest : ∀ other ∈ m.levels side o.price, other ≠ o → stamps.of o.id < stamps.of other.id

def Due (m : Market) (stamps : Stamps) (trade : Trade) : Phase → Prop
  | .taking t => trade.taker = t.id ∧ trade.takerSide = t.side ∧
      t.maker.Within trade.price t.limit ∧
      ∃ o, m.First stamps t.maker o ∧ trade.maker = o.id ∧ trade.price = o.price
  | .crossing _ => ∃ b a, m.First stamps .buy b ∧ m.First stamps .sell a ∧
      trade.taker = b.id ∧ trade.maker = a.id ∧ a.price ≤ trade.price ∧ trade.price ≤ b.price
  | _ => False

/-- A move together with the stamps: its trades are due, and the queues it
leaves stand in order of arrival. -/
structure Prioritized (before : (Market × Phase) × Stamps) (entries : List Entry)
    (after : (Market × Phase) × Stamps) : Prop where
  move : Move before.1 entries after.1
  stamped : after.2 = entries.foldl Stamps.see before.2
  due : ∀ trade, .seen (.trade trade) ∈ entries → before.1.1.Due before.2 trade before.1.2
  ordered : after.1.1.Ordered after.2

variable {m : Market} {stamps : Stamps} {side : Side} {px : Price}

/-! ## What changes of a queue keep the order of arrival -/

theorem Ordered.setLevel (ordered : m.Ordered stamps) {level : List RO}
    (order : stamps.InOrder (level.map RO.id)) : (m.setLevel side px level).Ordered stamps := by
  intro s p
  rw [setLevel_levels]
  split
  · exact order
  · exact ordered s p

theorem Ordered.leave (ordered : m.Ordered stamps) {level : List RO}
    (sub : (level.map RO.id).Sublist ((m.levels side px).map RO.id)) :
    (m.setLevel side px level).Ordered stamps :=
  ordered.setLevel ((ordered side px).sublist sub)

/-- An order arrives at a queue that does not hold it, nor does any other. -/
theorem Ordered.arrive (ordered : m.Ordered stamps) {level : List RO} {o : RO}
    (sub : (level.map RO.id).Sublist ((m.levels side px).map RO.id))
    (absent : o.id ∉ level.map RO.id)
    (elsewhere : ∀ s p, ¬ (s = side ∧ p = px) → o.id ∉ (m.levels s p).map RO.id) :
    (m.setLevel side px (level ++ [o])).Ordered (stamps.stamp o.id) := by
  intro s p
  rw [setLevel_levels]
  split
  · rw [List.map_append]
    exact ((ordered side px).sublist sub).arrive absent
  · rename_i other
    exact (ordered s p).elsewhere (elsewhere s p other)

theorem Ordered.consume (ordered : m.Ordered stamps) (valid : m.Valid) (announced : Price)
    {f : Qty} {o : RO} {rest : List RO} (head : m.levels side px = o :: rest) :
    (m.setLevel side px (consume announced f (o :: rest)).1).Ordered
      (((consume announced f (o :: rest)).2.map Entry.seen).foldl Stamps.see stamps) := by
  have shorter : (rest.map RO.id).Sublist ((m.levels side px).map RO.id) := by
    rw [head, List.map_cons]
    exact List.sublist_cons_self _ _
  rcases consume_cases announced f o rest with ⟨-, equal⟩ | ⟨-, -, equal⟩ | ⟨-, -, equal⟩ <;>
    rw [equal]
  · apply ordered.leave
    rw [head]
    exact List.Sublist.refl _
  · exact ordered.leave shorter
  · have nodup := valid.distinct side px
    rw [head, List.map_cons, List.nodup_cons] at nodup
    have atHead : o ∈ m.levels side px := by simp [head]
    refine ordered.arrive (o := (o.consumed f).replenished) shorter nodup.1 ?_
    intro s p other member
    rcases List.mem_map.mp member with ⟨o', resting, same⟩
    have place := valid.place s p side px o' resting o atHead same
    exact other place

theorem Ordered.first (ordered : m.Ordered stamps) (valid : m.Valid) {o : RO} {rest : List RO}
    (best : m.Best side px) (head : m.levels side px = o :: rest) :
    m.First stamps side o ∧ o.price = px := by
  have atHead : o ∈ m.levels side px := by simp [head]
  have price := (valid.home side px o atHead).2
  have order := ordered side px
  rw [head, List.map_cons] at order
  refine ⟨⟨?_, ?_, ?_⟩, price⟩ <;> rw [price]
  · exact atHead
  · exact best.least
  · intro other member ne
    rw [head] at member
    have behind := (List.mem_cons.mp member).resolve_left ne
    exact order.head_lt (List.mem_map_of_mem behind)

end Market

/-! ## Steps -/

theorem Step.prioritized {state next : Market × Phase} {events : List Event} {stamps : Stamps}
    (valid : ValidState state) (ordered : state.1.Ordered stamps)
    (step : Step state events next) :
    (∀ trade, .trade trade ∈ events → state.1.Due stamps trade state.2) ∧
      next.1.Ordered ((events.map Entry.seen).foldl Stamps.see stamps) := by
  cases step with
  | @fill m t px o rest fill meets other amount =>
      have first := Market.Ordered.first ordered valid.1 meets.best meets.head
      constructor
      · intro trade member
        rcases List.mem_cons.mp member with same | clip
        · cases same
          exact ⟨rfl, rfl, meets.within, o, first.1, rfl, first.2.symm⟩
        · rcases consume_cases px fill o rest with ⟨-, equal⟩ | ⟨-, -, equal⟩ | ⟨-, -, equal⟩ <;>
            simp [equal] at clip
      · exact Market.Ordered.consume ordered valid.1 px meets.head
  | cancelMaker meets own policy =>
      refine ⟨by simp, ?_⟩
      apply Market.Ordered.leave ordered
      rw [meets.head]
      exact List.sublist_cons_self _ _
  | cancelBoth meets own policy =>
      refine ⟨by simp, ?_⟩
      apply Market.Ordered.leave ordered
      rw [meets.head]
      exact List.sublist_cons_self _ _
  | @rest m t price peak left blocked rests =>
      refine ⟨by simp, ?_⟩
      have closed (s : Side) (p : Price) :
          (t.resting price peak).id ∉ (m.levels s p).map RO.id := by
        intro member
        rcases List.mem_map.mp member with ⟨o, resting, same⟩
        apply valid.2.fresh
        rw [← Taker.resting_id (t := t) price peak, ← same]
        exact Market.isOpen_of_mem resting
      have arrived := Market.Ordered.arrive ordered (List.Sublist.refl _)
        (closed t.side price) fun s p _ => closed s p
      rw [Taker.resting_id] at arrived
      exact arrived
  | @cross m clearing bpx apx b a bids asks f bestBid bestAsk bidHead askHead low high amount =>
      have firstBid := Market.Ordered.first ordered valid.1 bestBid bidHead
      have firstAsk := Market.Ordered.first ordered valid.1 bestAsk askHead
      have within := le_total_of_min amount
      have bid := Market.Ordered.consume ordered valid.1 clearing (f := f) bidHead
      have askHead' : (m.setLevel .buy bpx (consume clearing f (b :: bids)).1).levels
          .sell apx = a :: asks := by
        rw [Market.setLevel_levels_side _ _ _ _ _ _ (by decide), askHead]
      have ask := bid.consume (valid.1.fillHead clearing bidHead within.1) clearing
        (f := f) askHead'
      constructor
      · intro trade member
        have isTrade : trade = ⟨b.id, a.id, clearing, f, .buy⟩ := by
          rcases consume_cases clearing f b bids with ⟨-, equal⟩ | ⟨-, -, equal⟩ | ⟨-, -, equal⟩ <;>
            rcases consume_cases clearing f a asks with
              ⟨-, equal'⟩ | ⟨-, -, equal'⟩ | ⟨-, -, equal'⟩ <;>
            simpa [equal, equal'] using member
        rw [isTrade]
        refine ⟨b, a, firstBid.1, firstAsk.1, rfl, rfl, ?_, ?_⟩
        · rw [firstAsk.2]
          exact high
        · rw [firstBid.2]
          exact low
      · rw [List.map_cons, List.map_append, List.foldl_cons, List.foldl_append]
        exact ask
  | cancelTaker meets own policy => exact ⟨by simp, ordered⟩
  | killed announced => exact ⟨by simp, ordered⟩
  | stoppedMarket silent => exact ⟨by simp, ordered⟩
  | filled done => exact ⟨by simp, ordered⟩
  | cancelRemainder left blocked cancels => exact ⟨by simp, ordered⟩
  | discard left blocked discards => exact ⟨by simp, ordered⟩
  | fire next => exact ⟨by simp, ordered⟩
  | crossed apart => exact ⟨by simp, ordered⟩

theorem Market.Begin.ordered {m : Market} {op : Op} {events : List Event} {next : Market × Phase}
    {ret : Ret} {stamps : Stamps} (ordered : m.Ordered stamps)
    (start : m.Begin op events next ret) :
    next.1.Ordered ((events.map Entry.seen).foldl Stamps.see stamps) := by
  have taken {side : Side} {px : Price} {front back : List RO} {o : RO}
      (place : m.levels side px = front ++ o :: back) :
      (m.setLevel side px (front ++ back)).Ordered stamps := by
    apply ordered.leave
    rw [place]
    exact ((List.sublist_cons_self o back).append_left front).map RO.id
  cases start with
  | cancel cancels place => exact taken place
  | erase reduces place all => exact taken place
  | replace place nonzero inside moved => exact taken place
  | reduce reduces place some =>
      apply ordered.leave
      simp [place]
  | reject submit answer => exact ordered
  | refuse entry temporary => exact ordered
  | enter entry nonzero inside resting => exact ordered
  | market running => exact ordered
  | trigger entry nonzero inside limit running armed => exact ordered
  | park entry nonzero inside limit waits => exact ordered
  | decline target cancel => exact ordered
  | cancelStop cancels place => exact ordered
  | halt => exact ordered
  | resume => exact ordered
  | flat => exact ordered
  | uncross bestBid bestAsk low high => exact ordered

theorem Market.Move.prioritized {state next : Market × Phase} {entries : List Entry}
    {stamps : Stamps} (valid : ValidState state) (ordered : state.1.Ordered stamps)
    (move : Move state entries next) :
    Prioritized (state, stamps) entries (next, entries.foldl Stamps.see stamps) := by
  have isMove := move
  cases move with
  | begin settled start =>
      have kept := start.ordered ordered
      refine ⟨isMove, rfl, ?_, kept⟩
      intro trade member
      exact absurd (by simpa using member) start.not_trade
  | step taken =>
      have kept := taken.prioritized valid ordered
      refine ⟨isMove, rfl, ?_, kept.2⟩
      intro trade member
      exact kept.1 trade (by simpa using member)

theorem Market.new_ordered (band : Band) (stamps : Stamps) : (new band).Ordered stamps :=
  fun _ _ => ArrivalStamps.inOrder_nil

theorem Run.prioritized {state next : Market × Phase} {log : List Entry} {stamps : Stamps}
    (run : Run Market.Move state log next) (valid : ValidState state)
    (ordered : state.1.Ordered stamps) :
    Run Market.Prioritized (state, stamps) log (next, log.foldl Stamps.see stamps) ∧
      next.1.Ordered (log.foldl Stamps.see stamps) := by
  have kept : ∀ state entries next stamps, ValidState state ∧ state.1.Ordered stamps →
      Market.Move state entries next →
      Market.Prioritized (state, stamps) entries (next, entries.foldl Stamps.see stamps) ∧
        ValidState next ∧ next.1.Ordered (entries.foldl Stamps.see stamps) := by
    intro state entries next stamps good move
    have prioritized := move.prioritized good.1 good.2
    exact ⟨prioritized, move.valid good.1, prioritized.ordered⟩
  have witnessed := run.witnessed kept ⟨valid, ordered⟩
  exact ⟨witnessed.1, witnessed.2.2⟩

end Matchbook
