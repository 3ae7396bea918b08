import Matchbook.Engine.ArmedStops
import Matchbook.Engine.MarketData

namespace Matchbook

open Transitions

/-! # The queue of the stops

The pending stops wait in one order: by the side, by the trigger and by the arrival. The visit
goes through them in that order, and the pump takes the first that the last trade arms. -/

/-! ## Arrival -/

namespace Market

variable {m m' : Market} {op : Op} {events : List Event} {ret : Ret}

def InArrivalOrder (m : Market) : Prop :=
  m.stops.Pairwise fun first second => first.id < second.id

theorem Step.stops_sublist {state next : Market × Phase} (step : Step state events next) :
    next.1.stops.Sublist state.1.stops := by
  cases step with
  | @fire m front o back next =>
      rw [next.parked]
      exact (List.sublist_cons_self o back).append_left front
  | _ => exact List.Sublist.refl _

theorem Step.run_stops_sublist {state next : Market × Phase} (run : Run Step state events next) :
    next.1.stops.Sublist state.1.stops := by
  induction run with
  | refl => exact List.Sublist.refl _
  | snoc run last induction => exact (Step.stops_sublist last).trans induction

theorem Begin.inArrivalOrder {next : Market × Phase} (start : m.Begin op events next ret)
    (valid : m.Valid) (ordered : m.InArrivalOrder) : next.1.InArrivalOrder := by
  cases start with
  | @park op o entry nonzero inside limit waits =>
      apply List.pairwise_append.mpr
      refine ⟨ordered, List.pairwise_singleton _ o, ?_⟩
      intro earlier parked last isLast
      have issued := (valid.issued earlier.id (isOpen_of_stop parked)).2
      rw [List.mem_singleton.mp isLast]
      cases entry <;> exact issued
  | @cancelStop op front o back cancels place =>
      unfold InArrivalOrder at ordered
      rw [place] at ordered
      exact ordered.sublist ((List.sublist_cons_self o back).append_left front)
  | _ => exact ordered

theorem Performs.inArrivalOrder (performs : m.Performs op events m' ret) (valid : m.Valid)
    (ordered : m.InArrivalOrder) : m'.InArrivalOrder := by
  cases performs with
  | intro start steps settled answers =>
      exact (start.inArrivalOrder valid ordered).sublist (Step.run_stops_sublist steps)

end Market

def PumpsBefore (first second : RO) : Prop :=
  Market.FiresBefore first second ∨
    (first.side = second.side ∧ first.price = second.price ∧ first.id < second.id)

theorem PumpsBefore.not_firesBefore {first second : RO} (before : PumpsBefore first second) :
    ¬ Market.FiresBefore second first := by
  rcases before with (⟨buys, sells⟩ | ⟨same, earlier⟩) | ⟨same, price, -⟩
  · rintro (⟨buys', sells'⟩ | ⟨same', -⟩)
    · rw [buys] at sells'
      cases sells'
    · rw [buys, sells] at same'
      cases same'
  · rintro (⟨buys', sells'⟩ | ⟨-, earlier'⟩)
    · rw [sells', buys'] at same
      cases same
    · rw [same] at earlier
      cases side : second.side <;> rw [side] at earlier earlier' <;>
        simp only [ReferenceEngine.triggersBefore] at earlier earlier' <;> lia
  · rintro (⟨buys', sells'⟩ | ⟨-, earlier'⟩)
    · rw [sells', buys'] at same
      cases same
    · rw [price] at earlier'
      cases side : second.side <;> rw [side] at earlier' <;>
        simp only [ReferenceEngine.triggersBefore] at earlier' <;> lia

/-! ## The order of a visit -/

theorem Goes.head {next : Int → Int} {start : Int} {j : Nat} {levels : List Nat}
    (goes : Goes next start (j :: levels)) : start = j := by
  cases goes
  rfl

namespace LevelBitmap

variable {map : LevelBitmap} (beyond : ∀ i, map.n ≤ i → map.test i = false)

include beyond

theorem goes_up_sorted {start : Int} {levels : List Nat}
    (goes : Goes (fun i => map.findGe (i + 1)) start levels) :
    levels.Pairwise fun first second => first < second := by
  apply List.isChain_iff_pairwise.mp
  induction goes with
  | ends => exact List.isChain_nil
  | @visits i levels rest induction =>
      cases levels with
      | nil => exact List.isChain_singleton i
      | cons j levels =>
          refine List.isChain_cons_cons.mpr ⟨?_, induction⟩
          have start := rest.head
          rcases map.findGe_spec beyond (i + 1) with ⟨missing, -⟩ | ⟨k, found, -, above, -⟩ <;> lia

theorem goes_down_sorted {start : Int} {levels : List Nat}
    (goes : Goes (fun i => map.findLe (i - 1)) start levels) :
    levels.Pairwise fun first second => second < first := by
  have chain : levels.IsChain fun first second => second < first := by
    induction goes with
    | ends => exact List.isChain_nil
    | @visits i levels rest induction =>
        cases levels with
        | nil => exact List.isChain_singleton i
        | cons j levels =>
            refine List.isChain_cons_cons.mpr ⟨?_, induction⟩
            have start := rest.head
            rcases map.findLe_spec beyond (i - 1) with ⟨missing, -⟩ |
              ⟨k, found, -, below, -⟩ <;> lia
  exact List.isChain_iff_pairwise.mp chain

end LevelBitmap

namespace MatchingEngine

variable {H : Type} {min : Price} {nLevels : Nat} {s : MatchingEngine H} {cells : Cells}
  {r : ReferenceEngine H} {side : Side} {stops : List RO} {levels : List Nat}

/-- The stops of one side, level by level in the order of the triggers. -/
theorem pairwise_parkedAt
    (ordered : stops.Pairwise fun first second => first.id < second.id)
    (sorted : levels.Pairwise fun (first second : Nat) =>
      ReferenceEngine.triggersBefore side (min + first) (min + second)) :
    (levels.flatMap fun (i : Nat) => parkedAt side (min + i) stops).Pairwise PumpsBefore := by
  have here {i : Nat} {o : RO} (parked : o ∈ parkedAt side (min + i) stops) :
      o.side = side ∧ o.price = min + i := by
    simpa [parkedAt] using (List.mem_filter.mp parked).2
  rw [List.pairwise_flatMap]
  constructor
  · intro i _
    apply (ordered.filter _).imp_of_mem
    intro first second isFirst isSecond arrival
    rcases here isFirst with ⟨side₁, price₁⟩
    rcases here isSecond with ⟨side₂, price₂⟩
    exact .inr ⟨side₁.trans side₂.symm, price₁.trans price₂.symm, arrival⟩
  · apply sorted.imp
    intro i j before first isFirst second isSecond
    rcases here isFirst with ⟨side₁, price₁⟩
    rcases here isSecond with ⟨side₂, price₂⟩
    refine .inl (.inr ⟨side₁.trans side₂.symm, ?_⟩)
    rw [side₁, price₁, price₂]
    exact before

theorem mem_parked {o : RO} (parked : o ∈ levels.flatMap fun (i : Nat) =>
    parkedAt side (min + i) stops) : o.side = side := by
  rcases List.mem_flatMap.mp parked with ⟨i, -, member⟩
  have here := (List.mem_filter.mp member).2
  simp only [decide_eq_true_eq] at here
  exact here.1

theorem Mirrors.visitStops_sorted (mirrors : Mirrors min nLevels s cells r)
    (valid : r.market.Valid) (ordered : r.market.InArrivalOrder) :
    ∃ stops : List RO, s.visitStops = some (stops.map RO.id) ∧ stops.Perm r.stops ∧
      stops.Pairwise PumpsBefore := by
  cases allocated : s.stopBooks with
  | false =>
      refine ⟨[], by simp [visitStops, allocated], ?_, List.Pairwise.nil⟩
      rw [mirrors.unparked allocated]
  | true =>
      have beyond := stopTest_beyond mirrors allocated valid.stopInside
      have sizes := mirrors.stopMapSize allocated
      have level (side : Side) (o : RO) (member : o ∈ r.stops) (own : o.side = side) :
          ∃ i : Nat, (s.maps side.stopBook).test i = true ∧ o.price = min + i ∧ i < nLevels := by
        rcases valid.stopInside o member with ⟨low, high⟩
        have refMin := mirrors.refMin
        have refMax := mirrors.refMax
        have low : r.min ≤ o.price := low
        have high : o.price ≤ r.max := high
        have price : o.price = min + ((o.price - min).toNat : Int) := by lia
        refine ⟨(o.price - min).toNat, (mirrors.stopOccupied allocated side _).mpr ?_, price,
          by lia⟩
        exact parkedAt_ne_nil.mpr ⟨o, member, own, price⟩
      have enough (side : Side) (levels : List Nat) (nodup : levels.Nodup)
          (set : ∀ j ∈ levels, (s.maps side.stopBook).test j = true) : levels.length ≤ nLevels :=
        sizes side ▸ LevelBitmap.length_le_of_set (beyond side) nodup set
      rcases LevelBitmap.goes_up (beyond .buy) 0 with ⟨ups, goesUp, nodupUps, memUps⟩
      rcases LevelBitmap.goes_down (beyond .sell) (nLevels - 1) with
        ⟨downs, goesDown, nodupDowns, memDowns⟩
      have up := mirrors.visitStopBook_eq valid .buy goesUp
        (enough .buy ups nodupUps fun j member => ((memUps j).mp member).1)
      have down := mirrors.visitStopBook_eq valid .sell goesDown
        (enough .sell downs nodupDowns fun j member => ((memDowns j).mp member).1)
      simp only [Side.stopBook] at up down
      refine ⟨(ups.flatMap fun (i : Nat) => parkedAt .buy (min + i) r.stops) ++
        downs.flatMap fun (i : Nat) => parkedAt .sell (min + i) r.stops, ?_, ?_, ?_⟩
      · rw [visitStops, if_pos allocated, mirrors.fastLevels]
        simp only [up, down, Option.bind_eq_bind, Option.bind_some, List.map_append,
          List.map_flatMap]
      · have bids := perm_parkedAt min .buy r.stops nodupUps <| by
          intro o member own
          rcases level .buy o member own with ⟨i, set, price, -⟩
          exact ⟨i, (memUps i).mpr ⟨set, by lia⟩, price⟩
        have asks := perm_parkedAt min .sell r.stops nodupDowns <| by
          intro o member own
          rcases level .sell o member own with ⟨i, set, price, inRange⟩
          exact ⟨i, (memDowns i).mpr ⟨set, by lia⟩, price⟩
        have sides : (r.stops.filter fun o => o.side = .sell) =
            r.stops.filter fun o => ! decide (o.side = .buy) := by
          apply List.filter_congr
          intro o member
          cases o.side <;> rfl
        exact (bids.append (sides ▸ asks)).trans (List.filter_append_perm _ _)
      · apply List.pairwise_append.mpr
        refine ⟨pairwise_parkedAt ordered ?_, pairwise_parkedAt ordered ?_, ?_⟩
        · apply (LevelBitmap.goes_up_sorted (beyond .buy) goesUp).imp
          intro i j before
          show min + (i : Int) < min + j
          lia
        · apply (LevelBitmap.goes_down_sorted (beyond .sell) goesDown).imp
          intro i j before
          show min + (j : Int) < min + i
          lia
        · intro bid isBid ask isAsk
          exact .inl (.inl ⟨mem_parked isBid, mem_parked isAsk⟩)

/-! ## What the engine tells of its stops -/

def stopDepthAt (s : MatchingEngine H) (side : Side) (stopPrice : Price) : Qty :=
  if ¬ s.inBand stopPrice ∨ s.stopBooks = false then 0
  else (s.mem.levels side.stopBook (s.idx stopPrice)).total

instance (s : MatchingEngine H) (side : Side) (stop : Price) : Decidable (s.Arms side stop) := by
  unfold Arms
  exact inferInstance

/-- The pending stops of the engine are those, and in that order. -/
structure Parks (s : MatchingEngine H) (stops : List RO) : Prop where
  visited : s.visitStops = some (stops.map RO.id)
  sorted : stops.Pairwise PumpsBefore
  queue : ∀ (side : Side) (px : Price), s.queue side.stopBook px = parkedAt side px stops
  depth : ∀ side px, s.stopDepthAt side px =
    (parkedAt side px stops).foldl (fun sum o => sum + o.qty) 0
  pending : s.pendingStops = stops.length
  waits : ∀ id, id ∈ stops.map RO.id ↔
    ∃ o, s.lookup id = some o ∧ (s.mem.nodes o).stopPending = true
  next : s.nextTriggeredStop.map (fun o => (s.mem.nodes o).id) =
    (stops.find? fun o => s.Arms o.side o.price).map RO.id

theorem Mirrors.stopDepthAt_eq (mirrors : Mirrors min nLevels s cells r)
    (valid : r.market.Valid) (side : Side) (px : Price) :
    s.stopDepthAt side px = (parkedAt side px r.stops).foldl (fun sum o => sum + o.qty) 0 := by
  by_cases inside : r.inBand px
  · cases allocated : s.stopBooks with
    | false =>
        rw [stopDepthAt, if_pos (.inr allocated), mirrors.unparked allocated]
        rfl
    | true =>
        have here := (mirrors.inBand_iff px).mpr inside
        have sum := sum_eq_foldl RO.qty (cells side.stopBook (s.idx px)) 0
        rw [mirrors.parked, (mirrors.idx_eq inside).1, zero_add] at sum
        rw [stopDepthAt, if_neg (by simp [here, allocated]), sum, mirrors.heap.filed.total]
  · have outside := mt (mirrors.inBand_iff px).mp inside
    rw [stopDepthAt, if_pos (.inl outside), parkedAt_outside valid side inside]
    rfl

theorem parkedAt_eq (ordered : r.market.InArrivalOrder) (perm : stops.Perm r.stops)
    (sorted : stops.Pairwise PumpsBefore) (side : Side) (px : Price) :
    parkedAt side px stops = parkedAt side px r.stops := by
  apply List.Perm.eq_of_pairwise _ _ (ordered.filter _) (perm.filter _)
  · intro first second _ _ before after
    exact absurd (before.trans after) (Nat.lt_irrefl _)
  · apply (sorted.filter _).imp_of_mem
    intro first second isFirst isSecond before
    have here := (List.mem_filter.mp isFirst).2
    have here' := (List.mem_filter.mp isSecond).2
    simp only [decide_eq_true_eq] at here here'
    rcases before with (⟨buys, sells⟩ | ⟨same, earlier⟩) | ⟨-, -, arrival⟩
    · rw [here.1.symm.trans buys] at here'
      rw [sells] at here'
      cases here'.1
    · rw [here.2, here'.2] at earlier
      exact absurd earlier (ReferenceEngine.triggersBefore_irrefl _ _)
    · exact arrival

theorem Mirrors.waits_iff (mirrors : Mirrors min nLevels s cells r) (valid : r.market.Valid)
    (id : OrderId) :
    id ∈ r.stops.map RO.id ↔ ∃ o, s.lookup id = some o ∧ (s.mem.nodes o).stopPending = true := by
  constructor
  · intro member
    rcases List.mem_map.mp member with ⟨o, parked, rfl⟩
    rcases valid.stopInside o parked with ⟨low, high⟩
    have refMin := mirrors.refMin
    have low : r.min ≤ o.price := low
    have price : o.price = min + ((o.price - min).toNat : Int) := by lia
    have inLevel : o ∈ parkedAt o.side (min + ((o.price - min).toNat : Int)) r.stops := by
      rw [← price]
      simp [parkedAt, parked]
    rw [← mirrors.parked] at inLevel
    rcases List.mem_map.mp inLevel with ⟨⟨ptr, o'⟩, inCells, rfl⟩
    refine ⟨ptr, (mirrors.heap.filed.table _ ptr).mpr ⟨_, _, _, inCells, rfl⟩, ?_⟩
    rw [(mirrors.heap.filed.holds _ _ ptr _ inCells).node]
    exact Side.stopBook_holdsStops _
  · rintro ⟨ptr, lookup, waiting⟩
    rcases (mirrors.heap.filed.table id ptr).mp lookup with ⟨book, i, o, member, rfl⟩
    have present := List.mem_map_of_mem (f := Prod.snd) member
    rw [(mirrors.heap.filed.holds book i ptr o member).node] at waiting
    rcases book_cases book with ⟨side, rfl | rfl⟩
    · rw [Memory.nodeOf, side.book_holdsStops] at waiting
      cases waiting
    · rw [mirrors.parked] at present
      exact List.mem_map_of_mem (List.mem_of_mem_filter present)

/-- The pump takes the first stop of the queue that the last trade arms. -/
theorem Mirrors.next_eq (mirrors : Mirrors min nLevels s cells r) (valid : r.market.Valid)
    (ordered : r.market.InArrivalOrder) (perm : stops.Perm r.stops)
    (sorted : stops.Pairwise PumpsBefore) :
    s.nextTriggeredStop.map (fun o => (s.mem.nodes o).id) =
      (stops.find? fun o => s.Arms o.side o.price).map RO.id := by
  let s' : MatchingEngine H := { s with halted := false }
  let r' : ReferenceEngine H := { r with halted := false }
  have mirrors' : Mirrors min nLevels s' cells r' := { mirrors with halted := rfl }
  have arms (o : RO) : s.Arms o.side o.price ↔ r'.market.Armed o := by
    have last := mirrors.hasLast
    by_cases printed : r.hasLast = true
    · rw [ReferenceEngine.armed_iff (r := r') printed, Arms, last, triggered_iff mirrors]
      exact and_iff_right printed
    · constructor
      · rintro ⟨isLast, -⟩
        exact absurd (last.symm.trans isLast) printed
      · rintro ⟨px, isLast, -⟩
        simp [r', ReferenceEngine.market, printed] at isLast
  have inside : ∀ o ∈ r'.stops, r'.inBand o.price := valid.stopInside
  cases found : stops.find? fun o => s.Arms o.side o.price with
  | none =>
      have quiet : s'.nextTriggeredStop = none := by
        apply nextTriggeredStop_none mirrors' inside
        intro o member armed
        have := List.find?_eq_none.mp found o (perm.mem_iff.mpr member)
        exact this (by simpa using (arms o).mpr armed)
      rw [show s.nextTriggeredStop = none from quiet]
      rfl
  | some o =>
      rcases List.find?_eq_some_iff_append.mp found with ⟨armed, earlier, later, split, none⟩
      have member : o ∈ r.stops := perm.mem_iff.mp (by simp [split])
      rcases List.append_of_mem member with ⟨front, back, place⟩
      have after (other : RO) (isStop : other ∈ r.stops) (otherArmed : r'.market.Armed other) :
          other = o ∨ PumpsBefore o other := by
        have listed := perm.mem_iff.mpr isStop
        rw [split] at listed sorted
        rcases List.mem_append.mp listed with before | fromHere
        · have off := none other before
          rw [Bool.not_eq_true', decide_eq_false_iff_not] at off
          exact absurd ((arms other).mpr otherArmed) off
        · rcases List.mem_cons.mp fromHere with same | rest
          · exact .inl same
          · exact .inr ((List.pairwise_cons.mp (List.pairwise_append.mp sorted).2.1).1 other rest)
      have next : r'.market.NextStop front o back := by
        constructor
        case running => rfl
        case parked => exact place
        case armed => exact (arms o).mp (by simpa using armed)
        case first =>
          intro other isStop otherArmed before
          rcases after other isStop otherArmed with rfl | behind
          · rcases before with ⟨buys, sells⟩ | ⟨-, earlier⟩
            · rw [buys] at sells
              cases sells
            · exact ReferenceEngine.triggersBefore_irrefl _ _ earlier
          · exact behind.not_firesBefore before
        case fifo =>
          intro other isFront otherArmed
          have arrival : other.id < o.id := by
            unfold Market.InArrivalOrder at ordered
            rw [show r.market.stops = front ++ o :: back from place] at ordered
            exact (List.pairwise_append.mp ordered).2.2 other isFront o List.mem_cons_self
          rcases after other (by simp [place, isFront]) otherArmed with rfl | before | ⟨-, -, late⟩
          · exact absurd arrival (Nat.lt_irrefl _)
          · exact before
          · exact absurd (arrival.trans late) (Nat.lt_irrefl _)
      rcases nextTriggeredStop_some mirrors' inside next with ⟨ptr, back', taken, here, -⟩
      have inCells : (ptr, o) ∈ cells o.side.stopBook (s'.idx o.price) := by simp [here]
      rw [show s.nextTriggeredStop = some ptr from taken, Option.map_some, Option.map_some,
        (mirrors.heap.filed.holds _ _ ptr o inCells).node]
      rfl

variable {band : Band}

theorem Simulates.parks (simulates : Simulates band s r) (ordered : r.market.InArrivalOrder) :
    ∃ stops, s.Parks stops := by
  have valid := simulates.sound.valid
  have shows := simulates.shows
  rcases simulates.tracks with ⟨cells, mirrors, -⟩
  rcases mirrors.visitStops_sorted valid ordered with ⟨stops, visited, perm, sorted⟩
  have level := parkedAt_eq ordered perm sorted
  refine ⟨stops, ?_⟩
  constructor
  case visited => exact visited
  case sorted => exact sorted
  case queue => exact fun side px => (shows.stops side px).trans (level side px).symm
  case depth =>
    intro side px
    rw [mirrors.stopDepthAt_eq valid, level]
  case pending => rw [mirrors.pending, perm.length_eq]
  case waits =>
    intro id
    rw [← mirrors.waits_iff valid, (perm.map RO.id).mem_iff]
  case next => exact mirrors.next_eq valid ordered perm sorted

/-! ## Runs -/

section runs

variable [Handler H]

/-- What every operation keeps of a market holds after every run. -/
theorem Simulates.runOps_keeps {Invariant : Market → Prop}
    (kept : ∀ {m op events m' ret}, m.Valid → Invariant m →
      Market.Performs m op events m' ret → Invariant m')
    (simulates : Simulates band s r) (initial : Invariant r.market) (ops : List Op) :
    ∃ s' r' rets, s.runOps ops = some (s', rets) ∧ Simulates band s' r' ∧ Invariant r'.market := by
  induction ops generalizing s r with
  | nil => exact ⟨s, r, [], rfl, simulates, initial⟩
  | cons op ops induction =>
      rcases simulates.step op with ⟨s₁, r₁, ret, fast, -, simulates₁, performed⟩
      rcases performed.performs with ⟨events, performs, -⟩
      rcases induction simulates₁ (kept simulates.sound.valid initial performs) with
        ⟨s', r', rets, run, simulates', invariant⟩
      exact ⟨s', r', ret :: rets, by rw [MatchingEngine.runOps, fast]; simp [run], simulates',
        invariant⟩

/-- After any run the pending stops wait in one queue, by side, trigger and arrival, and all that
the engine tells of them is that queue. -/
theorem runOps_parks (band : Band) (h : H) (expectedOrders : Nat) (ops : List Op) :
    ∃ s rets stops, (new band h expectedOrders).runOps ops = some (s, rets) ∧ s.Parks stops := by
  have initial : (ReferenceEngine.new band h).market.InArrivalOrder := by
    rw [market_new]
    exact List.Pairwise.nil
  rcases (simulates_new band h expectedOrders).runOps_keeps
    (fun valid ordered performs => performs.inArrivalOrder valid ordered) initial ops with
    ⟨s, r, rets, run, simulates, ordered⟩
  rcases simulates.parks ordered with ⟨stops, parks⟩
  exact ⟨s, rets, stops, run, parks⟩

end runs

end MatchingEngine

end Matchbook
