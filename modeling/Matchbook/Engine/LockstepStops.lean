import Matchbook.Engine.Lockstep

namespace Matchbook

open BoundedLoop IntrusiveList

/-! # Stops in lockstep

The stop books hold the reference's stops sorted by side and trigger, so the
first order of the first level is the stop its scan finds. -/

namespace MatchingEngine

variable {H : Type} {min : Price} {nLevels : Nat} {pumping : Bool} {s : MatchingEngine H}
  {cells : Cells} {r r' : ReferenceEngine H} {side : Side} {o : RO} {ptr : Ptr} {i : Nat}
  {front back : List RO}

theorem parkedAt_append (side : Side) (trigger : Price) (front back : List RO) :
    parkedAt side trigger (front ++ back) =
      parkedAt side trigger front ++ parkedAt side trigger back := by
  simp [parkedAt]

theorem parkedAt_cons_self (o : RO) (back : List RO) :
    parkedAt o.side o.price (o :: back) = o :: parkedAt o.side o.price back := by
  simp [parkedAt]

theorem parkedAt_cons_ne {trigger : Price} (ne : ¬ (o.side = side ∧ o.price = trigger))
    (back : List RO) : parkedAt side trigger (o :: back) = parkedAt side trigger back := by
  simp only [parkedAt]
  exact List.filter_cons_of_neg (by simpa using ne)

/-! ## Parking -/

namespace Mirrors

theorem parked_nil (mirrors : Mirrors min nLevels s cells r) (empty : r.stops = []) (side : Side)
    (i : Nat) : cells side.stopBook i = [] := by
  have parked := mirrors.parked side i
  rw [empty] at parked
  exact List.map_eq_nil_iff.mp parked

theorem ensureStopBooks (mirrors : Mirrors min nLevels s cells r) :
    Mirrors min nLevels s.ensureStopBooks cells r ∧ s.ensureStopBooks.stopBooks = true := by
  unfold MatchingEngine.ensureStopBooks
  by_cases allocated : s.stopBooks = true
  · rw [if_pos allocated]
    exact ⟨mirrors, allocated⟩
  · rw [if_neg allocated]
    have empty := mirrors.unparked (by simpa using allocated)
    have noCells := mirrors.parked_nil empty
    have filed := mirrors.heap.filed
    refine ⟨{ mirrors with
      heap := ⟨⟨?_, ?_, ?_, ?_, ?_, filed.apart, filed.table⟩, ?_⟩
      occupied := fun side i => ?_
      mapSize := fun side => ?_
      unparked := fun absent => by simp at absent
      stopOccupied := fun _ side i => ?_
      stopMapSize := fun _ side => ?_ }, rfl⟩
    · intro book i
      have linked := filed.linked book i
      cases book
      · exact linked
      · exact linked
      · rw [show cells .stopBids i = [] from noCells .buy i]
        exact isList_nil _
      · rw [show cells .stopAsks i = [] from noCells .sell i]
        exact isList_nil _
    · exact fun book i other x inside => (filed.holds book i other x inside).congr rfl rfl
    · intro book i
      have total := filed.total book i
      cases book
      · exact total
      · exact total
      · rw [show cells .stopBids i = [] from noCells .buy i]
        rfl
      · rw [show cells .stopAsks i = [] from noCells .sell i]
        rfl
    · intro book i
      have hidden := filed.hidden book i
      cases book
      · exact hidden
      · exact hidden
      · rw [show cells .stopBids i = [] from noCells .buy i]
        rfl
      · rw [show cells .stopAsks i = [] from noCells .sell i]
        rfl
    · intro book i
      have count := filed.count book i
      cases book
      · exact count
      · exact count
      · rw [show cells .stopBids i = [] from noCells .buy i]
        rfl
      · rw [show cells .stopAsks i = [] from noCells .sell i]
        rfl
    · rcases mirrors.heap.stocked with ⟨pool, free, distinct, used, apart⟩
      exact ⟨pool, free, distinct, used, apart⟩
    · have occupied := mirrors.occupied side i
      cases side <;> exact occupied
    · have size := mirrors.mapSize side
      cases side <;> exact size
    · rw [empty]
      cases side <;> simp [Side.stopBook, LevelBitmap.test_new, parkedAt]
    · rw [← mirrors.fastLevels]
      cases side <;> rfl

/-- A stop joins the stop book of its trigger. -/
theorem park (mirrors : Mirrors min nLevels s cells r) (allocated : s.stopBooks = true)
    (trigger : o.price = min + i) (inRange : i < nLevels) {mem : Memory}
    (heap : mem.Heap (cells.set o.side.stopBook i (cells o.side.stopBook i ++ [(ptr, o)])))
    (orders : mem.orders.size = s.mem.orders.size) :
    let s' := { s with mem, pendingStops := s.pendingStops + 1 }
    Mirrors min nLevels
      (if (s.mem.levels o.side.stopBook i).tail.isNone then
        s'.setMap o.side.stopBook ((s.maps o.side.stopBook).set i) else s')
      (cells.set o.side.stopBook i (cells o.side.stopBook i ++ [(ptr, o)]))
      { r with stops := r.stops ++ [o] } := by
  intro s'
  have inMap : i < (s.maps o.side.stopBook).n := by
    rw [mirrors.stopMapSize allocated]
    exact inRange
  have parked (other : Side) (j : Nat) : parkedAt other (min + j) (r.stops ++ [o]) =
      parkedAt other (min + j) r.stops ++ if other = o.side ∧ j = i then [o] else [] := by
    rw [parkedAt_append]
    congr 1
    by_cases here : other = o.side ∧ j = i
    · rw [if_pos here, here.1, here.2, ← trigger, parkedAt_cons_self]
      rfl
    · rw [if_neg here, parkedAt_cons_ne]
      · rfl
      · rintro ⟨same, price⟩
        exact here ⟨same.symm, by lia⟩
  have isEmpty : (s.mem.levels o.side.stopBook i).tail.isNone = true ↔
      parkedAt o.side (min + i) r.stops = [] := by
    rw [Option.isNone_iff_eq_none, mirrors.heap.filed.tail_none_iff, ← mirrors.parked,
      List.map_eq_nil_iff]
  -- Setting the bit again changes nothing.
  have maps : (if (s.mem.levels o.side.stopBook i).tail.isNone then
      s'.setMap o.side.stopBook ((s.maps o.side.stopBook).set i) else s') =
      { s' with maps := if (s.mem.levels o.side.stopBook i).tail.isNone then
          Function.update s.maps o.side.stopBook ((s.maps o.side.stopBook).set i)
        else s.maps } := by
    split <;> rfl
  rw [maps]
  exact { mirrors with
    heap := heap
    resting := fun other j => by
      rw [Cells.set_stopBook_book]
      exact mirrors.resting other j
    parked := fun other j => by
      rw [Cells.set_stopBook_stopBook, parked]
      split
      · rename_i here
        rw [List.map_append, here.1, here.2, mirrors.parked]
        rfl
      · rw [List.append_nil, mirrors.parked]
    occupied := fun other j => by
      split
      · simp only [Function.update_of_ne (Side.book_ne_stopBook _ _)]
        exact mirrors.occupied other j
      · exact mirrors.occupied other j
    mapSize := fun other => by
      split
      · simp only [Function.update_of_ne (Side.book_ne_stopBook _ _)]
        exact mirrors.mapSize other
      · exact mirrors.mapSize other
    unparked := fun absent => by
      rw [show s.stopBooks = false from absent] at allocated
      contradiction
    stopOccupied := fun _ other j => by
      have old := mirrors.stopOccupied allocated other j
      rw [parked]
      split
      · simp only [Function.update_apply, Side.stopBook_inj]
        by_cases same : other = o.side
        · subst same
          rw [if_pos rfl, test_set_iff inMap, old]
          by_cases here : j = i <;> simp [here]
        · simp [same, old]
      · rename_i occupied
        rw [isEmpty] at occupied
        by_cases here : other = o.side ∧ j = i
        · rcases here with ⟨rfl, rfl⟩
          simp [old, occupied]
        · simp [here, old]
    stopMapSize := fun _ other => by
      split
      · simp only [Function.update_apply, Side.stopBook_inj]
        split
        · exact mirrors.stopMapSize allocated o.side
        · exact mirrors.stopMapSize allocated other
      · exact mirrors.stopMapSize allocated other
    ids := orders.trans mirrors.ids
    pending := by simp [s', mirrors.pending] }

/-- A parked stop in the stop book of its trigger. -/
theorem stopPlace (mirrors : Mirrors min nLevels s cells r)
    (stops : r.stops = front ++ o :: back) (trigger : o.price = min + i) :
    ∃ front' ptr back', cells o.side.stopBook i = front' ++ (ptr, o) :: back' ∧
      front'.map Prod.snd = parkedAt o.side o.price front ∧
      back'.map Prod.snd = parkedAt o.side o.price back := by
  have parked := mirrors.parked o.side i
  rw [← trigger, stops, parkedAt_append, parkedAt_cons_self] at parked
  rcases List.map_eq_append_iff.mp parked with ⟨front', rest, split, sameFront, sameRest⟩
  rcases List.map_eq_cons_iff.mp sameRest with ⟨⟨ptr, o'⟩, back', rfl, rfl, sameBack⟩
  exact ⟨front', ptr, back', split, sameFront, sameBack⟩

/-- A stop leaves its stop book. -/
theorem unpark (mirrors : Mirrors min nLevels s cells r)
    (stops : r.stops = front ++ o :: back) (inside : r.inBand o.price)
    {front' back' : List (Ptr × RO)}
    (place : cells o.side.stopBook (s.idx o.price) = front' ++ (ptr, o) :: back')
    (sameFront : front'.map Prod.snd = parkedAt o.side o.price front)
    (sameBack : back'.map Prod.snd = parkedAt o.side o.price back) :
    Mirrors min nLevels ((s.removeStop ptr).dispose ptr)
      (cells.set o.side.stopBook (s.idx o.price) (front' ++ back'))
      { r with stops := front ++ back } := by
  rcases mirrors.idx_eq inside with ⟨trigger, inRange⟩
  have node := (mirrors.heap.filed.holds o.side.stopBook (s.idx o.price) ptr o
    (by simp [place])).node
  have heap := mirrors.heap.unlinkOrder place
  generalize index : s.idx o.price = i at *
  have allocated : s.stopBooks = true := by
    by_contra absent
    have empty := mirrors.unparked (by simpa using absent)
    rw [stops] at empty
    simp at empty
  have inMap : i < (s.maps o.side.stopBook).n := by
    rw [mirrors.stopMapSize allocated]
    exact inRange
  have parked (other : Side) (j : Nat) (elsewhere : ¬ (other = o.side ∧ j = i)) :
      parkedAt other (min + j) (front ++ back) = parkedAt other (min + j) r.stops := by
    rw [stops, parkedAt_append, parkedAt_append, parkedAt_cons_ne]
    rintro ⟨same, price⟩
    exact elsewhere ⟨same.symm, by lia⟩
  have parkedHere : (front' ++ back').map Prod.snd =
      parkedAt o.side (min + i) (front ++ back) := by
    rw [List.map_append, sameFront, sameBack, trigger, parkedAt_append]
  have isEmpty : ((s.mem.unlinkOrder o.side.stopBook i ptr).levels
      o.side.stopBook i).head.isNone = true ↔
        parkedAt o.side (min + i) (front ++ back) = [] := by
    have emptied := @Memory.Filed.empty_iff _ _ o.side.stopBook i heap.filed
    rw [Memory.release_levels, Cells.set_self] at emptied
    rw [Option.isNone_iff_eq_none, ← parkedHere, List.map_eq_nil_iff]
    exact emptied
  have removed : (s.removeStop ptr).dispose ptr = { s with
      mem := ((s.mem.unlinkOrder o.side.stopBook i ptr).forget o.id).release ptr
      pendingStops := s.pendingStops - 1
      maps := if ((s.mem.unlinkOrder o.side.stopBook i ptr).levels o.side.stopBook i).head.isNone
        then Function.update s.maps o.side.stopBook ((s.maps o.side.stopBook).clear i)
        else s.maps } := by
    have sameSide : (s.mem.nodes ptr).side = o.side := by rw [node]; rfl
    have samePrice : (s.mem.nodes ptr).price = o.price := by rw [node]; rfl
    have sameId : ((s.mem.unlinkOrder o.side.stopBook i ptr).nodes ptr).id = o.id := by
      show (s.mem.nodes ptr).id = o.id
      rw [node]
      rfl
    simp only [removeStop, sameSide, samePrice, index]
    split <;> simp only [dispose, setMap, sameId]
  rw [removed]
  exact { mirrors with
    heap := heap
    resting := fun other j => by
      rw [Cells.set_stopBook_book]
      exact mirrors.resting other j
    parked := fun other j => by
      rw [Cells.set_stopBook_stopBook]
      split
      · rename_i here
        rw [parkedHere, here.1, here.2]
      · rename_i elsewhere
        rw [parked other j elsewhere, mirrors.parked]
    occupied := fun other j => by
      split
      · simp only [Function.update_of_ne (Side.book_ne_stopBook _ _)]
        exact mirrors.occupied other j
      · exact mirrors.occupied other j
    mapSize := fun other => by
      split
      · simp only [Function.update_of_ne (Side.book_ne_stopBook _ _)]
        exact mirrors.mapSize other
      · exact mirrors.mapSize other
    unparked := fun absent => by
      rw [show s.stopBooks = false from absent] at allocated
      contradiction
    stopOccupied := fun _ other j => by
      have old := mirrors.stopOccupied allocated other j
      by_cases here : other = o.side ∧ j = i
      · rcases here with ⟨rfl, rfl⟩
        split
        · rename_i empty
          simp only [Function.update_self, test_clear_iff inMap]
          simp [isEmpty.mp empty]
        · rename_i occupied
          rw [isEmpty] at occupied
          rw [old]
          have was : parkedAt o.side (min + j) r.stops ≠ [] := by
            rw [trigger, stops, parkedAt_append, parkedAt_cons_self]
            simp
          simp [occupied, was]
      · rw [parked other j here]
        split
        · simp only [Function.update_apply, Side.stopBook_inj]
          by_cases same : other = o.side
          · subst same
            rw [if_pos rfl, test_clear_iff inMap, old]
            grind
          · simp [same, old]
        · exact old
    stopMapSize := fun _ other => by
      split
      · simp only [Function.update_apply, Side.stopBook_inj]
        split
        · exact mirrors.stopMapSize allocated o.side
        · exact mirrors.stopMapSize allocated other
      · exact mirrors.stopMapSize allocated other
    ids := by
      simp [Memory.unlinkOrder, Memory.forget, mirrors.ids]
    pending := by
      have pending := mirrors.pending
      rw [stops] at pending
      simp only [List.length_append, List.length_cons] at pending ⊢
      omega }

end Mirrors

/-- What parking does with the memory. -/
theorem restStop_eq {live : Ptr → Prop} (stocked : s.ensureStopBooks.mem.Stocked live)
    (id : OrderId) (side : Side) (stopPrice limitPrice : Price) (qty : Qty) (isMarket : Bool)
    (owner : OwnerId) (stp : StpPolicy) :
    s.restStop id side stopPrice limitPrice qty isMarket owner stp =
      let s := s.ensureStopBooks
      let i := s.idx stopPrice
      let o : RO :=
        { id, side, price := stopPrice, qty, owner, stp, stopMarket := isMarket,
          stopLimit := limitPrice }
      let mem := if isMarket then s.mem.insertPlain side.stopBook i o
        else s.mem.insertShaped side.stopBook i o
      let s' := { s with mem, pendingStops := s.pendingStops + 1 }
      if (s.mem.levels side.stopBook i).tail.isNone then
        s'.setMap side.stopBook ((s.maps side.stopBook).set i)
      else s' := by
  unfold restStop
  generalize s.ensureStopBooks = s at stocked
  cases isMarket with
  | true => simp [Memory.insertPlain, Memory.append, Memory.nodeOf]
  | false =>
      have blank := Memory.insertShaped_blank stocked
        { id, price := stopPrice, qty
          ext := some { s.mem with pool := s.mem.pool.alloc.2 }.allocExtra.1
          owner, side, stp, iceberg := false, stopPending := true, stopMarket := false } rfl
      simp only [Bool.false_eq_true, if_false, blank]
      simp [Memory.insertShaped, Memory.append, Memory.nodeOf, RO.extra,
        Memory.setLevel_eq_self]

theorem restStop_lockstep {id : OrderId} {stopPrice limitPrice : Price} {qty : Qty}
    {isMarket : Bool} {owner : OwnerId} {stp : StpPolicy}
    (tracks : Tracks min nLevels pumping false s r) (inside : r.inBand stopPrice)
    (unused : s.mem.lookup id = none) (issued : id < r.nextId)
    (unlimited : isMarket = true → limitPrice = 0) :
    Tracks min nLevels pumping false
      (s.restStop id side stopPrice limitPrice qty isMarket owner stp)
      { r with stops := r.stops ++
        [{ id, side, price := stopPrice, qty, owner, stp, stopMarket := isMarket,
           stopLimit := limitPrice }] } := by
  rcases tracks with ⟨cells, mirrors, flags⟩
  rcases mirrors.ensureStopBooks with ⟨ensured, allocated⟩
  rw [restStop_eq ensured.heap.stocked]
  have flags : s.ensureStopBooks.pumping = pumping ∧ s.ensureStopBooks.stpHalt = false := by
    unfold ensureStopBooks
    split <;> exact flags
  have unused : s.ensureStopBooks.mem.lookup id = none := by
    unfold ensureStopBooks
    split <;> exact unused
  generalize s.ensureStopBooks = s at ensured allocated flags unused
  have issued : id < s.mem.orders.size := by
    rw [ensured.ids]
    exact issued
  rcases ensured.idx_eq inside with ⟨trigger, inRange⟩
  let o : RO :=
    { id, side, price := stopPrice, qty, owner, stp, stopMarket := isMarket,
      stopLimit := limitPrice }
  have heap : (if isMarket then s.mem.insertPlain side.stopBook (s.idx stopPrice) o
      else s.mem.insertShaped side.stopBook (s.idx stopPrice) o).Heap
      (cells.set side.stopBook (s.idx stopPrice)
        (cells side.stopBook (s.idx stopPrice) ++ [(s.mem.pool.alloc.1, o)])) := by
    cases isMarket with
    | true =>
        have bare : o.extra = {} := by simp [RO.extra, o, unlimited]
        exact ensured.heap.insertPlain unused issued rfl bare
    | false => exact ensured.heap.insertShaped unused issued fun _ => rfl
  have orders : (if isMarket then s.mem.insertPlain side.stopBook (s.idx stopPrice) o
      else s.mem.insertShaped side.stopBook (s.idx stopPrice) o).orders.size =
        s.mem.orders.size := by
    split <;> simp
  refine ⟨_, ensured.park (o := o) allocated trigger.symm inRange heap orders, ?_⟩
  dsimp only
  split <;> exact flags

/-! ## The next stop -/

def firstTrigger (s : MatchingEngine H) : Side → Int
  | .buy => (s.maps .stopBids).findGe 0
  | .sell => (s.maps .stopAsks).findLe ((s.nLevels : Int) - 1)

theorem parkedAt_ne_nil {trigger : Price} {stops : List RO} :
    parkedAt side trigger stops ≠ [] ↔ ∃ o ∈ stops, o.side = side ∧ o.price = trigger := by
  simp [parkedAt, List.filter_eq_nil_iff]

theorem stopTest_beyond (mirrors : Mirrors min nLevels s cells r)
    (allocated : s.stopBooks = true) (inside : ∀ o ∈ r.stops, r.inBand o.price) (side : Side)
    (i : Nat) (large : (s.maps side.stopBook).n ≤ i) :
    (s.maps side.stopBook).test i = false := by
  have refMax := mirrors.refMax
  rw [mirrors.stopMapSize allocated] at large
  by_contra set
  have parked := (mirrors.stopOccupied allocated side i).mp (by simpa using set)
  rcases parkedAt_ne_nil.mp parked with ⟨o, member, -, price⟩
  have high := (inside o member).2
  lia

/-- What the bitmap search finds: no stop of the side, or the first trigger. -/
theorem firstTrigger_spec (mirrors : Mirrors min nLevels s cells r)
    (allocated : s.stopBooks = true) (inside : ∀ o ∈ r.stops, r.inBand o.price) (side : Side) :
    (s.firstTrigger side = -1 ∧ ∀ o ∈ r.stops, o.side ≠ side) ∨
    ∃ i : Nat, s.firstTrigger side = i ∧ parkedAt side (min + i) r.stops ≠ [] ∧
      ∀ o ∈ r.stops, o.side = side →
        ¬ ReferenceEngine.triggersBefore side o.price (min + i) := by
  have refMin := mirrors.refMin
  have refMax := mirrors.refMax
  have beyond := stopTest_beyond mirrors allocated inside side
  have set (o : RO) (member : o ∈ r.stops) (same : o.side = side) :
      ∃ i : Nat, o.price = min + i ∧ i < nLevels ∧ (s.maps side.stopBook).test i = true := by
    rcases inside o member with ⟨low, high⟩
    refine ⟨(o.price - min).toNat, by lia, by lia, ?_⟩
    refine (mirrors.stopOccupied allocated side _).mpr (parkedAt_ne_nil.mpr ?_)
    exact ⟨o, member, same, by lia⟩
  cases side with
  | buy =>
      rcases (s.maps .stopBids).findGe_spec beyond 0 with ⟨missing, none⟩ |
        ⟨i, found, isSet, -, least⟩
      · refine .inl ⟨missing, fun o member same => ?_⟩
        rcases set o member same with ⟨i, -, -, isSet⟩
        exact none i (by lia) isSet
      · refine .inr ⟨i, found, (mirrors.stopOccupied allocated .buy i).mp isSet,
          fun o member same => ?_⟩
        rcases set o member same with ⟨j, price, -, isSet⟩
        have le := least j isSet (by lia)
        simp only [ReferenceEngine.triggersBefore]
        lia
  | sell =>
      rcases (s.maps .stopAsks).findLe_spec beyond ((s.nLevels : Int) - 1) with
        ⟨missing, none⟩ | ⟨i, found, isSet, -, greatest⟩
      · refine .inl ⟨missing, fun o member same => ?_⟩
        rcases set o member same with ⟨i, -, inRange, isSet⟩
        have fastLevels := mirrors.fastLevels
        exact none i (by lia) isSet
      · refine .inr ⟨i, found, (mirrors.stopOccupied allocated .sell i).mp isSet,
          fun o member same => ?_⟩
        rcases set o member same with ⟨j, price, inRange, isSet⟩
        have fastLevels := mirrors.fastLevels
        have le := greatest j isSet (by lia)
        simp only [ReferenceEngine.triggersBefore]
        lia

def Hit (s : MatchingEngine H) (side : Side) : Prop :=
  0 ≤ s.firstTrigger side ∧ stopTriggered side (s.min + s.firstTrigger side) s.lastPx

instance (s : MatchingEngine H) (side : Side) : Decidable (s.Hit side) := by
  unfold Hit
  exact inferInstance

theorem nextTriggeredStop_eq (printed : s.hasLast = true) (allocated : s.stopBooks = true) :
    s.nextTriggeredStop =
      if s.Hit .buy then (s.mem.levels .stopBids (s.firstTrigger .buy).toNat).head
      else if s.Hit .sell then (s.mem.levels .stopAsks (s.firstTrigger .sell).toNat).head
      else none := by
  simp only [nextTriggeredStop, printed, allocated, and_self, if_true]
  rfl

theorem triggered_iff (mirrors : Mirrors min nLevels s cells r) (side : Side) (stop : Price) :
    stopTriggered side stop s.lastPx ↔ r.triggered side stop := by
  rw [mirrors.last]
  cases side <;> rfl

theorem triggered_of_not_before {first stop : Price} (triggered : r.triggered side stop)
    (notBefore : ¬ ReferenceEngine.triggersBefore side stop first) : r.triggered side first := by
  cases side <;>
    simp only [ReferenceEngine.triggered, ReferenceEngine.triggersBefore] at * <;> lia

theorem hit_iff (mirrors : Mirrors min nLevels s cells r) (allocated : s.stopBooks = true)
    (inside : ∀ o ∈ r.stops, r.inBand o.price) (side : Side) :
    s.Hit side ↔ ∃ o ∈ r.stops, o.side = side ∧ r.triggered side o.price := by
  unfold Hit
  rw [mirrors.fastMin, triggered_iff mirrors]
  rcases firstTrigger_spec mirrors allocated inside side with
    ⟨missing, none⟩ | ⟨i, found, parked, first⟩
  · rw [missing]
    refine ⟨fun hit => absurd hit.1 (by decide), ?_⟩
    rintro ⟨o, member, same, -⟩
    exact absurd same (none o member)
  · rw [found]
    constructor
    · rintro ⟨-, triggered⟩
      rcases parkedAt_ne_nil.mp parked with ⟨o, member, same, price⟩
      exact ⟨o, member, same, price ▸ triggered⟩
    · rintro ⟨o, member, same, triggered⟩
      exact ⟨Int.natCast_nonneg i, triggered_of_not_before triggered (first o member same)⟩

theorem nextTriggeredStop_none (mirrors : Mirrors min nLevels s cells r)
    (inside : ∀ o ∈ r.stops, r.inBand o.price) (quiet : ∀ o ∈ r.stops, ¬ r.market.Armed o) :
    s.nextTriggeredStop = none := by
  by_cases live : s.hasLast = true ∧ s.stopBooks = true
  · have printed : r.hasLast = true := mirrors.hasLast ▸ live.1
    have miss (side : Side) : ¬ s.Hit side := by
      rw [hit_iff mirrors live.2 inside]
      rintro ⟨o, member, rfl, triggered⟩
      exact quiet o member ((ReferenceEngine.armed_iff printed o).mpr triggered)
    rw [nextTriggeredStop_eq live.1 live.2, if_neg (miss .buy), if_neg (miss .sell)]
  · rw [nextTriggeredStop, if_neg live]

theorem nextTriggeredStop_some (mirrors : Mirrors min nLevels s cells r)
    (inside : ∀ o ∈ r.stops, r.inBand o.price) (next : r.market.NextStop front o back) :
    ∃ ptr back', s.nextTriggeredStop = some ptr ∧
      cells o.side.stopBook (s.idx o.price) = (ptr, o) :: back' ∧
      parkedAt o.side o.price front = [] ∧
      back'.map Prod.snd = parkedAt o.side o.price back := by
  have stops : r.stops = front ++ o :: back := next.parked
  have member : o ∈ r.stops := by simp [stops]
  have printed : r.hasLast = true := by
    rcases next.armed with ⟨last, isLast, -⟩
    by_contra unprinted
    simp [ReferenceEngine.market, unprinted] at isLast
  have fastPrinted : s.hasLast = true := mirrors.hasLast.trans printed
  have allocated : s.stopBooks = true := by
    by_contra absent
    have empty := mirrors.unparked (by simpa using absent)
    simp [empty] at member
  have armed (other : RO) : r.market.Armed other ↔ r.triggered other.side other.price :=
    ReferenceEngine.armed_iff printed other
  have triggered := (armed o).mp next.armed
  have hit := (hit_iff mirrors allocated inside o.side).mpr ⟨o, member, rfl, triggered⟩
  -- The stop is at the first level of its book.
  rcases mirrors.idx_eq (inside o member) with ⟨index, inRange⟩
  have atFirst : s.firstTrigger o.side = s.idx o.price := by
    rcases firstTrigger_spec mirrors allocated inside o.side with
      ⟨-, none⟩ | ⟨i, found, parked, first⟩
    · exact absurd rfl (none o member)
    · rcases parkedAt_ne_nil.mp parked with ⟨other, otherMember, same, price⟩
      have notLater := first o member rfl
      have otherArmed : r.market.Armed other := by
        rw [armed, same, price]
        exact triggered_of_not_before triggered notLater
      have notEarlier := next.first other otherMember otherArmed
      rw [found]
      simp only [Market.FiresBefore, same, price, true_and] at notEarlier
      cases side : o.side <;> rw [side] at notEarlier notLater <;>
        simp only [ReferenceEngine.triggersBefore] at notEarlier notLater <;> lia
  have noneBefore : parkedAt o.side o.price front = [] := by
    by_contra some
    rcases parkedAt_ne_nil.mp some with ⟨other, otherMember, same, price⟩
    have otherArmed : r.market.Armed other := by
      rw [armed, same, price]
      exact triggered
    have before := next.fifo other otherMember otherArmed
    simp only [Market.FiresBefore, same, price] at before
    cases side : o.side <;> simp [side, ReferenceEngine.triggersBefore] at before
  rcases mirrors.stopPlace stops index.symm with ⟨front', ptr, back', place, sameFront, sameBack⟩
  rw [noneBefore, List.map_eq_nil_iff] at sameFront
  subst sameFront
  refine ⟨ptr, back', ?_, place, noneBefore, sameBack⟩
  have head := mirrors.heap.filed.head_cons place
  rw [nextTriggeredStop_eq fastPrinted allocated]
  cases side : o.side with
  | buy =>
      rw [side] at hit atFirst head
      rw [if_pos hit, atFirst]
      exact head
  | sell =>
      rw [side] at hit atFirst head
      have miss : ¬ s.Hit .buy := by
        rw [hit_iff mirrors allocated inside]
        rintro ⟨other, otherMember, otherSide, otherTriggered⟩
        refine next.first other otherMember ((armed other).mpr (otherSide ▸ otherTriggered)) ?_
        exact .inl ⟨otherSide, side⟩
      rw [if_neg miss, if_pos hit, atFirst]
      exact head

/-! ## The trigger pump -/

section pumping

variable [Handler H]

theorem executeStop_lockstep {o : RO} (limitPrice : Price)
    (tracks : Tracks min nLevels pumping false s r) (keyed : r.Keyed)
    (valid : ValidState (r.market, .taking o.fired))
    (limit : o.stopMarket = false → limitPrice = o.stopLimit ∧ r.inBand o.stopLimit)
    (run : r.fire o.id o.side o.stopLimit o.qty o.stopMarket o.owner o.stp = some r') :
    ∃ s', s.executeStop o.id o.side limitPrice o.qty o.stopMarket o.owner o.stp = some s' ∧
      Tracks min nLevels pumping false s' r' := by
  unfold RO.fired at valid
  unfold ReferenceEngine.fire at run
  unfold executeStop
  cases isMarket : o.stopMarket with
  | true =>
      simp only [isMarket, if_true] at valid run ⊢
      rcases Option.bind_eq_some_iff.mp run with ⟨⟨r₁, left, haltFlag⟩, run', same⟩
      rcases matchMarket_lockstep tracks run' with ⟨s₁, fast, tracks₁⟩
      obtain rfl : r₁ = r' := Option.some.inj same
      exact ⟨s₁, by rw [fast]; rfl, tracks₁⟩
  | false =>
      simp only [isMarket, Bool.false_eq_true, if_false] at valid run ⊢
      rcases limit isMarket with ⟨rfl, inside⟩
      exact placeLimit_lockstep tracks keyed valid inside run

omit [Handler H] in
theorem removeStop_flags (s : MatchingEngine H) (ptr : Ptr) :
    ((s.removeStop ptr).dispose ptr).pumping = s.pumping ∧
      ((s.removeStop ptr).dispose ptr).stpHalt = s.stpHalt := by
  simp only [removeStop]
  split <;> exact ⟨rfl, rfl⟩

structure Pumping (min : Price) (nLevels : Nat) (s : MatchingEngine H) (r : ReferenceEngine H) :
    Prop where
  tracks : Tracks min nLevels true false s r
  valid : r.market.Valid
  keyed : r.Keyed
  running : r.halted = false
  printed : r.hasLast = true

theorem pumpRound_lockstep {turn' : Turn (ReferenceEngine H) (ReferenceEngine H)}
    (pumping : Pumping min nLevels s r) (round : r.pumpRound = some turn') :
    ∃ turn, s.pumpRound = some turn ∧
      Turn.Related (Pumping min nLevels) (Tracks min nLevels true false) turn turn' := by
  rcases pumping with ⟨⟨cells, mirrors, flags⟩, valid, keyed, running, printed⟩
  have inside : ∀ o ∈ r.stops, r.inBand o.price := valid.stopInside
  have picked := ReferenceEngine.pick_spec running printed
  unfold ReferenceEngine.pumpRound at round
  unfold pumpRound
  cases pick : r.pick with
  | none =>
      rw [pick] at picked
      simp only [pick, Option.some.injEq] at round
      subst round
      rw [nextTriggeredStop_none mirrors inside picked]
      exact ⟨_, rfl, .leave ⟨cells, mirrors, flags⟩⟩
  | some found =>
      rcases found with ⟨o, index⟩
      rw [pick] at picked
      rcases picked with ⟨front, back, erased, next⟩
      have stops : r.stops = front ++ o :: back := next.parked
      have member : o ∈ r.stops := by simp [stops]
      rcases nextTriggeredStop_some mirrors inside next with
        ⟨ptr, back', isNext, place, noneBefore, sameBack⟩
      have removed := mirrors.unpark stops (inside o member)
        (show cells o.side.stopBook (s.idx o.price) = [] ++ (ptr, o) :: back' from place)
        noneBefore.symm sameBack
      have flags₁ : ((s.removeStop ptr).dispose ptr).pumping = true ∧
          ((s.removeStop ptr).dispose ptr).stpHalt = false := by
        rw [(removeStop_flags s ptr).1, (removeStop_flags s ptr).2]
        exact flags
      have holds := mirrors.heap.filed.holds o.side.stopBook (s.idx o.price) ptr o
        (by simp [place])
      simp only [pick, erased] at round
      rcases Option.bind_eq_some_iff.mp round with ⟨r₁, fired, same⟩
      cases same
      have start : ValidState
          (({ r with stops := front ++ back } : ReferenceEngine H).market, .taking o.fired) :=
        Step.valid (show ValidState (r.market, .idle) from ⟨valid, trivial⟩) (.fire next)
      rcases ReferenceEngine.fire_spec start keyed running with ⟨r₂, fired', placed⟩
      obtain rfl : r₂ = r₁ := Option.some.inj (fired'.symm.trans fired)
      have stopLimit := valid.stopLimit o member
      obtain ⟨s₁, fast, tracks₁⟩ := executeStop_lockstep
        (if o.stopMarket then 0 else o.stopLimit) ⟨_, removed, flags₁⟩ keyed start
        (fun isLimit => by
          simp only [isLimit, Bool.false_eq_true, if_false] at stopLimit ⊢
          exact ⟨trivial, stopLimit⟩) fired
      rw [isNext]
      refine ⟨.again s₁, ?_, .again ⟨tracks₁, (placed.took.valid start).1, placed.keyed,
        placed.frame.halted.trans running, placed.took.hasLast printed⟩⟩
      have limit : (s.mem.extra ptr).limit = o.stopLimit := by rw [holds.extra]; rfl
      simp only [limit]
      rw [holds.node]
      exact congrArg (Option.bind · fun s => some (Turn.again s)) fast

theorem pumpStops_lockstep (tracks : Tracks min nLevels true false s r)
    (valid : r.market.Valid) (keyed : r.Keyed) (run : r.pump = some r') :
    ∃ s', s.pumpStops = some s' ∧ Tracks min nLevels true false s' r' := by
  rcases tracks with ⟨cells, mirrors, flags⟩
  unfold ReferenceEngine.pump at run
  unfold pumpStops
  rw [mirrors.halted, mirrors.pending]
  by_cases halted : r.halted = true
  · rw [if_pos (.inl halted), Option.some.injEq] at run
    subst run
    exact ⟨s, if_pos halted, cells, mirrors, flags⟩
  rw [if_neg halted]
  by_cases printed : r.hasLast = true
  · rw [if_neg (by simp [halted, printed])] at run
    refine loop_lockstep (Pumping min nLevels) (Tracks min nLevels true false) ?_
      ⟨⟨cells, mirrors, flags⟩, valid, keyed, by simpa using halted, printed⟩ run
    exact fun s r turn' pumping round => pumpRound_lockstep pumping round
  · rw [if_pos (.inr printed), Option.some.injEq] at run
    subst run
    have quiet : ∀ o ∈ r.stops, ¬ r.market.Armed o := by
      rintro o - ⟨last, isLast, -⟩
      simp [ReferenceEngine.market, printed] at isLast
    have round : s.pumpRound = some (.leave s) := by
      unfold pumpRound
      rw [nextTriggeredStop_none mirrors valid.stopInside quiet]
    exact ⟨s, loop_leave round _, cells, mirrors, flags⟩

end pumping

end MatchingEngine

end Matchbook
