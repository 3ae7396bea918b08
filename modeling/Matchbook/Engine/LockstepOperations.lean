import Matchbook.Engine.LockstepStops

namespace Matchbook

open BoundedLoop

/-! # Operations in lockstep -/

namespace MatchingEngine

variable {H : Type} {min : Price} {nLevels : Nat} {pumping : Bool} {s s' : MatchingEngine H}
  {cells : Cells} {r r' : ReferenceEngine H} {side : Side} {o : RO} {ptr : Ptr} {i : Nat}
  {front back : List RO}

/-! ## Ids -/

theorem lookup_push (mem : Memory) (id : OrderId) :
    { mem with orders := mem.orders.push none }.lookup id = mem.lookup id := by
  simp only [Memory.lookup, Array.getElem?_push]
  split
  · rename_i isLast
    simp [isLast]
  · rfl

theorem Mirrors.nextId (mirrors : Mirrors min nLevels s cells r) :
    Mirrors min nLevels s.nextId.2 cells { r with nextId := r.nextId + 1 } := by
  rcases mirrors.heap.filed with ⟨linked, holds, total, hidden, count, apart, table⟩
  rcases mirrors.heap.stocked with ⟨pool, free, distinct, used, slots⟩
  exact { mirrors with
    heap := ⟨⟨linked, fun b i ptr o inside => (holds b i ptr o inside).congr rfl rfl, total,
      hidden, count, apart, fun id ptr => by
        rw [← table, ← lookup_push s.mem id]
        rfl⟩, ⟨pool, free, distinct, used, slots⟩⟩
    ids := by simp [MatchingEngine.nextId, mirrors.ids] }

/-! ## Orders that leave -/

/-- An order found by its id, where the reference engine finds it. -/
theorem Mirrors.lookup_resting (mirrors : Mirrors min nLevels s cells r)
    (place : r.level side (min + i) = front ++ o :: back) :
    ∃ front' ptr back', s.mem.lookup o.id = some ptr ∧
      cells side.book i = front' ++ (ptr, o) :: back' ∧
      front'.map Prod.snd = front ∧ back'.map Prod.snd = back := by
  rcases mirrors.place place with ⟨front', ptr, back', place, sameFront, sameBack⟩
  refine ⟨front', ptr, back', ?_, place, sameFront, sameBack⟩
  exact (mirrors.heap.filed.table o.id ptr).mpr ⟨side.book, i, o, by simp [place], rfl⟩

theorem Mirrors.lookup_parked (mirrors : Mirrors min nLevels s cells r)
    (stops : r.stops = front ++ o :: back) (inside : r.inBand o.price) :
    ∃ front' ptr back', s.mem.lookup o.id = some ptr ∧
      cells o.side.stopBook (s.idx o.price) = front' ++ (ptr, o) :: back' ∧
      front'.map Prod.snd = parkedAt o.side o.price front ∧
      back'.map Prod.snd = parkedAt o.side o.price back := by
  rcases mirrors.stopPlace stops (mirrors.idx_eq inside).1.symm with
    ⟨front', ptr, back', place, sameFront, sameBack⟩
  refine ⟨front', ptr, back', ?_, place, sameFront, sameBack⟩
  exact (mirrors.heap.filed.table o.id ptr).mpr
    ⟨o.side.stopBook, s.idx o.price, o, by simp [place], rfl⟩

theorem removeResting_flags (s : MatchingEngine H) (ptr : Ptr) :
    ((s.removeResting ptr).dispose ptr).pumping = s.pumping ∧
      ((s.removeResting ptr).dispose ptr).stpHalt = s.stpHalt := by
  simp only [removeResting]
  split
  · simp [dispose, Mirrors.vacate_eq]
  · exact ⟨rfl, rfl⟩

/-- Erasing a resting order. -/
theorem Mirrors.erase (mirrors : Mirrors min nLevels s cells r)
    (home : o.side = side ∧ o.price = min + i) (present : (min + i : Price) ∈ r.book side)
    {front' back' : List (Ptr × RO)} (place : cells side.book i = front' ++ (ptr, o) :: back') :
    Mirrors min nLevels ((s.removeResting ptr).dispose ptr)
      (cells.set side.book i (front' ++ back'))
      ((r.setLevel side (min + i) (front'.map Prod.snd ++ back'.map Prod.snd)).eraseIfEmpty side
        (min + i)) := by
  rcases home with ⟨rfl, price⟩
  have node := (mirrors.heap.filed.holds o.side.book i ptr o (by simp [place])).node
  have index : s.idx o.price = i := by
    have fastMin := mirrors.fastMin
    unfold MatchingEngine.idx
    lia
  have heap := mirrors.heap.unlinkOrder place
  have erased := mirrors.setLevel present heap (by simp [Memory.unlinkOrder, Memory.forget])
  rw [List.map_append] at erased
  have present' : (min + i : Price) ∈ (r.setLevel o.side (min + i)
      (front'.map Prod.snd ++ back'.map Prod.snd)).book o.side := by
    rw [ReferenceEngine.mem_setLevel]
    exact .inr present
  have vacated := erased.vacateIfEmpty present'
  have sameSide : (s.mem.nodes ptr).side = o.side := by rw [node]; rfl
  have samePrice : (s.mem.nodes ptr).price = o.price := by rw [node]; rfl
  have sameId : ((s.mem.unlinkOrder o.side.book i ptr).nodes ptr).id = o.id := by
    show (s.mem.nodes ptr).id = o.id
    rw [node]
    rfl
  have removed : (s.removeResting ptr).dispose ptr =
      let s := { s with
        mem := ((s.mem.unlinkOrder o.side.book i ptr).forget o.id).release ptr }
      if (s.mem.levels o.side.book i).head.isNone then s.vacate o.side i else s := by
    simp only [removeResting, sameSide, samePrice, index, Memory.release_levels, Memory.forget]
    split
    · simp only [dispose, vacate_eq, sameId]
      rfl
    · simp only [dispose, sameId]
      rfl
  rw [removed]
  exact vacated

/-! ## The scope of an operation -/

section operations

variable [Handler H]

theorem pump_settled (settled : r.market.Settled) : r.pump = some r := by
  unfold ReferenceEngine.pump
  by_cases quiet : r.halted = true ∨ ¬ r.hasLast = true
  · rw [if_pos quiet]
  · rw [if_neg quiet]
    obtain ⟨running, printed⟩ : r.halted = false ∧ r.hasLast = true := by simpa using quiet
    have picked := ReferenceEngine.pick_spec running printed
    cases pick : r.pick with
    | none => exact loop_leave (by simp [ReferenceEngine.pumpRound, pick]) _
    | some found =>
        rw [pick] at picked
        rcases picked with ⟨front, back, -, next⟩
        rcases settled with halted | quiet
        · exact absurd (running.symm.trans halted) (by decide)
        · have stops : r.market.stops = front ++ found.1 :: back := next.parked
          exact absurd next.armed (quiet _ (by simp [stops]))

def PumpsTo (min : Price) (nLevels : Nat) (s : MatchingEngine H) (r' : ReferenceEngine H) :
    Prop :=
  ∃ r, Tracks min nLevels false false s r ∧ r.market.Valid ∧ r.Keyed ∧ r.pump = some r'

theorem pumpsTo_settled (tracks : Tracks min nLevels false false s r) (valid : r.market.Valid)
    (keyed : r.Keyed) (settled : r.market.Settled) : PumpsTo min nLevels s r :=
  ⟨r, tracks, valid, keyed, pump_settled settled⟩

theorem run_lockstep {body : MatchingEngine H → Option (MatchingEngine H × α)} {result : α}
    (run : body s = some (s', result)) (pumps : PumpsTo min nLevels s' r') :
    ∃ s'', s.run body = some (s'', result) ∧ Tracks min nLevels false false s'' r' := by
  rcases pumps with ⟨r, ⟨cells, mirrors, flags⟩, valid, keyed, pump⟩
  obtain ⟨s'', fast, cells', mirrors', flags'⟩ := pumpStops_lockstep
    (s := { s' with pumping := true }) ⟨cells, { mirrors with }, rfl, flags.2⟩ valid keyed pump
  refine ⟨{ s'' with pumping := false }, ?_, cells', { mirrors' with }, rfl, flags'.2⟩
  simp only [MatchingEngine.run, run, Option.bind_eq_bind, Option.bind_some, flags.1,
    Bool.false_eq_true, if_false, fast]

/-! ## Cancel and reduce -/

omit [Handler H] in
/-- What both engines know of a resting order that is found. -/
theorem Mirrors.found (mirrors : Mirrors min nLevels s cells r) (valid : r.market.Valid)
    (keyed : r.Keyed) {px : Price} (place : r.level side px = front ++ o :: back) :
    ∃ i : Nat, px = min + i ∧ (o.side = side ∧ o.price = min + i) ∧
      (min + i : Price) ∈ r.book side ∧ s.idx o.price = i ∧
      ∃ front' ptr back', s.lookup o.id = some ptr ∧ s.mem.Holds side.book ptr o ∧
        cells side.book i = front' ++ (ptr, o) :: back' ∧
        front'.map Prod.snd = front ∧ back'.map Prod.snd = back := by
  have member : o ∈ r.market.levels side px := by
    show o ∈ r.level side px
    simp [place]
  have occupied : r.market.levels side px ≠ [] := List.ne_nil_of_mem member
  rcases mirrors.idx_eq (valid.inside side px occupied) with ⟨index, inRange⟩
  rcases mirrors.lookup_resting (i := s.idx px) (index.symm ▸ place) with
    ⟨front', ptr, back', lookup, place', sameFront, sameBack⟩
  have home := valid.home side px o member
  refine ⟨s.idx px, index.symm, ⟨home.1, home.2.trans index.symm⟩, ?_, by rw [home.2],
    front', ptr, back', lookup, mirrors.heap.filed.holds side.book (s.idx px) ptr o
    (by simp [place']),
    place', sameFront, sameBack⟩
  rw [index]
  exact (keyed side px).mpr occupied

theorem cancelImpl_lockstep {id : OrderId} {ok : Bool}
    (tracks : Tracks min nLevels false false s r) (valid : r.market.Valid) (keyed : r.Keyed)
    (settled : r.market.Settled) (run : r.cancel id = some (r', ok)) :
    ∃ s', s.cancelImpl id = (s', ok) ∧ PumpsTo min nLevels s' r' := by
  rcases tracks with ⟨cells, mirrors, flags⟩
  unfold ReferenceEngine.cancel at run
  cases found : r.findResting id with
  | some place =>
      rcases place with ⟨side, px, front, o, back⟩
      rcases ReferenceEngine.findResting_some found with ⟨place, rfl⟩
      rw [found] at run
      rcases Option.bind_eq_some_iff.mp run with ⟨r₁, pump, same⟩
      cases same
      have start : r.market.Begin (.cancel o.id) _ _ _ := .cancel .cancel place
      have valid₁ := start.valid valid
      have keyed₁ := ReferenceEngine.erase_keyed keyed place
      rcases mirrors.found valid keyed place with
        ⟨i, rfl, home, present, index, front', ptr, back', lookup, holds, place', rfl, rfl⟩
      have erased := (mirrors.erase home present place').emit (.cancel o.id)
      have pending : (s.mem.nodes ptr).stopPending = false := by
        rw [holds.node]
        exact Side.book_holdsStops side
      refine ⟨((s.removeResting ptr).dispose ptr).emit (.cancel o.id), ?_, _,
        ⟨_, erased, ?_⟩, ?_, keyed₁, pump⟩
      · simp [cancelImpl, lookup, pending]
      · exact ⟨(removeResting_flags s ptr).1.trans flags.1,
          (removeResting_flags s ptr).2.trans flags.2⟩
      · rw [ReferenceEngine.emit_market, ReferenceEngine.eraseIfEmpty_market,
          ReferenceEngine.setLevel_market]
        exact valid₁.1
  | none =>
      rw [found] at run
      cases found' : r.findStop id with
      | some place =>
          rcases place with ⟨front, o, back⟩
          rcases ReferenceEngine.splitAtId_some found' with ⟨stops, rfl⟩
          simp only [found'] at run
          rcases Option.bind_eq_some_iff.mp run with ⟨r₁, pump, same⟩
          cases same
          have start : r.market.Begin (.cancel o.id) _ _ _ := .cancelStop .cancel stops
          have valid₁ := start.valid valid
          have inside : r.inBand o.price := valid.stopInside o (by
            show o ∈ r.stops
            simp [stops])
          rcases mirrors.lookup_parked stops inside with
            ⟨front', ptr, back', lookup, place', sameFront, sameBack⟩
          have removed := (mirrors.unpark stops inside place' sameFront sameBack).emit
            (.cancel o.id)
          have pending : (s.mem.nodes ptr).stopPending = true := by
            rw [(mirrors.heap.filed.holds _ _ ptr o (by rw [place']; simp)).node]
            exact Side.stopBook_holdsStops o.side
          refine ⟨((s.removeStop ptr).dispose ptr).emit (.cancel o.id), ?_, _,
            ⟨_, removed, ?_⟩, valid₁.1, keyed, pump⟩
          · simp [cancelImpl, MatchingEngine.lookup, lookup, pending]
          · exact ⟨(removeStop_flags s ptr).1.trans flags.1,
              (removeStop_flags s ptr).2.trans flags.2⟩
      | none =>
          simp only [found', Option.some.injEq, Prod.mk.injEq] at run
          rcases run with ⟨rfl, rfl⟩
          have closed : ¬ r.market.IsOpen id := by
            rintro (⟨side, px, o, member, same⟩ | ⟨o, member, same⟩)
            · exact (ReferenceEngine.findResting_none keyed).mp found side px o member same
            · exact ReferenceEngine.splitAtId_none.mp found' o member same
          refine ⟨s, ?_, pumpsTo_settled ⟨cells, mirrors, flags⟩ valid keyed settled⟩
          simp [cancelImpl, MatchingEngine.lookup, mirrors.lookup_none closed]

/-- The erasure of a resting order, on its way to the pump. -/
theorem eraseResting_lockstep (mirrors : Mirrors min nLevels s cells r)
    (flags : s.pumping = false ∧ s.stpHalt = false) (valid : r.market.Valid) (keyed : r.Keyed)
    (home : o.side = side ∧ o.price = min + i) (present : (min + i : Price) ∈ r.book side)
    {front' back' : List (Ptr × RO)} (place' : cells side.book i = front' ++ (ptr, o) :: back')
    (run : ((r.setLevel side (min + i) (front'.map Prod.snd ++ back'.map Prod.snd)).eraseIfEmpty
      side (min + i)).pump = some r') :
    PumpsTo min nLevels (s.eraseResting ptr) r' := by
  have erased := mirrors.erase home present place'
  have place : r.level side (min + i) = front'.map Prod.snd ++ o :: back'.map Prod.snd := by
    rw [← mirrors.resting, place']
    simp
  have start : r.market.Begin (.reduce o.id o.total) _ _ _ :=
    .erase .reduce place (UInt64.le_refl o.total)
  refine ⟨_, ⟨_, erased, (removeResting_flags s ptr).1.trans flags.1,
    (removeResting_flags s ptr).2.trans flags.2⟩, ?_, ReferenceEngine.erase_keyed keyed place, run⟩
  rw [ReferenceEngine.eraseIfEmpty_market, ReferenceEngine.setLevel_market]
  exact (start.valid valid).1

theorem doReduce_lockstep {id : OrderId} {delta : Qty} {ok : Bool}
    (tracks : Tracks min nLevels false false s r) (valid : r.market.Valid) (keyed : r.Keyed)
    (settled : r.market.Settled) (run : r.reduce id delta = some (r', ok)) :
    ∃ s', s.doReduce id delta = (s', ok) ∧ PumpsTo min nLevels s' r' := by
  rcases tracks with ⟨cells, mirrors, flags⟩
  cases found : r.findResting id with
  | none =>
      simp only [ReferenceEngine.reduce, found, Option.some.injEq, Prod.mk.injEq] at run
      rcases run with ⟨rfl, rfl⟩
      have still := pumpsTo_settled ⟨cells, mirrors, flags⟩ valid keyed settled
      refine ⟨s, ?_, still⟩
      cases lookup : s.lookup id with
      | none => simp [doReduce, lookup]
      | some ptr =>
          have notResting := (ReferenceEngine.findResting_none keyed).mp found
          rcases (mirrors.heap.filed.table id ptr).mp lookup with ⟨book, i, o, member, same⟩
          have inside : o ∈ (cells book i).map Prod.snd := List.mem_map.mpr ⟨_, member, rfl⟩
          have pending : (s.mem.nodes ptr).stopPending = true := by
            rw [(mirrors.heap.filed.holds book i ptr o member).node]
            rcases book_cases book with ⟨side, rfl | rfl⟩
            · rw [mirrors.resting] at inside
              exact absurd same (notResting side _ o inside)
            · exact Side.stopBook_holdsStops side
          simp [doReduce, lookup, pending]
  | some place =>
      rcases place with ⟨side, px, front, o, back⟩
      rcases ReferenceEngine.findResting_some found with ⟨place, rfl⟩
      rcases mirrors.found valid keyed place with
        ⟨i, rfl, home, present, index, front', ptr, back', lookup, holds, place', rfl, rfl⟩
      have node := holds.node
      have sameQty : (s.mem.nodes ptr).qty = o.qty := by rw [node]; rfl
      have sameSide : (s.mem.nodes ptr).side = side := by rw [node]; exact home.1
      have samePrice : (s.mem.nodes ptr).price = o.price := by rw [node]; rfl
      have iceberg : (s.mem.nodes ptr).iceberg = decide (o.peak ≠ 0) := by rw [node]; rfl
      have pending : (s.mem.nodes ptr).stopPending = false := by
        rw [node]
        exact Side.book_holdsStops side
      have sameReserve : (s.mem.extra ptr).reserve = o.reserve := by rw [holds.extra]; rfl
      simp only [ReferenceEngine.reduce, found] at run
      rcases Option.bind_eq_some_iff.mp run with ⟨r₁, pump, same⟩
      cases same
      have fast : s.doReduce o.id delta =
          if o.peak ≠ 0 then
            if o.qty + o.reserve ≤ delta then (s.eraseResting ptr, true)
            else
              let fromReserve := if delta < o.reserve then delta else o.reserve
              let mem := s.mem.takeReserve side.book i ptr fromReserve
              ({ s with mem := mem.takeDisplayed side.book i ptr (delta - fromReserve) }, true)
          else if o.qty ≤ delta then (s.eraseResting ptr, true)
          else ({ s with mem := s.mem.takeDisplayed side.book i ptr delta }, true) := by
        simp only [doReduce, lookup, pending, Bool.false_eq_true, if_false, iceberg, sameQty,
          sameSide, samePrice, index, sameReserve, decide_eq_true_eq]
      rw [fast]
      by_cases all : o.total ≤ delta
      · have all' : o.qty + o.reserve ≤ delta := all
        have erased : r.eraseResting o.id = (r.setLevel side (min + i)
            (front'.map Prod.snd ++ back'.map Prod.snd)).eraseIfEmpty side (min + i) := by
          unfold ReferenceEngine.eraseResting
          rw [found]
        rw [if_pos all', erased] at pump
        have pumps := eraseResting_lockstep mirrors flags valid keyed home present place' pump
        refine ⟨s.eraseResting ptr, ?_, pumps⟩
        by_cases peak : o.peak = 0
        · have plain : o.qty ≤ delta := by
            rw [holds.plain peak, UInt64.add_zero] at all'
            exact all'
          simp [peak, plain]
        · simp [peak, all']
      · have all' : ¬ o.qty + o.reserve ≤ delta := all
        rw [if_neg all'] at pump
        have start : r.market.Begin (.reduce o.id delta) _ _ _ :=
          .reduce .reduce place (UInt64.not_le.mp all)
        have keyed₁ : (r.setLevel side (min + i)
            (front'.map Prod.snd ++ o.reduced delta :: back'.map Prod.snd)).Keyed := by
          intro s p
          rw [ReferenceEngine.mem_setLevel, ReferenceEngine.level_setLevel, keyed]
          by_cases same : s = side ∧ p = min + i <;> simp [same]
        have valid₁ : (r.setLevel side (min + i)
            (front'.map Prod.snd ++ o.reduced delta :: back'.map Prod.snd)).market.Valid := by
          rw [ReferenceEngine.setLevel_market]
          exact (start.valid valid).1
        -- The amended level, however it is written.
        have amend (mem : Memory) (orders : mem.orders = s.mem.orders)
            (heap : mem.Heap (cells.set side.book i (front' ++ (ptr, o.reduced delta) :: back'))) :
            PumpsTo min nLevels { s with mem } r' := by
          have amended := mirrors.setLevel present heap (congrArg Array.size orders)
          rw [List.map_append, List.map_cons] at amended
          exact ⟨_, ⟨_, amended, flags⟩, valid₁, keyed₁, pump⟩
        by_cases peak : o.peak = 0
        · have plain : ¬ o.qty ≤ delta := by
            rw [holds.plain peak, UInt64.add_zero] at all'
            exact all'
          refine ⟨{ s with mem := s.mem.takeDisplayed side.book i ptr delta }, ?_,
            amend _ rfl ?_⟩
          · simp [peak, plain]
          · have reduced : o.reduced delta = { o with qty := o.qty - delta } := by
              simp [RO.reduced, holds.plain peak]
            rw [reduced]
            exact mirrors.heap.takeDisplayed place' delta
        · let fromReserve := if delta < o.reserve then delta else o.reserve
          let mem := s.mem.takeReserve side.book i ptr fromReserve
          refine ⟨{ s with mem := mem.takeDisplayed side.book i ptr (delta - fromReserve) }, ?_,
            amend _ ?_ ?_⟩
          · simp only [ne_eq, peak, not_false_eq_true, if_true, all', if_false]
            rfl
          · exact (Memory.touches_takeReserve s.mem side.book i ptr fromReserve).orders
          · have taken := (mirrors.heap.takeReserve place' peak fromReserve).takeDisplayed
              (Cells.set_self _ _ _ _) (delta - fromReserve)
            rw [Cells.set_set] at taken
            exact taken

/-! ## Modify -/

omit [Handler H] in
theorem Mirrors.stopPending_iff (mirrors : Mirrors min nLevels s cells r)
    (valid : r.market.Valid) {id : OrderId} (lookup : s.lookup id = some ptr) :
    (s.mem.nodes ptr).stopPending = (r.findStop id).isSome := by
  rcases (mirrors.heap.filed.table id ptr).mp lookup with ⟨book, i, o, member, rfl⟩
  have node := (mirrors.heap.filed.holds book i ptr o member).node
  have inside : o ∈ (cells book i).map Prod.snd := List.mem_map.mpr ⟨_, member, rfl⟩
  rw [node]
  rcases book_cases book with ⟨side, rfl | rfl⟩
  · rw [mirrors.resting] at inside
    have none : r.findStop o.id = none := ReferenceEngine.splitAtId_none.mpr fun stop parked =>
      (valid.apart side _ o inside stop parked).symm
    rw [none]
    exact Side.book_holdsStops side
  · rw [mirrors.parked] at inside
    have some : (r.findStop o.id).isSome := by
      rw [Option.isSome_iff_ne_none]
      intro none
      exact ReferenceEngine.splitAtId_none.mp none o (List.mem_of_mem_filter inside) rfl
    rw [some]
    exact Side.stopBook_holdsStops side

/-- A limit order placed on its way to the pump. -/
theorem placeLimit_pumps {id : OrderId} {side : Side} {price : Price} {qty : Qty}
    {tif : TimeInForce} {owner : OwnerId} {stp : StpPolicy} {peak : Qty}
    {r₁ : ReferenceEngine H} (tracks : Tracks min nLevels false false s r) (keyed : r.Keyed)
    (valid : ValidState (r.market, .taking (.ofLimit id side price qty tif owner stp peak)))
    (halted : r.halted = true → qty ≠ 0 ∧ tif = .gtc) (inside : r.inBand price)
    (placed : r.place id side price qty tif owner stp peak = some r₁)
    (pump : r₁.pump = some r') :
    ∃ s', s.placeLimit id side price qty tif owner stp peak = some s' ∧
      PumpsTo min nLevels s' r' := by
  rcases placeLimit_lockstep tracks keyed valid inside placed with ⟨s₁, fast, tracks₁⟩
  rcases ReferenceEngine.place_spec valid keyed halted with ⟨r₂, placed', spec⟩
  obtain rfl : r₂ = r₁ := Option.some.inj (placed'.symm.trans placed)
  exact ⟨s₁, fast, r₂, tracks₁, (spec.took.valid valid).1, spec.keyed, pump⟩

theorem doModify_lockstep {id : OrderId} {newPrice : Price} {newQty : Qty} {ok : Bool}
    (tracks : Tracks min nLevels false false s r) (valid : r.market.Valid) (keyed : r.Keyed)
    (settled : r.market.Settled) (run : r.modify id newPrice newQty = some (r', ok)) :
    ∃ s', s.doModify id newPrice newQty = some (s', ok) ∧ PumpsTo min nLevels s' r' := by
  have still := pumpsTo_settled tracks valid keyed settled
  unfold ReferenceEngine.modify at run
  by_cases zero : newQty = 0
  · rw [if_neg (by simp [zero]), if_pos zero] at run
    rcases cancelImpl_lockstep tracks valid keyed settled run with ⟨s', fast, pumps⟩
    refine ⟨s', ?_, pumps⟩
    rw [← fast]
    unfold doModify
    cases lookup : s.lookup id with
    | none => simp [cancelImpl, lookup]
    | some ptr => simp [zero]
  rcases tracks with ⟨cells, mirrors, flags⟩
  by_cases parked : (r.findStop id).isSome = true
  · rw [if_pos ⟨parked, zero⟩] at run
    cases run
    refine ⟨s, ?_, still⟩
    unfold doModify
    cases lookup : s.lookup id with
    | none => rfl
    | some ptr =>
        simp [mirrors.stopPending_iff valid lookup, parked, zero]
  rw [if_neg (by simp [parked]), if_neg zero] at run
  by_cases outside : ¬ r.inBand newPrice
  · rw [if_pos outside] at run
    cases run
    refine ⟨s, ?_, still⟩
    unfold doModify
    cases lookup : s.lookup id with
    | none => rfl
    | some ptr =>
        simp [mirrors.stopPending_iff valid lookup, parked, zero, mirrors.inBand_iff, outside]
  rw [if_neg outside] at run
  have inside : r.inBand newPrice := not_not.mp outside
  cases found : r.findResting id with
  | none =>
      simp only [found, Option.some.injEq, Prod.mk.injEq] at run
      rcases run with ⟨rfl, rfl⟩
      have closed : ¬ r.market.IsOpen id := by
        rintro (⟨side, px, o, member, same⟩ | ⟨o, member, same⟩)
        · exact (ReferenceEngine.findResting_none keyed).mp found side px o member same
        · have none : r.findStop id = none := by simpa using parked
          exact ReferenceEngine.splitAtId_none.mp none o member same
      refine ⟨s, ?_, still⟩
      simp [doModify, MatchingEngine.lookup, mirrors.lookup_none closed]
  | some place =>
      rcases place with ⟨side, px, front, o, back⟩
      rcases ReferenceEngine.findResting_some found with ⟨place, rfl⟩
      rcases mirrors.found valid keyed place with
        ⟨i, rfl, home, present, index, front', ptr, back', lookup, holds, place', rfl, rfl⟩
      have node := holds.node
      have sameQty : (s.mem.nodes ptr).qty = o.qty := by rw [node]; rfl
      have sameSide : (s.mem.nodes ptr).side = o.side := by rw [node]; rfl
      have samePrice : (s.mem.nodes ptr).price = o.price := by rw [node]; rfl
      have sameOwner : (s.mem.nodes ptr).owner = o.owner := by rw [node]; rfl
      have sameStp : (s.mem.nodes ptr).stp = o.stp := by rw [node]; rfl
      have iceberg : (s.mem.nodes ptr).iceberg = decide (o.peak ≠ 0) := by rw [node]; rfl
      have pending : (s.mem.nodes ptr).stopPending = false := by
        rw [node]
        exact Side.book_holdsStops side
      have curTotal : (if (s.mem.nodes ptr).iceberg = true then
          (s.mem.nodes ptr).qty + (s.mem.extra ptr).reserve else (s.mem.nodes ptr).qty) =
            o.qty + o.reserve := by
        rw [iceberg, sameQty, holds.extra]
        by_cases plain : o.peak = 0 <;> simp [plain, holds.plain, RO.extra]
      have peak : (if (s.mem.nodes ptr).iceberg = true then (s.mem.extra ptr).peak else 0) =
          o.peak := by
        rw [iceberg, holds.extra]
        by_cases plain : o.peak = 0 <;> simp [plain, RO.extra]
      have fast : s.doModify o.id newPrice newQty =
          if newPrice = o.price ∧ newQty ≤ o.qty + o.reserve then
            some (s.doReduce o.id (o.qty + o.reserve - newQty))
          else
            let s := (s.eraseResting ptr).emit (.cancel o.id)
            let s := s.emit (.accept o.id o.side newPrice newQty)
            (s.placeLimit o.id o.side newPrice newQty .gtc o.owner o.stp o.peak).bind
              fun s => some (s, true) := by
        simp only [doModify, lookup, pending, zero, mirrors.inBand_iff, inside, curTotal, peak,
          sameSide, samePrice, sameOwner, sameStp, not_true_eq_false, if_false,
          Bool.false_eq_true, false_and]
        rfl
      simp only [found] at run
      rw [fast]
      by_cases amend : newPrice = o.price ∧ newQty ≤ o.qty + o.reserve
      · rw [if_pos amend] at run ⊢
        rcases doReduce_lockstep ⟨cells, mirrors, flags⟩ valid keyed settled run with
          ⟨s', fast, pumps⟩
        exact ⟨s', congrArg some fast, pumps⟩
      · rw [if_neg amend] at run ⊢
        have erased : r.eraseResting o.id = (r.setLevel side (min + i)
            (front'.map Prod.snd ++ back'.map Prod.snd)).eraseIfEmpty side (min + i) := by
          unfold ReferenceEngine.eraseResting
          rw [found]
        rw [erased] at run
        rcases Option.bind_eq_some_iff.mp run with ⟨r₂, placed, run⟩
        rcases Option.bind_eq_some_iff.mp run with ⟨r₃, pump, same⟩
        cases same
        have start := Market.Begin.replace (m := r.market) place zero inside amend
        have mirrors₁ := ((mirrors.erase home present place').emit (.cancel o.id)).emit
          (.accept o.id o.side newPrice newQty)
        generalize made : (((r.setLevel side (min + i)
          (front'.map Prod.snd ++ back'.map Prod.snd)).eraseIfEmpty side (min + i)).emit
            (.cancel o.id)).emit (.accept o.id o.side newPrice newQty) = r₁ at mirrors₁
        have market₁ : r₁.market = r.market.setLevel side (min + i)
            (front'.map Prod.snd ++ back'.map Prod.snd) := by
          rw [← made, ReferenceEngine.emit_market, ReferenceEngine.emit_market,
            ReferenceEngine.eraseIfEmpty_market, ReferenceEngine.setLevel_market]
        rw [← market₁] at start
        have valid₁ := start.valid valid
        have keyed₁ : r₁.Keyed := made ▸ ReferenceEngine.erase_keyed keyed place
        have inside₁ : r₁.inBand newPrice := by
          have bounds : r₁.market.inBand newPrice := by
            rw [market₁]
            exact inside
          exact bounds
        have tracks₁ : Tracks min nLevels false false (((s.eraseResting ptr).emit
            (.cancel o.id)).emit (.accept o.id o.side newPrice newQty)) r₁ :=
          ⟨_, mirrors₁, (removeResting_flags s ptr).1.trans flags.1,
            (removeResting_flags s ptr).2.trans flags.2⟩
        simp only [made] at placed
        obtain ⟨s₂, fast₂, pumps⟩ := placeLimit_pumps tracks₁ keyed₁ valid₁
          (fun _ => ⟨zero, rfl⟩) inside₁ placed pump
        exact ⟨s₂, by simp only [fast₂, Option.bind_some], pumps⟩

end operations

end MatchingEngine

end Matchbook
