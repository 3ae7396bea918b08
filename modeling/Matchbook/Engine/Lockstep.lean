import Matchbook.Engine.Mirror
import Matchbook.Market.ReferenceRuns

namespace Matchbook

open BoundedLoop

/-! # Matching in lockstep

Every round of the fast engine's matching loops does what the same round of the
reference engine does. -/

namespace MatchingEngine

variable {H : Type}

def Tracks (min : Price) (nLevels : Nat) (pumping stpHalt : Bool) (s : MatchingEngine H)
    (r : ReferenceEngine H) : Prop :=
  ∃ cells, Mirrors min nLevels s cells r ∧ s.pumping = pumping ∧ s.stpHalt = stpHalt

/-! ## The head of a level -/

section heads

variable {min : Price} {nLevels : Nat} {side : Side} {i : Nat} {s : MatchingEngine H}
  {cells : Cells} {r : ReferenceEngine H} {ptr : Ptr} {o : RO} {rest level : List (Ptr × RO)}

namespace Mirrors

theorem level_of_place (mirrors : Mirrors min nLevels s cells r)
    (place : cells side.book i = level) : r.level side (min + i) = level.map Prod.snd := by
  rw [← mirrors.resting, place]

theorem present (mirrors : Mirrors min nLevels s cells r) (best : s.best side = i) :
    (min + i : Price) ∈ r.book side :=
  (best_mem (mirrors.best_index.mp best)).1

theorem takeDisplayed (mirrors : Mirrors min nLevels s cells r)
    (present : (min + i : Price) ∈ r.book side) (place : cells side.book i = (ptr, o) :: rest)
    (f : Qty) :
    Mirrors min nLevels { s with mem := s.mem.takeDisplayed side.book i ptr f }
      (cells.set side.book i ((ptr, { o with qty := o.qty - f }) :: rest))
      (r.setLevel side (min + i) ({ o with qty := o.qty - f } :: rest.map Prod.snd)) :=
  mirrors.setLevel present (mirrors.heap.takeDisplayed
    (show cells side.book i = [] ++ (ptr, o) :: rest from place) f) rfl

/-- The next clip of an iceberg, behind the others. -/
theorem renew (mirrors : Mirrors min nLevels s cells r)
    (present : (min + i : Price) ∈ r.book side) (place : cells side.book i = (ptr, o) :: rest)
    (iceberg : o.peak ≠ 0) (out : o.qty = 0) :
    Mirrors min nLevels
      { s with mem := (s.mem.replenish side.book i ptr).requeue side.book i ptr }
      (cells.set side.book i (rest ++ [(ptr, o.replenished)]))
      (r.setLevel side (min + i) (rest.map Prod.snd ++ [o.replenished])) := by
  have replenished := mirrors.heap.replenish
    (show cells side.book i = [] ++ (ptr, o) :: rest from place) iceberg out
  have requeued := replenished.requeue (Cells.set_self _ _ _ _)
  rw [Cells.set_set] at requeued
  have orders := (Memory.touches_takeReserve s.mem side.book i ptr (s.mem.clip ptr)).orders
  have moved := mirrors.setLevel present requeued (congrArg Array.size orders)
  rwa [List.map_append] at moved

theorem dropHead (mirrors : Mirrors min nLevels s cells r)
    (present : (min + i : Price) ∈ r.book side)
    (place : cells side.book i = (ptr, o) :: rest) :
    Mirrors min nLevels
      { s with mem := (s.mem.setLevel side.book i { s.mem.levels side.book i with
        total := (s.mem.levels side.book i).total - o.qty
        hidden := (s.mem.levels side.book i).hidden - o.reserve }).dropHead side.book i ptr }
      (cells.set side.book i rest) (r.setLevel side (min + i) (rest.map Prod.snd)) :=
  mirrors.setLevel present (mirrors.heap.dropHead place) (by simp [Memory.dropHead, Memory.forget])

theorem dropEmpty (mirrors : Mirrors min nLevels s cells r)
    (present : (min + i : Price) ∈ r.book side) (place : cells side.book i = (ptr, o) :: rest)
    (out : o.qty = 0) (unhidden : o.reserve = 0) :
    Mirrors min nLevels { s with mem := s.mem.dropHead side.book i ptr }
      (cells.set side.book i rest) (r.setLevel side (min + i) (rest.map Prod.snd)) := by
  have dropped := mirrors.dropHead present place
  rw [out, unhidden, Memory.setLevel_eq_self] at dropped
  · exact dropped
  · simp

end Mirrors

end heads

/-! ## A level -/

section sweeping

variable [Handler H] {min : Price} {nLevels : Nat} {pumping : Bool} {maker : Side} {i : Nat}

structure Sweeping (min : Price) (nLevels : Nat) (pumping : Bool) (maker : Side) (i : Nat)
    (fast : MatchingEngine H × Option Ptr × Qty) (ref : ReferenceEngine H × Qty) : Prop where
  tracks : Tracks min nLevels pumping false fast.1 ref.1
  cursor : fast.2.1 = (fast.1.mem.levels maker.book i).head
  qty : fast.2.2 = ref.2
  best : fast.1.best maker = i

structure Swept (min : Price) (nLevels : Nat) (pumping : Bool) (maker : Side) (i : Nat)
    (fast : MatchingEngine H × Qty) (ref : ReferenceEngine H × Qty × Bool) : Prop where
  tracks : Tracks min nLevels pumping ref.2.2 fast.1 ref.1
  qty : fast.2 = ref.2.1
  best : fast.1.best maker = i

/-- The fill of a round, at a level with `o` at its head. -/
theorem fill_lockstep {taker : OrderId} {side : Side} {owner : OwnerId} {stp : StpPolicy}
    {s : MatchingEngine H} {r : ReferenceEngine H} {cells : Cells} {qty : Qty} {ptr : Ptr}
    {o : RO} {rest : List (Ptr × RO)}
    {turn' : Turn (ReferenceEngine H × Qty) (ReferenceEngine H × Qty × Bool)}
    (mirrors : Mirrors min nLevels s cells r) (flags : s.pumping = pumping ∧ s.stpHalt = false)
    (best : s.best maker = i) (place : cells maker.book i = (ptr, o) :: rest)
    (hungry : qty ≠ 0) (other : ¬ (owner ≠ 0 ∧ o.owner = owner))
    (round : ReferenceEngine.sweepRound maker (min + i) taker side owner stp (r, qty) =
      some turn') :
    ∃ turn, sweepRound maker i taker (min + i) side owner stp (s, some ptr, qty) = some turn ∧
      Turn.Related (Sweeping min nLevels pumping maker i) (Swept min nLevels pumping maker i)
        turn turn' := by
  have present := mirrors.present best
  have holds := mirrors.heap.filed.holds maker.book i ptr o (by simp [place])
  have level : r.level maker (min + i) = o :: rest.map Prod.snd := mirrors.level_of_place place
  simp only [ReferenceEngine.sweepRound, level, hungry, other, if_false] at round
  have node := holds.node
  have sameOwner : (s.mem.nodes ptr).owner = o.owner := by rw [node]; rfl
  have sameQty : (s.mem.nodes ptr).qty = o.qty := by rw [node]; rfl
  have sameId : (s.mem.nodes ptr).id = o.id := by rw [node]; rfl
  have sameSide : (s.mem.nodes ptr).side = o.side := by rw [node]; rfl
  have sameIceberg : (s.mem.nodes ptr).iceberg = decide (o.peak ≠ 0) := by rw [node]; rfl
  simp only [sweepRound, hungry, sameOwner, other, if_false, sameQty, sameId, sameSide,
    sameIceberg]
  generalize amount : (if qty < o.qty then qty else o.qty) = fill at round ⊢
  -- The fill itself.
  have filled := ((mirrors.takeDisplayed present place fill).setLast (min + i)).emit
    (.trade ⟨taker, o.id, min + i, fill, side⟩)
  generalize fast : MatchingEngine.emit { s with
    mem := s.mem.takeDisplayed maker.book i ptr fill, lastPx := min + i, hasLast := true }
    (.trade ⟨taker, o.id, min + i, fill, side⟩) = s₁ at filled ⊢
  have flags₁ : s₁.pumping = pumping ∧ s₁.stpHalt = false := fast ▸ flags
  have best₁ : s₁.best maker = i := fast ▸ best
  have place₁ := Cells.set_self cells maker.book i ((ptr, { o with qty := o.qty - fill }) :: rest)
  obtain ⟨left, isLeft⟩ : ∃ left, left = { o with qty := o.qty - fill } := ⟨_, rfl⟩
  have leftQty : o.qty - fill = left.qty := by rw [isLeft]
  have leftReserve : o.reserve = left.reserve := by rw [isLeft]
  rw [← isLeft] at filled place₁ round
  generalize cells.set maker.book i ((ptr, left) :: rest) = cells₁ at filled place₁
  generalize ((r.setLevel maker (min + i) (left :: rest.map Prod.snd)).setLast (min + i)).emit
    (.trade ⟨taker, o.id, min + i, fill, side⟩) = r₁ at filled round
  have holds₁ := filled.heap.filed.holds maker.book i ptr left (by simp [place₁])
  have present₁ := filled.present best₁
  have fastQty : (s₁.mem.nodes ptr).qty = left.qty := by rw [holds₁.node]; rfl
  have fastReserve : (s₁.mem.extra ptr).reserve = left.reserve := by rw [holds₁.extra]; rfl
  rw [leftQty, leftReserve] at round
  simp only [fastQty, fastReserve]
  by_cases out : left.qty = 0
  · simp only [out, if_true] at round ⊢
    by_cases hidden : 0 < left.reserve
    · -- The head shows its next clip behind the others.
      have iceberg : left.peak ≠ 0 := fun plain => by
        rw [holds₁.plain plain] at hidden
        exact absurd hidden (by decide)
      have samePeak : o.peak = left.peak := by rw [isLeft]
      have clip : ((s₁.mem.replenish maker.book i ptr).nodes ptr).qty = left.clip := by
        simp [Memory.replenish, holds₁.clip]
      simp only [hidden, if_true, Option.some.injEq] at round
      subst round
      simp only [samePeak, ne_eq, iceberg, not_false_eq_true, decide_true, hidden, and_self,
        if_true, clip]
      refine ⟨_, rfl, .again ⟨⟨_, (filled.emit (.rest o.id o.side (min + i) left.clip)).renew
        present₁ place₁ iceberg out, flags₁⟩, rfl, rfl, best₁⟩⟩
    · -- The head is used up.
      have unhidden : left.reserve = 0 := by
        simpa [UInt64.lt_iff_toNat_lt, ← UInt64.toNat_inj] using hidden
      simp only [hidden, if_false, Option.some.injEq] at round
      subst round
      simp only [hidden, and_false, if_false]
      have dropped := filled.dropEmpty present₁ place₁ out unhidden
      refine ⟨_, rfl, .again ⟨⟨_, dropped, flags₁⟩, ?_, rfl, best₁⟩⟩
      rw [filled.heap.filed.next_of_head place₁, dropped.heap.filed.head, Cells.set_self]
  · simp only [out, if_false, Option.some.injEq] at round ⊢
    subst round
    refine ⟨_, rfl, .again ⟨⟨_, filled, flags₁⟩, ?_, rfl, best₁⟩⟩
    rw [filled.heap.filed.head_cons place₁]

theorem sweepRound_lockstep {taker : OrderId} {side : Side} {owner : OwnerId} {stp : StpPolicy}
    {s : MatchingEngine H} {cursor : Option Ptr} {r : ReferenceEngine H} {qty qty' : Qty}
    {turn' : Turn (ReferenceEngine H × Qty) (ReferenceEngine H × Qty × Bool)}
    (sweeping : Sweeping min nLevels pumping maker i (s, cursor, qty) (r, qty'))
    (round : ReferenceEngine.sweepRound maker (min + i) taker side owner stp (r, qty') =
      some turn') :
    ∃ turn, sweepRound maker i taker (min + i) side owner stp (s, cursor, qty) = some turn ∧
      Turn.Related (Sweeping min nLevels pumping maker i) (Swept min nLevels pumping maker i)
        turn turn' := by
  rcases sweeping with ⟨⟨cells, mirrors, flags⟩, isHead, rfl, best⟩
  have present := mirrors.present best
  simp only at mirrors flags isHead best
  subst isHead
  cases place : cells maker.book i with
  | nil =>
      have level : r.level maker (min + i) = [] := mirrors.level_of_place place
      simp only [ReferenceEngine.sweepRound, level, Option.some.injEq] at round
      subst round
      rw [mirrors.heap.filed.head, place]
      exact ⟨_, rfl, .leave ⟨⟨cells, mirrors, flags⟩, rfl, best⟩⟩
  | cons cell rest =>
      rcases cell with ⟨ptr, o⟩
      have holds := mirrors.heap.filed.holds maker.book i ptr o (by simp [place])
      have level : r.level maker (min + i) = o :: rest.map Prod.snd :=
        mirrors.level_of_place place
      rw [mirrors.heap.filed.head_cons place]
      by_cases full : qty = 0
      · simp only [ReferenceEngine.sweepRound, level, full, if_true, Option.some.injEq] at round
        subst round full
        refine ⟨.leave (s, 0), by simp [sweepRound], .leave ⟨⟨cells, mirrors, flags⟩, rfl, best⟩⟩
      by_cases own : owner ≠ 0 ∧ o.owner = owner
      · have sameOwner : (s.mem.nodes ptr).owner = o.owner := by rw [holds.node]; rfl
        have sameId : (s.mem.nodes ptr).id = o.id := by rw [holds.node]; rfl
        have sameQty : (s.mem.nodes ptr).qty = o.qty := by rw [holds.node]; rfl
        have dropped := (mirrors.emit (.cancel o.id)).dropHead present place
        simp only [ReferenceEngine.sweepRound, level, full, own, if_false, if_true,
          ne_eq, not_false_eq_true, and_self] at round
        simp only [sweepRound, full, sameOwner, own, if_false, if_true, ne_eq,
          not_false_eq_true, and_self, cancelHead, sameId, sameQty, holds.reserve]
        cases stp with
        | cancelTaker =>
            simp only [reduceCtorEq, not_true, if_false, Option.some.injEq] at round ⊢
            subst round
            exact ⟨_, rfl, .leave ⟨⟨cells, { mirrors with }, flags.1, rfl⟩, rfl, best⟩⟩
        | cancelMaker =>
            simp only [reduceCtorEq, not_false_eq_true, if_true, Option.some.injEq] at round ⊢
            subst round
            refine ⟨_, rfl, .again ⟨⟨_, dropped, flags⟩, ?_, rfl, best⟩⟩
            have head : _ = ((cells.set maker.book i rest maker.book i).map Prod.fst).head? :=
              dropped.heap.filed.head
            rw [Cells.set_self] at head
            exact (mirrors.heap.filed.next_of_head place).trans head.symm
        | cancelBoth =>
            simp only [reduceCtorEq, not_false_eq_true, if_true, if_false,
              Option.some.injEq] at round ⊢
            subst round
            exact ⟨_, rfl, .leave ⟨⟨_, { dropped with }, flags.1, rfl⟩, rfl, best⟩⟩
      · exact fill_lockstep mirrors flags best place full own round

theorem sweepLevel_lockstep {taker : OrderId} {side : Side} {owner : OwnerId}
    {stp : StpPolicy} {s : MatchingEngine H} {r : ReferenceEngine H} {qty : Qty}
    {result' : ReferenceEngine H × Qty × Bool}
    (tracks : Tracks min nLevels pumping false s r) (best : s.best maker = i)
    (run : loop (ReferenceEngine.sweepRound maker (min + i) taker side owner stp)
      (r.sweepBound qty) (r, qty) = some result') :
    ∃ result, s.sweepLevel maker i taker qty (min + i) side owner stp = some result ∧
      Swept min nLevels pumping maker i result result' := by
  rcases tracks with ⟨cells, mirrors, flags⟩
  have bound : s.sweepBound qty = r.sweepBound qty := by
    rw [sweepBound, ReferenceEngine.sweepBound, mirrors.ids]
  rw [sweepLevel, bound]
  refine loop_lockstep (Sweeping min nLevels pumping maker i) (Swept min nLevels pumping maker i)
    ?_ ⟨⟨cells, mirrors, flags⟩, rfl, rfl, best⟩ run
  rintro ⟨s, cursor, qty⟩ ⟨r, qty'⟩ turn' sweeping round
  exact sweepRound_lockstep sweeping round

end sweeping

/-! ## The book -/

section matching

variable [Handler H] {min : Price} {nLevels : Nat} {pumping : Bool} {side : Side}

def Bounds (min : Price) (nLevels : Nat) (side : Side) (limitIdx : Int) (limit : Option Price) :
    Prop :=
  ∀ i : Nat, i < nLevels → (withinLimit side i limitIdx ↔ side.opposite.Within (min + i) limit)

theorem bounds_market_buy (min : Price) (nLevels : Nat) :
    Bounds min nLevels .buy ((nLevels : Int) - 1) none := by
  intro i inRange
  simp only [withinLimit, Side.Within, iff_true]
  lia

theorem bounds_market_sell (min : Price) (nLevels : Nat) :
    Bounds min nLevels .sell 0 none := by
  intro i inRange
  simp only [withinLimit, Side.Within, iff_true]
  lia

omit [Handler H] in
theorem bounds_limit {s : MatchingEngine H} {cells : Cells} {r : ReferenceEngine H}
    {price : Price} (mirrors : Mirrors min nLevels s cells r) (inside : r.inBand price)
    (side : Side) : Bounds min nLevels side (s.idx price) (some price) := by
  intro i inRange
  have index := (mirrors.idx_eq inside).1
  cases side <;> simp only [withinLimit, Side.Within, Side.Reaches, Side.opposite] <;> lia

structure Matching (min : Price) (nLevels : Nat) (pumping : Bool)
    (fast : MatchingEngine H × Qty) (ref : ReferenceEngine H × Qty) : Prop where
  tracks : Tracks min nLevels pumping false fast.1 ref.1
  qty : fast.2 = ref.2

structure Matched (min : Price) (nLevels : Nat) (pumping : Bool)
    (fast : MatchingEngine H × Qty) (ref : ReferenceEngine H × Qty × Bool) : Prop where
  tracks : Tracks min nLevels pumping ref.2.2 fast.1 ref.1
  qty : fast.2 = ref.2.1

theorem matchRound_lockstep {taker : OrderId} {limitIdx : Int} {limit : Option Price}
    {owner : OwnerId} {stp : StpPolicy} {s : MatchingEngine H} {r : ReferenceEngine H}
    {qty qty' : Qty} {turn' : Turn (ReferenceEngine H × Qty) (ReferenceEngine H × Qty × Bool)}
    (bounds : Bounds min nLevels side limitIdx limit)
    (matching : Matching min nLevels pumping (s, qty) (r, qty'))
    (round : ReferenceEngine.matchRound taker side limit owner stp (r, qty') = some turn') :
    ∃ turn, matchRound side taker limitIdx owner stp (s, qty) = some turn ∧
      Turn.Related (Matching min nLevels pumping) (Matched min nLevels pumping) turn turn' := by
  rcases matching with ⟨⟨cells, mirrors, flags⟩, rfl⟩
  simp only at mirrors flags
  have tracks : Tracks min nLevels pumping false s r := ⟨cells, mirrors, flags⟩
  simp only [ReferenceEngine.matchRound] at round
  cases best' : r.best side.opposite with
  | none =>
      have best : s.best side.opposite = -1 := by rw [mirrors.best, best']; rfl
      simp only [best', Option.some.injEq] at round
      subst round
      exact ⟨.leave (s, qty), by simp [matchRound, best], .leave ⟨tracks, rfl⟩⟩
  | some px =>
      have low := (mirrors.inside _ px (Mirrors.best_mem best').1).1
      have refMin := mirrors.refMin
      obtain ⟨i, rfl⟩ : ∃ i : Nat, px = min + i := ⟨(px - min).toNat, by lia⟩
      have best : s.best side.opposite = i := mirrors.best_index.mpr best'
      have present := mirrors.present best
      have within := bounds i (mirrors.index_lt present)
      simp only [best'] at round
      by_cases leaves : qty = 0 ∨ ¬ side.opposite.Within (min + i) limit
      · have stays : ¬ (0 < qty ∧ (0 : Int) ≤ i ∧ withinLimit side i limitIdx) := by
          rw [within]
          grind
        simp only [leaves, if_true, Option.some.injEq] at round
        subst round
        refine ⟨.leave (s, qty), ?_, .leave ⟨tracks, rfl⟩⟩
        simp only [matchRound, best, stays, if_false]
      · have goes : 0 < qty ∧ (0 : Int) ≤ i ∧ withinLimit side i limitIdx := by
          rw [within]
          grind
        simp only [leaves, if_false, Option.bind_eq_bind, Option.bind_eq_some_iff] at round
        rcases round with ⟨⟨r₁, qty₁, haltFlag⟩, swept', round⟩
        rcases sweepLevel_lockstep tracks best swept' with
          ⟨⟨s₁, qty₁'⟩, swept, ⟨cells₁, mirrors₁, flags₁⟩, same, best₁⟩
        simp only at mirrors₁ flags₁ same best₁
        subst same
        have vacated := mirrors₁.vacateBestIfEmpty best₁ (mirrors₁.present best₁)
        have fastRound : matchRound side taker limitIdx owner stp (s, qty) =
            let s₂ := if (s₁.mem.levels side.opposite.book i).head.isNone then
              s₁.vacateBest side.opposite else s₁
            if s₂.stpHalt then some (.leave (s₂, qty₁')) else some (.again (s₂, qty₁')) := by
          simp only [matchRound, best, goes, and_self, if_true, mirrors.fastMin, Int.toNat_natCast,
            swept]
          rfl
        have flags₂ : ∀ s₂, s₂ = (if (s₁.mem.levels side.opposite.book i).head.isNone then
              s₁.vacateBest side.opposite else s₁) →
            s₂.pumping = pumping ∧ s₂.stpHalt = haltFlag := by
          rintro _ rfl
          split
          · exact flags₁
          · exact flags₁
        generalize (if (s₁.mem.levels side.opposite.book i).head.isNone then
          s₁.vacateBest side.opposite else s₁) = s₂ at vacated fastRound flags₂
        have flags₂ := flags₂ s₂ rfl
        simp only [fastRound, flags₂.2]
        cases haltFlag with
        | true =>
            simp only [if_true, Option.some.injEq] at round ⊢
            subst round
            exact ⟨_, rfl, .leave ⟨⟨cells₁, vacated, flags₂⟩, rfl⟩⟩
        | false =>
            simp only [Bool.false_eq_true, if_false, Option.some.injEq] at round ⊢
            subst round
            exact ⟨_, rfl, .again ⟨⟨cells₁, vacated, flags₂⟩, rfl⟩⟩

theorem matchSide_lockstep {taker : OrderId} {limitIdx : Int} {limit : Option Price}
    {owner : OwnerId} {stp : StpPolicy} {s : MatchingEngine H} {r : ReferenceEngine H}
    {qty : Qty} {result' : ReferenceEngine H × Qty × Bool}
    (bounds : Bounds min nLevels side limitIdx limit)
    (tracks : Tracks min nLevels pumping false s r)
    (run : r.matchOrder taker side qty limit owner stp = some result') :
    ∃ result, matchSide side s taker qty limitIdx owner stp = some result ∧
      Matched min nLevels pumping result result' := by
  rcases tracks with ⟨cells, mirrors, flags⟩
  have bound : s.sweepBound qty = r.sweepBound qty := by
    rw [sweepBound, ReferenceEngine.sweepBound, mirrors.ids]
  rw [matchSide, bound]
  refine loop_lockstep (Matching min nLevels pumping) (Matched min nLevels pumping)
    ?_ ⟨⟨cells, mirrors, flags⟩, rfl⟩ run
  rintro ⟨s, qty⟩ ⟨r, qty'⟩ turn' matching round
  exact matchRound_lockstep bounds matching round

theorem matchMarket_lockstep {id : OrderId} {owner : OwnerId} {stp : StpPolicy}
    {s : MatchingEngine H} {r r' : ReferenceEngine H} {qty left : Qty} {haltFlag : Bool}
    (tracks : Tracks min nLevels pumping false s r)
    (run : r.matchOrder id side qty none owner stp = some (r', left, haltFlag)) :
    ∃ s', s.matchMarket id side qty owner stp = some (s', left) ∧
      Tracks min nLevels pumping false s' r' := by
  have bounds : Bounds min nLevels side
      (match side with | .buy => (s.nLevels : Int) - 1 | .sell => 0) none := by
    rcases tracks with ⟨cells, mirrors, -⟩
    rw [mirrors.fastLevels]
    cases side
    · exact bounds_market_buy min nLevels
    · exact bounds_market_sell min nLevels
  rcases matchSide_lockstep bounds tracks run with
    ⟨⟨s', left'⟩, fast, ⟨cells, mirrors, flags⟩, same⟩
  simp only at mirrors flags same
  subst same
  refine ⟨{ s' with stpHalt := false }, ?_, cells, { mirrors with }, flags.1, rfl⟩
  cases side <;> simp only [matchMarket, matchBuy, matchSell] <;> rw [fast] <;> rfl

end matching

/-! ## Resting -/

section resting

variable [Handler H] {min : Price} {nLevels : Nat} {pumping : Bool} {side : Side}
  {s : MatchingEngine H} {cells : Cells} {r : ReferenceEngine H} {o : RO}

omit [Handler H] in
/-- An inserted order joins its level. -/
theorem Mirrors.insert (mirrors : Mirrors min nLevels s cells r) {i : Nat} {mem : Memory}
    {ptr : Ptr} (inside : r.inBand (min + i))
    (heap : mem.Heap (cells.set side.book i (cells side.book i ++ [(ptr, o)])))
    (orders : mem.orders.size = s.mem.orders.size) :
    Mirrors min nLevels
      (if (s.mem.levels side.book i).tail.isNone then { s with mem }.occupy side i
        else { s with mem })
      (cells.set side.book i (cells side.book i ++ [(ptr, o)]))
      (r.setLevel side (min + i) (r.level side (min + i) ++ [o])) := by
  have level : (cells side.book i ++ [(ptr, o)]).map Prod.snd =
      r.level side (min + i) ++ [o] := by
    rw [List.map_append, mirrors.resting]
    rfl
  rw [← level]
  have isEmpty : (s.mem.levels side.book i).tail.isNone = true ↔ cells side.book i = [] := by
    rw [Option.isNone_iff_eq_none, mirrors.heap.filed.tail_none_iff]
  by_cases empty : cells side.book i = []
  · rw [if_pos (isEmpty.mpr empty)]
    exact mirrors.occupy inside heap orders
  · rw [if_neg (mt isEmpty.mp empty)]
    refine mirrors.setLevel ?_ heap orders
    by_contra absent
    refine empty (mirrors.level_nil.mpr ?_)
    rw [ReferenceEngine.level]
    exact Std.ExtTreeMap.getD_eq_fallback absent

theorem rest_eq {live : Ptr → Prop} (stocked : s.mem.Stocked live) (id : OrderId) (side : Side)
    (price : Price) (qty : Qty) (owner : OwnerId) (stp : StpPolicy) (peak : Qty) :
    s.rest id side price qty owner stp peak =
      let i := s.idx price
      let plain : RO := { id, side, price, qty, owner, stp }
      let shaped : RO := { plain with qty := peak, reserve := qty - peak, peak }
      let iceberg := peak ≠ 0 ∧ peak < qty
      let mem := if iceberg then s.mem.insertShaped side.book i shaped
        else s.mem.insertPlain side.book i plain
      let s' := { s with mem }
      let s' := if (s.mem.levels side.book i).tail.isNone then s'.occupy side i else s'
      s'.emit (.rest id side price (if iceberg then peak else qty)) := by
  have holdsStops : side.book.holdsStops = false := Side.book_holdsStops side
  have occupied (s : MatchingEngine H) (i : Nat) : (s.occupy side i).mem = s.mem := by
    rw [Mirrors.occupy_eq]
  have displayed (s : MatchingEngine H) (i : Nat) (first : Bool) (ptr : Ptr) :
      ((if first then s.occupy side i else s).mem.nodes ptr).qty = (s.mem.nodes ptr).qty := by
    cases first
    · rfl
    · simp [occupied]
  unfold MatchingEngine.rest
  by_cases iceberg : peak ≠ 0 ∧ peak < qty
  · have blank := Memory.insertShaped_blank stocked
      { id, price, qty := peak, ext := some { s.mem with pool := s.mem.pool.alloc.2 }.allocExtra.1,
        owner, side, stp, iceberg := true, stopPending := false, stopMarket := false } rfl
    simp only [iceberg, and_self, ne_eq, not_false_eq_true, if_true, displayed, blank]
    simp [Memory.insertShaped, Memory.append, Memory.nodeOf, RO.extra, iceberg.1]
  · simp only [iceberg, if_false, displayed]
    simp [Memory.insertPlain, Memory.append, Memory.nodeOf]

theorem rest_lockstep {id : OrderId} {price : Price} {qty peak : Qty} {owner : OwnerId}
    {stp : StpPolicy} (tracks : Tracks min nLevels pumping false s r) (inside : r.inBand price)
    (unused : s.mem.lookup id = none) (issued : id < r.nextId) :
    Tracks min nLevels pumping false (s.rest id side price qty owner stp peak)
      (r.restShaped id side price qty peak owner stp) := by
  rcases tracks with ⟨cells, mirrors, flags⟩
  have index := (mirrors.idx_eq inside).1
  have issued : id < s.mem.orders.size := by
    rw [mirrors.ids]
    exact issued
  have kept (mem : Memory) (first : Bool) :
      let s' := if first then { s with mem }.occupy side (s.idx price) else { s with mem }
      s'.pumping = pumping ∧ s'.stpHalt = false := by
    cases first
    · exact flags
    · simp [Mirrors.occupy_eq, flags]
  rw [← index] at inside
  rw [rest_eq mirrors.heap.stocked]
  unfold ReferenceEngine.restShaped ReferenceEngine.rest
  by_cases shaped : peak ≠ 0 ∧ peak < qty
  · let o : RO := { id, side, price, qty := peak, reserve := qty - peak, peak, owner, stp }
    have heap : (s.mem.insertShaped side.book (s.idx price) o).Heap _ :=
      mirrors.heap.insertShaped unused issued fun plain => absurd plain shaped.1
    have inserted := (mirrors.insert inside heap (by simp)).emit (.rest id side price peak)
    rw [index] at inserted
    simp only [shaped, and_self, ne_eq, not_false_eq_true, if_true]
    exact ⟨_, inserted, kept _ _⟩
  · let o : RO := { id, side, price, qty, owner, stp }
    have heap : (s.mem.insertPlain side.book (s.idx price) o).Heap _ :=
      mirrors.heap.insertPlain unused issued rfl rfl
    have inserted := (mirrors.insert inside heap (by simp)).emit (.rest id side price qty)
    rw [index] at inserted
    simp only [shaped, if_false]
    exact ⟨_, inserted, kept _ _⟩

end resting

/-! ## Limit orders -/

section placing

variable [Handler H] {min : Price} {nLevels : Nat} {pumping : Bool} {s : MatchingEngine H}
  {cells : Cells} {r r' : ReferenceEngine H}

omit [Handler H] in
theorem book_cases (book : BookName) :
    ∃ side : Side, book = side.book ∨ book = side.stopBook := by
  cases book
  · exact ⟨.buy, .inl rfl⟩
  · exact ⟨.sell, .inl rfl⟩
  · exact ⟨.buy, .inr rfl⟩
  · exact ⟨.sell, .inr rfl⟩

omit [Handler H] in
theorem Mirrors.lookup_none (mirrors : Mirrors min nLevels s cells r) {id : OrderId}
    (closed : ¬ r.market.IsOpen id) : s.mem.lookup id = none := by
  cases found : s.mem.lookup id with
  | none => rfl
  | some ptr =>
      rcases (mirrors.heap.filed.table id ptr).mp found with ⟨book, i, o, member, rfl⟩
      have inside : o ∈ (cells book i).map Prod.snd := List.mem_map.mpr ⟨_, member, rfl⟩
      rcases book_cases book with ⟨side, rfl | rfl⟩
      · rw [mirrors.resting] at inside
        exact absurd (Market.isOpen_of_mem (m := r.market) inside) closed
      · rw [mirrors.parked] at inside
        exact absurd (Market.isOpen_of_stop (m := r.market) (List.mem_of_mem_filter inside)) closed

theorem placeLimit_lockstep {id : OrderId} {side : Side} {price : Price} {qty peak : Qty}
    {tif : TimeInForce} {owner : OwnerId} {stp : StpPolicy}
    (tracks : Tracks min nLevels pumping false s r) (keyed : r.Keyed)
    (valid : ValidState (r.market, .taking (.ofLimit id side price qty tif owner stp peak)))
    (inside : r.inBand price)
    (run : r.place id side price qty tif owner stp peak = some r') :
    ∃ s', s.placeLimit id side price qty tif owner stp peak = some s' ∧
      Tracks min nLevels pumping false s' r' := by
  have halted : s.halted = r.halted := by
    rcases tracks with ⟨cells, mirrors, -⟩
    exact mirrors.halted
  unfold ReferenceEngine.place at run
  by_cases isHalted : r.halted = true
  · rw [if_pos isHalted, Option.some.injEq] at run
    subst run
    refine ⟨_, by rw [placeLimit, halted, if_pos isHalted],
      rest_lockstep tracks inside ?_ valid.2.issued.2⟩
    rcases tracks with ⟨cells, mirrors, -⟩
    exact mirrors.lookup_none valid.2.fresh
  · rw [if_neg isHalted] at run
    rcases Option.bind_eq_some_iff.mp run with ⟨⟨r₁, left, haltFlag⟩, run', ending⟩
    have bounds : Bounds min nLevels side (s.idx price) (some price) := by
      rcases tracks with ⟨cells, mirrors, -⟩
      exact bounds_limit mirrors inside side
    rcases matchSide_lockstep bounds tracks run' with ⟨⟨s₁, left'⟩, fast, matched⟩
    rcases matched with ⟨tracks₁, same⟩
    simp only at tracks₁ same
    subst same
    -- The taker is still not in the book, and the band has not moved.
    obtain ⟨result, run'', matching⟩ := ReferenceEngine.match_spec valid keyed
      (by simpa using isHalted)
    have same : result = (r₁, left', haltFlag) := Option.some.inj (run''.symm.trans run')
    subst same
    have valid₁ := matching.1.took.valid valid
    have taker : (Taker.ofLimit id side price left' tif owner stp peak).Valid r₁.market := by
      cases haltFlag <;> exact valid₁.2
    have inside₁ : r₁.inBand price := by
      unfold ReferenceEngine.inBand
      rw [matching.1.frame.min, matching.1.frame.max]
      exact inside
    have placed : s.placeLimit id side price qty tif owner stp peak =
        if s₁.stpHalt then
          let s := { s₁ with stpHalt := false }
          some (if 0 < left' then s.emit (.cancel id) else s)
        else if 0 < left' then
          if tif = .ioc ∨ tif = .fok then some (s₁.emit (.cancel id))
          else some (s₁.rest id side price left' owner stp peak)
        else some s₁ := by
      rw [placeLimit, halted, if_neg isHalted]
      cases side <;> simp only [matchBuy, matchSell] <;> rw [fast] <;> rfl
    rw [placed]
    rcases tracks₁ with ⟨cells₁, mirrors₁, flags₁⟩
    simp only at ending
    rw [flags₁.2]
    cases haltFlag with
    | true =>
        rw [if_pos rfl, Option.some.injEq] at ending
        subst ending
        have reset : Mirrors min nLevels { s₁ with stpHalt := false } cells₁ r₁ :=
          { mirrors₁ with }
        refine ⟨_, if_pos rfl, cells₁, ?_⟩
        by_cases positive : 0 < left'
        · simp only [positive, if_true]
          exact ⟨reset.emit (.cancel id), flags₁.1, rfl⟩
        · simp only [positive, if_false]
          exact ⟨reset, flags₁.1, trivial⟩
    | false =>
        rw [if_neg (by decide)] at ending
        rw [if_neg (by decide)]
        by_cases positive : 0 < left'
        · rw [if_pos positive] at ending ⊢
          by_cases temporary : tif = .ioc ∨ tif = .fok
          · rw [if_pos temporary, Option.some.injEq] at ending
            subst ending
            exact ⟨_, if_pos temporary, cells₁, mirrors₁.emit (.cancel id), flags₁⟩
          · rw [if_neg temporary, Option.some.injEq] at ending
            subst ending
            exact ⟨_, if_neg temporary, rest_lockstep ⟨cells₁, mirrors₁, flags₁⟩ inside₁
              (mirrors₁.lookup_none taker.fresh) taker.issued.2⟩
        · rw [if_neg positive, Option.some.injEq] at ending
          subst ending
          exact ⟨_, if_neg positive, cells₁, mirrors₁, flags₁⟩

end placing

end MatchingEngine

end Matchbook
