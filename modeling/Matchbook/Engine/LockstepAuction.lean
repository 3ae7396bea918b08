import Matchbook.Engine.LockstepEntry

namespace Matchbook

open BoundedLoop OrderedMap

/-! # The auction in lockstep -/

namespace MatchingEngine

variable {H : Type} {min : Price} {nLevels : Nat} {s : MatchingEngine H} {cells : Cells}
  {r r' : ReferenceEngine H} {side : Side} {px : Price} {i : Nat} {ptr : Ptr} {o : RO}

/-! ## The clearing price -/

theorem cumulative_eq (qty : Nat → Qty) (k : Nat) :
    cumulative qty k = ((List.range (k + 1)).map qty).sum := by
  induction k with
  | zero => simp [cumulative]
  | succ k induction =>
      rw [cumulative, induction, List.range_succ (n := k + 1), List.map_append, List.sum_append]
      simp

namespace Mirrors

theorem levelQty_eq (mirrors : Mirrors min nLevels s cells r) (side : Side) {j : Int}
    (inside : 0 ≤ j) : s.levelQty side j = queueQty (r.level side (min + j)) := by
  rcases Int.eq_ofNat_of_zero_le inside with ⟨i, rfl⟩
  have sum := mirrors.level_sum side i 0
  rw [zero_add] at sum
  exact sum.symm

variable {lo hi : Price} {k : Nat}

theorem supply_eq (mirrors : Mirrors min nLevels s cells r) (bestAsk : r.bestAsk = some lo) :
    s.supply (lo - min) k = r.executable .sell (lo + k) := by
  rcases best_mem (show r.best .sell = some lo from bestAsk) with ⟨present, least⟩
  have low := mirrors.refMin ▸ (mirrors.inside .sell lo present).1
  have levels (j : Nat) : s.levelQty .sell (lo - min + j) = queueQty (r.level .sell (lo + j)) := by
    rw [mirrors.levelQty_eq .sell (by lia)]
    congr 2
    lia
  rw [supply, cumulative_eq, ReferenceEngine.executable_eq_of_covers
    ((List.range (k + 1)).map fun j : Nat => lo + (j : Int))]
  · simp only [levels, List.map_map]
    rfl
  · exact List.nodup_range.map fun left right same => by simpa using same
  · intro px member
    rcases List.mem_map.mp member with ⟨j, inRange, rfl⟩
    have := List.mem_range.mp inRange
    simp only [Side.Reaches]
    lia
  · intro px occupied reaches
    have above : lo ≤ px := least px occupied
    simp only [Side.Reaches] at reaches
    exact List.mem_map.mpr ⟨(px - lo).toNat, List.mem_range.mpr (by lia), by lia⟩

theorem demand_eq (mirrors : Mirrors min nLevels s cells r) (bestBid : r.bestBid = some hi)
    (low : min ≤ lo) {n : Nat} (size : (n : Int) = hi - lo + 1) (inside : k < n) :
    s.demand (lo - min) n k = r.executable .buy (lo + k) := by
  rcases best_mem (show r.best .buy = some hi from bestBid) with ⟨present, most⟩
  have levels (j : Nat) (small : j < n - 1 - k + 1) :
      s.levelQty .buy (lo - min + n - 1 - j) = queueQty (r.level .buy (hi - j)) := by
    rw [mirrors.levelQty_eq .buy (by lia)]
    congr 2
    lia
  rw [demand, cumulative_eq, ReferenceEngine.executable_eq_of_covers
    ((List.range (n - 1 - k + 1)).map fun j : Nat => hi - (j : Int))]
  · rw [List.map_map]
    refine congrArg List.sum (List.map_congr_left fun j member => ?_)
    exact levels j (List.mem_range.mp member)
  · exact List.nodup_range.map fun left right same => by
      have same : hi - (left : Int) = hi - right := same
      lia
  · intro px member
    rcases List.mem_map.mp member with ⟨j, inRange, rfl⟩
    have := List.mem_range.mp inRange
    simp only [Side.Reaches]
    lia
  · intro px occupied reaches
    have below : px ≤ hi := most px occupied
    simp only [Side.Reaches] at reaches
    exact List.mem_map.mpr ⟨(hi - px).toNat, List.mem_range.mpr (by lia), by lia⟩

theorem findClearing_eq (mirrors : Mirrors min nLevels s cells r)
    (bestBid : r.bestBid = some hi) (bestAsk : r.bestAsk = some lo) (overlap : lo ≤ hi) :
    let n := (hi - lo + 1).toNat
    let clearing := (List.range n).foldl (s.improveClearing (lo - min) n) {}
    r.findClearing lo hi =
      { exec := clearing.exec, imbalance := clearing.imbalance, clearing := lo + clearing.k } := by
  intro n clearing
  have low := mirrors.refMin ▸ (mirrors.inside .sell lo
    (best_mem (show r.best .sell = some lo from bestAsk)).1).1
  have size : (n : Int) = hi - lo + 1 := Int.toNat_of_nonneg (by lia)
  refine List.foldl_rel (r := fun (ref : ReferenceEngine.BestCross) (fast : Clearing) =>
    ref = { exec := fast.exec, imbalance := fast.imbalance, clearing := lo + fast.k })
    (by simp) ?_
  rintro k member ref fast rfl
  have inside := List.mem_range.mp member
  have fastMin := mirrors.fastMin
  have distance (j : Nat) : s.min + (lo - min) + j - s.lastPx = lo + j - r.last := by
    rw [mirrors.last]
    lia
  have choose (better : Prop) [Decidable better] (exec imbalance : Qty) :
      (if better then ({ exec, imbalance, clearing := lo + k } : ReferenceEngine.BestCross)
        else { exec := fast.exec, imbalance := fast.imbalance, clearing := lo + fast.k }) =
      let chosen : Clearing := if better then { k, exec, imbalance } else fast
      { exec := chosen.exec, imbalance := chosen.imbalance, clearing := lo + chosen.k } := by
    by_cases isBetter : better <;> simp [isBetter]
  simp only [ReferenceEngine.considerClearing, improveClearing, mirrors.supply_eq bestAsk,
    mirrors.demand_eq bestBid low size inside, mirrors.hasLast, distance]
  exact choose _ _ _

end Mirrors

/-! ## Filling a pair -/

section filling

variable {rest : List (Ptr × RO)} {f : Qty}

theorem Mirrors.consumeHead (mirrors : Mirrors min nLevels s cells r)
    (present : (min + i : Price) ∈ r.book side) (place : cells side.book i = (ptr, o) :: rest)
    (shape : o.Shape) (within : f ≤ o.total) :
    let fromDisp := if f < o.qty then f else o.qty
    let mem := s.mem.takeDisplayed side.book i ptr fromDisp
    let mem := if o.peak ≠ 0 then mem.takeReserve side.book i ptr (f - fromDisp) else mem
    Mirrors min nLevels { s with mem } (cells.set side.book i ((ptr, o.consumed f) :: rest))
      (r.setLevel side (min + i) (o.consumed f :: rest.map Prod.snd)) := by
  intro fromDisp mem mem'
  have taken := mirrors.heap.takeDisplayed
    (show cells side.book i = [] ++ (ptr, o) :: rest from place) fromDisp
  have consumed : ({ { o with qty := o.qty - fromDisp } with
      reserve := o.reserve - (f - fromDisp) } : RO) = o.consumed f := rfl
  by_cases iceberg : o.peak ≠ 0
  · have takenReserve := taken.takeReserve (Cells.set_self _ _ _ _) iceberg (f - fromDisp)
    rw [Cells.set_set, consumed] at takenReserve
    have same : mem' = mem.takeReserve side.book i ptr (f - fromDisp) := if_pos iceberg
    rw [same]
    exact mirrors.setLevel present takenReserve (congrArg Array.size
      (Memory.touches_takeReserve mem side.book i ptr (f - fromDisp)).orders)
  · have plain := shape.plain (not_not.mp iceberg)
    have all : f - fromDisp = 0 := by
      have : o.total = o.qty := by rw [RO.total, plain, add_zero]
      simp only [fromDisp]
      grind
    have same : mem' = mem := if_neg iceberg
    have noReserve : ({ o with qty := o.qty - fromDisp } : RO) = o.consumed f := by
      rw [← consumed, all, sub_zero]
    rw [noReserve] at taken
    rw [same]
    exact mirrors.setLevel present taken rfl

variable [Handler H]

/-- A side of a pair, with the bookkeeping for an emptied level. -/
theorem auctionFill_lockstep (px : Price) (mirrors : Mirrors min nLevels s cells r)
    (best : s.best side = i) (place : cells side.book i = (ptr, o) :: rest) (shape : o.Shape)
    (within : f ≤ o.total) :
    ∃ s₁ emptied level, s.auctionFill side i ptr f px = (s₁, emptied) ∧
      (let s₂ := if emptied then s₁.vacateBest side else s₁
      Mirrors min nLevels s₂ (cells.set side.book i level)
        ((r.crossConsume side (min + i) f px).eraseIfEmpty side (min + i)) ∧
      s₂.pumping = s.pumping ∧ s₂.stpHalt = s.stpHalt) := by
  have present := mirrors.present best
  have holds := mirrors.heap.filed.holds side.book i ptr o (by simp [place])
  have level : r.level side (min + i) = o :: rest.map Prod.snd := mirrors.level_of_place place
  have node := holds.node
  have sameQty : (s.mem.nodes ptr).qty = o.qty := by rw [node]; rfl
  have sameId : (s.mem.nodes ptr).id = o.id := by rw [node]; rfl
  have sameSide : (s.mem.nodes ptr).side = o.side := by rw [node]; rfl
  have sameIceberg : (s.mem.nodes ptr).iceberg = decide (o.peak ≠ 0) := by rw [node]; rfl
  have place₁ := Cells.set_self cells side.book i ((ptr, o.consumed f) :: rest)
  -- The engine once the quantity is off the head.
  obtain ⟨s₁, made⟩ : ∃ s₁ : MatchingEngine H, s₁ =
      let fromDisp := if f < o.qty then f else o.qty
      let mem := s.mem.takeDisplayed side.book i ptr fromDisp
      let mem := if o.peak ≠ 0 then mem.takeReserve side.book i ptr (f - fromDisp) else mem
      { s with mem } := ⟨_, rfl⟩
  have taken : Mirrors min nLevels s₁ (cells.set side.book i ((ptr, o.consumed f) :: rest))
      (r.setLevel side (min + i) (o.consumed f :: rest.map Prod.snd)) :=
    made ▸ mirrors.consumeHead present place shape within
  have fast : s.auctionFill side i ptr f px =
      if o.peak ≠ 0 ∧ (s₁.mem.nodes ptr).qty = 0 ∧ 0 < (s₁.mem.extra ptr).reserve then
        let s := { s₁ with mem := s₁.mem.replenish side.book i ptr }
        let s := s.emit (.rest o.id o.side px (s.mem.nodes ptr).qty)
        ({ s with mem := s.mem.requeue side.book i ptr }, false)
      else
        let s := if (s₁.mem.nodes ptr).qty = 0 then
            { s₁ with mem := s₁.mem.dropHead side.book i ptr } else s₁
        (s, (s.mem.levels side.book i).head.isNone) := by
    rw [made]
    simp only [auctionFill, sameQty, sameId, sameSide, sameIceberg, decide_eq_true_eq]
    by_cases iceberg : o.peak ≠ 0
    · simp only [if_pos iceberg]
    · simp only [if_neg iceberg]
  have best₁ : s₁.best side = i := made ▸ best
  have flags₁ : s₁.pumping = s.pumping ∧ s₁.stpHalt = s.stpHalt := made ▸ ⟨rfl, rfl⟩
  rw [ReferenceEngine.crossConsume_eq level]
  obtain ⟨left, isLeft⟩ : ∃ left, left = o.consumed f := ⟨_, rfl⟩
  have samePeak : left.peak = o.peak := isLeft ▸ rfl
  rw [← isLeft] at taken place₁ ⊢
  have holds₁ := taken.heap.filed.holds side.book i ptr left (by simp)
  have present₁ := taken.present best₁
  have fastQty : (s₁.mem.nodes ptr).qty = left.qty := by rw [holds₁.node]; rfl
  have fastReserve : (s₁.mem.extra ptr).reserve = left.reserve := by rw [holds₁.extra]; rfl
  rw [fastQty, fastReserve, ← samePeak] at fast
  by_cases out : left.qty = 0
  · by_cases hidden : 0 < left.reserve
    · -- The head shows its next clip behind the others.
      have iceberg : left.peak ≠ 0 := fun plain => by
        rw [holds₁.plain plain] at hidden
        exact absurd hidden (by decide)
      have clip : ((s₁.mem.replenish side.book i ptr).nodes ptr).qty = left.clip := by
        simp [Memory.replenish, holds₁.clip]
      rw [if_pos ⟨iceberg, out, hidden⟩] at fast
      rw [if_pos ⟨out, hidden⟩]
      have renewed := (taken.emit (.rest o.id o.side px left.clip)).renew present₁ place₁
        iceberg out
      have resting : ((r.setLevel side (min + i) (left :: rest.map Prod.snd)).emit
          (.rest o.id o.side px left.clip)).setLevel side (min + i)
            (rest.map Prod.snd ++ [left.replenished]) =
          (r.emit (.rest o.id o.side px left.clip)).setLevel side (min + i)
            (rest.map Prod.snd ++ [left.replenished]) :=
        (r.emit (.rest o.id o.side px left.clip)).setLevel_setLevel _ _ _ _
      have kept : ((r.emit (.rest o.id o.side px left.clip)).setLevel side (min + i)
          (rest.map Prod.snd ++ [left.replenished])).eraseIfEmpty side (min + i) =
          (r.emit (.rest o.id o.side px left.clip)).setLevel side (min + i)
            (rest.map Prod.snd ++ [left.replenished]) := by
        rw [ReferenceEngine.eraseIfEmpty, if_neg (by simp [ReferenceEngine.level_setLevel])]
      rw [Cells.set_set, resting] at renewed
      simp only [clip] at fast
      rw [kept]
      exact ⟨_, _, _, fast, renewed, flags₁⟩
    · -- The head is used up.
      have unhidden : left.reserve = 0 := by
        simpa [UInt64.lt_iff_toNat_lt, ← UInt64.toNat_inj] using hidden
      have dropped := taken.dropEmpty present₁ place₁ out unhidden
      rw [if_neg (by simp [hidden]), if_pos out] at fast
      rw [if_neg (by simp [hidden]), if_pos out]
      rw [Cells.set_set, ReferenceEngine.setLevel_setLevel] at dropped
      refine ⟨_, _, _, fast, dropped.vacateBestIfEmpty best₁ ?_, ?_⟩
      · rw [ReferenceEngine.mem_setLevel]
        exact .inl ⟨rfl, rfl⟩
      · split <;> exact flags₁
  · rw [if_neg (by simp [out]), if_neg out] at fast
    rw [if_neg (by simp [out]), if_neg out]
    refine ⟨_, _, _, fast, taken.vacateBestIfEmpty best₁ present₁, ?_⟩
    split <;> exact flags₁

end filling

/-! ## The crossing loop -/

section crossing

variable [Handler H]

structure Crossing (min : Price) (nLevels : Nat) (fast : MatchingEngine H × Qty)
    (ref : ReferenceEngine H × Qty) : Prop where
  tracks : Tracks min nLevels false false fast.1 ref.1
  valid : ref.1.market.Valid
  keyed : ref.1.Keyed
  crossed : fast.2 = ref.2

omit [Handler H] in
theorem Mirrors.bestHead (mirrors : Mirrors min nLevels s cells r)
    (best : r.best side = some px) {rest : List RO} (head : r.level side px = o :: rest) :
    ∃ (i : Nat) (ptr : Ptr) (rest' : List (Ptr × RO)), px = min + i ∧ s.best side = i ∧
      cells side.book i = (ptr, o) :: rest' := by
  have low := mirrors.refMin ▸ (mirrors.inside side px (Mirrors.best_mem best).1).1
  obtain ⟨i, rfl⟩ : ∃ i : Nat, px = min + i := ⟨(px - min).toNat, by lia⟩
  rcases mirrors.place (show r.level side (min + i) = [] ++ o :: rest from head) with
    ⟨front, ptr, back, place, noFront, -⟩
  rcases List.map_eq_nil_iff.mp noFront with rfl
  exact ⟨i, ptr, back, rfl, mirrors.best_index.mpr best, place⟩

theorem crossRound_lockstep {clearing : Price} (low : min ≤ clearing) {crossed crossed' : Qty}
    {turn' : Turn (ReferenceEngine H × Qty) (ReferenceEngine H × Qty)}
    (crossing : Crossing min nLevels (s, crossed) (r, crossed'))
    (round : ReferenceEngine.crossRound clearing (r, crossed') = some turn') :
    ∃ turn, crossRound (clearing - min) (s, crossed) = some turn ∧
      Turn.Related (Crossing min nLevels) (Crossing min nLevels) turn turn' := by
  rcases crossing with ⟨⟨cells, mirrors, flags⟩, valid, keyed, rfl⟩
  simp only at mirrors flags valid keyed
  have stay : Crossing min nLevels (s, crossed) (r, crossed) :=
    ⟨⟨cells, mirrors, flags⟩, valid, keyed, rfl⟩
  have bids := mirrors.best .buy
  have asks := mirrors.best .sell
  cases bestBid : r.bestBid with
  | none =>
      simp only [ReferenceEngine.crossRound, bestBid, Option.some.injEq] at round
      subst round
      rw [show r.best .buy = none from bestBid] at bids
      refine ⟨_, ?_, .leave stay⟩
      rw [crossRound, bids, if_neg]
      rintro ⟨reaches, -⟩
      simp only [indexOf] at reaches
      lia
  | some hi =>
  cases bestAsk : r.bestAsk with
  | none =>
      simp only [ReferenceEngine.crossRound, bestBid, bestAsk, Option.some.injEq] at round
      subst round
      rw [show r.best .sell = none from bestAsk] at asks
      refine ⟨_, ?_, .leave stay⟩
      rw [crossRound, asks, if_neg]
      rintro ⟨-, occupied, -⟩
      simp only [indexOf] at occupied
      lia
  | some lo =>
  have bestBid' : r.best .buy = some hi := bestBid
  have bestAsk' : r.best .sell = some lo := bestAsk
  rw [bestBid'] at bids
  rw [bestAsk'] at asks
  have lowAsk := mirrors.refMin ▸ (mirrors.inside .sell lo (Mirrors.best_mem bestAsk').1).1
  have sameTest : (clearing - min ≤ s.best .buy ∧ 0 ≤ s.best .sell ∧
      s.best .sell ≤ clearing - min) ↔ clearing ≤ hi ∧ lo ≤ clearing := by
    rw [bids, asks]
    simp only [indexOf]
    lia
  by_cases overlap : clearing ≤ hi ∧ lo ≤ clearing
  · have isBid := (ReferenceEngine.best_eq_some keyed).mp bestBid'
    have isAsk := (ReferenceEngine.best_eq_some keyed).mp bestAsk'
    rcases List.exists_cons_of_ne_nil isBid.occupied with ⟨b, restBids, bidHead⟩
    rcases List.exists_cons_of_ne_nil isAsk.occupied with ⟨a, restAsks, askHead⟩
    replace bidHead : r.level .buy hi = b :: restBids := bidHead
    replace askHead : r.level .sell lo = a :: restAsks := askHead
    rcases mirrors.bestHead bestBid' bidHead with ⟨bi, bidPtr, bidCells, rfl, bestB, bidPlace⟩
    rcases mirrors.bestHead bestAsk' askHead with ⟨ai, askPtr, askCells, rfl, bestA, askPlace⟩
    have bidHolds := mirrors.heap.filed.holds Side.buy.book bi bidPtr b (by simp [bidPlace])
    have askHolds := mirrors.heap.filed.holds Side.sell.book ai askPtr a (by simp [askPlace])
    have bidShape := valid.shape .buy (min + bi) b (by
      show b ∈ r.level .buy (min + bi)
      simp [bidHead])
    have askShape := valid.shape .sell (min + ai) a (by
      show a ∈ r.level .sell (min + ai)
      simp [askHead])
    obtain ⟨f, amount⟩ : ∃ f, f = if b.total < a.total then b.total else a.total := ⟨_, rfl⟩
    have within := le_total_of_min amount
    let s₁ := emit { s with lastPx := clearing, hasLast := true }
      (.trade ⟨b.id, a.id, clearing, f, .buy⟩)
    let r₁ := (r.setLast clearing).emit (.trade ⟨b.id, a.id, clearing, f, .buy⟩)
    have mirrors₁ : Mirrors min nLevels s₁ cells r₁ := (mirrors.setLast clearing).emit _
    -- The bid, then the ask, which the bid has not moved.
    rcases auctionFill_lockstep clearing mirrors₁ bestB bidPlace bidShape within.1 with
      ⟨s₂, bidsEmptied, level₂, fill₂, mirrors₂, flags₂⟩
    rcases ReferenceEngine.crossConsume_spec (r := r₁) clearing f bidHead keyed with
      ⟨r₂, run₂, market₂, -, -, keyed₂, -, -⟩
    rw [run₂] at mirrors₂
    have askHead₂ : r₂.level .sell (min + ai) = a :: restAsks := by
      have same := congrArg (fun m => m.levels .sell (min + ai)) market₂
      simp only [Market.setLevel_levels_side _ _ _ _ _ _ (show Side.sell ≠ .buy by decide)] at same
      exact same.trans askHead
    have isAsk₂ : r₂.market.Best .sell (min + ai) := by
      have levels (p : Price) : r₂.market.levels .sell p = r.market.levels .sell p := by
        rw [market₂, Market.setLevel_levels_side _ _ _ _ _ _ (by decide)]
        rfl
      exact ⟨by rw [levels]; exact isAsk.occupied, fun p occupied =>
        isAsk.least p (levels p ▸ occupied)⟩
    have bestA₂ : (if bidsEmptied then s₂.vacateBest .buy else s₂).best .sell = ai :=
      mirrors₂.best_index.mpr ((ReferenceEngine.best_eq_some keyed₂).mpr isAsk₂)
    have askPlace₂ : cells.set Side.buy.book bi level₂ Side.sell.book ai =
        (askPtr, a) :: askCells := by
      rw [Cells.set_book_book, if_neg (by simp), askPlace]
    rcases auctionFill_lockstep clearing mirrors₂ bestA₂ askPlace₂ askShape within.2 with
      ⟨s₃, asksEmptied, level₃, fill₃, mirrors₃, flags₃⟩
    rcases ReferenceEngine.crossConsume_spec clearing f askHead₂ keyed₂ with
      ⟨r₃, run₃, -, -, -, keyed₃, -, -⟩
    rw [run₃] at mirrors₃
    have round' (crossed : Qty) : ReferenceEngine.crossRound clearing (r, crossed) =
        some (.again (r₃, crossed + f)) := by
      simp only [ReferenceEngine.crossRound, bestBid, bestAsk, overlap, and_self, if_true, bidHead,
        askHead, show b.qty + b.reserve = b.total from rfl,
        show a.qty + a.reserve = a.total from rfl,
        ← amount]
      rw [show (r.setLast clearing).emit (.trade ⟨b.id, a.id, clearing, f, .buy⟩) = r₁ from rfl,
        run₂, run₃]
    obtain rfl : turn' = .again (r₃, crossed + f) :=
      Option.some.inj (round.symm.trans (round' crossed))
    have valid₃ : r₃.market.Valid := by
      rcases ReferenceEngine.crossRound_spec valid (.refl r clearing keyed) with
        ⟨next, again, crossing, -⟩ | ⟨result, leave, -⟩
      · rw [round'] at again
        cases again
        exact (crossing.took.valid ⟨valid, trivial⟩).1
      · rw [round'] at leave
        cases leave
    refine ⟨.again (if asksEmptied then s₃.vacateBest .sell else s₃, crossed + f), ?_,
      .again ⟨⟨_, mirrors₃, ?_⟩, valid₃, keyed₃, rfl⟩⟩
    · have bidsHead : (s.mem.levels .bids bi).head = some bidPtr :=
        mirrors.heap.filed.head_cons bidPlace
      have asksHead : (s.mem.levels .asks ai).head = some askPtr :=
        mirrors.heap.filed.head_cons askPlace
      have bidQty : (s.mem.nodes bidPtr).qty + s.mem.reserve bidPtr = b.total := by
        rw [bidHolds.reserve, bidHolds.node]
        rfl
      have askQty : (s.mem.nodes askPtr).qty + s.mem.reserve askPtr = a.total := by
        rw [askHolds.reserve, askHolds.node]
        rfl
      have bidId : (s.mem.nodes bidPtr).id = b.id := by
        rw [bidHolds.node]
        rfl
      have askId : (s.mem.nodes askPtr).id = a.id := by
        rw [askHolds.node]
        rfl
      have price : s.min + (clearing - min) = clearing := by
        rw [mirrors.fastMin]
        lia
      simp only [crossRound]
      rw [if_pos (sameTest.mpr overlap)]
      simp only [bestB, bestA, Int.toNat_natCast, bidsHead, asksHead, bidQty, askQty, bidId, askId,
        price, ← amount]
      rw [show emit { s with lastPx := clearing, hasLast := true }
        (.trade ⟨b.id, a.id, clearing, f, .buy⟩) = s₁ from rfl, fill₂]
      simp only [fill₃]
    · exact ⟨flags₃.1.trans (flags₂.1.trans flags.1), flags₃.2.trans (flags₂.2.trans flags.2)⟩
  · simp only [ReferenceEngine.crossRound, bestBid, bestAsk, overlap, if_false,
      Option.some.injEq] at round
    subst round
    exact ⟨_, by rw [crossRound, if_neg (mt sameTest.mp overlap)], .leave stay⟩

theorem doUncross_lockstep {crossed : Qty} (tracks : Tracks min nLevels false false s r)
    (valid : r.market.Valid) (keyed : r.Keyed) (run : r.doUncross = some (r', crossed)) :
    ∃ s', s.doUncross = some (s', crossed) ∧ Tracks min nLevels false false s' r' ∧
      r'.market.Valid ∧ r'.Keyed := by
  rcases tracks with ⟨cells, mirrors, flags⟩
  have stay : s.doUncross = some (s, 0) → r.doUncross = some (r, 0) →
      ∃ s', s.doUncross = some (s', crossed) ∧ Tracks min nLevels false false s' r' ∧
        r'.market.Valid ∧ r'.Keyed := fun fast still => by
    cases run.symm.trans still
    exact ⟨s, fast, ⟨cells, mirrors, flags⟩, valid, keyed⟩
  have bids := mirrors.best .buy
  have asks := mirrors.best .sell
  cases bestBid : r.bestBid with
  | none =>
      rw [show r.best .buy = none from bestBid] at bids
      refine stay ?_ (by simp [ReferenceEngine.doUncross, bestBid])
      rw [doUncross, bids, if_pos (by simp [indexOf])]
  | some hi =>
  cases bestAsk : r.bestAsk with
  | none =>
      rw [show r.best .sell = none from bestAsk] at asks
      refine stay ?_ (by simp [ReferenceEngine.doUncross, bestBid, bestAsk])
      rw [doUncross, asks, if_pos (by simp [indexOf])]
  | some lo =>
  rw [show r.best .buy = some hi from bestBid] at bids
  rw [show r.best .sell = some lo from bestAsk] at asks
  have lowBid := mirrors.refMin ▸ (mirrors.inside .buy hi
    (Mirrors.best_mem (show r.best .buy = some hi from bestBid)).1).1
  have lowAsk := mirrors.refMin ▸ (mirrors.inside .sell lo
    (Mirrors.best_mem (show r.best .sell = some lo from bestAsk)).1).1
  have sameTest : (s.best .buy < 0 ∨ s.best .sell < 0 ∨ s.best .buy < s.best .sell) ↔
      hi < lo := by
    rw [bids, asks]
    simp only [indexOf]
    lia
  by_cases apart : hi < lo
  · refine stay ?_ (by simp [ReferenceEngine.doUncross, bestBid, bestAsk, apart])
    rw [doUncross, if_pos (sameTest.mpr apart)]
  have clearing := mirrors.findClearing_eq bestBid bestAsk (Int.not_lt.mp apart)
  have size : s.best .buy - s.best .sell + 1 = hi - lo + 1 := by
    rw [bids, asks]
    simp only [indexOf]
    lia
  have fast : s.doUncross =
      (let n := (hi - lo + 1).toNat
      let clearing := (List.range n).foldl (s.improveClearing (lo - min) n) {}
      if clearing.exec = 0 then some (s, 0)
      else loop (crossRound (lo + clearing.k - min)) (r.nextId + 1) (s, 0)) := by
    rw [doUncross, if_neg (mt sameTest.mp apart), size, asks, mirrors.ids]
    simp only [indexOf, show ∀ k : Nat, lo - min + (k : Int) = lo + k - min by intro k; lia]
  simp only at clearing fast
  generalize (List.range (hi - lo + 1).toNat).foldl
    (s.improveClearing (lo - min) (hi - lo + 1).toNat) {} = best at clearing fast
  have ref : r.doUncross = if best.exec = 0 then some (r, 0)
      else loop (ReferenceEngine.crossRound (lo + best.k)) (r.nextId + 1) (r, 0) := by
    simp only [ReferenceEngine.doUncross, bestBid, bestAsk, apart, if_false, clearing]
  by_cases nothing : best.exec = 0
  · rw [if_pos nothing] at fast ref
    exact stay fast ref
  rw [if_neg nothing] at fast ref
  rw [ref] at run
  obtain ⟨⟨s', crossed'⟩, fast', crossing⟩ := loop_lockstep (Crossing min nLevels)
    (Crossing min nLevels)
    (fun _ _ _ crossing round => crossRound_lockstep (by lia) crossing round)
    (⟨⟨cells, mirrors, flags⟩, valid, keyed, rfl⟩ : Crossing min nLevels (s, 0) (r, 0)) run
  obtain rfl : crossed' = crossed := crossing.crossed
  exact ⟨s', fast.trans fast', crossing.tracks, crossing.valid, crossing.keyed⟩

end crossing

end MatchingEngine

end Matchbook
