import Mathlib.Algebra.BigOperators.Intervals
import Matchbook.Engine.Refinement

namespace Matchbook

open IntrusiveList

/-! # Representation invariant of the fast engine

What holds of the arrays, lists, tables and caches of an engine between two
operations, in terms of the engine alone. `listed` names the nodes of each
level, front to back. -/

namespace MatchingEngine

variable {H : Type}

def IsBest (map : LevelBitmap) (side : Side) (best : Int) : Prop :=
  (best = -1 ∧ ∀ i, map.test i = false) ∨
    ∃ i : Nat, best = i ∧ map.test i = true ∧
      ∀ j : Nat, map.test j = true → match side with
        | .buy => j ≤ i
        | .sell => i ≤ j

structure Shelved (s : MatchingEngine H) (side : Side) (book : BookName)
    (listed : Nat → List Ptr) : Prop where
  linked : ∀ i, IsList s.mem.links (s.mem.levels book i).toEnds (listed i)
  home : ∀ i, ∀ o ∈ listed i, (s.mem.nodes o).side = side ∧ (s.mem.nodes o).price = s.min + i ∧
    (s.mem.nodes o).stopPending = book.holdsStops
  inside : ∀ i, listed i ≠ [] → i < s.nLevels
  count : ∀ i, (s.mem.levels book i).count = UInt32.ofNat (listed i).length
  total : ∀ i, (s.mem.levels book i).total = ((listed i).map fun o => (s.mem.nodes o).qty).sum
  hidden : ∀ i, (s.mem.levels book i).hidden = ((listed i).map s.mem.reserve).sum
  occupied : s.stopBooks = true ∨ book.holdsStops = false →
    ∀ i, (s.maps book).test i = true ↔ listed i ≠ []

def shelfSize (s : MatchingEngine H) (listed : Nat → List Ptr) : Nat :=
  ∑ i ∈ Finset.range s.nLevels, (listed i).length

structure WellFormed (s : MatchingEngine H) (listed : BookName → Nat → List Ptr) : Prop where
  resting : ∀ side : Side, s.Shelved side side.book (listed side.book)
  best : ∀ side : Side, IsBest (s.maps side.book) side (s.best side)
  parked : ∀ side : Side, s.Shelved side side.stopBook (listed side.stopBook)
  pending : s.pendingStops = s.shelfSize (listed .stopBids) + s.shelfSize (listed .stopAsks)
  /-- An id leads to its order's node, and to nothing if it is not listed. -/
  table : ∀ id o, s.lookup id = some o ↔ ∃ book i, o ∈ listed book i ∧ (s.mem.nodes o).id = id
  onlyOnce : ∀ book i book' i' o, o ∈ listed book i → o ∈ listed book' i' → book = book' ∧ i = i'
  taken : ∀ book i, ∀ o ∈ listed book i, o ∉ s.mem.pool.free
  slots : ∀ book i, ∀ o ∈ listed book i, ∀ ext, (s.mem.nodes o).ext = some ext →
    ext < s.mem.extras.size ∧ ext ∉ s.mem.extraFree ∧
      ∀ book' i', ∀ o' ∈ listed book' i', (s.mem.nodes o').ext = some ext → o' = o
  freeOnce : s.mem.pool.free.Nodup ∧ s.mem.extraFree.Nodup
  freeInside : ∀ ext ∈ s.mem.extraFree, ext < s.mem.extras.size
  openOrders : s.openOrders = s.shelfSize (listed .bids) + s.shelfSize (listed .asks) +
    s.pendingStops
  positive : ∀ book i, ∀ o ∈ listed book i, 0 < (s.mem.nodes o).qty
  clipped : ∀ book i, ∀ o ∈ listed book i, (s.mem.nodes o).iceberg = true →
    (s.mem.nodes o).qty ≤ (s.mem.extra o).peak
  flags : s.stpHalt = false ∧ s.pumping = false

/-! ## Counting -/

section counting

variable {band : Band} {min : Price} {nLevels : Nat} {s : MatchingEngine H} {cells : Cells}
  {r : ReferenceEngine H}

theorem sum_parkedAt {stops : List RO}
    (inside : ∀ o ∈ stops, min ≤ o.price ∧ o.price < min + nLevels) :
    ∑ i ∈ Finset.range nLevels, (parkedAt .buy (min + i) stops).length +
      ∑ i ∈ Finset.range nLevels, (parkedAt .sell (min + i) stops).length = stops.length := by
  induction stops with
  | nil => simp [parkedAt]
  | cons o stops induction =>
      have rest := induction fun other member => inside other (List.mem_cons_of_mem o member)
      rcases inside o List.mem_cons_self with ⟨low, high⟩
      obtain ⟨k, index⟩ : ∃ k : Nat, o.price = min + k := ⟨(o.price - min).toNat, by lia⟩
      have inRange : k ∈ Finset.range nLevels := Finset.mem_range.mpr (by lia)
      have one (side : Side) (i : Nat) : (parkedAt side (min + i) (o :: stops)).length =
          (parkedAt side (min + i) stops).length +
            if i = k then (if o.side = side then 1 else 0) else 0 := by
        have price : o.price = min + i ↔ i = k := by lia
        simp only [parkedAt, List.filter_cons, price]
        by_cases here : i = k <;> by_cases same : o.side = side <;> simp [here, same]
      simp only [one, Finset.sum_add_distrib, Finset.sum_ite_eq', inRange, if_true,
        List.length_cons]
      cases o.side <;> simp <;> lia

theorem Mirrors.sum_resting (mirrors : Mirrors min nLevels s cells r) (side : Side) :
    ∑ i ∈ Finset.range nLevels, (cells side.book i).length = (r.restingOrders side).length := by
  have size (i : Nat) : (cells side.book i).length = (r.level side (min + i)).length := by
    rw [← mirrors.resting, List.length_map]
  have keys : ((r.levels side).map Prod.fst).Nodup := by
    rw [List.Nodup, List.pairwise_map]
    refine (r.levels_sorted side).imp fun {first second} isWorse same => ?_
    rw [same] at isWorse
    exact side.worse_irrefl _ isWorse
  have byKey : (r.restingOrders side).length =
      (((r.levels side).map Prod.fst).map fun px => (r.level side px).length).sum := by
    rw [ReferenceEngine.restingOrders, List.length_flatMap, List.map_map]
    refine congrArg List.sum (List.map_congr_left fun entry member => ?_)
    rcases ReferenceEngine.mem_levels.mp (show (entry.1, entry.2) ∈ r.levels side from member) with
      ⟨-, same⟩
    rw [Function.comp_apply, same]
  have byIndex : ∑ i ∈ Finset.range nLevels, (cells side.book i).length =
      (((List.range nLevels).map fun i : Nat => min + (i : Int)).map
        fun px => (r.level side px).length).sum := by
    rw [List.map_map, ← List.sum_toFinset _ List.nodup_range, List.toFinset_range]
    exact Finset.sum_congr rfl fun i _ => size i
  rw [byKey, byIndex]
  refine sum_map_eq (List.nodup_range.map fun left right same => by simpa using same) keys
    fun px => ?_
  have present : px ∈ (r.levels side).map Prod.fst ↔ px ∈ r.book side := by
    constructor
    · intro member
      rcases List.mem_map.mp member with ⟨entry, inLevels, rfl⟩
      exact (ReferenceEngine.mem_levels.mp inLevels).1
    · exact fun member => List.mem_map.mpr ⟨(px, _), ReferenceEngine.mem_levels.mpr ⟨member, rfl⟩,
        rfl⟩
  by_cases inBook : px ∈ r.book side
  · rcases mirrors.inside side px inBook with ⟨low, high⟩
    have refMin := mirrors.refMin
    have refMax := mirrors.refMax
    have inRange : px ∈ (List.range nLevels).map fun i : Nat => min + (i : Int) :=
      List.mem_map.mpr ⟨(px - min).toNat, List.mem_range.mpr (by lia), by lia⟩
    rw [if_pos inRange, if_pos (present.mpr inBook)]
  · have empty : r.level side px = [] := Std.ExtTreeMap.getD_eq_fallback inBook
    rw [if_neg (mt present.mp inBook), empty]
    split <;> rfl

end counting

/-! ## The invariant holds -/

section established

variable {band : Band} {min : Price} {nLevels : Nat} {s : MatchingEngine H} {cells : Cells}
  {r : ReferenceEngine H}

def nodesOf (cells : Cells) (book : BookName) (i : Nat) : List Ptr := (cells book i).map Prod.fst

theorem mem_nodesOf {book : BookName} {i : Nat} {ptr : Ptr} :
    ptr ∈ nodesOf cells book i ↔ ∃ o, (ptr, o) ∈ cells book i := by
  simp [nodesOf]

namespace Mirrors

theorem mem_level (mirrors : Mirrors min nLevels s cells r) {side : Side} {i : Nat} {ptr : Ptr}
    {o : RO} (member : (ptr, o) ∈ cells side.book i) : o ∈ r.level side (min + i) := by
  rw [← mirrors.resting]
  exact List.mem_map.mpr ⟨_, member, rfl⟩

theorem mem_stops (mirrors : Mirrors min nLevels s cells r) {side : Side} {i : Nat} {ptr : Ptr}
    {o : RO} (member : (ptr, o) ∈ cells side.stopBook i) :
    o ∈ r.stops ∧ o.side = side ∧ o.price = min + i := by
  have inside : o ∈ parkedAt side (min + i) r.stops := by
    rw [← mirrors.parked]
    exact List.mem_map.mpr ⟨_, member, rfl⟩
  simpa [parkedAt] using inside

theorem resting_inside (mirrors : Mirrors min nLevels s cells r) (valid : r.market.Valid)
    {side : Side} {i : Nat} (occupied : cells side.book i ≠ []) : i < nLevels := by
  have inside := valid.inside side (min + i) (mt mirrors.level_nil.mpr occupied)
  have refMin := mirrors.refMin
  have refMax := mirrors.refMax
  obtain ⟨low, high⟩ : r.min ≤ min + i ∧ min + i ≤ r.max := inside
  lia

theorem parked_inside (mirrors : Mirrors min nLevels s cells r) (valid : r.market.Valid)
    {side : Side} {i : Nat} (occupied : cells side.stopBook i ≠ []) : i < nLevels := by
  rcases List.exists_mem_of_ne_nil _ occupied with ⟨⟨ptr, o⟩, member⟩
  rcases mirrors.mem_stops member with ⟨stop, -, price⟩
  obtain ⟨low, high⟩ : r.min ≤ o.price ∧ o.price ≤ r.max := valid.stopInside _ stop
  have refMin := mirrors.refMin
  have refMax := mirrors.refMax
  lia

/-- A book whose orders are at home and whose bits are those of its levels. -/
theorem shelved (mirrors : Mirrors min nLevels s cells r) {side : Side} {book : BookName}
    (home : ∀ i ptr o, (ptr, o) ∈ cells book i → o.side = side ∧ o.price = min + i)
    (inside : ∀ i, cells book i ≠ [] → i < nLevels)
    (occupied : s.stopBooks = true ∨ book.holdsStops = false →
      ∀ i, (s.maps book).test i = true ↔ cells book i ≠ []) :
    s.Shelved side book (nodesOf cells book) where
  linked := mirrors.heap.filed.linked book
  home i ptr listed := by
    rcases mem_nodesOf.mp listed with ⟨o, member⟩
    rcases home i ptr o member with ⟨sameSide, price⟩
    rw [(mirrors.heap.filed.holds book i ptr o member).node, mirrors.fastMin]
    exact ⟨sameSide, price, rfl⟩
  inside i listed := by
    rw [mirrors.fastLevels]
    exact inside i (mt List.map_eq_nil_iff.mpr listed)
  count i := by
    rw [mirrors.heap.filed.count, nodesOf, List.length_map]
  total i := by
    rw [mirrors.heap.filed.total, nodesOf, List.map_map]
    refine congrArg List.sum (List.map_congr_left fun cell member => ?_)
    rw [Function.comp_apply, (mirrors.heap.filed.holds book i cell.1 cell.2 member).node]
    rfl
  hidden i := by
    rw [mirrors.heap.filed.hidden, nodesOf, List.map_map]
    refine congrArg List.sum (List.map_congr_left fun cell member => ?_)
    exact (mirrors.heap.filed.holds book i cell.1 cell.2 member).reserve.symm
  occupied allocated i := by
    rw [occupied allocated i]
    exact not_congr List.map_eq_nil_iff.symm

end Mirrors

theorem Mirrors.listed_order (mirrors : Mirrors min nLevels s cells r) (valid : r.market.Valid)
    {book : BookName} {i : Nat} {ptr : Ptr} (listed : ptr ∈ nodesOf cells book i) :
    0 < (s.mem.nodes ptr).qty ∧ ((s.mem.nodes ptr).iceberg = true →
      (s.mem.nodes ptr).qty ≤ (s.mem.extra ptr).peak) := by
  rcases mem_nodesOf.mp listed with ⟨o, member⟩
  have holds := mirrors.heap.filed.holds book i ptr o member
  have shape : 0 < o.qty ∧ (o.peak ≠ 0 → o.qty ≤ o.peak) := by
    rcases book_cases book with ⟨side, rfl | rfl⟩
    · have shape := valid.shape side _ o (mirrors.mem_level member)
      exact ⟨shape.positive, shape.clipped⟩
    · rcases valid.stopShape o (mirrors.mem_stops member).1 with ⟨positive, -, plain⟩
      exact ⟨positive, fun peak => absurd plain peak⟩
  rw [holds.extra, holds.node]
  exact ⟨shape.1, fun iceberg => shape.2 (by simpa [Memory.nodeOf] using iceberg)⟩

theorem Simulates.wellFormed (simulates : Simulates band s r) :
    ∃ listed, s.WellFormed listed := by
  rcases simulates with ⟨⟨cells, mirrors, pumping, stpHalt⟩, valid, keyed, settled⟩
  have filed := mirrors.heap.filed
  have stocked := mirrors.heap.stocked
  rcases stocked.pool with ⟨nodes, accounts, isLive⟩
  have live {book : BookName} {i : Nat} {ptr : Ptr} (listed : ptr ∈ nodesOf cells book i) :
      cells.Live ptr := ⟨book, i, listed⟩
  have occupied (side : Side) (i : Nat) :
      (s.maps side.book).test i = true ↔ cells side.book i ≠ [] := by
    rw [mirrors.occupied, keyed, ne_eq, ← mirrors.level_nil]
  have size (book : BookName) : s.shelfSize (nodesOf cells book) =
      ∑ i ∈ Finset.range (Band.levels band), (cells book i).length := by
    simp [shelfSize, nodesOf, mirrors.fastLevels]
  have stops : s.pendingStops =
      s.shelfSize (nodesOf cells .stopBids) + s.shelfSize (nodesOf cells .stopAsks) := by
    have parked (side : Side) (i : Nat) : (cells side.stopBook i).length =
        (parkedAt side (band.min + i) r.stops).length := by
      rw [← mirrors.parked, List.length_map]
    have refMin := mirrors.refMin
    have refMax := mirrors.refMax
    have inside (o : RO) (isStop : o ∈ r.stops) :
        band.min ≤ o.price ∧ o.price < band.min + Band.levels band := by
      obtain ⟨low, high⟩ : r.min ≤ o.price ∧ o.price ≤ r.max := valid.stopInside o isStop
      constructor <;> lia
    rw [mirrors.pending, ← sum_parkedAt inside, size, size]
    exact congrArg₂ (· + ·) (Finset.sum_congr rfl fun i _ => (parked .buy i).symm)
      (Finset.sum_congr rfl fun i _ => (parked .sell i).symm)
  refine ⟨nodesOf cells, ?_⟩
  exact {
    resting := fun side => mirrors.shelved
      (fun i ptr o member => valid.home side _ o (mirrors.mem_level member))
      (fun i => mirrors.resting_inside valid) fun _ => occupied side
    best := fun side => by
      have cached := mirrors.best side
      cases best : r.best side with
      | none =>
          rw [best] at cached
          refine .inl ⟨cached, fun i => ?_⟩
          have empty := (ReferenceEngine.best_eq_none keyed).mp best (band.min + i)
          rw [← Bool.not_eq_true, occupied, not_not, mirrors.level_nil]
          exact empty
      | some px =>
          rw [best] at cached
          rcases Mirrors.best_mem best with ⟨present, least⟩
          rcases mirrors.inside side px present with ⟨low, high⟩
          have refMin := mirrors.refMin
          obtain ⟨i, rfl⟩ : ∃ i : Nat, px = band.min + i := ⟨(px - band.min).toNat, by lia⟩
          refine .inr ⟨i, ?_, (mirrors.occupied side i).mpr present, fun j set => ?_⟩
          · simp only [indexOf] at cached
            lia
          · have reaches := least _ ((mirrors.occupied side j).mp set)
            cases side <;> simp only [Side.Reaches] at reaches ⊢ <;> lia
    parked := fun side => mirrors.shelved
      (fun i ptr o member => (mirrors.mem_stops member).2)
      (fun i => mirrors.parked_inside valid) fun allocated i => by
        have isAllocated : s.stopBooks = true := by simpa using allocated
        rw [mirrors.stopOccupied isAllocated, ← mirrors.parked]
        exact not_congr List.map_eq_nil_iff
    pending := stops
    table := fun id ptr => by
      refine (filed.table id ptr).trans ⟨?_, ?_⟩
      · rintro ⟨book, i, o, member, rfl⟩
        refine ⟨book, i, mem_nodesOf.mpr ⟨o, member⟩, ?_⟩
        rw [(filed.holds book i ptr o member).node]
        rfl
      · rintro ⟨book, i, listed, rfl⟩
        rcases mem_nodesOf.mp listed with ⟨o, member⟩
        refine ⟨book, i, o, member, ?_⟩
        rw [(filed.holds book i ptr o member).node]
        rfl
    onlyOnce := fun book i book' i' ptr listed listed' => by
      rcases mem_nodesOf.mp listed with ⟨o, member⟩
      rcases mem_nodesOf.mp listed' with ⟨o', member'⟩
      rcases filed.apart book i book' i' ptr o o' member member' with ⟨sameBook, sameLevel, -⟩
      exact ⟨sameBook, sameLevel⟩
    taken := fun book i ptr listed isFree =>
      (List.nodup_append.mp accounts.nodup).2.2 ptr ((isLive ptr).mpr (live listed)) ptr isFree rfl
    slots := fun book i ptr listed ext used => by
      rcases stocked.used ptr ext (live listed) used with ⟨inside, notFree⟩
      exact ⟨inside, notFree, fun book' i' ptr' listed' used' =>
        stocked.apart ptr' ptr ext (live listed') (live listed) used' used⟩
    freeOnce := ⟨(List.nodup_append.mp accounts.nodup).2.1, stocked.distinct⟩
    freeInside := fun ext isFree =>
      (Array.getElem?_eq_some_iff.mp (stocked.free ext isFree)).1
    openOrders := by
      rw [mirrors.openOrders_eq valid, r.openOrders_eq, mirrors.pending, size, size]
      have bids := mirrors.sum_resting .buy
      have asks := mirrors.sum_resting .sell
      simp only [Side.book] at bids asks
      simp only [ReferenceEngine.openOrderIds, List.length_map, List.length_append, bids, asks]
      lia
    positive := fun book i ptr listed => (mirrors.listed_order valid listed).1
    clipped := fun book i ptr listed => (mirrors.listed_order valid listed).2
    flags := ⟨stpHalt, pumping⟩ }

end established

end MatchingEngine

end Matchbook
