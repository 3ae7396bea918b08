import Mathlib.Data.List.SplitBy
import Matchbook.Engine.Aggregates

namespace Matchbook

open BoundedLoop

/-! # Market data

The levels of a side as a consumer is shown them, against its orders one by one. -/

structure LevelView where
  price : Price
  /-- Total resting quantity at the level. -/
  qty : Qty
  /-- Number of resting orders at the level. -/
  orders : UInt32
deriving DecidableEq

def LevelView.ofLevel (px : Price) (level : List RO) : LevelView where
  price := px
  qty := level.foldl (fun sum o => sum + o.qty) 0
  orders := UInt32.ofNat level.length

def LevelView.ofOrders (views : List (OrderId × Side × Price × Qty)) : LevelView where
  price := (views.head?.map fun view => view.2.2.1).getD 0
  qty := views.foldl (fun sum view => sum + view.2.2.2) 0
  orders := UInt32.ofNat views.length

/-- The orders of a side, price by price. -/
def LevelView.aggregate (views : List (OrderId × Side × Price × Qty)) : List LevelView :=
  (views.splitBy fun first second => first.2.2.1 = second.2.2.1).map ofOrders

namespace MatchingEngine

variable {H : Type}

/-- Up to `maxLevels` occupied levels, best first. -/
def visitLevels (s : MatchingEngine H) (side : Side) (maxLevels : Nat) :
    Option (List LevelView) :=
  loop (fun (i, n, seen) => some <|
      if 0 ≤ i ∧ n < maxLevels then
        let level := s.mem.levels side.book i.toNat
        .again (s.nextLevel side i, n + 1, seen ++ [⟨s.min + i, level.total, level.count⟩])
      else .leave seen)
    (s.nLevels + 1) (s.best side, 0, [])

def topLevels (s : MatchingEngine H) (side : Side) (maxLevels : Nat) :
    Option (List LevelView) :=
  s.visitLevels side maxLevels

/-! ## The walk -/

variable {min : Price} {nLevels : Nat} {s : MatchingEngine H} {cells : Cells}
  {r : ReferenceEngine H}

theorem Mirrors.levelView_eq (mirrors : Mirrors min nLevels s cells r) (side : Side) (i : Nat) :
    (⟨s.min + i, (s.mem.levels side.book i).total, (s.mem.levels side.book i).count⟩ : LevelView) =
      .ofLevel (min + i) (r.level side (min + i)) := by
  have sum := Mirrors.sum_eq_foldl RO.qty (cells side.book i) 0
  have size := congrArg List.length (mirrors.resting side i)
  rw [mirrors.resting, zero_add] at sum
  rw [List.length_map] at size
  rw [LevelView.ofLevel, sum, ← size, mirrors.fastMin, mirrors.heap.filed.total,
    mirrors.heap.filed.count]

theorem Mirrors.visitLevels_eq (mirrors : Mirrors min nLevels s cells r) (side : Side)
    (maxLevels : Nat) :
    s.visitLevels side maxLevels =
      some (((r.levels side).take maxLevels).map fun entry => .ofLevel entry.1 entry.2) := by
  have walk (worse seen : List (Price × List RO)) (n : Nat) (views : List LevelView) (bound : Nat)
      (split : r.levels side = seen ++ worse) (enough : worse.length < bound) :
      loop (fun (state : Int × Nat × List LevelView) => some <|
        if 0 ≤ state.1 ∧ state.2.1 < maxLevels then
          let level := s.mem.levels side.book state.1.toNat
          .again (s.nextLevel side state.1, state.2.1 + 1,
            state.2.2 ++ [⟨s.min + state.1, level.total, level.count⟩])
        else .leave state.2.2) bound (cursorOf min worse, n, views) =
          some (views ++ (worse.take (maxLevels - n)).map fun entry =>
            .ofLevel entry.1 entry.2) := by
    induction worse generalizing seen n views bound with
    | nil =>
        obtain ⟨bound, rfl⟩ : ∃ previous, bound = previous + 1 := ⟨bound - 1, by lia⟩
        exact loop_leave (by simp [cursorOf, indexOf]) bound
    | cons entry worse induction =>
        rcases entry with ⟨px, level⟩
        obtain ⟨bound, rfl⟩ : ∃ previous, bound = previous + 1 := ⟨bound - 1, by lia⟩
        rcases mirrors.cursor_cons split with ⟨i, rfl, -, same, cursor, next⟩
        rw [cursor]
        by_cases room : n < maxLevels
        · have left : maxLevels - n = maxLevels - (n + 1) + 1 := by lia
          have round := induction (seen ++ [(min + i, level)]) (n + 1)
            (views ++ [.ofLevel (min + i) level]) bound (by rw [split]; simp)
            (by simpa using enough)
          rw [left, List.take_succ_cons, List.map_cons, List.append_cons, ← round, ← next]
          refine loop_again ?_ bound
          simp only [Int.natCast_nonneg, room, and_self, if_true, Int.toNat_natCast,
            mirrors.levelView_eq side i, same]
        · have full : maxLevels - n = 0 := by lia
          rw [full, List.take_zero, List.map_nil, List.append_nil]
          exact loop_leave (by simp [room]) bound
  rw [visitLevels, mirrors.best_cursor]
  exact walk _ [] 0 [] _ rfl (Nat.lt_succ_of_le
    (mirrors.fastLevels ▸ mirrors.levels_length_le side))

theorem aggregate_levels (valid : r.market.Valid) (keyed : r.Keyed) (side : Side) :
    LevelView.aggregate ((r.levels side).flatMap fun entry => entry.2.map visited) =
      (r.levels side).map fun entry => .ofLevel entry.1 entry.2 := by
  have priced (entry : Price × List RO) (member : entry ∈ r.levels side) :
      entry.2 ≠ [] ∧ ∀ o ∈ entry.2, o.price = entry.1 := by
    rcases ReferenceEngine.mem_levels.mp member with ⟨present, same⟩
    have occupied := (keyed side entry.1).mp present
    rw [same] at occupied
    refine ⟨occupied, fun o inLevel => ?_⟩
    rw [← same] at inLevel
    exact (valid.home side entry.1 o inLevel).2
  rw [LevelView.aggregate, List.flatMap_def, List.splitBy_flatten, List.map_map]
  · apply List.map_congr_left
    rintro ⟨px, level⟩ member
    rcases priced (px, level) member with ⟨occupied, prices⟩
    rcases List.exists_cons_of_ne_nil occupied with ⟨o, others, rfl⟩
    have top := prices o List.mem_cons_self
    simp [LevelView.ofOrders, LevelView.ofLevel, visited, List.foldl_map, top]
  · intro empty
    rcases List.mem_map.mp empty with ⟨entry, member, nothing⟩
    exact (priced entry member).1 (List.map_eq_nil_iff.mp nothing)
  · intro views member
    rcases List.mem_map.mp member with ⟨entry, inLevels, rfl⟩
    have prices := (priced entry inLevels).2
    apply List.Pairwise.isChain
    rw [List.pairwise_map]
    apply List.pairwise_of_forall_mem_list
    intro first isFirst second isSecond
    simp [visited, prices first isFirst, prices second isSecond]
  · apply List.Pairwise.isChain
    rw [List.pairwise_map]
    apply (r.levels_sorted side).imp_of_mem
    intro first second isFirst isSecond worse
    rcases priced first isFirst with ⟨occupied, prices⟩
    rcases priced second isSecond with ⟨occupied', prices'⟩
    refine ⟨by simpa using occupied, by simpa using occupied', ?_⟩
    rw [List.getLast_map, List.head_map, decide_eq_false_iff_not]
    simp only [visited]
    rw [prices _ (List.getLast_mem _), prices' _ (List.head_mem _)]
    intro same
    rw [same] at worse
    exact side.worse_irrefl _ worse

/-! ## What the engine quotes -/

/-- Everything the engine tells of a side without naming its orders is in those levels. -/
structure Quotes (s : MatchingEngine H) (side : Side) (levels : List LevelView) : Prop where
  top : ∀ maxLevels, s.topLevels side maxLevels = some (levels.take maxLevels)
  best : levels.head?.map LevelView.price =
    if s.hasBest side then some (s.bestPrice side) else none
  prices : levels.map LevelView.price =
    (s.ladder side).filter fun px => s.queue side.book px ≠ []
  listed : ∀ view ∈ levels, s.depthAt side view.price = view.qty ∧
    s.orderCountAt side view.price = view.orders
  unlisted : ∀ px ∉ levels.map LevelView.price, s.depthAt side px = 0 ∧ s.hiddenAt side px = 0 ∧
    s.orderCountAt side px = 0

variable {band : Band}

theorem Simulates.quotes (simulates : Simulates band s r) (side : Side) :
    s.Quotes side (((s.ladder side).filter fun px => s.queue side.book px ≠ []).map fun px =>
      .ofLevel px (s.queue side.book px)) := by
  have shows := simulates.shows
  have valid := simulates.sound.valid
  have keyed := simulates.sound.keyed
  rcases simulates.tracks with ⟨cells, mirrors, -⟩
  have queues (px : Price) : s.queue side.book px = r.level side px := shows.levels side px
  have levels : (r.levels side).map (fun entry => LevelView.ofLevel entry.1 entry.2) =
      ((s.ladder side).filter fun px => s.queue side.book px ≠ []).map fun px =>
        .ofLevel px (s.queue side.book px) := by
    rw [ReferenceEngine.levels_eq valid keyed, List.map_map, shows.ladder_eq]
    simp only [queues]
    rfl
  have prices : (((s.ladder side).filter fun px => s.queue side.book px ≠ []).map fun px =>
      LevelView.ofLevel px (s.queue side.book px)).map LevelView.price =
        (s.ladder side).filter fun px => s.queue side.book px ≠ [] := by
    rw [List.map_map]
    exact List.map_id' _
  constructor
  case top =>
    intro maxLevels
    rw [topLevels, mirrors.visitLevels_eq, List.map_take, levels]
  case best =>
    rw [← levels, List.head?_map, Option.map_map, mirrors.best_eq, r.best_eq_head]
    rfl
  case prices => exact prices
  case listed =>
    intro view member
    rcases List.mem_map.mp member with ⟨px, -, rfl⟩
    rw [mirrors.depthAt_eq, mirrors.orderCountAt_eq, queues]
    exact ⟨rfl, rfl⟩
  case unlisted =>
    intro px missing
    rw [prices] at missing
    have empty : r.level side px = [] := by
      by_contra occupied
      apply missing
      rw [List.mem_filter, queues, shows.ladder_eq, Market.mem_ladder]
      exact ⟨valid.inside side px occupied, by simpa using occupied⟩
    rw [mirrors.depthAt_eq, mirrors.hiddenAt_eq, mirrors.orderCountAt_eq,
      ReferenceEngine.depthAt, ReferenceEngine.hiddenAt, ReferenceEngine.orderCountAt, empty]
    exact ⟨rfl, rfl, rfl⟩

theorem Simulates.aggregate (simulates : Simulates band s r) (side : Side) :
    ∃ views, s.visitOrders side = some views ∧ LevelView.aggregate views =
      ((s.ladder side).filter fun px => s.queue side.book px ≠ []).map fun px =>
        .ofLevel px (s.queue side.book px) := by
  have shows := simulates.shows
  have valid := simulates.sound.valid
  have keyed := simulates.sound.keyed
  rcases simulates.tracks with ⟨cells, mirrors, -⟩
  refine ⟨_, mirrors.visitOrders_eq valid side, ?_⟩
  rw [aggregate_levels valid keyed, ReferenceEngine.levels_eq valid keyed, List.map_map,
    shows.ladder_eq]
  have queues (px : Price) : s.queue side.book px = r.level side px := shows.levels side px
  simp only [queues]
  rfl

end MatchingEngine

end Matchbook
