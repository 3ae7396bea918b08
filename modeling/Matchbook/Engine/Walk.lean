import Matchbook.Engine.LockstepOperations

namespace Matchbook

open BoundedLoop OrderedMap

/-! # Walking a side away from its best level

The fast engine goes from level to level with its bitmaps, the reference engine
has the list of its levels. -/

namespace ReferenceEngine

variable {H : Type} {r : ReferenceEngine H} {side : Side} {px : Price} {level : List RO}

theorem mem_of_levels {seen worse : List (Price × List RO)}
    (split : r.levels side = seen ++ (px, level) :: worse) (p : Price) :
    p ∈ worse.map Prod.fst ↔ p ∈ r.book side ∧ side.Worse p px := by
  have sorted := r.levels_sorted side
  rw [split, List.pairwise_append, List.pairwise_cons] at sorted
  rcases sorted with ⟨-, ⟨after, -⟩, before⟩
  constructor
  · intro member
    rcases List.mem_map.mp member with ⟨⟨p, queue⟩, inWorse, rfl⟩
    have inLevels : (p, queue) ∈ r.levels side := by
      rw [split]
      simp [inWorse]
    exact ⟨(mem_levels.mp inLevels).1, after _ inWorse⟩
  · rintro ⟨present, isWorse⟩
    have inLevels : (p, r.level side p) ∈ r.levels side := mem_levels.mpr ⟨present, rfl⟩
    rw [split, List.mem_append, List.mem_cons] at inLevels
    rcases inLevels with inSeen | same | inWorse
    · exact absurd isWorse.reaches (before _ inSeen _ List.mem_cons_self).not_reaches
    · exact absurd ((Prod.mk.inj same).1 ▸ isWorse) (side.worse_irrefl px)
    · exact List.mem_map.mpr ⟨_, inWorse, rfl⟩

theorem best_eq_head (r : ReferenceEngine H) (side : Side) :
    r.best side = (r.levels side).head?.map Prod.fst := by
  have keys : (r.book side).keys = (r.book side).toList.map Prod.fst :=
    Std.ExtTreeMap.map_fst_toList_eq_keys.symm
  cases side with
  | buy => rw [best, bestBid, last?, levels, keys, List.getLast?_map, List.head?_reverse]
  | sell => rw [best, bestAsk, first?, levels, keys, List.head?_map]

end ReferenceEngine

namespace MatchingEngine

variable {H : Type} {min : Price} {nLevels : Nat} {s : MatchingEngine H} {cells : Cells}
  {r : ReferenceEngine H} {side : Side} {px : Price} {level : List RO}

def cursorOf (min : Price) (levels : List (Price × List RO)) : Int :=
  indexOf min (levels.head?.map Prod.fst)

namespace Mirrors

theorem best_cursor (mirrors : Mirrors min nLevels s cells r) (side : Side) :
    s.best side = cursorOf min (r.levels side) := by
  rw [mirrors.best, r.best_eq_head, cursorOf]

theorem nextLevel_cursor (mirrors : Mirrors min nLevels s cells r)
    {seen worse : List (Price × List RO)}
    (split : r.levels side = seen ++ (px, level) :: worse) :
    s.nextLevel side (px - min) = cursorOf min worse := by
  have members := ReferenceEngine.mem_of_levels split
  have refMin := mirrors.refMin
  have low (p : Price) (present : p ∈ r.book side) : min ≤ p :=
    refMin ▸ (mirrors.inside side p present).1
  have sorted := r.levels_sorted side
  rw [split, List.pairwise_append, List.pairwise_cons] at sorted
  have after := sorted.2.1.2
  have beyond := mirrors.test_beyond side
  -- What the search finds is a key after `px`, with no other key before it.
  have found (i : Nat) (set : (s.maps side.book).test i = true) (isWorse : side.Worse (min + i) px)
      (first : ∀ j : Nat, (s.maps side.book).test j = true → side.Worse (min + j) px →
        side.Reaches (min + i) (min + j)) : (i : Int) = cursorOf min worse := by
    have inWorse := (members (min + i)).mpr ⟨(mirrors.occupied side i).mp set, isWorse⟩
    cases worse with
    | nil => simp at inWorse
    | cons next others =>
        rcases (members next.1).mp List.mem_cons_self with ⟨present, isWorse'⟩
        obtain ⟨k, index⟩ : ∃ k : Nat, next.1 = min + k :=
          ⟨(next.1 - min).toNat, by have := low next.1 present; lia⟩
        have reaches := first k ((mirrors.occupied side k).mpr (index ▸ present))
          (index ▸ isWorse')
        rw [← index] at reaches
        have same : min + (i : Int) = next.1 := by
          rcases List.mem_cons.mp inWorse with same | inOthers
          · exact same
          · rcases List.mem_map.mp inOthers with ⟨other, member, price⟩
            have later := (List.pairwise_cons.mp after).1 other member
            rw [price] at later
            exact absurd reaches later.not_reaches
        simp only [cursorOf, List.head?_cons, Option.map_some, indexOf]
        lia
  have missing (none : ∀ i : Nat, (s.maps side.book).test i = true →
      ¬ side.Worse (min + i) px) : -1 = cursorOf min worse := by
    cases worse with
    | nil => rfl
    | cons next others =>
        rcases (members next.1).mp List.mem_cons_self with ⟨present, isWorse⟩
        obtain ⟨k, index⟩ : ∃ k : Nat, next.1 = min + k :=
          ⟨(next.1 - min).toNat, by have := low next.1 present; lia⟩
        exact absurd (index ▸ isWorse)
          (none k ((mirrors.occupied side k).mpr (index ▸ present)))
  cases side with
  | buy =>
      simp only [nextLevel]
      rcases (s.maps Side.buy.book).findLe_spec beyond (px - min - 1) with ⟨gone, none⟩ |
        ⟨i, here, set, within, greatest⟩
      · rw [gone]
        refine missing fun i set isWorse => none i ?_ set
        simp only [Side.Worse] at isWorse
        lia
      · rw [here]
        refine found i set ?_ fun j set' isWorse => ?_
        · simp only [Side.Worse]
          lia
        · simp only [Side.Worse, Side.Reaches] at isWorse ⊢
          have := greatest j set' (by lia)
          lia
  | sell =>
      simp only [nextLevel]
      rcases (s.maps Side.sell.book).findGe_spec beyond (px - min + 1) with ⟨gone, none⟩ |
        ⟨i, here, set, within, least⟩
      · rw [gone]
        refine missing fun i set isWorse => none i ?_ set
        simp only [Side.Worse] at isWorse
        lia
      · rw [here]
        refine found i set ?_ fun j set' isWorse => ?_
        · simp only [Side.Worse]
          lia
        · simp only [Side.Worse, Side.Reaches] at isWorse ⊢
          have := least j set' (by lia)
          lia

/-- One level of the walk: where it is, what rests there and what comes next. -/
theorem cursor_cons (mirrors : Mirrors min nLevels s cells r)
    {seen worse : List (Price × List RO)}
    (split : r.levels side = seen ++ (px, level) :: worse) :
    ∃ i : Nat, px = min + i ∧ i < nLevels ∧ r.level side (min + i) = level ∧
      cursorOf min ((px, level) :: worse) = i ∧ s.nextLevel side i = cursorOf min worse := by
  have inLevels : (px, level) ∈ r.levels side := by
    rw [split]
    simp
  rcases ReferenceEngine.mem_levels.mp inLevels with ⟨present, same⟩
  have low := (mirrors.inside _ px present).1
  have refMin := mirrors.refMin
  obtain ⟨i, rfl⟩ : ∃ i : Nat, px = min + i := ⟨(px - min).toNat, by lia⟩
  have next := mirrors.nextLevel_cursor split
  have offset : min + (i : Int) - min = i := by lia
  rw [offset] at next
  refine ⟨i, rfl, mirrors.index_lt present, same, ?_, next⟩
  simp only [cursorOf, List.head?_cons, Option.map_some, indexOf, offset]

theorem levels_length_le (mirrors : Mirrors min nLevels s cells r) (side : Side) :
    (r.levels side).length ≤ nLevels := by
  have refMin := mirrors.refMin
  have refMax := mirrors.refMax
  let index (entry : Price × List RO) : Nat := (entry.1 - min).toNat
  have inRange (entry) (member : entry ∈ r.levels side) :
      min + (index entry : Int) = entry.1 ∧ index entry < nLevels := by
    rcases mirrors.inside side entry.1 (ReferenceEngine.mem_levels.mp member).1 with ⟨low, high⟩
    simp only [index]
    constructor <;> lia
  have nodup : ((r.levels side).map index).Nodup := by
    rw [List.Nodup, List.pairwise_map]
    refine (List.pairwise_iff_forall_sublist.mpr fun {first second} sub same => ?_)
    have isWorse := List.pairwise_iff_forall_sublist.mp (r.levels_sorted side) sub
    have left := sub.subset List.mem_cons_self
    have right := sub.subset (List.mem_cons_of_mem first List.mem_cons_self)
    have sameLeft := (inRange first left).1
    have sameRight := (inRange second right).1
    rw [show first.1 = second.1 by rw [← sameLeft, ← sameRight, same]] at isWorse
    exact side.worse_irrefl _ isWorse
  have sub : ((r.levels side).map index).Subperm (List.range nLevels) :=
    List.subperm_of_subset nodup fun i member => by
      rcases List.mem_map.mp member with ⟨entry, inLevels, rfl⟩
      exact List.mem_range.mpr (inRange entry inLevels).2
  simpa using sub.length_le

/-! ## Sums over a level -/

theorem sum_eq_foldl (qty : RO → Qty) (level : List (Ptr × RO)) (start : Qty) :
    (level.map Prod.snd).foldl (fun sum o => sum + qty o) start = start + sumOf qty level := by
  induction level generalizing start with
  | nil => simp
  | cons cell rest induction =>
      rw [List.map_cons, List.foldl_cons, induction, sumOf_cons, UInt64.add_assoc]

theorem sumOf_add (first second : RO → Qty) (level : List (Ptr × RO)) :
    sumOf (fun o => first o + second o) level = sumOf first level + sumOf second level := by
  induction level with
  | nil => simp
  | cons cell rest induction =>
      simp only [sumOf_cons, induction]
      grind

theorem level_sum (mirrors : Mirrors min nLevels s cells r) (side : Side) (i : Nat)
    (start : Qty) : (r.level side (min + i)).foldl (fun sum o => sum + (o.qty + o.reserve)) start =
      start + ((s.mem.levels side.book i).total + (s.mem.levels side.book i).hidden) := by
  rw [← mirrors.resting, sum_eq_foldl (fun o => o.qty + o.reserve), sumOf_add,
    mirrors.heap.filed.total, mirrors.heap.filed.hidden]

/-! ## Entry checks -/

theorem fillable_eq (mirrors : Mirrors min nLevels s cells r) (side : Side) {price : Price}
    (inside : r.inBand price) (want : Qty) :
    s.fillable side price want = some (r.fillable side price want) := by
  have bounds := bounds_limit mirrors inside side
  have walk (worse seen : List (Price × List RO)) (sum : Qty) (bound : Nat)
      (split : r.levels side.opposite = seen ++ worse) (enough : worse.length < bound) :
      loop (fun (state : Int × Qty) => some <|
        if 0 ≤ state.1 ∧ withinLimit side state.1 (s.idx price) ∧ state.2 < want then
          let level := s.mem.levels side.opposite.book state.1.toNat
          .again (s.nextLevel side.opposite state.1, state.2 + (level.total + level.hidden))
        else .leave state.2) bound (cursorOf min worse, sum) =
          some (ReferenceEngine.fillableFrom side.opposite price want worse sum) := by
    induction worse generalizing seen sum bound with
    | nil =>
        obtain ⟨bound, rfl⟩ : ∃ previous, bound = previous + 1 := ⟨bound - 1, by lia⟩
        exact loop_leave (by simp [cursorOf, indexOf, ReferenceEngine.fillableFrom]) bound
    | cons entry worse induction =>
        rcases entry with ⟨px, level⟩
        obtain ⟨bound, rfl⟩ : ∃ previous, bound = previous + 1 := ⟨bound - 1, by lia⟩
        rcases mirrors.cursor_cons split with ⟨i, rfl, inRange, same, cursor, next⟩
        have within : withinLimit side i (s.idx price) ↔
            side.opposite.Reaches (min + i) price := bounds i inRange
        rw [cursor, ReferenceEngine.fillableFrom]
        by_cases stop : ¬ side.opposite.Reaches (min + i) price ∨ want ≤ sum
        · rw [if_pos stop]
          refine loop_leave ?_ bound
          have off : ¬ (side.opposite.Reaches (min + i) price ∧ sum < want) := by
            rintro ⟨reaches, less⟩
            exact stop.elim (fun off => off reaches) (UInt64.not_le.mpr less)
          simp only [within, off, and_false, if_false]
        · rw [if_neg stop]
          rcases not_or.mp stop with ⟨reaches, less⟩
          have on : 0 ≤ (i : Int) ∧ side.opposite.Reaches (min + i) price ∧ sum < want :=
            ⟨Int.natCast_nonneg i, not_not.mp reaches, UInt64.not_le.mp less⟩
          have round := induction (seen ++ [(min + i, level)])
            (level.foldl (fun sum o => sum + (o.qty + o.reserve)) sum) bound
            (by rw [split]; simp) (by simpa using enough)
          rw [← round, ← same, mirrors.level_sum, ← next]
          refine loop_again ?_ bound
          simp only [within, on, and_self, if_true, Int.toNat_natCast]
  rw [fillable, mirrors.best_cursor]
  exact walk _ [] 0 _ rfl (Nat.lt_succ_of_le (mirrors.fastLevels ▸ mirrors.levels_length_le _))

theorem wouldCross_iff (mirrors : Mirrors min nLevels s cells r) (side : Side) (price : Price) :
    s.wouldCross side price ↔ r.wouldCross side price := by
  have best := mirrors.best side.opposite
  have fastMin := mirrors.fastMin
  have refMin := mirrors.refMin
  cases found : r.best side.opposite with
  | none =>
      rw [found] at best
      cases side <;>
        simp_all [wouldCross, ReferenceEngine.wouldCross, Side.opposite, indexOf]
  | some px =>
      rw [found] at best
      have low := (mirrors.inside _ px (best_mem found).1).1
      cases side <;>
        simp only [Side.opposite] at best found low <;>
        simp only [wouldCross, ReferenceEngine.wouldCross, Side.opposite, found,
          Option.mem_some_iff,
          exists_eq_left', Side.Reaches, best, indexOf] <;>
        lia

/-! ## Visiting the orders -/

theorem cells_length_le (mirrors : Mirrors min nLevels s cells r) (valid : r.market.Valid)
    (book : BookName) (i : Nat) : (cells book i).length ≤ s.mem.orders.size := by
  rw [mirrors.ids, ← List.length_map Prod.snd]
  rcases book_cases book with ⟨side, rfl | rfl⟩
  · rw [mirrors.resting]
    exact ReferenceEngine.level_length_le valid side (min + i)
  · rw [mirrors.parked]
    apply (List.length_filter_le _ _).trans
    exact ReferenceEngine.length_le_nextId valid valid.stopDistinct fun o member =>
      Market.isOpen_of_stop (m := r.market) member

theorem levelOrders_eq (mirrors : Mirrors min nLevels s cells r) (valid : r.market.Valid)
    (book : BookName) (i : Nat) :
    s.levelOrders book i = some ((cells book i).map Prod.fst) := by
  have linked := mirrors.heap.filed.linked book i
  have walk {body : Option Ptr × List Ptr → Option (Turn (Option Ptr × List Ptr) (List Ptr))}
      (again : ∀ o seen, body (some o, seen) = some (.again (s.mem.links.next o, seen ++ [o])))
      (leave : ∀ seen, body (none, seen) = some (.leave seen)) (back front : List Ptr)
      (bound : Nat) (split : (cells book i).map Prod.fst = front ++ back)
      (enough : back.length < bound) :
      loop body bound (back.head?, front) = some ((cells book i).map Prod.fst) := by
    induction back generalizing front bound with
    | nil =>
        obtain ⟨bound, rfl⟩ : ∃ previous, bound = previous + 1 := ⟨bound - 1, by lia⟩
        rw [split, List.append_nil]
        exact loop_leave (leave front) bound
    | cons ptr back induction =>
        obtain ⟨bound, rfl⟩ : ∃ previous, bound = previous + 1 := ⟨bound - 1, by lia⟩
        have next := IntrusiveList.IsList.next_eq (split ▸ linked)
        rw [← induction (front ++ [ptr]) bound (by simp [split]) (by simpa using enough), ← next]
        exact loop_again (again ptr front) bound
  have bound : ((cells book i).map Prod.fst).length ≤ s.mem.orders.size := by
    rw [List.length_map]
    exact mirrors.cells_length_le valid book i
  rw [levelOrders, mirrors.heap.filed.head]
  exact walk (fun _ _ => rfl) (fun _ => rfl) _ [] _ rfl (by lia)

end Mirrors

def visited (o : RO) : OrderId × Side × Price × Qty := (o.id, o.side, o.price, o.qty)

theorem Mirrors.visitOrders_eq (mirrors : Mirrors min nLevels s cells r) (valid : r.market.Valid)
    (side : Side) :
    s.visitOrders side = some ((r.levels side).flatMap fun entry => entry.2.map visited) := by
  have walk (worse seen : List (Price × List RO)) (views : List (OrderId × Side × Price × Qty))
      (bound : Nat) (split : r.levels side = seen ++ worse) (enough : worse.length < bound) :
      loop (fun (state : Int × List (OrderId × Side × Price × Qty)) =>
        if 0 ≤ state.1 then do
          let level ← s.levelOrders side.book state.1.toNat
          let views := level.map fun o =>
            let node := s.mem.nodes o
            (node.id, node.side, node.price, node.qty)
          some (.again (s.nextLevel side state.1, state.2 ++ views))
        else some (.leave state.2)) bound (cursorOf min worse, views) =
          some (views ++ worse.flatMap fun entry => entry.2.map visited) := by
    induction worse generalizing seen views bound with
    | nil =>
        obtain ⟨bound, rfl⟩ : ∃ previous, bound = previous + 1 := ⟨bound - 1, by lia⟩
        exact loop_leave (by simp [cursorOf, indexOf]) bound
    | cons entry worse induction =>
        rcases entry with ⟨px, level⟩
        obtain ⟨bound, rfl⟩ : ∃ previous, bound = previous + 1 := ⟨bound - 1, by lia⟩
        rcases mirrors.cursor_cons split with ⟨i, rfl, -, same, cursor, next⟩
        have viewed : ((cells side.book i).map Prod.fst).map (fun o =>
            let node := s.mem.nodes o
            (node.id, node.side, node.price, node.qty)) = level.map visited := by
          rw [← same, ← mirrors.resting, List.map_map, List.map_map]
          refine List.map_congr_left fun cell member => ?_
          rw [Function.comp_apply,
            (mirrors.heap.filed.holds side.book i cell.1 cell.2 member).node]
          rfl
        have round := induction (seen ++ [(min + i, level)]) (views ++ level.map visited) bound
          (by rw [split]; simp) (by simpa using enough)
        rw [cursor, List.flatMap_cons, ← List.append_assoc, ← round, ← next]
        refine loop_again ?_ bound
        simp only [Int.natCast_nonneg, if_true, Int.toNat_natCast,
          mirrors.levelOrders_eq valid side.book i, Option.bind_eq_bind, Option.bind_some, viewed]
  rw [visitOrders, mirrors.best_cursor]
  exact walk _ [] [] _ rfl (Nat.lt_succ_of_le (mirrors.fastLevels ▸ mirrors.levels_length_le side))

end MatchingEngine

end Matchbook
