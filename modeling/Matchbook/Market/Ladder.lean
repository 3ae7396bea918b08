import Mathlib.Algebra.BigOperators.Group.Finset.Piecewise
import Mathlib.Data.UInt
import Matchbook.Foundation.OrderedMap
import Matchbook.Market.Reference

namespace Matchbook

open OrderedMap Transitions

/-! # Levels in order of their prices

The reference engine reads the levels of a side off its map, the market goes
through the prices of the band. -/

theorem sum_map_eq [AddCommMonoid M] [DecidableEq α] {left right : List α} {f g : α → M}
    (nodup : left.Nodup) (nodup' : right.Nodup)
    (same : ∀ x, (if x ∈ left then f x else 0) = if x ∈ right then g x else 0) :
    (left.map f).sum = (right.map g).sum := by
  have spread (list : List α) (h : α → M) (distinct : list.Nodup)
      (sub : list.toFinset ⊆ left.toFinset ∪ right.toFinset) :
      (list.map h).sum = ∑ x ∈ left.toFinset ∪ right.toFinset, if x ∈ list then h x else 0 := by
    rw [← List.sum_toFinset h distinct, ← Finset.sum_subset sub fun x _ outside => by
      rw [if_neg (by simpa using outside)]]
    exact Finset.sum_congr rfl fun x member => by rw [if_pos (by simpa using member)]
  rw [spread left f nodup Finset.subset_union_left, spread right g nodup' Finset.subset_union_right]
  exact Finset.sum_congr rfl fun x _ => same x

theorem foldl_eq_sum [AddCommMonoid M] (taken : α → Prop) [DecidablePred taken] (f : α → M)
    (list : List α) (start : M) :
    list.foldl (fun sum x => if taken x then sum + f x else sum) start =
      start + (list.map fun x => if taken x then f x else 0).sum := by
  induction list generalizing start with
  | nil => simp
  | cons x list induction =>
      rw [List.foldl_cons, induction, List.map_cons, List.sum_cons, ← add_assoc]
      split
      · rfl
      · rw [add_zero]

def Side.Worse (side : Side) (px than : Price) : Prop :=
  match side with
  | .buy => px < than
  | .sell => than < px

theorem Side.Worse.reaches {side : Side} {px than : Price} (worse : side.Worse px than) :
    side.Reaches than px := by
  cases side <;> exact Int.le_of_lt worse

theorem Side.worse_irrefl (side : Side) (px : Price) : ¬ side.Worse px px := by
  cases side <;> exact Int.lt_irrefl px

theorem Side.Worse.not_reaches {side : Side} {px than : Price} (worse : side.Worse px than) :
    ¬ side.Reaches px than := by
  cases side <;> exact Int.not_le.mpr worse

namespace ReferenceEngine

variable {H : Type} {r : ReferenceEngine H} {side : Side} {px : Price} {level : List RO}

theorem mem_toList {side : Side} {px : Price} {level : List RO} :
    (px, level) ∈ (r.book side).toList ↔ px ∈ r.book side ∧ r.level side px = level := by
  rw [Std.ExtTreeMap.mem_toList_iff_getElem?_eq_some, ReferenceEngine.level,
    Std.ExtTreeMap.getD_eq_getD_getElem?, Std.ExtTreeMap.mem_iff_isSome_getElem?]
  cases (r.book side)[px]? <;> simp

theorem mem_levels : (px, level) ∈ r.levels side ↔ px ∈ r.book side ∧ r.level side px = level := by
  cases side with
  | buy => rw [levels, List.mem_reverse, mem_toList]
  | sell => exact mem_toList

theorem levels_sorted (r : ReferenceEngine H) (side : Side) :
    (r.levels side).Pairwise fun first second => side.Worse second.1 first.1 := by
  have sorted := (r.book side).ordered_keys_toList
  cases side with
  | buy =>
      rw [levels, List.pairwise_reverse]
      exact sorted.imp fun order => Std.compare_eq_lt.mp order
  | sell => exact sorted.imp fun order => Std.compare_eq_lt.mp order

end ReferenceEngine

/-! ## The ladder -/

namespace Market

variable {side : Side} {px : Price}

theorem mem_ladder (m : Market) : px ∈ m.ladder side ↔ m.inBand px := by
  simp only [ladder, List.mem_map, List.mem_range, inBand]
  cases side with
  | buy =>
      constructor
      · rintro ⟨k, small, rfl⟩
        lia
      · rintro ⟨low, high⟩
        exact ⟨(m.max - px).toNat, by lia, by lia⟩
  | sell =>
      constructor
      · rintro ⟨k, small, rfl⟩
        lia
      · rintro ⟨low, high⟩
        exact ⟨(px - m.min).toNat, by lia, by lia⟩

theorem ladder_sorted (m : Market) (side : Side) :
    (m.ladder side).Pairwise fun first second => side.Worse second first := by
  rw [ladder, List.pairwise_map]
  apply List.pairwise_lt_range.imp
  intro k k' less
  cases side with
  | buy =>
      show m.max - (k' : Int) < m.max - (k : Int)
      lia
  | sell =>
      show m.min + (k : Int) < m.min + (k' : Int)
      lia

end Market

namespace ReferenceEngine

variable {H : Type} {r : ReferenceEngine H} {side : Side} {px price : Price}

def rung (r : ReferenceEngine H) (side : Side) (px : Price) : Price × List RO :=
  (px, r.level side px)

theorem levels_eq (valid : r.market.Valid) (keyed : r.Keyed) (side : Side) :
    r.levels side =
      ((r.market.ladder side).filter fun px => r.level side px ≠ []).map (r.rung side) := by
  have irrefl (entries : List (Price × List RO))
      (sorted : entries.Pairwise fun first second => side.Worse second.1 first.1) :
      entries.Nodup := by
    apply sorted.imp
    rintro first second isWorse rfl
    exact side.worse_irrefl _ isWorse
  have rungs : (((r.market.ladder side).filter fun px => r.level side px ≠ []).map
      (r.rung side)).Pairwise fun first second => side.Worse second.1 first.1 :=
    List.pairwise_map.mpr ((r.market.ladder_sorted side).filter _)
  have levels := r.levels_sorted side
  have members (entry : Price × List RO) : entry ∈ r.levels side ↔
      entry ∈ ((r.market.ladder side).filter fun px => r.level side px ≠ []).map
        (r.rung side) := by
    rcases entry with ⟨px, level⟩
    simp only [mem_levels, List.mem_map, List.mem_filter, Market.mem_ladder, rung, Prod.mk.injEq,
      decide_eq_true_eq]
    constructor
    · rintro ⟨present, rfl⟩
      have occupied := (keyed side px).mp present
      exact ⟨px, ⟨valid.inside side px occupied, occupied⟩, rfl, rfl⟩
    · rintro ⟨px, ⟨-, occupied⟩, rfl, rfl⟩
      exact ⟨(keyed side px).mpr occupied, rfl⟩
  have perm := (List.perm_ext_iff_of_nodup (irrefl _ levels) (irrefl _ rungs)).mpr members
  apply List.Perm.eq_of_pairwise _ levels rungs perm
  intro first second _ _ isWorse isBetter
  exact absurd isBetter.reaches isWorse.not_reaches

theorem fillableFrom_eq {maker : Side} {want : Qty} (prices : List Price) (sum : Qty)
    (sorted : prices.Pairwise fun first second => maker.Worse second first) :
    fillableFrom maker price want
        ((prices.filter fun px => r.level maker px ≠ []).map (r.rung maker)) sum =
      prices.foldl (fun sum px =>
        if maker.Reaches px price ∧ sum < want then
          (r.level maker px).foldl (fun sum o => sum + (o.qty + o.reserve)) sum
        else sum) sum := by
  induction prices generalizing sum with
  | nil => rfl
  | cons px prices induction =>
      rw [List.pairwise_cons] at sorted
      by_cases occupied : r.level maker px = []
      · rw [List.filter_cons_of_neg (by simp [occupied]), induction sum sorted.2, List.foldl_cons,
          occupied, List.foldl_nil, ite_self]
      · rw [List.filter_cons_of_pos (by simp [occupied]), List.map_cons, rung, fillableFrom,
          List.foldl_cons]
        by_cases goesOn : maker.Reaches px price ∧ sum < want
        · have notDone : ¬ (¬ maker.Reaches px price ∨ want ≤ sum) := by
            rintro (beyond | enough)
            · exact beyond goesOn.1
            · exact absurd goesOn.2 (UInt64.not_lt.mpr enough)
          rw [if_neg notDone, if_pos goesOn]
          exact induction _ sorted.2
        · have done : ¬ maker.Reaches px price ∨ want ≤ sum := by
            by_cases reaches : maker.Reaches px price
            · exact .inr (UInt64.not_lt.mp fun less => goesOn ⟨reaches, less⟩)
            · exact .inl reaches
          rw [if_pos done, if_neg goesOn]
          symm
          apply foldl_ignored
          intro worse member
          apply if_neg
          rintro ⟨reaches, less⟩
          exact goesOn ⟨Side.reaches_trans (sorted.1 worse member).reaches reaches, less⟩

theorem fillable_market (valid : r.market.Valid) (keyed : r.Keyed) (side : Side) (price : Price)
    (want : Qty) : r.fillable side price want = r.market.fillable side price want := by
  rw [fillable, levels_eq valid keyed, fillableFrom_eq _ _ (r.market.ladder_sorted _)]
  rfl

theorem wouldCross_market (keyed : r.Keyed) (side : Side) (price : Price) :
    r.wouldCross side price ↔ r.market.WouldCross side price := by
  constructor
  · rintro ⟨px, best, reaches⟩
    have isBest := (best_eq_some keyed).mp (Option.mem_def.mp best)
    exact ⟨px, isBest.occupied, reaches⟩
  · rintro ⟨px, occupied, reaches⟩
    cases best : r.best side.opposite with
    | none => exact absurd ((best_eq_none keyed).mp best px) occupied
    | some top =>
        have isBest := (best_eq_some keyed).mp best
        exact ⟨top, best, Side.reaches_trans (isBest.least px occupied) reaches⟩

/-! ## Auctions -/

theorem executable_eq (r : ReferenceEngine H) (side : Side) (p : Price) :
    r.executable side p = ((r.book side).keys.map fun px =>
      if side.Reaches px p then queueQty (r.level side px) else 0).sum := by
  rw [executable, Std.ExtTreeMap.foldl_eq_foldl_toList]
  refine (foldl_eq_sum (fun entry => side.Reaches entry.1 p) (fun entry => queueQty entry.2)
    (r.book side).toList 0).trans ?_
  rw [zero_add, ← Std.ExtTreeMap.map_fst_toList_eq_keys, List.map_map]
  refine congrArg List.sum (List.map_congr_left fun entry member => ?_)
  rcases mem_toList.mp (show (entry.1, entry.2) ∈ _ from member) with ⟨-, same⟩
  rw [Function.comp_apply, same]

theorem executable_eq_of_covers {p : Price} (prices : List Price) (nodup : prices.Nodup)
    (reaches : ∀ px ∈ prices, side.Reaches px p)
    (covers : ∀ px ∈ r.book side, side.Reaches px p → px ∈ prices) :
    r.executable side p = (prices.map fun px => queueQty (r.level side px)).sum := by
  rw [executable_eq]
  refine sum_map_eq Std.ExtTreeMap.nodup_keys nodup fun px => ?_
  simp only [Std.ExtTreeMap.mem_keys]
  by_cases present : px ∈ r.book side
  · rw [if_pos present]
    by_cases reach : side.Reaches px p
    · rw [if_pos reach, if_pos (covers px present reach)]
    · rw [if_neg reach, if_neg (mt (reaches px) reach)]
  · have empty : r.level side px = [] := Std.ExtTreeMap.getD_eq_fallback present
    rw [if_neg present, empty]
    split <;> rfl

theorem executable_market (valid : r.market.Valid) (keyed : r.Keyed) (side : Side) (p : Price) :
    r.executable side p = r.market.executable side p := by
  have distinct : (r.market.ladder side).Nodup := by
    apply (r.market.ladder_sorted side).imp
    rintro first second worse rfl
    exact side.worse_irrefl _ worse
  have rungs : r.market.executable side p = ((r.market.ladder side).map fun px =>
      if side.Reaches px p then queueQty (r.level side px) else 0).sum :=
    (foldl_eq_sum (fun px => side.Reaches px p) (fun px => queueQty (r.level side px))
      (r.market.ladder side) 0).trans (zero_add _)
  rw [executable_eq, rungs]
  refine sum_map_eq Std.ExtTreeMap.nodup_keys distinct fun px => ?_
  simp only [Std.ExtTreeMap.mem_keys]
  by_cases present : px ∈ r.book side
  · have inside := valid.inside side px ((keyed side px).mp present)
    rw [if_pos present, if_pos ((Market.mem_ladder _).mpr inside)]
  · have empty : r.level side px = [] := Std.ExtTreeMap.getD_eq_fallback present
    have nothing : (if side.Reaches px p then queueQty [] else 0) = 0 := by split <;> rfl
    rw [if_neg present, empty, nothing, ite_self]

theorem considerClearing_market (valid : r.market.Valid) (keyed : r.Keyed) (best : BestCross)
    (p : Price) : r.considerClearing best p = r.market.considerClearing best p := by
  have nearer : (r.hasLast ∧ (p - r.last).natAbs < (best.clearing - r.last).natAbs) ↔
      r.market.last.any fun last => (p - last).natAbs < (best.clearing - last).natAbs := by
    unfold market
    cases r.hasLast <;> simp
  simp only [considerClearing, Market.considerClearing, executable_market valid keyed, nearer]

theorem findClearing_market (valid : r.market.Valid) (keyed : r.Keyed) (lo hi : Price) :
    r.findClearing lo hi = r.market.findClearing lo hi := by
  unfold findClearing Market.findClearing
  simp only [considerClearing_market valid keyed]

end ReferenceEngine

end Matchbook
