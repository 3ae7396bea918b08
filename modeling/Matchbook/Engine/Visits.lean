import Matchbook.Engine.Walk

namespace Matchbook

open BoundedLoop

/-! # Visiting the stops

The bitmaps lead from level to level, through all the levels there are and through
each of them once. -/

/-! ## Cursors -/

inductive Goes (next : Int → Int) : Int → List Nat → Prop
  | ends {start} (out : start < 0) : Goes next start []
  | visits {i : Nat} {levels} (rest : Goes next (next i) levels) : Goes next i (i :: levels)

/-- A search that goes on behind what it has found finds all there is, and each of it
once. -/
theorem exists_goes {search onwards : Int → Int} {occupied : Nat → Prop}
    (Ahead : Int → Nat → Prop) (rank : Int → Nat)
    (round : ∀ bound, (search bound < 0 ∧ ∀ j, Ahead bound j → ¬ occupied j) ∨
      ∃ i : Nat, search bound = i ∧ occupied i ∧ rank (onwards i) < rank bound ∧
        ∀ j, (occupied j ∧ Ahead bound j) ↔ j = i ∨ (j ≠ i ∧ occupied j ∧ Ahead (onwards i) j))
    (apart : ∀ i : Nat, ¬ Ahead (onwards i) i) (bound : Int) :
    ∃ levels, Goes (fun i => search (onwards i)) (search bound) levels ∧ levels.Nodup ∧
      ∀ j, j ∈ levels ↔ occupied j ∧ Ahead bound j := by
  generalize measure : rank bound = left
  induction left using Nat.strong_induction_on generalizing bound with
  | _ left induction =>
      rcases round bound with ⟨missing, none⟩ | ⟨i, found, here, closer, ahead⟩
      · refine ⟨[], .ends missing, List.nodup_nil, ?_⟩
        intro j
        simp only [List.not_mem_nil, false_iff, not_and]
        exact fun isOccupied isAhead => none j isAhead isOccupied
      · rcases induction _ (measure ▸ closer) (onwards i) rfl with ⟨levels, goes, nodup, members⟩
        have fresh : i ∉ levels := fun member => apart i ((members i).mp member).2
        refine ⟨i :: levels, found ▸ .visits goes, List.nodup_cons.mpr ⟨fresh, nodup⟩, ?_⟩
        intro j
        rw [List.mem_cons, ahead j, members j]
        constructor
        · rintro (same | later)
          · exact .inl same
          · by_cases same : j = i
            · exact .inl same
            · exact .inr ⟨same, later⟩
        · exact fun visited => visited.imp_right And.right

namespace LevelBitmap

variable {map : LevelBitmap} (beyond : ∀ i, map.n ≤ i → map.test i = false)

include beyond

theorem lt_of_test {i : Nat} (set : map.test i = true) : i < map.n := by
  by_contra large
  exact Bool.noConfusion ((beyond i (not_lt.mp large)).symm.trans set)

theorem goes_up (bound : Int) :
    ∃ levels, Goes (fun i => map.findGe (i + 1)) (map.findGe bound) levels ∧ levels.Nodup ∧
      ∀ j, j ∈ levels ↔ map.test j = true ∧ bound ≤ (j : Int) := by
  refine exists_goes (fun bound j => bound ≤ (j : Int)) (fun bound => (map.n - bound).toNat)
    (fun bound => ?_) (fun i => by lia) bound
  rcases map.findGe_spec beyond bound with ⟨missing, none⟩ | ⟨i, found, set, above, least⟩
  · exact .inl ⟨by lia, none⟩
  · have small := lt_of_test beyond set
    refine .inr ⟨i, found, set, by lia, fun j => ⟨fun ⟨isSet, ahead⟩ => ?_, ?_⟩⟩
    · have := least j isSet ahead
      by_cases same : j = i
      · exact .inl same
      · exact .inr ⟨same, isSet, by lia⟩
    · rintro (rfl | ⟨-, isSet, ahead⟩)
      · exact ⟨set, above⟩
      · exact ⟨isSet, by lia⟩

theorem goes_down (bound : Int) :
    ∃ levels, Goes (fun i => map.findLe (i - 1)) (map.findLe bound) levels ∧ levels.Nodup ∧
      ∀ j, j ∈ levels ↔ map.test j = true ∧ (j : Int) ≤ bound := by
  refine exists_goes (fun bound j => (j : Int) ≤ bound) (fun bound => (bound + 1).toNat)
    (fun bound => ?_) (fun i => by lia) bound
  rcases map.findLe_spec beyond bound with ⟨missing, none⟩ | ⟨i, found, set, below, greatest⟩
  · exact .inl ⟨by lia, none⟩
  · refine .inr ⟨i, found, set, by lia, fun j => ⟨fun ⟨isSet, ahead⟩ => ?_, ?_⟩⟩
    · have := greatest j isSet ahead
      by_cases same : j = i
      · exact .inl same
      · exact .inr ⟨same, isSet, by lia⟩
    · rintro (rfl | ⟨-, isSet, ahead⟩)
      · exact ⟨set, below⟩
      · exact ⟨isSet, by lia⟩

theorem length_le_of_set {levels : List Nat} (nodup : levels.Nodup)
    (set : ∀ j ∈ levels, map.test j = true) : levels.length ≤ map.n := by
  have within : levels.Subperm (List.range map.n) :=
    List.subperm_of_subset nodup fun j member =>
      List.mem_range.mpr (lt_of_test beyond (set j member))
  simpa using within.length_le

end LevelBitmap

namespace MatchingEngine

variable {H : Type} {min : Price} {nLevels : Nat} {s : MatchingEngine H} {cells : Cells}
  {r : ReferenceEngine H}

/-- A walk of a stop book meets the stops of every level its cursor is at. -/
theorem Mirrors.visitStopBook_eq (mirrors : Mirrors min nLevels s cells r)
    (valid : r.market.Valid) (side : Side) {next : Int → Int} {start : Int} {levels : List Nat}
    (goes : Goes next start levels) (enough : levels.length ≤ nLevels) :
    s.visitStopBook side.stopBook next start =
      some (levels.flatMap fun (i : Nat) => (parkedAt side (min + i) r.stops).map RO.id) := by
  have walk (bound : Nat) (seen : List OrderId) (small : levels.length < bound) :
      loop (fun (state : Int × List OrderId) =>
        if 0 ≤ state.1 then do
          let level ← s.levelOrders side.stopBook state.1.toNat
          some (.again (next state.1, state.2 ++ level.map fun o => (s.mem.nodes o).id))
        else some (.leave state.2)) bound (start, seen) =
      some (seen ++ levels.flatMap fun (i : Nat) =>
        (parkedAt side (min + i) r.stops).map RO.id) := by
    clear enough
    induction goes generalizing bound seen with
    | ends out =>
        cases bound with
        | zero => cases small
        | succ bound => exact loop_leave (by simp [not_le.mpr out]) bound
    | @visits i levels rest induction =>
        cases bound with
        | zero => cases small
        | succ bound =>
            have ids : ((cells side.stopBook i).map Prod.fst).map (fun o => (s.mem.nodes o).id) =
                (parkedAt side (min + i) r.stops).map RO.id := by
              rw [← mirrors.parked, List.map_map, List.map_map]
              apply List.map_congr_left
              intro cell member
              rw [Function.comp_apply,
                (mirrors.heap.filed.holds side.stopBook i cell.1 cell.2 member).node]
              rfl
            rw [List.flatMap_cons, ← List.append_assoc,
              ← induction bound (seen ++ (parkedAt side (min + i) r.stops).map RO.id)
                (Nat.lt_of_succ_lt_succ small)]
            apply loop_again
            simp only [Int.natCast_nonneg, if_true, Int.toNat_natCast,
              mirrors.levelOrders_eq valid side.stopBook i, Option.bind_eq_bind, Option.bind_some,
              ids]
  rw [visitStopBook, mirrors.fastLevels]
  exact walk _ [] (Nat.lt_succ_of_le enough)

theorem perm_parkedAt (min : Price) (side : Side) (stops : List RO) {levels : List Nat}
    (nodup : levels.Nodup)
    (all : ∀ o ∈ stops, o.side = side → ∃ i ∈ levels, o.price = min + (i : Nat)) :
    (levels.flatMap fun (i : Nat) => parkedAt side (min + i) stops).Perm
      (stops.filter fun o => o.side = side) := by
  induction stops with
  | nil => simp [parkedAt]
  | cons o stops induction =>
      have rest := induction fun o member => all o (List.mem_cons_of_mem _ member)
      by_cases own : o.side = side
      · rcases all o List.mem_cons_self own with ⟨i, member, price⟩
        rcases List.append_of_mem member with ⟨front, back, split⟩
        have elsewhere (j : Nat) (other : j ≠ i) : parkedAt side (min + j) (o :: stops) =
            parkedAt side (min + j) stops := by
          apply List.filter_cons_of_neg
          have : o.price ≠ min + j := by lia
          simp [this]
        have here : parkedAt side (min + i) (o :: stops) = o :: parkedAt side (min + i) stops :=
          List.filter_cons_of_pos (by simp [own, price])
        rw [split] at nodup rest ⊢
        have apart := List.nodup_middle.mp nodup
        have off (j : Nat) (member : j ∈ front ++ back) : j ≠ i := fun same =>
          (List.nodup_cons.mp apart).1 (same ▸ member)
        have same (part : List Nat) (sub : ∀ j ∈ part, j ∈ front ++ back) :
            (part.flatMap fun (j : Nat) => parkedAt side (min + j) (o :: stops)) =
              part.flatMap fun (j : Nat) => parkedAt side (min + j) stops :=
          List.flatMap_congr fun j member => elsewhere j (off j (sub j member))
        rw [List.flatMap_append, List.flatMap_cons] at rest ⊢
        rw [same front fun j member => List.mem_append_left back member,
          same back fun j member => List.mem_append_right front member, here,
          List.filter_cons_of_pos (by simp [own]), List.cons_append]
        exact List.perm_middle.trans (rest.cons o)
      · have skip (j : Nat) : parkedAt side (min + j) (o :: stops) =
            parkedAt side (min + j) stops := List.filter_cons_of_neg (by simp [own])
        simp only [skip]
        rwa [List.filter_cons_of_neg (by simp [own])]

theorem Mirrors.visitStops_perm (mirrors : Mirrors min nLevels s cells r)
    (valid : r.market.Valid) :
    ∃ ids, s.visitStops = some ids ∧ ids.Perm (r.stops.map RO.id) := by
  cases allocated : s.stopBooks with
  | false =>
      refine ⟨[], by simp [visitStops, allocated], ?_⟩
      rw [mirrors.unparked allocated]
      exact List.Perm.nil
  | true =>
      have beyond := stopTest_beyond mirrors allocated valid.stopInside
      have sizes := mirrors.stopMapSize allocated
      have level (side : Side) (o : RO) (member : o ∈ r.stops) (own : o.side = side) :
          ∃ i : Nat, (s.maps side.stopBook).test i = true ∧ o.price = min + i ∧ i < nLevels := by
        rcases valid.stopInside o member with ⟨low, high⟩
        have refMin := mirrors.refMin
        have refMax := mirrors.refMax
        have low : r.min ≤ o.price := low
        have high : o.price ≤ r.max := high
        have price : o.price = min + ((o.price - min).toNat : Int) := by lia
        refine ⟨(o.price - min).toNat, (mirrors.stopOccupied allocated side _).mpr ?_, price,
          by lia⟩
        exact parkedAt_ne_nil.mpr ⟨o, member, own, price⟩
      have enough (side : Side) (levels : List Nat) (nodup : levels.Nodup)
          (set : ∀ j ∈ levels, (s.maps side.stopBook).test j = true) : levels.length ≤ nLevels :=
        sizes side ▸ LevelBitmap.length_le_of_set (beyond side) nodup set
      rcases LevelBitmap.goes_up (beyond .buy) 0 with ⟨ups, goesUp, nodupUps, memUps⟩
      rcases LevelBitmap.goes_down (beyond .sell) (nLevels - 1) with
        ⟨downs, goesDown, nodupDowns, memDowns⟩
      have up := mirrors.visitStopBook_eq valid .buy goesUp
        (enough .buy ups nodupUps fun j member => ((memUps j).mp member).1)
      have down := mirrors.visitStopBook_eq valid .sell goesDown
        (enough .sell downs nodupDowns fun j member => ((memDowns j).mp member).1)
      simp only [Side.stopBook] at up down
      rw [visitStops, if_pos allocated, mirrors.fastLevels]
      simp only [up, down, Option.bind_eq_bind, Option.bind_some, Option.some.injEq,
        exists_eq_left']
      have bids := perm_parkedAt min .buy r.stops nodupUps <| by
        intro o member own
        rcases level .buy o member own with ⟨i, set, price, -⟩
        exact ⟨i, (memUps i).mpr ⟨set, by lia⟩, price⟩
      have asks := perm_parkedAt min .sell r.stops nodupDowns <| by
        intro o member own
        rcases level .sell o member own with ⟨i, set, price, inRange⟩
        exact ⟨i, (memDowns i).mpr ⟨set, by lia⟩, price⟩
      rw [← List.map_flatMap, ← List.map_flatMap, ← List.map_append]
      have sides : (r.stops.filter fun o => o.side = .sell) =
          r.stops.filter fun o => ! decide (o.side = .buy) := by
        apply List.filter_congr
        intro o member
        cases o.side <;> rfl
      exact ((bids.append (sides ▸ asks)).trans (List.filter_append_perm _ _)).map RO.id

end MatchingEngine

end Matchbook
