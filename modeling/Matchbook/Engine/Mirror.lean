import Matchbook.Engine.HeapMoves
import Matchbook.Engine.Operations
import Matchbook.Market.Reference

namespace Matchbook

open BoundedLoop OrderedMap

/-! # The engine as a representation of the reference engine

`Mirrors min nLevels s cells r` says that the fast engine `s`, whose memory
holds `cells`, represents the reference engine `r`: level `i` of a book is the
queue at `min + i`, the bitmaps are the keys of the maps, and the cached best
levels are their ends. Both engines change in steps that keep it. -/

namespace Side

@[simp] theorem book_inj {left right : Side} : left.book = right.book ↔ left = right := by
  cases left <;> cases right <;> decide

@[simp] theorem stopBook_inj {left right : Side} :
    left.stopBook = right.stopBook ↔ left = right := by
  cases left <;> cases right <;> decide

@[simp] theorem book_ne_stopBook (left right : Side) : left.book ≠ right.stopBook := by
  cases left <;> cases right <;> decide

@[simp] theorem stopBook_ne_book (left right : Side) : left.stopBook ≠ right.book := by
  cases left <;> cases right <;> decide

@[simp] theorem book_holdsStops (side : Side) : side.book.holdsStops = false := by
  cases side <;> rfl

@[simp] theorem stopBook_holdsStops (side : Side) : side.stopBook.holdsStops = true := by
  cases side <;> rfl

end Side

namespace Cells

variable (cells : Cells) (side other : Side) (i j : Nat) (level : List (Ptr × RO))

theorem set_book_book : cells.set side.book i level other.book j =
    if other = side ∧ j = i then level else cells other.book j := by
  simp only [set_apply, Side.book_inj]

theorem set_stopBook_stopBook : cells.set side.stopBook i level other.stopBook j =
    if other = side ∧ j = i then level else cells other.stopBook j := by
  simp only [set_apply, Side.stopBook_inj]

@[simp] theorem set_book_stopBook :
    cells.set side.book i level other.stopBook j = cells other.stopBook j := by
  simp [set_apply]

@[simp] theorem set_stopBook_book :
    cells.set side.stopBook i level other.book j = cells other.book j := by
  simp [set_apply]

end Cells

namespace MatchingEngine

variable {H : Type}

def parkedAt (side : Side) (trigger : Price) (stops : List RO) : List RO :=
  stops.filter fun o => o.side = side ∧ o.price = trigger

def indexOf (min : Price) : Option Price → Int
  | none => -1
  | some px => px - min

structure Mirrors (min : Price) (nLevels : Nat) (s : MatchingEngine H) (cells : Cells)
    (r : ReferenceEngine H) : Prop where
  heap : s.mem.Heap cells
  fastMin : s.min = min
  fastLevels : s.nLevels = nLevels
  refMin : r.min = min
  refMax : r.max + 1 = min + nLevels
  resting : ∀ (side : Side) (i : Nat),
    (cells side.book i).map Prod.snd = r.level side (min + i)
  parked : ∀ (side : Side) (i : Nat),
    (cells side.stopBook i).map Prod.snd = parkedAt side (min + i) r.stops
  inside : ∀ side, ∀ px ∈ r.book side, r.inBand px
  occupied : ∀ (side : Side) (i : Nat),
    (s.maps side.book).test i = true ↔ (min + i : Price) ∈ r.book side
  mapSize : ∀ side : Side, (s.maps side.book).n = nLevels
  best : ∀ side, s.best side = indexOf min (r.best side)
  unparked : s.stopBooks = false → r.stops = []
  stopOccupied : s.stopBooks = true → ∀ (side : Side) (i : Nat),
    (s.maps side.stopBook).test i = true ↔ parkedAt side (min + i) r.stops ≠ []
  stopMapSize : s.stopBooks = true → ∀ side : Side, (s.maps side.stopBook).n = nLevels
  ids : s.mem.orders.size = r.nextId
  pending : s.pendingStops = r.stops.length
  last : s.lastPx = r.last
  hasLast : s.hasLast = r.hasLast
  halted : s.halted = r.halted
  h : s.h = r.h

namespace Mirrors

variable {min : Price} {nLevels : Nat} {s : MatchingEngine H} {cells : Cells}
  {r : ReferenceEngine H} {side : Side} {px : Price} {i : Nat}

/-! ## Reading -/

theorem inBand_iff (mirrors : Mirrors min nLevels s cells r) (p : Price) :
    s.inBand p ↔ r.inBand p := by
  have fastMin := mirrors.fastMin
  have fastLevels := mirrors.fastLevels
  have refMin := mirrors.refMin
  have refMax := mirrors.refMax
  unfold MatchingEngine.inBand ReferenceEngine.inBand
  constructor <;> rintro ⟨low, high⟩ <;> constructor <;> lia

theorem idx_eq (mirrors : Mirrors min nLevels s cells r) (inside : r.inBand px) :
    min + (s.idx px : Int) = px ∧ s.idx px < nLevels := by
  have fastMin := mirrors.fastMin
  have refMin := mirrors.refMin
  have refMax := mirrors.refMax
  rcases inside with ⟨low, high⟩
  unfold MatchingEngine.idx
  constructor <;> lia

theorem index_lt (mirrors : Mirrors min nLevels s cells r)
    (present : (min + i : Price) ∈ r.book side) : i < nLevels := by
  have refMin := mirrors.refMin
  have refMax := mirrors.refMax
  rcases mirrors.inside side _ present with ⟨low, high⟩
  lia

theorem test_beyond (mirrors : Mirrors min nLevels s cells r) (side : Side) :
    ∀ i, (s.maps side.book).n ≤ i → (s.maps side.book).test i = false := by
  intro i large
  rw [mirrors.mapSize] at large
  by_contra set
  have present := (mirrors.occupied side i).mp (by simpa using set)
  exact absurd (mirrors.index_lt present) (by omega)

theorem level_nil (mirrors : Mirrors min nLevels s cells r) :
    cells side.book i = [] ↔ r.level side (min + i) = [] := by
  rw [← mirrors.resting, List.map_eq_nil_iff]

theorem place (mirrors : Mirrors min nLevels s cells r) {front back : List RO} {o : RO}
    (level : r.level side (min + i) = front ++ o :: back) :
    ∃ front' ptr back', cells side.book i = front' ++ (ptr, o) :: back' ∧
      front'.map Prod.snd = front ∧ back'.map Prod.snd = back := by
  rw [← mirrors.resting] at level
  rcases List.map_eq_append_iff.mp level with ⟨front', rest, split, sameFront, sameRest⟩
  rcases List.map_eq_cons_iff.mp sameRest with ⟨⟨ptr, o'⟩, back', rfl, rfl, sameBack⟩
  exact ⟨front', ptr, back', split, sameFront, sameBack⟩

/-! ## Ends of a book -/

section ends

variable {map : LevelBitmap} {book : LevelMap} {bound : Int}

theorem findLe_eq (beyond : ∀ i, map.n ≤ i → map.test i = false)
    (occupied : ∀ i : Nat, map.test i = true ↔ (min + i : Price) ∈ book)
    (inside : ∀ p ∈ book, min ≤ p ∧ p - min ≤ bound) :
    map.findLe bound = indexOf min (last? book) := by
  rcases map.findLe_spec beyond bound with ⟨missing, none⟩ | ⟨i, found, set, -, greatest⟩
  · rw [missing, last?_eq_none.mpr]
    · rfl
    · intro p member
      rcases inside p member with ⟨low, high⟩
      refine none (p - min).toNat (by lia) ((occupied _).mpr ?_)
      rwa [show min + ((p - min).toNat : Int) = p by lia]
  · have last : last? book = some (min + i) := by
      refine last?_eq_some.mpr ⟨(occupied i).mp set, fun p member => ?_⟩
      rcases inside p member with ⟨low, high⟩
      have le := greatest (p - min).toNat ((occupied _).mpr
        (by rwa [show min + ((p - min).toNat : Int) = p by lia])) (by lia)
      lia
    rw [found, last]
    simp only [indexOf]
    lia

theorem findGe_eq (beyond : ∀ i, map.n ≤ i → map.test i = false)
    (occupied : ∀ i : Nat, map.test i = true ↔ (min + i : Price) ∈ book)
    (inside : ∀ p ∈ book, min ≤ p ∧ bound ≤ p - min) :
    map.findGe bound = indexOf min (first? book) := by
  rcases map.findGe_spec beyond bound with ⟨missing, none⟩ | ⟨i, found, set, -, least⟩
  · rw [missing, first?_eq_none.mpr]
    · rfl
    · intro p member
      rcases inside p member with ⟨low, high⟩
      refine none (p - min).toNat (by lia) ((occupied _).mpr ?_)
      rwa [show min + ((p - min).toNat : Int) = p by lia]
  · have first : first? book = some (min + i) := by
      refine first?_eq_some.mpr ⟨(occupied i).mp set, fun p member => ?_⟩
      rcases inside p member with ⟨low, high⟩
      have le := least (p - min).toNat ((occupied _).mpr
        (by rwa [show min + ((p - min).toNat : Int) = p by lia])) (by lia)
      lia
    rw [found, first]
    simp only [indexOf]
    lia

end ends

theorem best_congr {r' : ReferenceEngine H}
    (same : ∀ p, p ∈ r'.book side ↔ p ∈ r.book side) : r'.best side = r.best side := by
  cases side with
  | buy => exact last?_congr same
  | sell => exact first?_congr same

theorem best_index (mirrors : Mirrors min nLevels s cells r) :
    s.best side = i ↔ r.best side = some (min + i) := by
  rw [mirrors.best]
  cases r.best side with
  | none => simp [indexOf]
  | some p =>
      simp only [indexOf, Option.some.injEq]
      lia

theorem best_mem (best : r.best side = some px) :
    px ∈ r.book side ∧ ∀ p ∈ r.book side, side.Reaches px p := by
  cases side with
  | buy => exact last?_eq_some.mp best
  | sell => exact first?_eq_some.mp best

theorem best_eq_of_mem (member : px ∈ r.book side)
    (bound : ∀ p ∈ r.book side, side.Reaches px p) : r.best side = some px := by
  cases side with
  | buy => exact last?_eq_some.mpr ⟨member, bound⟩
  | sell => exact first?_eq_some.mpr ⟨member, bound⟩

/-! ## Updates -/

/-- New content for a level that is a key already. -/
theorem setLevel (mirrors : Mirrors min nLevels s cells r)
    (present : (min + i : Price) ∈ r.book side) {level : List (Ptr × RO)} {mem : Memory}
    (heap : mem.Heap (cells.set side.book i level))
    (orders : mem.orders.size = s.mem.orders.size) :
    Mirrors min nLevels { s with mem } (cells.set side.book i level)
      (r.setLevel side (min + i) (level.map Prod.snd)) where
  heap := heap
  fastMin := mirrors.fastMin
  fastLevels := mirrors.fastLevels
  refMin := mirrors.refMin
  refMax := mirrors.refMax
  resting other j := by
    rw [Cells.set_book_book, ReferenceEngine.level_setLevel]
    by_cases here : other = side ∧ j = i
    · simp [here]
    · have elsewhere : ¬ (other = side ∧ (min + j : Price) = min + i) := by
        rintro ⟨rfl, same⟩
        exact here ⟨rfl, by lia⟩
      rw [if_neg here, if_neg elsewhere, mirrors.resting]
  parked other j := by
    rw [Cells.set_book_stopBook]
    exact mirrors.parked other j
  inside other p member := by
    rw [ReferenceEngine.mem_setLevel] at member
    rcases member with ⟨rfl, rfl⟩ | member
    · exact mirrors.inside other _ present
    · exact mirrors.inside other p member
  occupied other j := by
    rw [ReferenceEngine.mem_setLevel]
    refine (mirrors.occupied other j).trans ⟨.inr, ?_⟩
    rintro (⟨rfl, same⟩ | member)
    · exact same ▸ present
    · exact member
  mapSize := mirrors.mapSize
  best other := by
    refine (mirrors.best other).trans (congrArg _ (best_congr fun p => ?_).symm)
    rw [ReferenceEngine.mem_setLevel]
    refine ⟨?_, .inr⟩
    rintro (⟨rfl, rfl⟩ | member)
    · exact present
    · exact member
  unparked := mirrors.unparked
  stopOccupied := mirrors.stopOccupied
  stopMapSize := mirrors.stopMapSize
  ids := orders.trans mirrors.ids
  pending := mirrors.pending
  last := mirrors.last
  hasLast := mirrors.hasLast
  halted := mirrors.halted
  h := mirrors.h

theorem setLast (mirrors : Mirrors min nLevels s cells r) (px : Price) :
    Mirrors min nLevels { s with lastPx := px, hasLast := true } cells (r.setLast px) :=
  { mirrors with last := rfl, hasLast := rfl }

theorem emit [Handler H] (mirrors : Mirrors min nLevels s cells r) (event : Event) :
    Mirrors min nLevels (s.emit event) cells (r.emit event) :=
  { mirrors with h := congrArg (Handler.on · event) mirrors.h }

theorem test_clear_iff {map : LevelBitmap} (inRange : i < map.n) (j : Nat) :
    (map.clear i).test j = true ↔ j ≠ i ∧ map.test j = true := by
  rw [LevelBitmap.test_clear inRange]
  simp

theorem test_set_iff {map : LevelBitmap} (inRange : i < map.n) (j : Nat) :
    (map.set i).test j = true ↔ j = i ∨ map.test j = true := by
  rw [LevelBitmap.test_set inRange]
  simp

theorem clear_beyond {map : LevelBitmap} (inRange : i < map.n)
    (beyond : ∀ j, map.n ≤ j → map.test j = false) :
    ∀ j, (map.clear i).n ≤ j → (map.clear i).test j = false := by
  intro j large
  rw [LevelBitmap.test_clear inRange, beyond j large, Bool.and_false]

theorem nextLevel_eq (mirrors : Mirrors min nLevels s cells r)
    (best : r.best side = some (min + i)) :
    (s.setMap side.book ((s.maps side.book).clear i)).nextLevel side i =
      indexOf min ((r.setBook side ((r.book side).erase (min + i))).best side) := by
  rcases best_mem best with ⟨present, bound⟩
  have inRange : i < (s.maps side.book).n := by
    rw [mirrors.mapSize]
    exact mirrors.index_lt present
  have beyond := clear_beyond inRange (mirrors.test_beyond side)
  have occupied (j : Nat) : ((s.maps side.book).clear i).test j = true ↔
      (min + j : Price) ∈ (r.book side).erase (min + i) := by
    rw [test_clear_iff inRange, mem_erase, mirrors.occupied]
    exact and_congr_left fun _ => not_congr ⟨fun same => by rw [same], fun same => by lia⟩
  have refMin := mirrors.refMin
  cases side with
  | buy =>
      simp only [nextLevel, setMap, Function.update_self, ReferenceEngine.best,
        ReferenceEngine.bestBid, ReferenceEngine.setBook]
      refine findLe_eq beyond occupied fun p member => ?_
      rcases (mem_erase p).mp member with ⟨ne, member⟩
      have least : p ≤ min + i := bound p member
      have low := (mirrors.inside .buy p member).1
      exact ⟨by lia, by lia⟩
  | sell =>
      simp only [nextLevel, setMap, Function.update_self, ReferenceEngine.best,
        ReferenceEngine.bestAsk, ReferenceEngine.setBook]
      refine findGe_eq beyond occupied fun p member => ?_
      rcases (mem_erase p).mp member with ⟨ne, member⟩
      have least : min + i ≤ p := bound p member
      have low := (mirrors.inside .sell p member).1
      exact ⟨by lia, by lia⟩

theorem mem_setBook_erase (other : Side) (p : Price) :
    p ∈ (r.setBook side ((r.book side).erase px)).book other ↔
      ¬ (other = side ∧ p = px) ∧ p ∈ r.book other := by
  by_cases same : other = side
  · subst same
    simp only [ReferenceEngine.setBook, Function.update_self, mem_erase, true_and, ne_eq]
  · simp [ReferenceEngine.setBook, same]

theorem vacate_eq (s : MatchingEngine H) (side : Side) (i : Nat) :
    s.vacate side i = { s with
      maps := Function.update s.maps side.book ((s.maps side.book).clear i)
      best := Function.update s.best side (if s.best side = i then
        (s.setMap side.book ((s.maps side.book).clear i)).nextLevel side i
        else s.best side) } := by
  unfold MatchingEngine.vacate
  by_cases isBest : s.best side = i
  · simp [setMap, setBest, isBest]
  · simp [setMap, isBest]

theorem best_erase (ne : r.best side ≠ some px) :
    (r.setBook side ((r.book side).erase px)).best side = r.best side := by
  have sub : ∀ p, p ∈ (r.setBook side ((r.book side).erase px)).book side →
      p ∈ r.book side := fun p member => ((mem_setBook_erase side p).mp member).2
  cases best : r.best side with
  | none =>
      cases side with
      | buy => exact last?_eq_none.mpr fun p member => last?_eq_none.mp best p (sub p member)
      | sell => exact first?_eq_none.mpr fun p member => first?_eq_none.mp best p (sub p member)
  | some p =>
      rcases best_mem best with ⟨member, bound⟩
      refine best_eq_of_mem ((mem_setBook_erase side p).mpr ⟨?_, member⟩) fun q inside =>
        bound q (sub q inside)
      rintro ⟨-, rfl⟩
      exact ne best

theorem vacate (mirrors : Mirrors min nLevels s cells r)
    (present : (min + i : Price) ∈ r.book side) (empty : cells side.book i = []) :
    Mirrors min nLevels (s.vacate side i) cells (r.eraseIfEmpty side (min + i)) := by
  have inRange : i < (s.maps side.book).n := by
    rw [mirrors.mapSize]
    exact mirrors.index_lt present
  have erased : r.eraseIfEmpty side (min + i) =
      r.setBook side ((r.book side).erase (min + i)) := if_pos (mirrors.level_nil.mp empty)
  have level (other : Side) (p : Price) :
      (r.setBook side ((r.book side).erase (min + i))).level other p = r.level other p := by
    rw [← erased, ReferenceEngine.level_eraseIfEmpty]
  rw [erased, vacate_eq]
  exact {
    heap := mirrors.heap
    fastMin := mirrors.fastMin
    fastLevels := mirrors.fastLevels
    refMin := mirrors.refMin
    refMax := mirrors.refMax
    resting := fun other j => (mirrors.resting other j).trans (level other _).symm
    parked := mirrors.parked
    inside := fun other p member =>
      mirrors.inside other p ((mem_setBook_erase other p).mp member).2
    occupied := fun other j => by
      simp only [Function.update_apply, Side.book_inj, mem_setBook_erase]
      by_cases same : other = side
      · subst same
        simp only [if_true, true_and, test_clear_iff inRange, mirrors.occupied]
        exact and_congr_left fun _ => not_congr ⟨fun same => by rw [same], fun same => by lia⟩
      · simp [same, mirrors.occupied]
    mapSize := fun other => by
      simp only [Function.update_apply, Side.book_inj]
      split
      · exact mirrors.mapSize side
      · exact mirrors.mapSize other
    best := fun other => by
      simp only [Function.update_apply]
      split
      · rename_i same
        subst same
        split
        · rename_i isBest
          exact mirrors.nextLevel_eq (mirrors.best_index.mp isBest)
        · rename_i notBest
          rw [best_erase (mt mirrors.best_index.mpr notBest)]
          exact mirrors.best other
      · rename_i ne
        refine (mirrors.best other).trans (congrArg _ (best_congr fun p => ?_).symm)
        rw [mem_setBook_erase]
        simp [ne]
    unparked := mirrors.unparked
    stopOccupied := fun allocated other j => by
      simp only [Function.update_of_ne (Side.stopBook_ne_book _ _)]
      exact mirrors.stopOccupied allocated other j
    stopMapSize := fun allocated other => by
      simp only [Function.update_of_ne (Side.stopBook_ne_book _ _)]
      exact mirrors.stopMapSize allocated other
    ids := mirrors.ids
    pending := mirrors.pending
    last := mirrors.last
    hasLast := mirrors.hasLast
    halted := mirrors.halted
    h := mirrors.h }

/-- The bookkeeping after a level has lost orders, wherever it is. -/
theorem vacateIfEmpty (mirrors : Mirrors min nLevels s cells r)
    (present : (min + i : Price) ∈ r.book side) :
    Mirrors min nLevels
      (if (s.mem.levels side.book i).head.isNone then s.vacate side i else s) cells
      (r.eraseIfEmpty side (min + i)) := by
  have isEmpty : (s.mem.levels side.book i).head.isNone = true ↔ cells side.book i = [] := by
    rw [Option.isNone_iff_eq_none, mirrors.heap.filed.empty_iff]
  by_cases empty : cells side.book i = []
  · rw [if_pos (isEmpty.mpr empty)]
    exact mirrors.vacate present empty
  · have occupied : ¬ r.level side (min + i) = [] := mt mirrors.level_nil.mpr empty
    rw [if_neg (mt isEmpty.mp empty), ReferenceEngine.eraseIfEmpty, if_neg occupied]
    exact mirrors

/-- The same at the best level. -/
theorem vacateBestIfEmpty (mirrors : Mirrors min nLevels s cells r)
    (best : s.best side = i) (present : (min + i : Price) ∈ r.book side) :
    Mirrors min nLevels
      (if (s.mem.levels side.book i).head.isNone then s.vacateBest side else s) cells
      (r.eraseIfEmpty side (min + i)) := by
  have same : s.vacateBest side = s.vacate side i := by
    simp [vacateBest, MatchingEngine.vacate, best, setMap]
  rw [same]
  exact mirrors.vacateIfEmpty present

theorem occupy_eq (s : MatchingEngine H) (side : Side) (i : Nat) :
    s.occupy side i = { s with
      maps := Function.update s.maps side.book ((s.maps side.book).set i)
      best := Function.update s.best side (match side with
        | .buy => if s.best .buy < i then i else s.best .buy
        | .sell => if s.best .sell < 0 ∨ (i : Int) < s.best .sell then i else s.best .sell) } := by
  unfold occupy
  cases side with
  | buy => by_cases better : s.best .buy < i <;> simp [setMap, setBest, better]
  | sell =>
      by_cases better : s.best .sell < 0 ∨ (i : Int) < s.best .sell <;>
        simp [setMap, setBest, better]

theorem best_insert (mirrors : Mirrors min nLevels s cells r) (level : List RO) :
    (match side with
      | .buy => if s.best .buy < i then (i : Int) else s.best .buy
      | .sell => if s.best .sell < 0 ∨ (i : Int) < s.best .sell then i else s.best .sell) =
      indexOf min ((r.setLevel side (min + i) level).best side) := by
  have refMin := mirrors.refMin
  have keys (p : Price) : p ∈ (r.setLevel side (min + i) level).book side ↔
      p = min + i ∨ p ∈ r.book side := by
    rw [ReferenceEngine.mem_setLevel]
    simp
  -- The new best is the added key unless an old one is at least as good.
  have newBest (better : ∀ p, r.best side = some p → side.Reaches (min + i) p) :
      (r.setLevel side (min + i) level).best side = some (min + i) := by
    refine best_eq_of_mem ((keys _).mpr (.inl rfl)) fun p member => ?_
    rcases (keys p).mp member with rfl | member
    · exact side.reaches_refl _
    · cases old : r.best side with
      | none =>
          cases side with
          | buy => exact absurd member (last?_eq_none.mp old p)
          | sell => exact absurd member (first?_eq_none.mp old p)
      | some q => exact Side.reaches_trans (better q old) ((best_mem old).2 p member)
  have oldBest (q : Price) (old : r.best side = some q) (worse : side.Reaches q (min + i)) :
      (r.setLevel side (min + i) level).best side = some q := by
    refine best_eq_of_mem ((keys _).mpr (.inr (best_mem old).1)) fun p member => ?_
    rcases (keys p).mp member with rfl | member
    · exact worse
    · exact (best_mem old).2 p member
  cases old : r.best side with
  | none =>
      have cached : s.best side = -1 := by rw [mirrors.best, old]; rfl
      rw [newBest (by simp [old])]
      show _ = min + (i : Int) - min
      cases side <;> simp only <;> split <;> lia
  | some q =>
      have cached : s.best side = q - min := by rw [mirrors.best, old]; rfl
      have low := (mirrors.inside _ _ (best_mem old).1).1
      by_cases better : side.Reaches (min + i) q
      · rw [newBest fun p same => by
          rw [old] at same
          cases same
          exact better]
        show _ = min + (i : Int) - min
        cases side <;> simp only [Side.Reaches] at better ⊢ <;> split <;> lia
      · have worse : side.Reaches q (min + i) := by
          cases side <;> simp only [Side.Reaches] at better ⊢ <;> lia
        rw [oldBest q old worse]
        show _ = q - min
        cases side <;> simp only [Side.Reaches] at better ⊢ <;> split <;> lia

/-- The first order of a level that may not be a key yet. -/
theorem occupy (mirrors : Mirrors min nLevels s cells r) (inBand : r.inBand (min + i))
    {level : List (Ptr × RO)} {mem : Memory} (heap : mem.Heap (cells.set side.book i level))
    (orders : mem.orders.size = s.mem.orders.size) :
    Mirrors min nLevels ({ s with mem }.occupy side i) (cells.set side.book i level)
      (r.setLevel side (min + i) (level.map Prod.snd)) := by
  have inRange : i < (s.maps side.book).n := by
    rw [mirrors.mapSize]
    have refMin := mirrors.refMin
    have refMax := mirrors.refMax
    rcases inBand with ⟨low, high⟩
    lia
  rw [occupy_eq]
  exact {
    heap := heap
    fastMin := mirrors.fastMin
    fastLevels := mirrors.fastLevels
    refMin := mirrors.refMin
    refMax := mirrors.refMax
    resting := fun other j => by
      rw [Cells.set_book_book, ReferenceEngine.level_setLevel]
      by_cases here : other = side ∧ j = i
      · simp [here]
      · have elsewhere : ¬ (other = side ∧ (min + j : Price) = min + i) := by
          rintro ⟨rfl, same⟩
          exact here ⟨rfl, by lia⟩
        rw [if_neg here, if_neg elsewhere, mirrors.resting]
    parked := fun other j => by
      rw [Cells.set_book_stopBook]
      exact mirrors.parked other j
    inside := fun other p member => by
      rw [ReferenceEngine.mem_setLevel] at member
      rcases member with ⟨-, rfl⟩ | member
      · exact inBand
      · exact mirrors.inside other p member
    occupied := fun other j => by
      simp only [Function.update_apply, Side.book_inj, ReferenceEngine.mem_setLevel]
      by_cases same : other = side
      · subst same
        simp only [if_true, true_and, test_set_iff inRange, mirrors.occupied]
        exact or_congr_left ⟨fun same => by rw [same], fun same => by lia⟩
      · simp [same, mirrors.occupied]
    mapSize := fun other => by
      simp only [Function.update_apply, Side.book_inj]
      split
      · exact mirrors.mapSize side
      · exact mirrors.mapSize other
    best := fun other => by
      simp only [Function.update_apply]
      split
      · rename_i same
        subst same
        exact mirrors.best_insert (level.map Prod.snd)
      · rename_i ne
        refine (mirrors.best other).trans (congrArg _ (best_congr fun p => ?_).symm)
        rw [ReferenceEngine.mem_setLevel]
        simp [ne]
    unparked := mirrors.unparked
    stopOccupied := fun allocated other j => by
      simp only [Function.update_of_ne (Side.stopBook_ne_book _ _)]
      exact mirrors.stopOccupied allocated other j
    stopMapSize := fun allocated other => by
      simp only [Function.update_of_ne (Side.stopBook_ne_book _ _)]
      exact mirrors.stopMapSize allocated other
    ids := orders.trans mirrors.ids
    pending := mirrors.pending
    last := mirrors.last
    hasLast := mirrors.hasLast
    halted := mirrors.halted
    h := mirrors.h }

end Mirrors

end MatchingEngine

end Matchbook
