import Matchbook.Engine.Equilibrium
import Matchbook.Engine.OpenOrders
import Matchbook.Foundation.WrappingSums

namespace Matchbook

open WrappingSums

/-! # The sums of the engine

What a level says it holds, what the scan of a fill-or-kill order counts and what the
curves of an auction say, against the orders themselves. -/

namespace MatchingEngine

variable {H : Type}

/-- The displayed quantity of a queue, order by order. -/
def shown (s : MatchingEngine H) (book : BookName) (px : Price) : Nat :=
  ((s.queue book px).map fun o => o.qty.toNat).sum

def reserved (s : MatchingEngine H) (book : BookName) (px : Price) : Nat :=
  ((s.queue book px).map fun o => o.reserve.toNat).sum

def ladder (s : MatchingEngine H) (side : Side) : List Price :=
  (List.range s.nLevels).map fun (k : Nat) =>
    match side with
    | .buy => s.min + s.nLevels - 1 - k
    | .sell => s.min + k

def amounts (s : MatchingEngine H) (side : Side) (prices : List Price) : List Nat :=
  prices.map fun px => queueTotal (s.queue side.book px)

def counted (s : MatchingEngine H) (maker : Side) (limit : Price) (want : Nat) : Nat :=
  countUntil want (s.amounts maker ((s.ladder maker).filter fun px => maker.Reaches px limit)) 0

/-- Every sum of the engine is that of the orders. -/
structure Exact (s : MatchingEngine H) : Prop where
  levels : ∀ book px, s.inBand px →
    (s.mem.levels book (s.idx px)).total.toNat = s.shown book px ∧
      (s.mem.levels book (s.idx px)).hidden.toNat = s.reserved book px
  scans : ∀ side price want, s.inBand price → ∃ sum, s.fillable side price want = some sum ∧
    sum.toNat = s.counted side.opposite price want.toNat
  curves : ¬ s.Uncrossed → ∀ k < (s.best .buy - s.best .sell + 1).toNat,
    (s.supply (s.best .sell) k).toNat = s.offered .sell (s.bestAsk + k) ∧
      (s.demand (s.best .sell) (s.best .buy - s.best .sell + 1).toNat k).toNat =
        s.offered .buy (s.bestAsk + k)

/-- What the orders add up to fits in a word: in each level, along each side as far as a
scan can get, and in the overlap. -/
structure Fits (s : MatchingEngine H) : Prop where
  levels : ∀ book px, s.shown book px < 2 ^ 64 ∧ s.reserved book px < 2 ^ 64
  sides : ∀ side, countUntil (2 ^ 64 - 1) (s.amounts side (s.ladder side)) 0 < 2 ^ 64
  overlap : ¬ s.Uncrossed →
    s.offered .sell s.bestBid < 2 ^ 64 ∧ s.offered .buy s.bestAsk < 2 ^ 64

end MatchingEngine

/-! ## Levels -/

namespace MatchingEngine

variable {H : Type} {band : Band} {s : MatchingEngine H} {r : ReferenceEngine H}

theorem sumOf_eq (qty : RO → Qty) (level : List (Ptr × RO)) :
    sumOf qty level = UInt64.ofNat ((level.map Prod.snd).map fun o => (qty o).toNat).sum := by
  induction level with
  | nil => rfl
  | cons cell level induction =>
      rw [sumOf_cons, induction, List.map_cons, List.map_cons, List.sum_cons, UInt64.ofNat_add,
        UInt64.ofNat_toNat]

theorem Simulates.level (simulates : Simulates band s r) (book : BookName) {px : Price}
    (inside : s.inBand px) :
    (s.mem.levels book (s.idx px)).total = UInt64.ofNat (s.shown book px) ∧
      (s.mem.levels book (s.idx px)).hidden = UInt64.ofNat (s.reserved book px) := by
  rcases simulates.tracks with ⟨cells, mirrors, -⟩
  have filed := mirrors.heap.filed
  have queue := mirrors.queue_eq simulates.sound.valid book ((mirrors.inBand_iff px).mp inside)
  rw [shown, reserved, queue, filed.total, filed.hidden, sumOf_eq, sumOf_eq]
  exact ⟨rfl, rfl⟩

theorem queue_outside (book : BookName) {px : Price} (outside : ¬ s.inBand px) :
    s.queue book px = [] := if_neg outside

theorem Simulates.levels_exact_iff (simulates : Simulates band s r) :
    (∀ book px, s.inBand px →
      (s.mem.levels book (s.idx px)).total.toNat = s.shown book px ∧
        (s.mem.levels book (s.idx px)).hidden.toNat = s.reserved book px) ↔
      ∀ book px, s.shown book px < 2 ^ 64 ∧ s.reserved book px < 2 ^ 64 := by
  constructor
  · intro exact book px
    by_cases inside : s.inBand px
    · rcases exact book px inside with ⟨total, hidden⟩
      rw [← total, ← hidden]
      exact ⟨UInt64.toNat_lt _, UInt64.toNat_lt _⟩
    · rw [shown, reserved, queue_outside book inside]
      simp
  · intro fits book px inside
    rcases simulates.level book inside with ⟨total, hidden⟩
    rw [total, hidden]
    exact ⟨toNat_ofNat_iff.mpr (fits book px).1, toNat_ofNat_iff.mpr (fits book px).2⟩

/-! ## Scans -/

theorem Shows.ladder_eq {m : Market} (shows : s.Shows m) (side : Side) :
    s.ladder side = m.ladder side := by
  have low := shows.min
  have high := shows.max
  have levels : s.nLevels = (m.max - m.min + 1).toNat := by lia
  rw [ladder, Market.ladder, ← levels]
  apply List.map_congr_left
  intro k _
  cases side with
  | buy =>
      show s.min + s.nLevels - 1 - (k : Int) = m.max - (k : Int)
      lia
  | sell =>
      show s.min + (k : Int) = m.min + (k : Int)
      lia

end MatchingEngine

theorem Market.fillable_eq_words (m : Market) (side : Side) (price : Price) (want : Qty) :
    m.fillable side price want = countWords want
      (((m.ladder side.opposite).filter fun px => side.opposite.Reaches px price).map fun px =>
        queueTotal (m.levels side.opposite px)) 0 := by
  have scan (prices : List Price) (start : Qty) :
      prices.foldl (fun sum px =>
        if side.opposite.Reaches px price ∧ sum < want then
          (m.levels side.opposite px).foldl (fun sum o => sum + (o.qty + o.reserve)) sum
        else sum) start = countWords want
          ((prices.filter fun px => side.opposite.Reaches px price).map fun px =>
            queueTotal (m.levels side.opposite px)) start := by
    induction prices generalizing start with
    | nil => rfl
    | cons px prices induction =>
        rw [List.foldl_cons]
        by_cases reaches : side.opposite.Reaches px price
        · rw [List.filter_cons_of_pos (by simpa using reaches), List.map_cons, countWords]
          by_cases short : start < want
          · rw [if_pos ⟨reaches, short⟩, if_pos short, induction,
              ReferenceEngine.foldl_qty_eq]
          · rw [if_neg fun both => short both.2, if_neg short, induction]
            cases ((prices.filter fun px => side.opposite.Reaches px price).map fun px =>
              queueTotal (m.levels side.opposite px)) with
            | nil => rfl
            | cons amount amounts => rw [countWords, if_neg short]
        · rw [List.filter_cons_of_neg (by simpa using reaches), if_neg fun both => reaches both.1,
            induction]
  exact scan _ 0

theorem Market.filter_ladder_isPrefix (m : Market) (side : Side) (limit : Price) :
    ((m.ladder side).filter fun px => side.Reaches px limit) <+: m.ladder side := by
  have shorten (prices : List Price)
      (sorted : prices.Pairwise fun first second => side.Worse second first) :
      (prices.filter fun px => side.Reaches px limit) <+: prices := by
    induction prices with
    | nil => exact List.prefix_rfl
    | cons px prices induction =>
        rw [List.pairwise_cons] at sorted
        by_cases reaches : side.Reaches px limit
        · rw [List.filter_cons_of_pos (by simpa using reaches)]
          exact (List.prefix_cons_inj px).mpr (induction sorted.2)
        · have none : (prices.filter fun px => side.Reaches px limit) = [] := by
            apply List.filter_eq_nil_iff.mpr
            intro worse member within
            have within : side.Reaches worse limit := by simpa using within
            exact reaches (Side.reaches_trans (sorted.1 worse member).reaches within)
          rw [List.filter_cons_of_neg (by simpa using reaches), none]
          exact List.nil_prefix
  exact shorten _ (m.ladder_sorted side)

namespace MatchingEngine

variable {H : Type} {band : Band} {s : MatchingEngine H} {r : ReferenceEngine H}

theorem Simulates.scan_iff (simulates : Simulates band s r) (side : Side) {price : Price}
    (want : Qty) (inside : s.inBand price) :
    (∃ sum, s.fillable side price want = some sum ∧
      sum.toNat = s.counted side.opposite price want.toNat) ↔
        s.counted side.opposite price want.toNat < 2 ^ 64 := by
  have shows := simulates.shows
  rcases simulates.tracks with ⟨cells, mirrors, -⟩
  have keyed := simulates.sound.keyed
  have scanned := mirrors.fillable_eq side ((mirrors.inBand_iff price).mp inside) want
  have amounts (prices : List Price) : s.amounts side.opposite prices =
      prices.map fun px => queueTotal (r.market.levels side.opposite px) :=
    List.map_congr_left fun px _ => congrArg queueTotal (shows.levels side.opposite px)
  rw [scanned, ReferenceEngine.fillable_market simulates.sound.valid keyed,
    Market.fillable_eq_words, ← shows.ladder_eq, ← amounts, counted]
  simp only [Option.some_inj, exists_eq_left']
  exact countWords_iff

theorem Simulates.counted_le (simulates : Simulates band s r) (side : Side) (limit : Price)
    (want : Qty) : s.counted side limit want.toNat ≤
      countUntil (2 ^ 64 - 1) (s.amounts side (s.ladder side)) 0 := by
  have most : want.toNat ≤ 2 ^ 64 - 1 := Nat.le_pred_of_lt (UInt64.toNat_lt want)
  rw [counted, simulates.shows.ladder_eq]
  rcases r.market.filter_ladder_isPrefix side limit with ⟨rest, whole⟩
  have split : s.amounts side (r.market.ladder side) =
      s.amounts side ((r.market.ladder side).filter fun px => side.Reaches px limit) ++
        s.amounts side rest := by
    rw [amounts, amounts, amounts, ← List.map_append, whole]
  rw [split]
  exact Nat.le_trans (countUntil_mono most) countUntil_le_append

theorem Simulates.worst (simulates : Simulates band s r) (side : Side) :
    ∃ price, s.inBand price ∧
      s.counted side price (2 ^ 64 - 1) =
        countUntil (2 ^ 64 - 1) (s.amounts side (s.ladder side)) 0 := by
  have shows := simulates.shows
  rcases simulates.tracks with ⟨cells, mirrors, -⟩
  have ordered := band.min_le_max
  have low := mirrors.fastMin
  have levels := mirrors.fastLevels
  unfold Band.levels at levels
  have whole {price : Price} (reaches : ∀ px, s.inBand px → side.Reaches px price) :
      s.counted side price (2 ^ 64 - 1) =
        countUntil (2 ^ 64 - 1) (s.amounts side (s.ladder side)) 0 := by
    rw [counted, List.filter_eq_self.mpr]
    intro px member
    rw [shows.ladder_eq, Market.mem_ladder] at member
    simpa using reaches px ((mirrors.inBand_iff px).mpr member)
  cases side with
  | buy =>
      refine ⟨s.min, ⟨Int.le_refl _, by lia⟩, whole fun px inside => ?_⟩
      exact inside.1
  | sell =>
      refine ⟨s.min + s.nLevels - 1, ⟨by lia, by lia⟩, whole fun px inside => ?_⟩
      have := inside.2
      simp only [Side.Reaches]
      lia

theorem Simulates.scans_exact_iff (simulates : Simulates band s r) :
    (∀ side price want, s.inBand price → ∃ sum, s.fillable side price want = some sum ∧
      sum.toNat = s.counted side.opposite price want.toNat) ↔
      ∀ side, countUntil (2 ^ 64 - 1) (s.amounts side (s.ladder side)) 0 < 2 ^ 64 := by
  constructor
  · intro exact side
    rcases simulates.worst side with ⟨price, inside, whole⟩
    have scan := (simulates.scan_iff side.opposite (UInt64.ofNat (2 ^ 64 - 1)) inside).mp
      (exact side.opposite price _ inside)
    rw [Side.opposite_opposite] at scan
    rw [← whole]
    exact scan
  · intro fits side price want inside
    apply (simulates.scan_iff side want inside).mpr
    exact Nat.lt_of_le_of_lt (simulates.counted_le _ _ want) (fits side.opposite)

/-! ## Curves -/

theorem Simulates.offered_le_offered (simulates : Simulates band s r) {side : Side} {p q : Price}
    (reaches : side.Reaches p q) : s.offered side p ≤ s.offered side q := by
  rw [simulates.shows.offered_eq]
  apply Finset.sum_le_sum_of_subset
  intro px member
  rcases Finset.mem_filter.mp member with ⟨inside, within⟩
  exact Finset.mem_filter.mpr ⟨inside, Side.reaches_trans within reaches⟩

/-- The curves of an overlap, modulo 2^64. -/
theorem Simulates.curves (simulates : Simulates band s r) (overlaps : ¬ s.Uncrossed) {k : Nat}
    (inside : k < (s.best .buy - s.best .sell + 1).toNat) :
    s.supply (s.best .sell) k = UInt64.ofNat (s.offered .sell (s.bestAsk + k)) ∧
      s.demand (s.best .sell) (s.best .buy - s.best .sell + 1).toNat k =
        UInt64.ofNat (s.offered .buy (s.bestAsk + k)) := by
  rcases simulates.overlap overlaps with ⟨bestBid, bestAsk, overlap⟩
  have shows := simulates.shows
  have valid := simulates.sound.valid
  have keyed := simulates.sound.keyed
  rcases simulates.tracks with ⟨cells, mirrors, -⟩
  have hasAsk : 0 ≤ s.best .sell := ((mirrors.hasBest_iff keyed .sell _).mpr bestAsk).1
  have ask : s.bestAsk - s.min = s.best .sell := by
    rw [MatchingEngine.bestAsk, bestPrice]
    lia
  have size : ((s.best .buy - s.best .sell + 1).toNat : Int) = s.bestBid - s.bestAsk + 1 := by
    rw [MatchingEngine.bestAsk, MatchingEngine.bestBid, bestPrice, bestPrice] at overlap ⊢
    lia
  have low : s.min ≤ s.bestAsk := by lia
  have start := mirrors.fastMin
  rw [start] at ask low
  have supply := mirrors.supply_eq (k := k) ((ReferenceEngine.best_eq_some keyed).mpr bestAsk)
  have demand := mirrors.demand_eq ((ReferenceEngine.best_eq_some keyed).mpr bestBid) low size
    inside
  rw [ask] at supply demand
  rw [supply, demand, ReferenceEngine.executable_eq_offered valid keyed,
    ReferenceEngine.executable_eq_offered valid keyed, shows.offered_eq, shows.offered_eq]
  exact ⟨rfl, rfl⟩

theorem Simulates.curves_exact_iff (simulates : Simulates band s r) (overlaps : ¬ s.Uncrossed) :
    (∀ k < (s.best .buy - s.best .sell + 1).toNat,
      (s.supply (s.best .sell) k).toNat = s.offered .sell (s.bestAsk + k) ∧
        (s.demand (s.best .sell) (s.best .buy - s.best .sell + 1).toNat k).toNat =
          s.offered .buy (s.bestAsk + k)) ↔
      s.offered .sell s.bestBid < 2 ^ 64 ∧ s.offered .buy s.bestAsk < 2 ^ 64 := by
  have overlap := (simulates.overlap overlaps).2.2
  have size : ((s.best .buy - s.best .sell + 1).toNat : Int) = s.bestBid - s.bestAsk + 1 := by
    rw [bestAsk, bestBid, bestPrice, bestPrice] at overlap ⊢
    lia
  constructor
  · intro exact
    have last := (exact ((s.best .buy - s.best .sell + 1).toNat - 1) (by lia)).1
    have first := (exact 0 (by lia)).2
    have top : s.bestAsk + (((s.best .buy - s.best .sell + 1).toNat - 1 : Nat) : Int) =
        s.bestBid := by
      lia
    have bottom : s.bestAsk + ((0 : Nat) : Int) = s.bestAsk := Int.add_zero _
    rw [top] at last
    rw [bottom] at first
    rw [← last, ← first]
    exact ⟨UInt64.toNat_lt _, UInt64.toNat_lt _⟩
  · rintro ⟨supplyFits, demandFits⟩ k inside
    rcases simulates.curves overlaps inside with ⟨supply, demand⟩
    have below : Side.sell.Reaches (s.bestAsk + k) s.bestBid := by
      show s.bestAsk + (k : Int) ≤ s.bestBid
      lia
    have above : Side.buy.Reaches (s.bestAsk + k) s.bestAsk := by
      show s.bestAsk ≤ s.bestAsk + (k : Int)
      lia
    rw [supply, demand]
    constructor
    · exact toNat_ofNat_iff.mpr (Nat.lt_of_le_of_lt (simulates.offered_le_offered below) supplyFits)
    · exact toNat_ofNat_iff.mpr (Nat.lt_of_le_of_lt (simulates.offered_le_offered above) demandFits)

/-! ## Runs -/

theorem Simulates.exact_iff (simulates : Simulates band s r) : s.Exact ↔ s.Fits := by
  constructor
  · intro exact
    exact {
      levels := simulates.levels_exact_iff.mp exact.levels
      sides := simulates.scans_exact_iff.mp exact.scans
      overlap := fun overlaps => (simulates.curves_exact_iff overlaps).mp (exact.curves overlaps) }
  · intro fits
    exact {
      levels := simulates.levels_exact_iff.mpr fits.levels
      scans := simulates.scans_exact_iff.mpr fits.sides
      curves := fun overlaps => (simulates.curves_exact_iff overlaps).mpr (fits.overlap overlaps) }

/-- After any run the sums of the engine are exact if and only if what they stand for fits
in a word. -/
theorem runOps_exact_iff [Handler H] (band : Band) (h : H) (expectedOrders : Nat)
    (ops : List Op) :
    ∃ s rets, (new band h expectedOrders).runOps ops = some (s, rets) ∧ (s.Exact ↔ s.Fits) := by
  rcases (simulates_new band h expectedOrders).runOps ops with ⟨s, r, rets, run, -, simulates⟩
  exact ⟨s, rets, run, simulates.exact_iff⟩

/-- Two bids of half a word at one price: together they count as nothing. -/
theorem not_runOps_exact :
    let band : Band := ⟨95, 105, by decide, by decide, by decide⟩
    let ops : List Op :=
      [.submitLimit .buy 100 (2 ^ 63) .gtc 0 .cancelTaker,
        .submitLimit .buy 100 (2 ^ 63) .gtc 0 .cancelTaker]
    ∃ s rets, (new band ([] : Tape) 16).runOps ops = some (s, rets) ∧
      s.shown .bids 100 = 2 ^ 64 ∧ (s.mem.levels .bids (s.idx 100)).total = 0 ∧ ¬ s.Exact := by
  intro band ops
  rcases (simulates_new band ([] : Tape) 16).runOps ops with ⟨s, r, rets, fast, ref, simulates⟩
  have book : ((ReferenceEngine.new band ([] : Tape)).runOps ops).map (fun result =>
      let m := result.1.market
      (m.min, m.max, ((m.levels .buy 100).map fun o => o.qty.toNat).sum)) =
      some (95, 105, 2 ^ 64) := by
    decide +kernel
  simp only [ref, Option.map_some, Option.some_inj, Prod.mk.injEq] at book
  rcases book with ⟨low, high, sum⟩
  have shows := simulates.shows
  have holds : s.Holds r.market := ⟨band, r, simulates, rfl⟩
  have shown : s.shown .bids 100 = 2 ^ 64 := by
    rw [MatchingEngine.shown, show s.queue .bids 100 = r.market.levels .buy 100 from
      shows.levels .buy 100]
    exact sum
  have inside : s.inBand 100 := (holds.inBand_iff 100).mpr ⟨by lia, by lia⟩
  have total : (s.mem.levels .bids (s.idx 100)).total = 0 := by
    rw [(simulates.level .bids inside).1, shown]
    rfl
  refine ⟨s, rets, fast, shown, total, fun exact => ?_⟩
  have same := (exact.levels .bids 100 inside).1
  rw [total, shown] at same
  exact absurd same (by decide)

end MatchingEngine

end Matchbook
