import Mathlib.Algebra.BigOperators.Ring.Finset
import Matchbook.Engine.Refusals
import Matchbook.Engine.Uncrossed
import Matchbook.Market.Auction

namespace Matchbook

open CallAuction Transitions

/-! # The auction clears at the equilibrium price -/

/-! ## The clearing price -/

namespace Market

def openQty (m : Market) (side : Side) : Nat :=
  ∑ px ∈ pricesBetween m.min m.max, queueTotal (m.levels side px)

theorem offered_le (m : Market) (side : Side) (p : Price) : m.offered side p ≤ m.openQty side :=
  Finset.sum_le_sum_of_subset (Finset.filter_subset _ _)

end Market

namespace ReferenceEngine

variable {H : Type} {r : ReferenceEngine H} {side : Side} {lo hi p : Price}

theorem foldl_qty_eq (level : List RO) (start : Qty) :
    level.foldl (fun sum o => sum + (o.qty + o.reserve)) start =
      start + UInt64.ofNat (queueTotal level) := by
  induction level generalizing start with
  | nil => exact (UInt64.add_zero start).symm
  | cons o level induction =>
      have split : queueTotal (o :: level) = o.qty.toNat + o.reserve.toNat + queueTotal level := by
        rw [queueTotal, List.map_cons, List.sum_cons]
        rfl
      rw [List.foldl_cons, induction, split, UInt64.ofNat_add, UInt64.ofNat_add,
        UInt64.ofNat_toNat, UInt64.ofNat_toNat, UInt64.add_assoc]

theorem queueQty_eq (level : List RO) :
    queueQty level = UInt64.ofNat (queueTotal level) := by
  rw [queueQty, foldl_qty_eq, UInt64.zero_add]

theorem executable_eq_offered (valid : r.market.Valid) (keyed : r.Keyed) :
    r.executable side p = UInt64.ofNat (r.market.offered side p) := by
  let prices := (pricesBetween r.min r.max).filter fun px => side.Reaches px p
  have reaches : ∀ px ∈ prices.toList, side.Reaches px p := fun px member =>
    (Finset.mem_filter.mp (Finset.mem_toList.mp member)).2
  have covers : ∀ px ∈ r.book side, side.Reaches px p → px ∈ prices.toList := by
    intro px present reaches
    have inside := valid.inside side px ((keyed side px).mp present)
    exact Finset.mem_toList.mpr (Finset.mem_filter.mpr ⟨mem_pricesBetween.mpr inside, reaches⟩)
  let wrap : Nat →+ Qty := ⟨⟨UInt64.ofNat, rfl⟩, UInt64.ofNat_add⟩
  rw [executable_eq_of_covers prices.toList prices.nodup_toList reaches covers,
    Finset.sum_map_toList]
  have sum : wrap (r.market.offered side p) = ∑ px ∈ prices, wrap (queueTotal (r.level side px)) :=
    map_sum wrap _ _
  exact (Finset.sum_congr rfl fun px _ => queueQty_eq _).trans sum.symm

section clearing

variable (valid : r.market.Valid) (keyed : r.Keyed)
  (fits : ∀ side, r.market.openQty side < 2 ^ 64)
include valid keyed fits

theorem executable_toNat (side : Side) (p : Price) :
    (r.executable side p).toNat = r.market.offered side p := by
  rw [executable_eq_offered valid keyed]
  exact UInt64.toNat_ofNat_of_lt' (Nat.lt_of_le_of_lt (r.market.offered_le side p) (fits side))

omit valid keyed fits in
structure Weighed (r : ReferenceEngine H) (best : BestCross) : Prop where
  exec : best.exec.toNat = volume (r.market.offered .buy) (r.market.offered .sell) best.clearing
  imbalance : best.imbalance.toNat =
    imbalance (r.market.offered .buy) (r.market.offered .sell) best.clearing

omit valid keyed fits in
theorem toNat_smaller (demand supply : Qty) :
    (if demand < supply then demand else supply).toNat = Min.min demand.toNat supply.toNat := by
  split
  · rename_i less
    exact (Nat.min_eq_left (Nat.le_of_lt (UInt64.lt_iff_toNat_lt.mp less))).symm
  · rename_i notLess
    exact (Nat.min_eq_right (UInt64.le_iff_toNat_le.mp (UInt64.not_lt.mp notLess))).symm

omit valid keyed fits in
theorem toNat_difference (demand supply : Qty) :
    (if supply < demand then demand - supply else supply - demand).toNat =
      ((demand.toNat : Int) - supply.toNat).natAbs := by
  split
  · rename_i less
    have := UInt64.lt_iff_toNat_lt.mp less
    rw [UInt64.toNat_sub_of_le _ _ (UInt64.le_of_lt less)]
    omega
  · rename_i notLess
    have le := UInt64.not_lt.mp notLess
    have := UInt64.le_iff_toNat_le.mp le
    rw [UInt64.toNat_sub_of_le _ _ le]
    omega

omit valid keyed fits in
theorem distance_lt_iff (p c : Price) : distance r.market.last p < distance r.market.last c ↔
    r.hasLast = true ∧ (p - r.last).natAbs < (c - r.last).natAbs := by
  cases printed : r.hasLast <;> simp [market, distance, printed]

/-- What a price is compared with the candidate by. -/
theorem considerClearing_eq_weighed (best : BestCross) (p : Price) :
    ∃ new : BestCross, r.Weighed new ∧ new.clearing = p ∧
      r.considerClearing best p = if best.exec < new.exec ∨ (new.exec = best.exec ∧ 0 < new.exec ∧
          if new.imbalance ≠ best.imbalance then new.imbalance < best.imbalance
          else r.hasLast ∧ (p - r.last).natAbs < (best.clearing - r.last).natAbs)
        then new else best := by
  have exec := toNat_smaller (r.executable .buy p) (r.executable .sell p)
  have difference := toNat_difference (r.executable .buy p) (r.executable .sell p)
  rw [executable_toNat valid keyed fits, executable_toNat valid keyed fits] at exec difference
  exact ⟨⟨_, _, p⟩, ⟨exec, difference⟩, rfl, rfl⟩

theorem considerClearing_first {best : BestCross} (none : best.exec = 0)
    (some : 0 < volume (r.market.offered .buy) (r.market.offered .sell) p) :
    r.Weighed (r.considerClearing best p) ∧ (r.considerClearing best p).clearing = p := by
  rcases considerClearing_eq_weighed valid keyed fits best p with ⟨new, weighed, rfl, same⟩
  have more : best.exec < new.exec := by
    rw [none, UInt64.lt_iff_toNat_lt, weighed.exec]
    exact some
  rw [same, if_pos (.inl more)]
  exact ⟨weighed, rfl⟩

/-- A price at which something trades is taken if it is preferred. -/
theorem considerClearing_spec {best : BestCross} (weighed : r.Weighed best)
    (some : 0 < volume (r.market.offered .buy) (r.market.offered .sell) p) :
    r.Weighed (r.considerClearing best p) ∧
      ((Preferred (r.market.offered .buy) (r.market.offered .sell) r.market.last p best.clearing ∧
          (r.considerClearing best p).clearing = p) ∨
        (¬ Preferred (r.market.offered .buy) (r.market.offered .sell) r.market.last p
          best.clearing ∧ (r.considerClearing best p).clearing = best.clearing)) := by
  rcases considerClearing_eq_weighed valid keyed fits best p with ⟨new, weighed', rfl, same⟩
  have near := distance_lt_iff (r := r) new.clearing best.clearing
  have better : (best.exec < new.exec ∨ (new.exec = best.exec ∧ 0 < new.exec ∧
      if new.imbalance ≠ best.imbalance then new.imbalance < best.imbalance
      else r.hasLast ∧ (new.clearing - r.last).natAbs < (best.clearing - r.last).natAbs)) ↔
      Preferred (r.market.offered .buy) (r.market.offered .sell) r.market.last new.clearing
        best.clearing := by
    rw [Preferred, near, ← weighed.exec, ← weighed.imbalance, ← weighed'.exec,
      ← weighed'.imbalance]
    rw [← weighed'.exec] at some
    simp only [UInt64.lt_iff_toNat_lt, ← UInt64.toNat_inj, ne_eq, UInt64.toNat_zero, some, true_and]
    by_cases same : new.imbalance.toNat = best.imbalance.toNat
    · simp [same]
    · simp [same]
  by_cases preferred : Preferred (r.market.offered .buy) (r.market.offered .sell) r.market.last
    new.clearing best.clearing
  · rw [same, if_pos (better.mpr preferred)]
    exact ⟨weighed', .inl ⟨preferred, rfl⟩⟩
  · rw [same, if_neg (mt better.mp preferred)]
    exact ⟨weighed, .inr ⟨preferred, rfl⟩⟩

/-- The scan of an overlap in which something trades at every price. -/
theorem findClearing_spec (overlap : lo ≤ hi)
    (some : ∀ p, lo ≤ p → p ≤ hi →
      0 < volume (r.market.offered .buy) (r.market.offered .sell) p) :
    Equilibrium (r.market.offered .buy) (r.market.offered .sell) r.market.last lo hi
        (r.findClearing lo hi).clearing ∧ (r.findClearing lo hi).exec ≠ 0 := by
  have scan (n : Nat) (inside : lo + n ≤ hi) :
      r.Weighed ((List.range (n + 1)).foldl
        (fun best (k : Nat) => r.considerClearing best (lo + k)) { clearing := lo }) ∧
      Equilibrium (r.market.offered .buy) (r.market.offered .sell) r.market.last lo (lo + n)
        ((List.range (n + 1)).foldl
          (fun best (k : Nat) => r.considerClearing best (lo + k))
          { clearing := lo }).clearing := by
    induction n with
    | zero =>
        have positive := some lo (Int.le_refl lo) overlap
        have first := considerClearing_first valid keyed fits
          (show ({ clearing := lo } : BestCross).exec = 0 from rfl) positive
        have only : (List.range (0 + 1)).foldl
            (fun best (k : Nat) => r.considerClearing best (lo + k)) { clearing := lo } =
              r.considerClearing { clearing := lo } lo := by simp
        rw [only, first.2, show lo + ((0 : Nat) : Int) = lo from Int.add_zero lo]
        exact ⟨first.1, equilibrium_self⟩
    | succ n induction =>
        rcases induction (by lia) with ⟨weighed, equilibrium⟩
        rw [List.range_succ, List.foldl_append, List.foldl_cons, List.foldl_nil]
        generalize (List.range (n + 1)).foldl
          (fun best (k : Nat) => r.considerClearing best (lo + k)) { clearing := lo } = best
            at weighed equilibrium ⊢
        have next : lo + ((n + 1 : Nat) : Int) = lo + n + 1 := by lia
        rw [next] at inside ⊢
        have considered := considerClearing_spec valid keyed fits weighed
          (some (lo + n + 1) (by lia) inside)
        rcases considered with ⟨weighed', ⟨preferred, same⟩ | ⟨worse, same⟩⟩ <;> rw [same]
        · exact ⟨weighed', equilibrium.change preferred⟩
        · exact ⟨weighed', equilibrium.keep worse⟩
  rcases scan (hi - lo).toNat (by lia) with ⟨weighed, equilibrium⟩
  have whole : (hi - lo).toNat + 1 = (hi - lo + 1).toNat := by lia
  have top : lo + ((hi - lo).toNat : Int) = hi := by lia
  rw [whole] at weighed equilibrium
  rw [top] at equilibrium
  refine ⟨equilibrium, fun none => ?_⟩
  have positive := some _ equilibrium.low equilibrium.high
  rw [← weighed.exec] at positive
  rw [ReferenceEngine.findClearing] at none
  rw [none] at positive
  exact absurd positive (Nat.lt_irrefl 0)

end clearing

end ReferenceEngine

theorem ReferenceEngine.Auctioned.halted {H : Type} [Handler H] {r r' : ReferenceEngine H}
    {crossed : Qty} (auctioned : r.Auctioned r' crossed) : r'.halted = r.halted := by
  cases auctioned with
  | still nothing => rfl
  | crossed bestBid bestAsk overlap some crossing => exact crossing.frame.halted

/-! ## The fast engine -/

namespace MatchingEngine

section views

variable {H : Type}

def offered (s : MatchingEngine H) (side : Side) (p : Price) : Nat :=
  ∑ px ∈ pricesBetween s.min (s.min + s.nLevels - 1) with side.Reaches px p,
    queueTotal (s.queue side.book px)

/-- All of a side. -/
def openQty (s : MatchingEngine H) (side : Side) : Nat :=
  ∑ px ∈ pricesBetween s.min (s.min + s.nLevels - 1), queueTotal (s.queue side.book px)

def lastTrade (s : MatchingEngine H) : Option Price := if s.hasLast then some s.lastPx else none

variable {s : MatchingEngine H} {m : Market}

theorem Shows.prices (shows : s.Shows m) :
    pricesBetween s.min (s.min + s.nLevels - 1) = pricesBetween m.min m.max := by
  have low := shows.min
  have high := shows.max
  rw [low] at high ⊢
  rw [high, Int.add_sub_cancel]

theorem Shows.offered_eq (shows : s.Shows m) (side : Side) : s.offered side = m.offered side := by
  funext p
  rw [offered, shows.prices]
  exact Finset.sum_congr rfl fun px _ => congrArg queueTotal (shows.levels side px)

theorem Shows.openQty_eq (shows : s.Shows m) (side : Side) : s.openQty side = m.openQty side := by
  rw [openQty, shows.prices]
  exact Finset.sum_congr rfl fun px _ => congrArg queueTotal (shows.levels side px)

end views

structure Uncrosses (s s' : MatchingEngine Tape) (crossed : Qty) (p : Price) : Prop where
  equilibrium : Equilibrium (s.offered .buy) (s.offered .sell) s.lastTrade s.bestAsk s.bestBid p
  priced : ∀ trade, .trade trade ∈ s'.h → trade.price = p
  bids : ∀ trade, .trade trade ∈ s'.h →
    ∃ px, p ≤ px ∧ ∃ o ∈ s.queue .bids px, o.id = trade.taker
  asks : ∀ trade, .trade trade ∈ s'.h →
    ∃ px, px ≤ p ∧ ∃ o ∈ s.queue .asks px, o.id = trade.maker
  printed : Market.printed s'.h = volume (s.offered .buy) (s.offered .sell) p
  answered : crossed.toNat = Market.printed s'.h
  uncrossed : s'.Uncrossed

section auctions

variable {H : Type} {band : Band} {s : MatchingEngine H} {r : ReferenceEngine H}

theorem Simulates.overlap (simulates : Simulates band s r) (overlaps : ¬ s.Uncrossed) :
    r.market.Best .buy s.bestBid ∧ r.market.Best .sell s.bestAsk ∧ s.bestAsk ≤ s.bestBid := by
  rcases simulates.tracks with ⟨cells, mirrors, -⟩
  have best := mirrors.hasBest_iff simulates.sound.keyed
  unfold MatchingEngine.Uncrossed at overlaps
  push Not at overlaps
  rcases overlaps with ⟨hasBid, hasAsk, overlap⟩
  exact ⟨(best .buy s.bestBid).mp ⟨hasBid, rfl⟩, (best .sell s.bestAsk).mp ⟨hasAsk, rfl⟩, overlap⟩

variable [Handler H]

/-- While the engine is halted an auction is all that a call of `uncross` does. -/
theorem Simulates.step_uncross_halted (simulates : Simulates band s r)
    (halted : s.halted = true) :
    ∃ s₁ r₁ crossed, s.body .uncross = some (s₁, .qty crossed) ∧
      s.step .uncross = some (s₁, .qty crossed) ∧ r.Auctioned r₁ crossed ∧
      Simulates band s₁ r₁ := by
  rcases simulates.doUncross with ⟨s₁, r₁, crossed, fast, auctioned, tracks, valid, keyed⟩
  have inCall : r₁.halted = true :=
    auctioned.halted.trans (simulates.shows.halted.symm.trans halted)
  have simulates₁ : Simulates band s₁ r₁ := ⟨tracks, valid, keyed, .inl inCall⟩
  have body : s.body .uncross = some (s₁, .qty crossed) := by
    rw [MatchingEngine.body, fast]
    rfl
  rcases tracks with ⟨cells, mirrors, idle, -⟩
  have quiet : { s₁ with pumping := true }.pumpStops = some { s₁ with pumping := true } :=
    pumpStops_quiet (.inl (mirrors.halted.trans inCall))
  refine ⟨s₁, r₁, crossed, body, ?_, auctioned, simulates₁⟩
  rw [step_eq, MatchingEngine.run, body]
  simp only [Option.bind_eq_bind, Option.bind_some, idle, Bool.false_eq_true, if_false, quiet]
  rw [← idle]

end auctions

section equilibrium

variable {band : Band} {s : MatchingEngine Tape} {r : ReferenceEngine Tape}

theorem Simulates.uncrosses (simulates : Simulates band s r) (halted : s.halted = true)
    (overlaps : ¬ s.Uncrossed) (fits : ∀ side, s.openQty side < 2 ^ 64) :
    ∃ s' crossed p, { s with h := [] }.step .uncross = some (s', .qty crossed) ∧
      s.Uncrosses s' crossed p := by
  rcases simulates.overlap overlaps with ⟨bestBid, bestAsk, overlap⟩
  have shows := simulates.shows
  have valid := simulates.sound.valid
  have keyed := simulates.sound.keyed
  simp only [shows.openQty_eq] at fits
  have some (p : Price) (low : s.bestAsk ≤ p) (high : p ≤ s.bestBid) :
      0 < volume (r.market.offered .buy) (r.market.offered .sell) p := by
    have bids : r.market.offered .buy p ≠ 0 :=
      valid.offered_ne_zero.mpr ⟨s.bestBid, bestBid.occupied, high⟩
    have asks : r.market.offered .sell p ≠ 0 :=
      valid.offered_ne_zero.mpr ⟨s.bestAsk, bestAsk.occupied, low⟩
    unfold volume
    omega
  rcases ReferenceEngine.findClearing_spec valid keyed fits overlap some with
    ⟨equilibrium, trades⟩
  rcases (simulates.rewind []).step_uncross_halted halted with
    ⟨s', r', crossed, -, step, auctioned, simulates'⟩
  refine ⟨s', crossed, (r.findClearing s.bestAsk s.bestBid).clearing, step, ?_⟩
  cases auctioned with
  | still nothing => exact absurd (nothing _ _ bestBid bestAsk overlap) trades
  | @crossed hi lo _ _ bestBid' bestAsk' overlap' some' crossing =>
      have sameBid : hi = s.bestBid := bestBid'.unique bestBid
      have sameAsk : lo = s.bestAsk := bestAsk'.unique bestAsk
      subst sameBid sameAsk
      rcases crossing.run with ⟨events, run, handled, sum⟩
      have inCall : r.market.halted = true := shows.halted.symm.trans halted
      have auctions := Run.auctions valid inCall run
      have tape : s'.h = events := simulates'.told handled
      have all := auctions.executes.volume_eq auctions.used
      constructor
      case equilibrium =>
          rw [shows.offered_eq, shows.offered_eq, lastTrade, shows.last]
          exact equilibrium
      case priced =>
          intro trade member
          rw [tape] at member
          exact (auctions.trades trade member).1
      case bids =>
          intro trade member
          rw [tape] at member
          rcases (auctions.trades trade member).2.1 with ⟨px, reaches, o, queued, same⟩
          exact ⟨px, reaches, o, (shows.levels .buy px) ▸ queued, same⟩
      case asks =>
          intro trade member
          rw [tape] at member
          rcases (auctions.trades trade member).2.2 with ⟨px, reaches, o, queued, same⟩
          exact ⟨px, reaches, o, (shows.levels .sell px) ▸ queued, same⟩
      case printed =>
          rw [tape, shows.offered_eq, shows.offered_eq]
          exact all
      case answered =>
          have most : Market.printed events ≤ r.market.openQty .buy := by
            rw [all]
            exact Nat.le_trans (Nat.min_le_left _ _) (r.market.offered_le .buy _)
          have sum : crossed = UInt64.ofNat (Market.printed events) := sum
          rw [tape, sum]
          exact UInt64.toNat_ofNat_of_lt' (Nat.lt_of_le_of_lt most (fits .buy))
      case uncrossed =>
          rw [simulates'.uncrossed_iff]
          intro bid ask hasBid hasAsk
          by_contra overlaps
          have crossed : ask ≤ bid := Int.not_lt.mp overlaps
          have valid' := simulates'.sound.valid
          have bids : r'.market.offered .buy bid ≠ 0 :=
            valid'.offered_ne_zero.mpr ⟨bid, hasBid, Int.le_refl bid⟩
          have asks : r'.market.offered .sell bid ≠ 0 :=
            valid'.offered_ne_zero.mpr ⟨ask, hasAsk, crossed⟩
          have stayed {side : Side} {px : Price} (occupied : r'.market.levels side px ≠ []) :
              r.market.levels side px ≠ [] := by
            rcases List.exists_mem_of_ne_nil _ occupied with ⟨o, member⟩
            rcases auctions.shrinks side px o member with ⟨before, old, -⟩
            exact List.ne_nil_of_mem old
          have low : s.bestAsk ≤ bid := Int.le_trans (bestAsk.least ask (stayed hasAsk)) crossed
          have high : bid ≤ s.bestBid := bestBid.least bid (stayed hasBid)
          rcases auctions.executes.cleared auctions.used equilibrium.most low high with none | none
          · exact bids none
          · exact asks none

theorem Simulates.uncross_flat (simulates : Simulates band s r) (uncrossed : s.Uncrossed) :
    s.step .uncross = some (s, .qty 0) := by
  have apart : s.best .buy < 0 ∨ s.best .sell < 0 ∨ s.best .buy < s.best .sell := by
    by_contra overlap
    push Not at overlap
    have below : s.min + s.best .buy < s.min + s.best .sell := uncrossed overlap.1 overlap.2.1
    lia
  have flat : s.doUncross = some (s, 0) := if_pos apart
  have step := simulates.run_refused (fun s => s.doUncross) [] flat
  rw [MatchingEngine.step, step]
  rfl

/-- After any run an auction of a halted engine clears its overlap at the equilibrium
price, and does nothing where there is none. -/
theorem runOps_uncrosses (band : Band) (expectedOrders : Nat) (ops : List Op) :
    ∃ s rets, (new band ([] : Tape) expectedOrders).runOps ops = some (s, rets) ∧
      (s.halted = true → ¬ s.Uncrossed → (∀ side, s.openQty side < 2 ^ 64) →
        ∃ s' crossed p, { s with h := [] }.step .uncross = some (s', .qty crossed) ∧
          s.Uncrosses s' crossed p) ∧
      (s.Uncrossed → s.step .uncross = some (s, .qty 0)) := by
  rcases (simulates_new band ([] : Tape) expectedOrders).runOps ops with
    ⟨s, r, rets, run, -, simulates⟩
  exact ⟨s, rets, run, simulates.uncrosses, simulates.uncross_flat⟩

/-- An iceberg of 9 that shows 2 is crossed in full, at the lowest of the two prices
that trade 9. -/
theorem runOps_uncrosses_iceberg :
    let band : Band := ⟨95, 105, by decide, by decide, by decide⟩
    let ops : List Op :=
      [.halt, .submitIceberg .buy 102 9 2 .gtc 0 .cancelTaker,
        .submitLimit .buy 100 4 .gtc 0 .cancelTaker, .submitLimit .sell 99 6 .gtc 0 .cancelTaker,
        .submitLimit .sell 101 5 .gtc 0 .cancelTaker]
    ∃ s rets, (new band ([] : Tape) 16).runOps ops = some (s, rets) ∧
      ∃ s' crossed p, { s with h := [] }.step .uncross = some (s', .qty crossed) ∧
        s.Uncrosses s' crossed p := by
  intro band ops
  rcases runOps_uncrosses band 16 ops with ⟨s, rets, run, clears, -⟩
  refine ⟨s, rets, run, ?_⟩
  rcases (simulates_new band ([] : Tape) 16).runOps ops with ⟨s₁, r, rets₁, fast, ref, simulates⟩
  rw [run] at fast
  cases fast
  have book : ((ReferenceEngine.new band ([] : Tape)).runOps ops).map (fun result =>
      let m := result.1.market
      (m.halted, (m.levels .buy 102).length, (m.levels .sell 99).length,
        m.openQty .buy, m.openQty .sell)) = some (true, 1, 1, 13, 11) := by
    decide +kernel
  simp only [ref, Option.map_some, Option.some_inj, Prod.mk.injEq] at book
  rcases book with ⟨halted, hasBid, hasAsk, bids, asks⟩
  have shows := simulates.shows
  apply clears (shows.halted.trans halted)
  · rw [simulates.uncrossed_iff]
    intro uncrossed
    have apart := uncrossed 102 99 (List.ne_nil_of_length_pos (by lia))
      (List.ne_nil_of_length_pos (by lia))
    exact absurd apart (by decide)
  · intro side
    rw [shows.openQty_eq]
    cases side with
    | buy => lia
    | sell => lia

end equilibrium

end MatchingEngine

end Matchbook
