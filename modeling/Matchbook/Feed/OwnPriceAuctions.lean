import Matchbook.Engine.Aggregates
import Matchbook.Engine.FillOrKill
import Matchbook.Feed.RebuiltRuns

namespace Matchbook

open Transitions

/-! # Auctions that renew their clips in place

An auction of the call phase misleads nobody if it clears at the price of every order
that has more in reserve. -/

namespace Market

variable {m m' : Market} {clearing : Price}

def ReservesAt (m : Market) (clearing : Price) : Prop :=
  ∀ side px, ∀ o ∈ m.levels side px, o.reserve ≠ 0 → px = clearing

theorem ReservesAt.of_backs (reserves : m.ReservesAt clearing) (backs : m.Backs m') :
    m'.ReservesAt clearing := by
  intro side px o' member reserve
  rcases backs side px o' member reserve with ⟨o, present, hidden⟩
  exact reserves side px o present hidden

structure InPlace (m : Market) : Prop where
  halted : m.halted = true
  clears : ∀ bpx apx, m.Best .buy bpx → m.Best .sell apx → apx ≤ bpx →
    m.ReservesAt (m.findClearing apx bpx).clearing

end Market

open Market

inductive CallPhase : Market × Phase → Prop
  | idle {m} (halted : m.halted = true) : CallPhase (m, .idle)
  | crossing {m clearing} (halted : m.halted = true) (reserves : m.ReservesAt clearing) :
      CallPhase (m, .crossing clearing)

section callPhase

variable {state next : Market × Phase} {events : List Event} {m : Market} {ret : Ret}

theorem Step.callPhase (step : Step state events next) (valid : ValidState state)
    (inCall : CallPhase state) : CallPhase next := by
  cases inCall with
  | idle halted =>
      cases step with
      | fire fires => exact absurd (fires.running.symm.trans halted) Bool.false_ne_true
  | crossing halted reserves =>
      cases step with
      | cross bestBid bestAsk bidHead askHead low high amount =>
          exact .crossing halted (reserves.of_backs (backs_cross valid.1 bidHead askHead amount))
      | crossed => exact .idle halted

theorem CallPhase.not_exposed (inCall : CallPhase state) (valid : ValidState state) :
    ¬ Exposed state := by
  intro exposed
  cases inCall with
  | idle => cases exposed
  | @crossing m clearing halted reserves =>
      have honest {m' : Market} {side : Side} {px : Price} {o : RO} {f : Qty}
          (misleads : m'.Misleads side px clearing o f) (same : m'.halted = m.halted)
          (member : o ∈ m.levels side px) (within : f ≤ o.total) : False := by
        rcases misleads with ⟨renews, elsewhere | ⟨running, -⟩⟩
        · have shape := valid.1.shape side px o member
          have hidden := reserve_of_consumed shape within (UInt64.pos_iff_ne_zero.mp renews.2)
          exact elsewhere (reserves side px o member hidden).symm
        · exact absurd ((running.symm.trans same).trans halted) Bool.false_ne_true
      cases exposed with
      | bid bestBid bestAsk bidHead askHead low high amount misleads =>
          exact honest misleads rfl (bidHead ▸ List.mem_cons_self) (le_total_of_min amount).1
      | ask bestBid bestAsk bidHead askHead low high amount misleads =>
          exact honest misleads rfl (askHead ▸ List.mem_cons_self) (le_total_of_min amount).2

theorem Market.Begin.callPhase (start : m.Begin .uncross events next ret)
    (inPlace : m.InPlace) : CallPhase next := by
  cases start with
  | flat => exact .idle inPlace.halted
  | @uncross clearing bpx apx crossed bestBid bestAsk low high some picked =>
      have reserves := inPlace.clears bpx apx bestBid bestAsk (Int.le_trans low high)
      exact .crossing inPlace.halted (picked ▸ reserves)
  | reject submit => cases submit
  | refuse entry => cases entry
  | enter entry => cases entry
  | trigger entry => cases entry
  | park entry => cases entry
  | decline target => cases target
  | cancel cancels => cases cancels
  | cancelStop cancels => cases cancels
  | erase reduces => cases reduces
  | reduce reduces => cases reduces

theorem Market.InPlace.shields (inPlace : m.InPlace) (valid : m.Valid) : m.Shields .uncross := by
  intro events next ret labels state start run
  have kept : ∀ state events next, ValidState state ∧ CallPhase state →
      Step state events next → ValidState next ∧ CallPhase next :=
    fun _ _ _ good step => ⟨step.valid good.1, step.callPhase good.1 good.2⟩
  have good := run.invariant kept ⟨start.valid valid, start.callPhase inPlace⟩
  exact good.2.not_exposed good.1

end callPhase

namespace MatchingEngine

variable {H : Type} {s : MatchingEngine H} {m : Market}

def clearingPrice (s : MatchingEngine H) : Price :=
  let lo := s.best .sell
  let n := (s.best .buy - lo + 1).toNat
  s.min + lo + ((List.range n).foldl (s.improveClearing lo n) {}).k

theorem Simulates.clearingPrice {band : Band} {r : ReferenceEngine H} {bpx apx : Price}
    (simulates : Simulates band s r) (bestBid : r.market.Best .buy bpx)
    (bestAsk : r.market.Best .sell apx) (overlap : apx ≤ bpx) :
    s.clearingPrice = (r.market.findClearing apx bpx).clearing := by
  rcases simulates.tracks with ⟨cells, mirrors, -⟩
  have keyed := simulates.sound.keyed
  have isBid : r.best .buy = some bpx := (ReferenceEngine.best_eq_some keyed).mpr bestBid
  have isAsk : r.best .sell = some apx := (ReferenceEngine.best_eq_some keyed).mpr bestAsk
  have bids := mirrors.best .buy
  have asks := mirrors.best .sell
  rw [isBid] at bids
  rw [isAsk] at asks
  have size : s.best .buy - s.best .sell + 1 = bpx - apx + 1 := by
    rw [bids, asks]
    simp only [indexOf]
    lia
  have low : s.min + s.best .sell = apx := by
    rw [asks, mirrors.fastMin]
    simp only [indexOf]
    lia
  rw [← ReferenceEngine.findClearing_market simulates.sound.valid keyed,
    mirrors.findClearing_eq isBid isAsk overlap, MatchingEngine.clearingPrice]
  simp only [size, low]
  rw [asks, indexOf]

structure RenewsInPlace (s : MatchingEngine H) : Prop where
  halted : s.halted = true
  reserves : ∀ side, ∀ px ∈ s.ladder side, ∀ o ∈ s.queue side.book px,
    o.reserve ≠ 0 → px = s.clearingPrice

theorem renewsInPlace_of (halted : s.halted = true)
    (all : ([.buy, .sell] : List Side).all fun side => (s.ladder side).all fun px =>
      (s.queue side.book px).all fun o => o.reserve = 0 ∨ px = s.clearingPrice) :
    s.RenewsInPlace where
  halted := halted
  reserves side px onLadder o queued reserve := by
    have both : side ∈ ([.buy, .sell] : List Side) := by cases side <;> decide
    have at_side := List.all_eq_true.mp (List.all_eq_true.mp all side both) px onLadder
    have clear := List.all_eq_true.mp at_side o queued
    rw [decide_eq_true_eq] at clear
    exact clear.resolve_left reserve

theorem Holds.inPlace (holds : s.Holds m) (inPlace : s.RenewsInPlace) : m.InPlace where
  halted := holds.shows.halted.symm.trans inPlace.halted
  clears bpx apx bestBid bestAsk overlap := by
    have shows := holds.shows
    have valid := holds.valid
    rcases holds with ⟨band, r, simulates, rfl⟩
    intro side px o member reserve
    have inside := valid.inside side px (List.ne_nil_of_mem member)
    have onLadder : px ∈ s.ladder side := by
      rw [shows.ladder_eq, mem_ladder]
      exact inside
    rw [← simulates.clearingPrice bestBid bestAsk overlap]
    exact inPlace.reserves side px onLadder o (shows.levels side px ▸ member) reserve

end MatchingEngine

end Matchbook
