import Matchbook.Engine.Journal
import Matchbook.Market.Origins

namespace Matchbook

open Transitions

/-! # Continuous trading never locks or crosses the book

An order only rests once the other side has nothing left within its limit. Only
a call phase can leave an overlap, and only `resume` can end a call phase. -/

namespace Market

def Uncrossed (m : Market) : Prop :=
  ∀ bid ask, m.levels .buy bid ≠ [] → m.levels .sell ask ≠ [] → bid < ask

variable {m m' : Market}

theorem Uncrossed.thin (uncrossed : m.Uncrossed) (thins : m.Thins m') : m'.Uncrossed :=
  fun bid ask hasBid hasAsk => uncrossed bid ask (thins .buy bid hasBid) (thins .sell ask hasAsk)

theorem Uncrossed.rest {t : Taker} {price : Price} {level : List RO} (uncrossed : m.Uncrossed)
    (clear : ∀ px, m.levels t.maker px ≠ [] → ¬ t.maker.Reaches px price) :
    (m.setLevel t.side price level).Uncrossed := by
  intro bid ask hasBid hasAsk
  rw [setLevel_levels] at hasBid hasAsk
  unfold Taker.maker at clear
  cases side : t.side with
  | buy =>
      rw [side] at clear hasBid hasAsk
      rw [if_neg (by simp)] at hasAsk
      split at hasBid
      · rename_i same
        rw [same.2]
        exact Int.not_le.mp (clear ask hasAsk)
      · exact uncrossed bid ask hasBid hasAsk
  | sell =>
      rw [side] at clear hasBid hasAsk
      rw [if_neg (by simp)] at hasBid
      split at hasAsk
      · rename_i same
        rw [same.2]
        exact Int.not_le.mp (clear bid hasBid)
      · exact uncrossed bid ask hasBid hasAsk

end Market

def Calm (m : Market) : Prop := m.halted = true ∨ m.Uncrossed

theorem Calm.thin {m m' : Market} (calm : Calm m) (halted : m'.halted = m.halted)
    (thins : m.Thins m') : Calm m' :=
  calm.imp (fun inCall => halted.trans inCall) fun uncrossed => uncrossed.thin thins

theorem Step.calm {state next : Market × Phase} {events : List Event}
    (valid : ValidState state) (calm : Calm state.1) (step : Step state events next) :
    Calm next.1 := by
  cases step with
  | fill meets other amount =>
      apply calm.thin
      · rfl
      exact Market.thins_setLevel _ (by simp [meets.head])
  | cancelMaker meets own policy =>
      apply calm.thin
      · rfl
      exact Market.thins_setLevel _ (by simp [meets.head])
  | cancelBoth meets own policy =>
      apply calm.thin
      · rfl
      exact Market.thins_setLevel _ (by simp [meets.head])
  | @rest m t price peak left blocked rests =>
      rcases calm with inCall | uncrossed
      · exact .inl inCall
      rcases blocked with inCall | clear
      · exact .inl inCall
      have limit := (valid.2.rests price peak rests).2
      rw [limit] at clear
      exact .inr (uncrossed.rest clear)
  | @cross m clearing bpx apx b a bids asks f bestBid bestAsk bidHead askHead _ _ amount =>
      apply calm.thin
      · rfl
      have bidThins := Market.thins_setLevel (consume clearing f (b :: bids)).1
        bestBid.occupied
      apply bidThins.trans
      apply Market.thins_setLevel
      rw [Market.setLevel_levels_side _ _ _ _ _ _ (by decide)]
      exact bestAsk.occupied
  | cancelTaker meets own policy => exact calm
  | killed announced => exact calm
  | stoppedMarket silent => exact calm
  | filled done => exact calm
  | cancelRemainder left blocked cancels => exact calm
  | discard left blocked discards => exact calm
  | fire next => exact calm
  | crossed apart => exact calm

theorem Market.Begin.calm {m : Market} {op : Op} {events : List Event} {next : Market × Phase}
    {ret : Ret} (calm : Calm m) (resumes : op = .resume → m.Uncrossed)
    (start : m.Begin op events next ret) : Calm next.1 := by
  cases start with
  | cancel cancels place =>
      apply calm.thin
      · rfl
      exact Market.thins_setLevel _ (by simp [place])
  | erase reduces place all =>
      apply calm.thin
      · rfl
      exact Market.thins_setLevel _ (by simp [place])
  | reduce reduces place some =>
      apply calm.thin
      · rfl
      exact Market.thins_setLevel _ (by simp [place])
  | replace place nonzero inside moved =>
      apply calm.thin
      · rfl
      exact Market.thins_setLevel _ (by simp [place])
  | halt => exact .inl rfl
  | resume => exact .inr (resumes rfl)
  | reject submit answer => exact calm
  | refuse entry temporary => exact calm
  | enter entry nonzero inside resting => exact calm
  | market running => exact calm
  | trigger entry nonzero inside limit running armed => exact calm
  | park entry nonzero inside limit waits => exact calm
  | decline target cancel => exact calm
  | cancelStop cancels place => exact calm
  | flat => exact calm
  | uncross bestBid bestAsk low high => exact calm

theorem Run.calm {state next : Market × Phase} {events : List Event}
    (run : Run Step state events next) (valid : ValidState state) (calm : Calm state.1) :
    Calm next.1 := by
  have kept : ∀ state events next, ValidState state ∧ Calm state.1 → Step state events next →
      ValidState next ∧ Calm next.1 :=
    fun _ _ _ good step => ⟨step.valid good.1, step.calm good.1 good.2⟩
  exact (run.invariant kept ⟨valid, calm⟩).2

theorem Market.Performs.calm {m m' : Market} {op : Op} {events : List Event} {ret : Ret}
    (valid : m.Valid) (calm : Calm m) (resumes : op = .resume → m.Uncrossed)
    (performs : m.Performs op events m' ret) : Calm m' := by
  cases performs with
  | intro start steps settled =>
      exact Run.calm steps (start.valid valid) (start.calm calm resumes)

/-! ## The engine -/

namespace MatchingEngine

variable {H : Type}

def Uncrossed (s : MatchingEngine H) : Prop := s.hasBid → s.hasAsk → s.bestBid < s.bestAsk

def ResumesUncrossed [Handler H] (s : MatchingEngine H) : List Op → Prop
  | [] => True
  | op :: ops => (op = .resume → s.Uncrossed) ∧
      ∀ s' ret, s.step op = some (s', ret) → s'.ResumesUncrossed ops

variable {band : Band} {s : MatchingEngine H} {r : ReferenceEngine H}

theorem Mirrors.hasBest_iff {min : Price} {nLevels : Nat} {cells : Cells}
    (mirrors : Mirrors min nLevels s cells r) (keyed : r.Keyed) (side : Side) (px : Price) :
    (s.hasBest side ∧ s.bestPrice side = px) ↔ r.market.Best side px := by
  rw [← ReferenceEngine.best_eq_some keyed, ← mirrors.best_eq side]
  by_cases set : s.hasBest side
  · rw [if_pos set, Option.some_inj]
    exact and_iff_right set
  · rw [if_neg set]
    simp [set]

theorem Simulates.uncrossed_iff (simulates : Simulates band s r) :
    s.Uncrossed ↔ r.market.Uncrossed := by
  rcases simulates.tracks with ⟨cells, mirrors, -⟩
  have keyed := simulates.sound.keyed
  have best := mirrors.hasBest_iff keyed
  have occupied {side : Side} {px : Price} (some : r.market.levels side px ≠ []) :
      ∃ top, r.market.Best side top ∧ side.Reaches top px := by
    cases found : r.best side with
    | none => exact absurd ((ReferenceEngine.best_eq_none keyed).mp found px) some
    | some top =>
        have isBest := (ReferenceEngine.best_eq_some keyed).mp found
        exact ⟨top, isBest, isBest.least px some⟩
  constructor
  · intro uncrossed bid ask hasBid hasAsk
    rcases occupied hasBid with ⟨topBid, bestBid, bidReaches⟩
    rcases occupied hasAsk with ⟨topAsk, bestAsk, askReaches⟩
    have bidSide := (best .buy topBid).mpr bestBid
    have askSide := (best .sell topAsk).mpr bestAsk
    have apart : s.bestPrice .buy < s.bestPrice .sell := uncrossed bidSide.1 askSide.1
    rw [bidSide.2, askSide.2] at apart
    exact Int.lt_of_le_of_lt bidReaches (Int.lt_of_lt_of_le apart askReaches)
  · intro uncrossed hasBid hasAsk
    have bestBid := (best .buy _).mp ⟨hasBid, rfl⟩
    have bestAsk := (best .sell _).mp ⟨hasAsk, rfl⟩
    exact uncrossed _ _ bestBid.occupied bestAsk.occupied

theorem Simulates.runOps_calm [Handler H] (simulates : Simulates band s r)
    (calm : Calm r.market) {ops : List Op} (resumes : s.ResumesUncrossed ops) :
    ∃ s' r' rets, s.runOps ops = some (s', rets) ∧ Simulates band s' r' ∧ Calm r'.market := by
  induction ops generalizing s r with
  | nil => exact ⟨s, r, [], rfl, simulates, calm⟩
  | cons op ops induction =>
      rcases simulates.step op with ⟨s₁, r₁, ret, fast, -, simulates₁, performed⟩
      rcases performed.performs with ⟨events, performs, -⟩
      have calm₁ := performs.calm simulates.sound.valid calm fun isResume =>
        simulates.uncrossed_iff.mp (resumes.1 isResume)
      rcases induction simulates₁ calm₁ (resumes.2 s₁ ret fast) with
        ⟨s', r', rets, fast', simulates', calm'⟩
      refine ⟨s', r', ret :: rets, ?_, simulates', calm'⟩
      simp only [MatchingEngine.runOps, fast, fast', Option.bind_eq_bind, Option.bind_some]

/-- No locked or crossed book in continuous trading, if `resume` is never called
on one. -/
theorem runOps_uncrossed [Handler H] (band : Band) (h : H) (expectedOrders : Nat)
    (ops : List Op) (resumes : (new band h expectedOrders).ResumesUncrossed ops) :
    ∃ s rets, (new band h expectedOrders).runOps ops = some (s, rets) ∧
      (s.halted = false → s.hasBid → s.hasAsk → s.bestBid < s.bestAsk) := by
  have start : Calm (ReferenceEngine.new band h).market := by
    rw [market_new]
    exact .inr fun _ _ hasBid => absurd rfl hasBid
  rcases (simulates_new band h expectedOrders).runOps_calm start resumes with
    ⟨s, r, rets, run, simulates, calm⟩
  refine ⟨s, rets, run, fun running => ?_⟩
  have halted : r.halted = false := simulates.shows.halted.symm.trans running
  rcases calm with inCall | uncrossed
  · have inCall : r.halted = true := inCall
    rw [halted] at inCall
    contradiction
  · exact simulates.uncrossed_iff.mpr uncrossed

end MatchingEngine

/-! The condition on a run is decided by the reference engine. -/

namespace ReferenceEngine

variable {H : Type}

def uncrossed (r : ReferenceEngine H) : Bool :=
  match r.bestBid, r.bestAsk with
  | some bid, some ask => bid < ask
  | _, _ => true

def resumesUncrossed [Handler H] (r : ReferenceEngine H) : List Op → Bool
  | [] => true
  | op :: ops => (op ≠ .resume || r.uncrossed) &&
      match r.step op with
      | some (r', _) => r'.resumesUncrossed ops
      | none => false

end ReferenceEngine

namespace MatchingEngine

variable {H : Type} {band : Band} {s : MatchingEngine H} {r : ReferenceEngine H}

theorem Simulates.uncrossed_of (simulates : Simulates band s r) (uncrossed : r.uncrossed = true) :
    s.Uncrossed := by
  rcases simulates.tracks with ⟨cells, mirrors, -⟩
  intro hasBid hasAsk
  have keyed := simulates.sound.keyed
  have bid : r.bestBid = some s.bestBid := (ReferenceEngine.best_eq_some keyed).mpr
    ((mirrors.hasBest_iff keyed .buy _).mp ⟨hasBid, rfl⟩)
  have ask : r.bestAsk = some s.bestAsk := (ReferenceEngine.best_eq_some keyed).mpr
    ((mirrors.hasBest_iff keyed .sell _).mp ⟨hasAsk, rfl⟩)
  rw [ReferenceEngine.uncrossed, bid, ask] at uncrossed
  exact of_decide_eq_true uncrossed

theorem Simulates.resumesUncrossed [Handler H] (simulates : Simulates band s r) {ops : List Op}
    (resumes : r.resumesUncrossed ops = true) : s.ResumesUncrossed ops := by
  induction ops generalizing s r with
  | nil => trivial
  | cons op ops induction =>
      rcases simulates.step op with ⟨s₁, r₁, ret, fast, ref, simulates₁, -⟩
      rw [ReferenceEngine.resumesUncrossed, ref, Bool.and_eq_true, Bool.or_eq_true] at resumes
      constructor
      · intro isResume
        exact simulates.uncrossed_of (resumes.1.resolve_left (by simp [isResume]))
      · intro s' ret' run
        rw [fast] at run
        cases run
        exact induction simulates₁ resumes.2

/-- A call phase whose overlap is crossed before trading resumes. -/
theorem runOps_uncrossed_auction :
    let band : Band := ⟨95, 105, by decide, by decide, by decide⟩
    let ops : List Op :=
      [.halt, .submitLimit .buy 101 5 .gtc 0 .cancelTaker,
        .submitLimit .sell 100 3 .gtc 0 .cancelTaker, .uncross, .resume,
        .submitLimit .sell 102 3 .gtc 0 .cancelTaker]
    ∃ s rets, (new band ([] : Tape) 16).runOps ops = some (s, rets) ∧
      (s.halted = false → s.hasBid → s.hasAsk → s.bestBid < s.bestAsk) := by
  intro band ops
  apply runOps_uncrossed
  apply (simulates_new band ([] : Tape) 16).resumesUncrossed
  decide +kernel

end MatchingEngine

end Matchbook
