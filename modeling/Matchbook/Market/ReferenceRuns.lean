import Mathlib.Data.Finset.Card
import Mathlib.Data.Finset.Range
import Matchbook.Market.Fills
import Matchbook.Market.Ladder
import Matchbook.Market.ReferenceSteps

namespace Matchbook

open BoundedLoop Transitions

/-! # The auction and whole operations of the reference engine -/

/-! ## The auction -/

theorem RO.Shape.consumed_total {o : RO} (shape : o.Shape) :
    (o.consumed o.total).qty = 0 ∧ (o.consumed o.total).reserve = 0 := by
  have total := shape.total_toNat
  have qty := shape.consumed_qty (f := o.total)
  have reserve := shape.consumed_reserve (UInt64.le_refl o.total)
  constructor <;> rw [← UInt64.toNat_inj, UInt64.toNat_zero] <;> omega

namespace Market

open Classical in
noncomputable def openIds (m : Market) : Finset OrderId :=
  (Finset.range m.nextId).filter m.IsOpen

theorem Valid.mem_openIds {m : Market} (valid : m.Valid) {id : OrderId} :
    id ∈ m.openIds ↔ m.IsOpen id := by
  simp only [openIds, Finset.mem_filter, Finset.mem_range, and_iff_right_iff_imp]
  exact fun isOpen => (valid.issued id isOpen).2

theorem card_openIds_le (m : Market) : m.openIds.card ≤ m.nextId := by
  classical
  have sub : m.openIds ⊆ Finset.range m.nextId := fun id member =>
    (Finset.mem_filter.mp member).1
  simpa using Finset.card_le_card sub

theorem Valid.cross_lt {m m' : Market} {phase : Phase} {clearing : Price}
    {events : List Event} (valid : m.Valid)
    (step : Step (m, .crossing clearing) events (m', phase)) (going : phase ≠ .idle) :
    m'.openIds.card < m.openIds.card := by
  have start : ValidState (m, .crossing clearing) := ⟨valid, trivial⟩
  have next : m'.Valid := (step.valid start).1
  cases step with
  | crossed => exact absurd rfl going
  | @cross _ _ bpx apx b a bids asks f bestBid bestAsk bidHead askHead _ _ amount =>
      have askHead' : (m.setLevel .buy bpx (consume clearing f (b :: bids)).1).levels
          .sell apx = a :: asks := by
        rw [setLevel_levels_side _ _ _ _ _ _ (by decide), askHead]
      have bidShape := valid.shape .buy bpx b (by simp [bidHead])
      have askShape := valid.shape .sell apx a (by simp [askHead])
      apply Finset.card_lt_card
      refine Finset.ssubset_iff_subset_ne.mpr ⟨fun id member => ?_, fun same => ?_⟩
      · rw [next.mem_openIds] at member
        rw [valid.mem_openIds]
        exact isOpen_consume bidHead (isOpen_consume askHead' member)
      · by_cases bidSmaller : b.total < a.total
        · have all : f = b.total := by simpa [bidSmaller] using amount
          have gone : consume clearing f (b :: bids) = (bids, []) := by
            simp [consume, all, bidShape.consumed_total]
          have isOpen : m.IsOpen b.id :=
            isOpen_of_mem (show b ∈ m.levels .buy bpx by simp [bidHead])
          rw [← valid.mem_openIds, ← same, next.mem_openIds] at isOpen
          have after := isOpen_consume askHead' isOpen
          rw [gone] at after
          exact valid.not_isOpen_remove (show m.levels .buy bpx = [] ++ b :: bids from bidHead)
            after
        · have all : f = a.total := by simpa [bidSmaller] using amount
          have gone : consume clearing f (a :: asks) = (asks, []) := by
            simp [consume, all, askShape.consumed_total]
          have isOpen : m.IsOpen a.id :=
            isOpen_of_mem (show a ∈ m.levels .sell apx by simp [askHead])
          rw [← valid.mem_openIds, ← same, next.mem_openIds] at isOpen
          have within : f ≤ b.total := (le_total_of_min amount).1
          have bidsValid := valid.fillHead clearing bidHead within
          rw [gone] at isOpen
          exact bidsValid.not_isOpen_remove
            (show Market.levels _ .sell apx = [] ++ a :: asks from askHead') isOpen

end Market

namespace ReferenceEngine

variable {H : Type} [Handler H]

theorem crossConsume_eq {r : ReferenceEngine H} {side : Side}
    {bookPx px : Price} {f : Qty} {o : RO} {rest : List RO}
    (head : r.level side bookPx = o :: rest) : r.crossConsume side bookPx f px =
      if (o.consumed f).qty = 0 ∧ 0 < (o.consumed f).reserve then
        (r.emit (.rest o.id o.side px (o.consumed f).clip)).setLevel side bookPx
          (rest ++ [(o.consumed f).replenished])
      else if (o.consumed f).qty = 0 then r.setLevel side bookPx rest
      else r.setLevel side bookPx (o.consumed f :: rest) := by
  simp only [crossConsume, head]
  rfl

theorem crossConsume_spec {r : ReferenceEngine H} {side : Side} {bookPx : Price} (px : Price)
    (f : Qty) {o : RO} {rest : List RO} (head : r.level side bookPx = o :: rest)
    (keyed : r.Keyed) :
    ∃ r', (r.crossConsume side bookPx f px).eraseIfEmpty side bookPx = r' ∧
      r'.market = r.market.setLevel side bookPx (consume px f (o :: rest)).1 ∧
      r'.h = Handler.onAll r.h (consume px f (o :: rest)).2 ∧ r.Frame r' ∧ r'.Keyed ∧
      r'.hasLast = r.hasLast ∧ r'.last = r.last := by
  have consumed : ∃ r', r.crossConsume side bookPx f px =
      r'.setLevel side bookPx (consume px f (o :: rest)).1 ∧ r'.market = r.market ∧
      r'.h = Handler.onAll r.h (consume px f (o :: rest)).2 ∧ r.Frame r' ∧
      r'.book = r.book ∧ r'.hasLast = r.hasLast ∧ r'.last = r.last := by
    rw [crossConsume_eq head]
    rcases consume_cases px f o rest with ⟨out, equal⟩ | ⟨out, hidden, equal⟩ |
      ⟨out, hidden, equal⟩
    · simp only [equal, out, false_and, if_false]
      exact ⟨r, rfl, rfl, rfl, .refl r, rfl, rfl, rfl⟩
    · simp only [equal, out, hidden, UInt64.lt_irrefl, and_false, if_true, if_false]
      exact ⟨r, rfl, rfl, rfl, .refl r, rfl, rfl, rfl⟩
    · simp only [equal, out, hidden, and_self, if_true]
      exact ⟨r.emit _, rfl, rfl, rfl, ⟨rfl, rfl, rfl, rfl, rfl⟩, rfl, rfl, rfl⟩
  rcases consumed with ⟨r', equal, market, handled, frame, book, hasLast, last⟩
  have keyed' : r'.Keyed := by
    intro s p
    rw [ReferenceEngine.level, book]
    exact keyed s p
  have present : bookPx ∈ r'.book side := by
    rw [book, keyed, head]
    simp
  rw [equal]
  refine ⟨_, rfl, ?_, ?_, ?_, ?_, ?_, ?_⟩
  · rw [eraseIfEmpty_market, setLevel_market, market]
  · rw [eraseIfEmpty_h, setLevel_h, handled]
  · exact (frame.trans (.setLevel _ _ _ _)).trans (.eraseIfEmpty _ _ _)
  · refine keyed_eraseIfEmpty _ _ _ ?_ fun s p other => ?_
    · rw [mem_setLevel]
      exact .inl ⟨rfl, rfl⟩
    · rw [mem_setLevel, level_setLevel, keyed', if_neg other]
      grind
  all_goals
    unfold eraseIfEmpty
    split
  · exact hasLast
  · exact hasLast
  · exact last
  · exact last

structure Crossing (r : ReferenceEngine H) (clearing : Price)
    (state : ReferenceEngine H × Qty) (phase : Phase) : Prop where
  run : ∃ events, Run Step (r.market, .crossing clearing) events (state.1.market, phase) ∧
    state.1.h = Handler.onAll r.h events ∧ state.2 = UInt64.ofNat (Market.printed events)
  frame : r.Frame state.1
  keyed : state.1.Keyed

theorem Crossing.refl (r : ReferenceEngine H) (clearing : Price) (keyed : r.Keyed) :
    r.Crossing clearing (r, 0) (.crossing clearing) :=
  ⟨⟨[], .refl, rfl, rfl⟩, .refl r, keyed⟩

theorem Crossing.took {r : ReferenceEngine H} {clearing : Price}
    {state : ReferenceEngine H × Qty} {phase : Phase} (crossing : r.Crossing clearing state phase) :
    r.Took (.crossing clearing) state.1 phase := by
  rcases crossing.run with ⟨events, run, handled, -⟩
  exact ⟨events, run, handled⟩

/-- One more step of the auction. -/
theorem Crossing.step {r r' next : ReferenceEngine H} {clearing : Price} {crossed f : Qty}
    {phase : Phase} {events : List Event}
    (crossing : r.Crossing clearing (r', crossed) (.crossing clearing))
    (step : Step (r'.market, .crossing clearing) events (next.market, phase))
    (handled : next.h = Handler.onAll r'.h events) (frame : r'.Frame next) (keyed : next.Keyed)
    (amount : Market.printed events = f.toNat) :
    r.Crossing clearing (next, crossed + f) phase := by
  rcases crossing.run with ⟨before, run, handled', sum⟩
  refine ⟨⟨before ++ events, run.snoc step, ?_, ?_⟩, crossing.frame.trans frame, keyed⟩
  · rw [handled, handled', Handler.onAll_append]
  · have sum : crossed = UInt64.ofNat (Market.printed before) := sum
    rw [Market.printed, Market.tally_append, UInt64.ofNat_add]
    show crossed + f = UInt64.ofNat (Market.printed before) + UInt64.ofNat (Market.printed events)
    rw [amount, UInt64.ofNat_toNat, ← sum]

theorem crossRound_spec {r r' : ReferenceEngine H} {clearing : Price} {crossed : Qty}
    (valid : r'.market.Valid) (crossing : r.Crossing clearing (r', crossed) (.crossing clearing)) :
    (∃ next, crossRound clearing (r', crossed) = some (.again next) ∧
      r.Crossing clearing next (.crossing clearing) ∧
      next.1.market.openIds.card < r'.market.openIds.card) ∨
    (∃ result, crossRound clearing (r', crossed) = some (.leave result) ∧
      r.Crossing clearing result .idle) := by
  have stop : (∀ bpx apx, r'.market.Best .buy bpx → r'.market.Best .sell apx →
      ¬ (clearing ≤ bpx ∧ apx ≤ clearing)) → r.Crossing clearing (r', crossed) .idle := by
    intro apart
    have same := crossing.step (f := 0) (.crossed apart) rfl (.refl r') crossing.keyed rfl
    rw [UInt64.add_zero] at same
    exact same
  have bids (px : Price) : r'.bestBid = some px ↔ r'.market.Best .buy px :=
    show r'.best .buy = some px ↔ _ from best_eq_some crossing.keyed
  have asks (px : Price) : r'.bestAsk = some px ↔ r'.market.Best .sell px :=
    show r'.best .sell = some px ↔ _ from best_eq_some crossing.keyed
  cases bestBid : r'.bestBid with
  | none =>
      refine .inr ⟨(r', crossed), by simp [crossRound, bestBid], stop fun bpx apx isBid => ?_⟩
      rw [← bids, bestBid] at isBid
      contradiction
  | some bpx =>
      cases bestAsk : r'.bestAsk with
      | none =>
          refine .inr ⟨(r', crossed), by simp [crossRound, bestBid, bestAsk],
            stop fun bpx apx _ isAsk => ?_⟩
          rw [← asks, bestAsk] at isAsk
          contradiction
      | some apx =>
          by_cases overlap : clearing ≤ bpx ∧ apx ≤ clearing
          · have isBid := (bids bpx).mp bestBid
            have isAsk := (asks apx).mp bestAsk
            rcases List.exists_cons_of_ne_nil isBid.occupied with ⟨b, restBids, bidHead⟩
            rcases List.exists_cons_of_ne_nil isAsk.occupied with ⟨a, restAsks, askHead⟩
            have bidHead' : r'.level .buy bpx = b :: restBids := bidHead
            have askHead' : r'.level .sell apx = a :: restAsks := askHead
            generalize amount : (if b.total < a.total then b.total else a.total) = f
            let r₁ := (r'.setLast clearing).emit (.trade ⟨b.id, a.id, clearing, f, .buy⟩)
            rcases crossConsume_spec (r := r₁) clearing f bidHead' crossing.keyed with
              ⟨r₂, run₂, market₂, handled₂, frame₂, keyed₂, hasLast₂, last₂⟩
            have askHead₂ : r₂.level .sell apx = a :: restAsks := by
              have := congrArg (fun m => m.levels .sell apx) market₂
              simp only [Market.setLevel_levels_side _ _ _ _ _ _ (show Side.sell ≠ .buy by decide)]
                at this
              exact this.trans askHead'
            rcases crossConsume_spec (r := r₂) clearing f askHead₂ keyed₂ with
              ⟨r₃, run₃, market₃, handled₃, frame₃, keyed₃, hasLast₃, last₃⟩
            have round : crossRound clearing (r', crossed) = some (.again (r₃, crossed + f)) := by
              simp only [crossRound, bestBid, bestAsk, overlap, and_self, if_true, bidHead',
                askHead']
              simp only [show b.qty + b.reserve = b.total from rfl,
                show a.qty + a.reserve = a.total from rfl, amount]
              rw [show (r'.setLast clearing).emit (.trade ⟨b.id, a.id, clearing, f, .buy⟩) = r₁
                from rfl, run₂, run₃]
            have taken := Step.cross isBid isAsk bidHead askHead overlap.1 overlap.2
              amount.symm
            have final : r₃.market = { (r'.market.setLevel .buy bpx
                (consume clearing f (b :: restBids)).1).setLevel .sell apx
                (consume clearing f (a :: restAsks)).1 with last := some clearing } := by
              rw [market₃, market₂]
              rfl
            rw [← final] at taken
            have frame₁ : r'.Frame r₁ := ⟨rfl, rfl, rfl, rfl, rfl⟩
            refine .inl ⟨(r₃, crossed + f), round, crossing.step taken ?_
              ((frame₁.trans frame₂).trans frame₃) keyed₃ ?_, valid.cross_lt taken (by simp)⟩
            · rw [handled₃, handled₂, ← Handler.onAll_append]
              rfl
            · rw [Market.printed, Market.tally_trade, Market.tally_append, Market.tally_consume,
                Market.tally_consume]
              rfl
          · refine .inr ⟨(r', crossed), by simp [crossRound, bestBid, bestAsk, overlap],
              stop fun bpx' apx' isBid isAsk => ?_⟩
            rw [← bids, bestBid] at isBid
            rw [← asks, bestAsk] at isAsk
            cases isBid
            cases isAsk
            exact overlap

omit [Handler H] in
theorem considerClearing_eq (r : ReferenceEngine H) (best : BestCross) (p : Price) :
    (r.considerClearing best p).clearing = best.clearing ∨
      (r.considerClearing best p).clearing = p := by
  unfold considerClearing
  exact iteInduction
    (motive := fun new : BestCross => new.clearing = best.clearing ∨ new.clearing = p)
    (fun _ => .inr rfl) fun _ => .inl rfl

omit [Handler H] in
theorem findClearing_mem (r : ReferenceEngine H) {lo hi : Price} (overlap : lo ≤ hi) :
    lo ≤ (r.findClearing lo hi).clearing ∧ (r.findClearing lo hi).clearing ≤ hi := by
  have inside : ∀ (candidates : List Nat) (best : BestCross),
      (∀ k ∈ candidates, k < (hi - lo + 1).toNat) → lo ≤ best.clearing ∧ best.clearing ≤ hi →
      lo ≤ (candidates.foldl (fun best (k : Nat) =>
        r.considerClearing best (lo + k)) best).clearing ∧
      (candidates.foldl (fun best (k : Nat) => r.considerClearing best (lo + k)) best).clearing ≤
        hi := by
    intro candidates
    induction candidates with
    | nil => exact fun best _ bounds => bounds
    | cons k candidates induction =>
        intro best small bounds
        refine induction _ (fun other member => small other (List.mem_cons_of_mem k member)) ?_
        have offset := small k List.mem_cons_self
        rcases r.considerClearing_eq best (lo + k) with same | same <;> rw [same]
        · exact bounds
        · constructor <;> lia
  exact inside _ _ (fun k member => List.mem_range.mp member) ⟨Int.le_refl lo, overlap⟩

/-! ## Whole operations -/

structure Performed (r : ReferenceEngine H) (op : Op) (r' : ReferenceEngine H) (ret : Ret) :
    Prop where
  performs : ∃ events, r.market.Performs op events r'.market ret ∧
    r'.h = Handler.onAll r.h events
  keyed : r'.Keyed

section finishing

variable {r q r₂ : ReferenceEngine H} {op : Op} {ret : Ret} {events : List Event}
  {phase : Phase}

theorem performed_of_settled (start : r.market.Begin op events (q.market, phase) ret)
    (handled : q.h = Handler.onAll r.h events) (took : q.Took phase r₂ .idle)
    (keyed : r₂.Keyed) (settled : r₂.market.Settled)
    (answers : ∀ all, r.market.Answers all op ret) : r.Performed op r₂ ret := by
  rcases took with ⟨more, run, handled'⟩
  exact ⟨⟨_, .intro start run settled (answers _),
    by rw [handled', handled, Handler.onAll_append]⟩, keyed⟩

/-- An operation that begins, goes on, and ends with the trigger pump. -/
theorem performed_of_pump (start : r.market.Begin op events (q.market, phase) ret)
    (handled : q.h = Handler.onAll r.h events) (took : q.Took phase r₂ .idle)
    (valid : ValidState (q.market, phase)) (keyed : r₂.Keyed)
    (answers : ∀ all, r.market.Answers all op ret) :
    ∃ r₃, r₂.pump = some r₃ ∧ r.Performed op r₃ ret := by
  rcases pump_spec (took.valid valid).1 keyed with ⟨r₃, run, pumped⟩
  exact ⟨r₃, run, performed_of_settled start handled (took.trans pumped.took) pumped.keyed
    pumped.settled answers⟩

end finishing

variable {r : ReferenceEngine H}

theorem reject_spec (keyed : r.Keyed) (settled : r.market.Settled) {op : Op}
    (submit : op.IsSubmit) (bad : r.market.Rejects op) :
    r.Performed op (r.emit (.reject invalidOrderId)) op.rejection := by
  have start : r.market.Begin op [.reject invalidOrderId]
      ((r.emit (.reject invalidOrderId)).market, .idle) op.rejection :=
    .reject submit rfl bad
  refine performed_of_settled start rfl (.refl _ _) keyed settled fun all => ?_
  cases op with
  | submitMarket side qty owner stp =>
      intro running
      have halted : r.market.halted = true := bad
      rw [running] at halted
      contradiction
  | _ => trivial

abbrev accepted (r : ReferenceEngine H) (side : Side) (price : Price) (qty : Qty) :
    ReferenceEngine H :=
  { r with nextId := r.nextId + 1 }.emit (.accept r.nextId side price qty)

theorem enter_eq (r : ReferenceEngine H) (side : Side) (price : Price) (qty : Qty)
    (tif : TimeInForce) (owner : OwnerId) (stp : StpPolicy) (peak : Qty) :
    r.enter side price qty tif owner stp peak =
      let id := r.nextId
      let r₁ := r.accepted side price qty
      if r.halted then
        if tif ≠ .gtc then some (r₁.emit (.cancel id), id)
        else some (r₁.restShaped id side price qty peak owner stp, id)
      else if tif = .fok ∧ r₁.fillable side price qty < qty then
        some (r₁.emit (.cancel id), id)
      else if tif = .postOnly ∧ r₁.wouldCross side price then
        some (r₁.emit (.cancel id), id)
      else (r₁.place id side price qty tif owner stp peak).bind fun r =>
        r.pump.bind fun r => some (r, id) :=
  rfl

theorem enter_spec (valid : r.market.Valid) (keyed : r.Keyed) (settled : r.market.Settled)
    {op : Op} {side : Side} {price : Price} {qty : Qty} {tif : TimeInForce} {owner : OwnerId}
    {stp : StpPolicy} {peak : Qty} (entry : op.Limit side price qty tif owner stp peak)
    (inside : r.inBand price) (nonzero : qty ≠ 0) :
    ∃ r' id, r.enter side price qty tif owner stp peak = some (r', id) ∧
      r.Performed op r' (.id id) := by
  rw [enter_eq]
  let r₁ := r.accepted side price qty
  have answers (ret : Ret) : ∀ all, r.market.Answers all op ret := by
    intro all
    cases entry <;> trivial
  have fillable : r₁.fillable side price qty = r.market.fillable side price qty :=
    fillable_market (r := r₁) valid.issue keyed side price qty
  have wouldCross : r₁.wouldCross side price ↔ r.market.WouldCross side price :=
    wouldCross_market (r := r₁) keyed side price
  have refused (temporary : tif ≠ .gtc) (kills : r.market.Refuses side price qty tif) :
      r.Performed op (r₁.emit (.cancel r.nextId)) (.id r.nextId) :=
    performed_of_settled (q := r₁.emit (.cancel r.nextId))
      (.refuse entry temporary nonzero inside kills) rfl (.refl _ _) keyed settled (answers _)
  have start (admitted : ¬ r.market.Refuses side price qty tif) :=
    Market.Begin.enter (m := r.market) entry nonzero inside admitted
  by_cases halted : r.halted = true
  · by_cases isGtc : tif = .gtc
    · let t := Taker.ofLimit r.nextId side price qty tif owner stp peak
      have rests : t.remainder = .rest price peak := by simp [t, Taker.ofLimit, isGtc]
      have placed := restShaped_placed (r := r₁) (t := t) keyed nonzero (.inl halted) rests
      refine ⟨_, r.nextId, ?_, performed_of_settled (q := r₁) (start (by simp [isGtc,
        Market.Refuses])) rfl placed.took placed.keyed
        (.inl (placed.frame.halted.trans halted)) (answers _)⟩
      rw [if_pos halted, if_neg (not_not.mpr isGtc)]
      rfl
    · have kills : r.market.Refuses side price qty tif := by
        cases tif with
        | gtc => exact absurd rfl isGtc
        | ioc => exact halted
        | fok => exact .inl halted
        | postOnly => exact .inl halted
      refine ⟨_, r.nextId, ?_, refused isGtc kills⟩
      rw [if_pos halted, if_pos isGtc]
  · rw [if_neg halted]
    by_cases killed : tif = .fok ∧ r₁.fillable side price qty < qty
    · refine ⟨_, _, if_pos killed, refused (by simp [killed.1]) ?_⟩
      rw [killed.1]
      exact .inr (fillable ▸ killed.2)
    rw [if_neg killed]
    by_cases crosses : tif = .postOnly ∧ r₁.wouldCross side price
    · refine ⟨_, _, if_pos crosses, refused (by simp [crosses.1]) ?_⟩
      rw [crosses.1]
      exact .inr (wouldCross.mp crosses.2)
    rw [if_neg crosses]
    have admitted : ¬ r.market.Refuses side price qty tif := by
      cases tif with
      | gtc => exact not_false
      | ioc => exact halted
      | fok =>
          rintro (isHalted | short)
          · exact halted isHalted
          · exact killed ⟨rfl, fillable ▸ short⟩
      | postOnly =>
          rintro (isHalted | crossing)
          · exact halted isHalted
          · exact crosses ⟨rfl, wouldCross.mpr crossing⟩
    have start := start admitted
    have valid₁ := start.valid valid
    obtain ⟨r₂, run, placed⟩ : ∃ r₂,
        r₁.place r.nextId side price qty tif owner stp peak = some r₂ ∧
          r₁.Placed (.ofLimit r.nextId side price qty tif owner stp peak) r₂ :=
      place_spec valid₁ keyed fun isHalted => absurd isHalted halted
    rcases performed_of_pump (q := r₁) start rfl placed.took valid₁ placed.keyed (answers _) with
      ⟨r₃, run', performed⟩
    refine ⟨r₃, r.nextId, ?_, performed⟩
    simp only [show r.accepted side price qty = r₁ from rfl, run, run', Option.bind_some]

theorem submitLimit_spec (valid : r.market.Valid) (keyed : r.Keyed)
    (settled : r.market.Settled) (side : Side) (price : Price) (qty : Qty)
    (tif : TimeInForce) (owner : OwnerId) (stp : StpPolicy) :
    ∃ r' id, r.submitLimit side price qty tif owner stp = some (r', id) ∧
      r.Performed (.submitLimit side price qty tif owner stp) r' (.id id) := by
  unfold submitLimit
  split
  · rename_i bad
    exact ⟨_, _, rfl, reject_spec keyed settled
      (show Op.IsSubmit (.submitLimit ..) from trivial) bad⟩
  · rename_i accepted
    obtain ⟨inside, nonzero⟩ : r.inBand price ∧ qty ≠ 0 := by simpa using accepted
    exact enter_spec valid keyed settled .limit inside nonzero

theorem submitIceberg_spec (valid : r.market.Valid) (keyed : r.Keyed)
    (settled : r.market.Settled) (side : Side) (price : Price) (totalQty display : Qty)
    (tif : TimeInForce) (owner : OwnerId) (stp : StpPolicy) :
    ∃ r' id, r.submitIceberg side price totalQty display tif owner stp = some (r', id) ∧
      r.Performed (.submitIceberg side price totalQty display tif owner stp) r' (.id id) := by
  unfold submitIceberg
  split
  · rename_i bad
    exact ⟨_, _, rfl, reject_spec keyed settled (show Op.IsSubmit (.submitIceberg ..) from trivial)
      bad⟩
  · rename_i accepted
    obtain ⟨inside, nonzero, shown⟩ : r.inBand price ∧ totalQty ≠ 0 ∧ display ≠ 0 := by
      simpa using accepted
    exact enter_spec valid keyed settled (.iceberg shown) inside nonzero

theorem submitMarket_spec (valid : r.market.Valid) (keyed : r.Keyed)
    (settled : r.market.Settled) (side : Side) (qty : Qty) (owner : OwnerId)
    (stp : StpPolicy) :
    ∃ r' left, r.submitMarket side qty owner stp = some (r', left) ∧
      r.Performed (.submitMarket side qty owner stp) r' (.qty left) := by
  unfold submitMarket
  by_cases halted : r.halted = true
  · rw [if_pos halted]
    exact ⟨_, _, rfl, reject_spec keyed settled (show Op.IsSubmit (.submitMarket ..) from trivial)
      halted⟩
  · rw [if_neg halted]
    have running : r.halted = false := by simpa using halted
    let r₁ := r.accepted side 0 qty
    let t := Taker.ofMarket r.nextId side qty owner stp
    have start (left : Qty) : r.market.Begin (.submitMarket side qty owner stp)
        [.accept r.nextId side 0 qty] (r₁.market, .taking t) (.qty left) := .market running
    have valid₁ := (start 0).valid valid
    rcases match_spec (r := r₁) valid₁ keyed running with ⟨⟨r₂, left, haltFlag⟩, run, matched⟩
    have taken := matched.discard rfl
    rcases matched.1.took with ⟨events, sweep, handled⟩
    have toIdle := sweep.snoc taken
    have valid₂ := (Run.valid toIdle valid₁).1
    rcases pump_spec valid₂ matched.1.keyed with
      ⟨r₃, run', ⟨more, pumping, handled'⟩, keyed', settled'⟩
    have parked : ∀ o ∈ r.market.stops, o.id ≠ r.nextId := by
      intro o member same
      have isOpen := Market.isOpen_of_stop member
      rw [same] at isOpen
      exact valid.fresh isOpen
    have swept : qty.toNat = left.toNat + Market.filled r.nextId events := by
      cases haltFlag
      · exact Run.filled_taking sweep parked (.inl rfl) rfl
      · exact Run.filled_taking sweep parked (.inr rfl) rfl
    have stops : r₂.market.stops = r.market.stops := matched.1.frame.stops
    have passive : Passive r.nextId (r₂.market, .idle) := by
      refine ⟨fun o member => parked o (stops ▸ member), fun t' taking => ?_, fun _ same => ?_⟩
      · rcases taking with same | same <;> cases same
      · cases same
    refine ⟨r₃, left, ?_, ⟨_, .intro (start left) (toIdle.trans pumping) settled' ?_, ?_⟩, keyed'⟩
    · show (r₁.matchOrder t.id t.side t.qty t.limit t.owner t.stp).bind _ = _
      rw [run]
      show r₂.pump.bind _ = _
      rw [run']
      rfl
    · intro _
      refine ⟨left, rfl, ?_⟩
      have silent : Market.filled r.market.nextId more = 0 := Run.passive pumping passive
      rw [List.append_nil, Market.filled, Market.tally_append]
      exact swept.trans (congrArg (left.toNat + ·) (congrArg (_ + ·) silent).symm)
    · rw [handled', handled, Handler.onAll_append, Handler.onAll_append, Handler.onAll_append]
      rfl

theorem doStop_spec (valid : r.market.Valid) (keyed : r.Keyed) (settled : r.market.Settled)
    {op : Op} {o : RO} (submit : op.IsSubmit) (entry : op.Stop r.nextId o) :
    ∃ r' id, r.doStop o.side o.price o.stopLimit o.qty o.stopMarket o.owner o.stp =
        some (r', id) ∧ r.Performed op r' (.id id) := by
  unfold doStop
  by_cases rejected : ¬ r.inBand o.price ∨ o.qty = 0 ∨
      (¬ o.stopMarket = true ∧ ¬ r.inBand o.stopLimit)
  · rw [if_pos rejected]
    have bad : r.market.Rejects op := by
      cases entry with
      | market => exact rejected.imp id fun rest => rest.elim id fun none => absurd rfl none.1
      | limit => exact rejected.imp id fun rest => rest.imp id And.right
    have answer : op.rejection = .id invalidOrderId := by cases entry <;> rfl
    exact ⟨_, _, rfl, answer ▸ reject_spec keyed settled submit bad⟩
  · rw [if_neg rejected]
    obtain ⟨inside, nonzero, limit⟩ : r.inBand o.price ∧ o.qty ≠ 0 ∧
        (o.stopMarket = false → r.inBand o.stopLimit) := by simpa using rejected
    have sameId : o.id = r.nextId := entry.id_eq
    have answers (ret : Ret) : ∀ all, r.market.Answers all op ret := by
      intro all
      cases entry <;> trivial
    let r₁ := r.accepted o.side o.price o.qty
    have armed_iff' (printed : r.hasLast = true) := armed_iff printed o
    by_cases fires : ¬ r.halted = true ∧ r.hasLast = true ∧ r.triggered o.side o.price
    · rcases fires with ⟨notHalted, printed, through⟩
      have running : r.halted = false := by simpa using notHalted
      have start := Market.Begin.trigger (m := r.market) entry nonzero inside limit running
        ((armed_iff' printed).mpr through)
      have valid₁ := start.valid valid
      rcases fire_spec (r := r₁) valid₁ keyed running with ⟨r₂, run, placed⟩
      rcases performed_of_pump (q := r₁) start rfl placed.took valid₁ placed.keyed (answers _) with
        ⟨r₃, run', performed⟩
      refine ⟨r₃, r.nextId, ?_, performed⟩
      rw [if_pos (show ¬ r₁.halted = true ∧ r₁.hasLast = true ∧ r₁.triggered o.side o.price
        from ⟨notHalted, printed, through⟩)]
      show (r₁.fire r.nextId o.side o.stopLimit o.qty o.stopMarket o.owner o.stp).bind _ = _
      rw [← sameId, run]
      show r₂.pump.bind _ = _
      rw [run']
      rfl
    · have waits : r.halted = true ∨ ¬ r.market.Armed o := by
        by_cases halted : r.halted = true
        · exact .inl halted
        · refine .inr fun armed => fires ⟨halted, ?_⟩
          by_cases printed : r.hasLast = true
          · exact ⟨printed, (armed_iff' printed).mp armed⟩
          · simp [Market.Armed, market, printed] at armed
      have start := Market.Begin.park (m := r.market) entry nonzero inside limit waits
      let r₂ : ReferenceEngine H := { r₁ with stops := r₁.stops ++ [o] }
      have valid₂ : ValidState (r₂.market, .idle) := start.valid valid
      rcases performed_of_pump (q := r₂) start rfl (.refl _ _) valid₂ keyed (answers _) with
        ⟨r₃, run, performed⟩
      refine ⟨r₃, r.nextId, ?_, performed⟩
      rw [if_neg (show ¬ (¬ r₁.halted = true ∧ r₁.hasLast = true ∧
        r₁.triggered o.side o.price) from fires)]
      have parks : RO.mk r.nextId o.side o.price o.qty 0 0 o.owner o.stp o.stopMarket
          o.stopLimit = o := by
        cases entry <;> rfl
      show (ReferenceEngine.pump { r₁ with stops := r₁.stops ++ [RO.mk r.nextId o.side o.price
        o.qty 0 0 o.owner o.stp o.stopMarket o.stopLimit] }).bind _ = _
      rw [parks]
      show r₂.pump.bind _ = _
      rw [run]
      rfl

/-! ### Operations on an open order -/

omit [Handler H] in
theorem splitAtId_some {id : OrderId} {orders front back : List RO} {o : RO}
    (split : splitAtId id orders = some (front, o, back)) :
    orders = front ++ o :: back ∧ o.id = id := by
  induction orders generalizing front with
  | nil => simp [splitAtId] at split
  | cons first rest induction =>
      unfold splitAtId at split
      by_cases here : first.id = id
      · rw [if_pos here] at split
        cases split
        exact ⟨rfl, here⟩
      · rw [if_neg here] at split
        rcases Option.map_eq_some_iff.mp split with ⟨⟨front', o', back'⟩, found, same⟩
        cases same
        rcases induction found with ⟨rfl, sameId⟩
        exact ⟨rfl, sameId⟩

omit [Handler H] in
theorem splitAtId_none {id : OrderId} {orders : List RO} :
    splitAtId id orders = none ↔ ∀ o ∈ orders, o.id ≠ id := by
  induction orders with
  | nil => simp [splitAtId]
  | cons first rest induction =>
      unfold splitAtId
      by_cases here : first.id = id
      · simp [here]
      · simp [here, induction]

omit [Handler H] in
theorem findResting_some {id : OrderId} {side : Side} {px : Price} {front back : List RO}
    {o : RO} (found : r.findResting id = some (side, px, front, o, back)) :
    r.level side px = front ++ o :: back ∧ o.id = id := by
  rcases List.exists_of_findSome?_eq_some found with ⟨side', -, found⟩
  rcases List.exists_of_findSome?_eq_some found with ⟨⟨px', level⟩, member, found⟩
  rcases Option.map_eq_some_iff.mp found with ⟨place, split, same⟩
  cases same
  rcases splitAtId_some split with ⟨rfl, sameId⟩
  exact ⟨(mem_toList.mp member).2, sameId⟩

omit [Handler H] in
theorem findResting_none (keyed : r.Keyed) {id : OrderId} :
    r.findResting id = none ↔ ∀ side px, ∀ o ∈ r.level side px, o.id ≠ id := by
  simp only [findResting, List.findSome?_eq_none_iff, Option.map_eq_none_iff,
    splitAtId_none, Prod.forall, mem_toList]
  constructor
  · intro none side px o member
    have present : px ∈ r.book side := (keyed side px).mpr (List.ne_nil_of_mem member)
    exact none side (by cases side <;> simp) px _ ⟨present, rfl⟩ o member
  · rintro absent side - px level ⟨-, rfl⟩ o member
    exact absent side px o member

omit [Handler H] in
theorem erase_keyed (keyed : r.Keyed) {side : Side} {px : Price} {front back : List RO} {o : RO}
    (place : r.level side px = front ++ o :: back) :
    ((r.setLevel side px (front ++ back)).eraseIfEmpty side px).Keyed := by
  have present : px ∈ r.book side := (keyed side px).mpr (by simp [place])
  refine keyed_eraseIfEmpty _ _ _ ?_ fun s p other => ?_
  · rw [mem_setLevel]
    exact .inr present
  · rw [mem_setLevel, level_setLevel, keyed, if_neg other]
    grind

theorem decline_spec (keyed : r.Keyed) (settled : r.market.Settled) {op : Op} {id : OrderId}
    (target : op.OnOrder id) (declined : r.market.Declines op) :
    r.Performed op r (.ok false) :=
  performed_of_settled (.decline target declined) rfl (.refl r _) keyed settled fun all => by
    cases target <;> trivial

theorem cancel_spec (valid : r.market.Valid) (keyed : r.Keyed) (settled : r.market.Settled)
    {op : Op} {id : OrderId} (cancels : op.Cancels id) :
    ∃ r' ok, r.cancel id = some (r', ok) ∧ r.Performed op r' (.ok ok) := by
  have answers (ret : Ret) : ∀ all, r.market.Answers all op ret := by
    intro all
    cases cancels <;> trivial
  unfold cancel
  cases found : r.findResting id with
  | some place =>
      rcases place with ⟨side, px, front, o, back⟩
      rcases findResting_some found with ⟨place, rfl⟩
      let r₁ := (((r.setLevel side px (front ++ back)).eraseIfEmpty side px)).emit (.cancel o.id)
      have market : r₁.market = r.market.setLevel side px (front ++ back) := by
        rw [emit_market, eraseIfEmpty_market, setLevel_market]
      have start : r.market.Begin op [.cancel o.id] (r₁.market, .idle) (.ok true) := by
        rw [market]
        exact .cancel cancels place
      have keyed₁ : r₁.Keyed := erase_keyed keyed place
      obtain ⟨r₂, run, performed⟩ := performed_of_pump start
        (by rw [emit_h, eraseIfEmpty_h]; rfl) (.refl r₁ _) (start.valid valid) keyed₁ (answers _)
      refine ⟨r₂, true, ?_, performed⟩
      show r₁.pump.bind _ = _
      rw [run]
      rfl
  | none =>
      have notResting := (findResting_none keyed).mp found
      cases found' : r.findStop id with
      | some place =>
          rcases place with ⟨front, o, back⟩
          rcases splitAtId_some found' with ⟨place, rfl⟩
          let r₁ := ({ r with stops := front ++ back } : ReferenceEngine H).emit (.cancel o.id)
          have start : r.market.Begin op [.cancel o.id] (r₁.market, .idle) (.ok true) :=
            .cancelStop cancels place
          rcases performed_of_pump start rfl (.refl r₁ _) (start.valid valid) keyed (answers _) with
            ⟨r₂, run, performed⟩
          refine ⟨r₂, true, ?_, performed⟩
          show r₁.pump.bind _ = _
          rw [run]
          rfl
      | none =>
          have notStop := splitAtId_none.mp found'
          have closed : ¬ r.market.IsOpen id := by
            rintro (⟨side, px, o, member, same⟩ | ⟨o, member, same⟩)
            · exact notResting side px o member same
            · exact notStop o member same
          have target : op.OnOrder id := by
            cases cancels
            · exact .cancel
            · exact .modify
          have declined : r.market.Declines op := by
            cases cancels with
            | cancel => exact closed
            | modify =>
                rw [Market.Declines, if_pos rfl]
                exact closed
          exact ⟨r, false, rfl, decline_spec keyed settled target declined⟩

theorem reduce_spec (valid : r.market.Valid) (keyed : r.Keyed) {op : Op} {side : Side}
    {px : Price} {front back : List RO} {o : RO} {delta : Qty}
    (found : r.findResting o.id = some (side, px, front, o, back))
    (reduces : op.Reduces o delta) :
    ∃ r', r.reduce o.id delta = some (r', true) ∧ r.Performed op r' (.ok true) := by
  have answers (ret : Ret) : ∀ all, r.market.Answers all op ret := by
    intro all
    cases reduces <;> trivial
  have place := (findResting_some found).1
  unfold reduce
  rw [found]
  by_cases all : o.total ≤ delta
  · let r₁ := (r.setLevel side px (front ++ back)).eraseIfEmpty side px
    have erased : r.eraseResting o.id = r₁ := by
      unfold eraseResting
      rw [found]
    have market : r₁.market = r.market.setLevel side px (front ++ back) := by
      rw [eraseIfEmpty_market, setLevel_market]
    have start : r.market.Begin op [] (r₁.market, .idle) (.ok true) := by
      rw [market]
      exact .erase reduces place all
    obtain ⟨r₂, run, performed⟩ := performed_of_pump start
      (by rw [eraseIfEmpty_h]; rfl) (.refl r₁ _) (start.valid valid) (erase_keyed keyed place)
      (answers _)
    refine ⟨r₂, ?_, performed⟩
    show (pump (if o.total ≤ delta then r.eraseResting o.id else _)).bind _ = _
    rw [if_pos all, erased, run]
    rfl
  · let r₁ := r.setLevel side px (front ++ o.reduced delta :: back)
    have start : r.market.Begin op [] (r₁.market, .idle) (.ok true) := by
      rw [setLevel_market]
      exact .reduce reduces place (UInt64.not_le.mp all)
    have keyed₁ : r₁.Keyed := by
      have present : px ∈ r.book side := (keyed side px).mpr (by simp [place])
      intro s p
      rw [mem_setLevel, level_setLevel, keyed]
      by_cases same : s = side ∧ p = px <;> simp [same]
    rcases performed_of_pump start rfl (.refl r₁ _) (start.valid valid) keyed₁ (answers _) with
      ⟨r₂, run, performed⟩
    refine ⟨r₂, ?_, performed⟩
    show (pump (if o.total ≤ delta then _ else r₁)).bind _ = _
    rw [if_neg all, run]
    rfl

theorem modify_spec (valid : r.market.Valid) (keyed : r.Keyed) (settled : r.market.Settled)
    (id : OrderId) (newPrice : Price) (newQty : Qty) :
    ∃ r' ok, r.modify id newPrice newQty = some (r', ok) ∧
      r.Performed (.modify id newPrice newQty) r' (.ok ok) := by
  have decline (nonzero : newQty ≠ 0) (none : ¬ r.inBand newPrice ∨ ¬ r.market.Rests id) :
      r.Performed (.modify id newPrice newQty) r (.ok false) := by
    apply decline_spec keyed settled .modify
    rw [Market.Declines, if_neg nonzero]
    exact none
  unfold modify
  by_cases isStop : (r.findStop id).isSome ∧ newQty ≠ 0
  · rw [if_pos isStop]
    rcases Option.isSome_iff_exists.mp isStop.1 with ⟨⟨front, o, back⟩, found⟩
    rcases splitAtId_some found with ⟨place, rfl⟩
    refine ⟨_, _, rfl, decline isStop.2 (.inr ?_)⟩
    rintro ⟨side, px, resting, member, same⟩
    exact valid.apart side px resting member o (by simp [market, place]) same
  rw [if_neg isStop]
  by_cases zero : newQty = 0
  · rw [if_pos zero]
    subst zero
    exact cancel_spec valid keyed settled .modify
  rw [if_neg zero]
  by_cases outside : ¬ r.inBand newPrice
  · rw [if_pos outside]
    exact ⟨_, _, rfl, decline zero (.inl outside)⟩
  rw [if_neg outside]
  cases found : r.findResting id with
  | none =>
      refine ⟨_, _, rfl, decline zero (.inr ?_)⟩
      rintro ⟨side, px, resting, member, same⟩
      exact (findResting_none keyed).mp found side px resting member same
  | some place =>
      rcases place with ⟨side, px, front, o, back⟩
      rcases findResting_some found with ⟨place, rfl⟩
      by_cases amend : newPrice = o.price ∧ newQty ≤ o.total
      · rcases amend with ⟨rfl, less⟩
        rcases reduce_spec valid keyed found (.modify zero less) with ⟨r', run, performed⟩
        refine ⟨r', true, ?_, performed⟩
        exact (if_pos (show o.price = o.price ∧ newQty ≤ o.qty + o.reserve from
          ⟨rfl, less⟩)).trans run
      · let r₁ := ((((r.setLevel side px (front ++ back)).eraseIfEmpty side px)).emit
          (.cancel o.id)).emit (.accept o.id o.side newPrice newQty)
        have erased : ((r.eraseResting o.id).emit (.cancel o.id)).emit
            (.accept o.id o.side newPrice newQty) = r₁ := by
          unfold eraseResting
          rw [found]
        have market : r₁.market = r.market.setLevel side px (front ++ back) := by
          rw [emit_market, emit_market, eraseIfEmpty_market, setLevel_market]
        have start := Market.Begin.replace (m := r.market) place zero
          (show r.inBand newPrice from not_not.mp outside) amend
        rw [← market] at start
        have valid₁ := start.valid valid
        have keyed₁ : r₁.Keyed := erase_keyed keyed place
        obtain ⟨r₂, run, placed⟩ := place_spec valid₁ keyed₁ fun _ => ⟨zero, rfl⟩
        obtain ⟨r₃, run', performed⟩ := performed_of_pump start
          (by rw [emit_h, emit_h, eraseIfEmpty_h]; rfl) placed.took valid₁ placed.keyed
          fun _ => trivial
        refine ⟨r₃, true, ?_, performed⟩
        refine (if_neg (show ¬ (newPrice = o.price ∧ newQty ≤ o.qty + o.reserve) from
          amend)).trans ?_
        show ((((r.eraseResting o.id).emit (.cancel o.id)).emit
          (.accept o.id o.side newPrice newQty)).place o.id o.side newPrice newQty .gtc o.owner
          o.stp o.peak).bind _ = _
        rw [erased, run]
        show r₂.pump.bind _ = _
        rw [run']
        rfl

/-! ### Auctions -/

inductive Auctioned (r : ReferenceEngine H) : ReferenceEngine H → Qty → Prop
  | still (nothing : ∀ hi lo, r.market.Best .buy hi → r.market.Best .sell lo → lo ≤ hi →
      (r.findClearing lo hi).exec = 0) : Auctioned r r 0
  | crossed {hi lo r' crossed} (bestBid : r.market.Best .buy hi) (bestAsk : r.market.Best .sell lo)
      (overlap : lo ≤ hi) (some : (r.findClearing lo hi).exec ≠ 0)
      (crossing : r.Crossing (r.findClearing lo hi).clearing (r', crossed) .idle) :
      Auctioned r r' crossed

theorem doUncross_spec (valid : r.market.Valid) (keyed : r.Keyed) :
    ∃ r' crossed, r.doUncross = some (r', crossed) ∧ r.Auctioned r' crossed := by
  have bids (px : Price) : r.bestBid = some px ↔ r.market.Best .buy px :=
    show r.best .buy = some px ↔ _ from best_eq_some keyed
  have asks (px : Price) : r.bestAsk = some px ↔ r.market.Best .sell px :=
    show r.best .sell = some px ↔ _ from best_eq_some keyed
  cases bestBid : r.bestBid with
  | none =>
      refine ⟨r, 0, by simp [doUncross, bestBid], .still fun hi lo isBid => ?_⟩
      rw [← bids, bestBid] at isBid
      contradiction
  | some hi =>
      cases bestAsk : r.bestAsk with
      | none =>
          refine ⟨r, 0, by simp [doUncross, bestBid, bestAsk], .still fun hi lo _ isAsk => ?_⟩
          rw [← asks, bestAsk] at isAsk
          contradiction
      | some lo =>
          have isBid := (bids hi).mp bestBid
          have isAsk := (asks lo).mp bestAsk
          by_cases apart : hi < lo
          · refine ⟨r, 0, by simp [doUncross, bestBid, bestAsk, apart],
              .still fun hi' lo' isBid' isAsk' overlap => ?_⟩
            rw [isBid.unique isBid', isAsk.unique isAsk'] at apart
            exact absurd overlap (Int.not_le.mpr apart)
          by_cases nothing : (r.findClearing lo hi).exec = 0
          · refine ⟨r, 0, by simp [doUncross, bestBid, bestAsk, nothing],
              .still fun hi' lo' isBid' isAsk' _ => ?_⟩
            rw [← isBid.unique isBid', ← isAsk.unique isAsk']
            exact nothing
          have overlap : lo ≤ hi := Int.not_lt.mp apart
          obtain ⟨⟨r', crossed⟩, run, crossing⟩ : ∃ result : ReferenceEngine H × Qty,
              loop (crossRound (r.findClearing lo hi).clearing) (r.nextId + 1) (r, 0) =
                some result ∧
              r.Crossing (r.findClearing lo hi).clearing result .idle := by
            apply loop_total
              (fun state : ReferenceEngine H × Qty =>
                r.Crossing (r.findClearing lo hi).clearing state
                  (.crossing (r.findClearing lo hi).clearing))
              (fun result : ReferenceEngine H × Qty =>
                r.Crossing (r.findClearing lo hi).clearing result .idle)
              (fun state => state.1.market.openIds.card)
            · rintro ⟨r', crossed⟩ crossing
              have valid' := (crossing.took.valid ⟨valid, trivial⟩).1
              exact crossRound_spec valid' crossing
            · exact .refl r _ keyed
            · exact Nat.lt_succ_of_le r.market.card_openIds_le
          refine ⟨r', crossed, ?_, .crossed isBid isAsk overlap nothing crossing⟩
          simp only [doUncross, bestBid, bestAsk, apart, nothing, if_false]
          exact run

theorem uncross_spec (valid : r.market.Valid) (keyed : r.Keyed) :
    ∃ r' crossed, r.uncross = some (r', crossed) ∧
      r.Performed .uncross r' (.qty crossed) := by
  rcases doUncross_spec valid keyed with ⟨r₁, crossed, run, auctioned⟩
  have pumped : ∃ r', r₁.pump = some r' ∧ r.Performed .uncross r' (.qty crossed) := by
    cases auctioned with
    | still nothing =>
        have flat : r.market.Begin .uncross [] (r.market, .idle) (.qty 0) :=
          .flat fun bpx apx isBid isAsk overlap => by
            rw [← findClearing_market valid keyed]
            exact nothing bpx apx isBid isAsk overlap
        exact performed_of_pump (q := r) flat rfl (.refl r _) ⟨valid, trivial⟩ keyed
          fun _ => trivial
    | @crossed hi lo _ _ isBid isAsk overlap some crossing =>
        rcases r.findClearing_mem overlap with ⟨low, high⟩
        have start : r.market.Begin .uncross []
            (r.market, .crossing (r.findClearing lo hi).clearing) (.qty crossed) :=
          .uncross isBid isAsk low high (findClearing_market valid keyed lo hi ▸ some)
            (congrArg BestCross.clearing (findClearing_market valid keyed lo hi))
        exact performed_of_pump start rfl crossing.took ⟨valid, trivial⟩ crossing.keyed
          fun _ => trivial
  rcases pumped with ⟨r', run', performed⟩
  refine ⟨r', crossed, ?_, performed⟩
  show r.doUncross.bind _ = _
  rw [run]
  show r₁.pump.bind _ = _
  rw [run']
  rfl

theorem step_spec (valid : r.market.Valid) (keyed : r.Keyed) (settled : r.market.Settled)
    (op : Op) : ∃ r' ret, r.step op = some (r', ret) ∧ r.Performed op r' ret := by
  cases op with
  | submitLimit side price qty tif owner stp =>
      rcases submitLimit_spec valid keyed settled side price qty tif owner stp with
        ⟨r', id, run, performed⟩
      exact ⟨r', _, by simp [step, run], performed⟩
  | submitMarket side qty owner stp =>
      rcases submitMarket_spec valid keyed settled side qty owner stp with
        ⟨r', left, run, performed⟩
      exact ⟨r', _, by simp [step, run], performed⟩
  | submitIceberg side price totalQty display tif owner stp =>
      rcases submitIceberg_spec valid keyed settled side price totalQty display tif owner stp with
        ⟨r', id, run, performed⟩
      exact ⟨r', _, by simp [step, run], performed⟩
  | submitStop side stopPrice qty owner stp =>
      obtain ⟨r', id, run, performed⟩ := doStop_spec valid keyed settled
        (show Op.IsSubmit (.submitStop side stopPrice qty owner stp) from trivial) .market
      exact ⟨r', _, by simp only [step, run]; rfl, performed⟩
  | submitStopLimit side stopPrice limitPrice qty owner stp =>
      obtain ⟨r', id, run, performed⟩ := doStop_spec valid keyed settled
        (show Op.IsSubmit (.submitStopLimit side stopPrice limitPrice qty owner stp) from
          trivial) .limit
      exact ⟨r', _, by simp only [step, run]; rfl, performed⟩
  | cancel id =>
      rcases cancel_spec valid keyed settled (show Op.Cancels id (.cancel id) from .cancel) with
        ⟨r', ok, run, performed⟩
      exact ⟨r', _, by simp [step, run], performed⟩
  | reduce id delta =>
      cases found : r.findResting id with
      | none =>
          refine ⟨r, .ok false, by simp [step, reduce, found], ?_⟩
          apply decline_spec keyed settled .reduce
          rintro ⟨side, px, resting, member, same⟩
          exact (findResting_none keyed).mp found side px resting member same
      | some place =>
          rcases place with ⟨side, px, front, o, back⟩
          rcases findResting_some found with ⟨-, rfl⟩
          rcases reduce_spec valid keyed found .reduce with ⟨r', run, performed⟩
          exact ⟨r', _, by simp [step, run], performed⟩
  | modify id newPrice newQty =>
      rcases modify_spec valid keyed settled id newPrice newQty with ⟨r', ok, run, performed⟩
      exact ⟨r', _, by simp [step, run], performed⟩
  | halt =>
      exact ⟨{ r with halted := true }, .done, rfl,
        performed_of_settled (q := { r with halted := true }) .halt rfl (.refl _ _) keyed
          (.inl rfl) fun _ => trivial⟩
  | resume =>
      have start : r.market.Begin .resume [] ({ r with halted := false }.market, .idle) .done :=
        .resume
      obtain ⟨r', run, performed⟩ := performed_of_pump (q := { r with halted := false })
        start rfl (.refl _ _) (start.valid valid) keyed fun _ => trivial
      exact ⟨r', .done, by simp [step, run], performed⟩
  | uncross =>
      rcases uncross_spec valid keyed with ⟨r', crossed, run, performed⟩
      exact ⟨r', _, by simp [step, run], performed⟩

end ReferenceEngine

end Matchbook
