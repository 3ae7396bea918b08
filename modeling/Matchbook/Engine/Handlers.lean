import Matchbook.Engine.Calls

namespace Matchbook

open BoundedLoop

/-! # The engine does not look at its handler

A function of handlers that goes along with every event goes along with every
function of the engine. -/

def Handler.Commutes {H H' : Type} [Handler H] [Handler H'] (f : H → H') : Prop :=
  ∀ h event, f (Handler.on h event) = Handler.on (f h) event

theorem ite_map {α β : Type*} {c' c : Prop} [Decidable c'] [Decidable c] {map : α → β}
    {t e : α} {t' e' : β} (same : c' ↔ c) (isThen : c → t' = map t) (isElse : ¬ c → e' = map e) :
    (if c' then t' else e') = map (if c then t else e) := by
  by_cases holds : c
  · rw [if_pos (same.2 holds), if_pos holds, isThen holds]
  · rw [if_neg (holds ∘ same.1), if_neg holds, isElse holds]

theorem bind_map {α β γ δ : Type*} {onFirst : α → β} {onLast : γ → δ} {next' : β → Option δ}
    {next : α → Option γ} {first' : Option β} {first : Option α}
    (isFirst : first' = first.map onFirst)
    (isNext : ∀ a, next' (onFirst a) = (next a).map onLast) :
    first'.bind next' = (first.bind next).map onLast := by
  rw [isFirst]
  cases first with
  | none => rfl
  | some a => exact isNext a

namespace MatchingEngine

variable {H H' : Type}

def mapHandler (f : H → H') (s : MatchingEngine H) : MatchingEngine H' := { s with h := f s.h }

def mapResult {α : Type*} (f : H → H') : MatchingEngine H × α → MatchingEngine H' × α
  | (s, result) => (s.mapHandler f, result)

section fields

variable (f : H → H') (s : MatchingEngine H)

@[simp] theorem mapHandler_mem : (s.mapHandler f).mem = s.mem := rfl
@[simp] theorem mapHandler_best : (s.mapHandler f).best = s.best := rfl
@[simp] theorem mapHandler_min : (s.mapHandler f).min = s.min := rfl
@[simp] theorem mapHandler_nLevels : (s.mapHandler f).nLevels = s.nLevels := rfl
@[simp] theorem mapHandler_halted : (s.mapHandler f).halted = s.halted := rfl
@[simp] theorem mapHandler_stpHalt : (s.mapHandler f).stpHalt = s.stpHalt := rfl
@[simp] theorem mapHandler_pumping : (s.mapHandler f).pumping = s.pumping := rfl
@[simp] theorem mapHandler_h : (s.mapHandler f).h = f s.h := rfl

end fields

/-! ## What does not tell the handler -/

section silent

variable (f : H → H') (s : MatchingEngine H) (side : Side) (i : Nat) (o : Ptr)

theorem mapHandler_occupy : (s.mapHandler f).occupy side i = (s.occupy side i).mapHandler f := by
  cases side <;> rw [occupy, occupy, apply_ite (mapHandler f)] <;> rfl

theorem mapHandler_vacate : (s.mapHandler f).vacate side i = (s.vacate side i).mapHandler f := by
  rw [vacate, vacate, apply_ite (mapHandler f)]
  rfl

theorem mapHandler_removeResting :
    (s.mapHandler f).removeResting o = (s.removeResting o).mapHandler f := by
  rw [removeResting, removeResting, apply_ite (mapHandler f), ← mapHandler_vacate]
  rfl

theorem mapHandler_nextId :
    (s.mapHandler f).nextId = (s.nextId.1, s.nextId.2.mapHandler f) := rfl

theorem mapHandler_dispose : (s.mapHandler f).dispose o = (s.dispose o).mapHandler f := rfl

theorem mapHandler_eraseResting :
    (s.mapHandler f).eraseResting o = (s.eraseResting o).mapHandler f := by
  rw [eraseResting, eraseResting, mapHandler_removeResting, mapHandler_dispose]

theorem mapHandler_doReduce (id : OrderId) (delta : Qty) :
    (s.mapHandler f).doReduce id delta = mapResult f (s.doReduce id delta) := by
  unfold doReduce lookup
  rw [mapHandler_mem]
  cases s.mem.lookup id with
  | none => rfl
  | some o =>
      simp only [mapHandler_eraseResting, apply_ite (mapResult f)]
      rfl

theorem mapHandler_ensureStopBooks :
    (s.mapHandler f).ensureStopBooks = s.ensureStopBooks.mapHandler f := by
  rw [ensureStopBooks, ensureStopBooks, apply_ite (mapHandler f)]
  rfl

theorem mapHandler_restStop (id : OrderId) (stopPrice limitPrice : Price) (qty : Qty)
    (isMarket : Bool) (owner : OwnerId) (stp : StpPolicy) :
    (s.mapHandler f).restStop id side stopPrice limitPrice qty isMarket owner stp =
      (s.restStop id side stopPrice limitPrice qty isMarket owner stp).mapHandler f := by
  rw [restStop, restStop, mapHandler_ensureStopBooks, apply_ite (mapHandler f)]
  rfl

theorem mapHandler_removeStop :
    (s.mapHandler f).removeStop o = (s.removeStop o).mapHandler f := by
  rw [removeStop, removeStop, apply_ite (mapHandler f)]
  rfl

theorem mapHandler_nextTriggeredStop :
    (s.mapHandler f).nextTriggeredStop = s.nextTriggeredStop := rfl

theorem mapHandler_fillable (price : Price) (want : Qty) :
    (s.mapHandler f).fillable side price want = s.fillable side price want := rfl

theorem mapHandler_visitOrders : (s.mapHandler f).visitOrders side = s.visitOrders side := rfl

theorem mapHandler_visitStops : (s.mapHandler f).visitStops = s.visitStops := rfl

end silent

/-! ## What tells the handler -/

variable [Handler H] [Handler H'] {f : H → H'} (commutes : Handler.Commutes f)
  (s : MatchingEngine H) (side : Side) (id : OrderId) (price : Price) (qty : Qty)
  (tif : TimeInForce) (owner : OwnerId) (stp : StpPolicy) (peak : Qty)
include commutes

theorem mapHandler_emit (event : Event) :
    (s.mapHandler f).emit event = (s.emit event).mapHandler f := by
  simp only [emit, mapHandler, commutes s.h event]

theorem mapHandler_announce (first : Bool) (i : Nat) (o : Ptr) :
    let t := if first then (s.mapHandler f).occupy side i else s.mapHandler f
    let u := if first then s.occupy side i else s
    t.emit (.rest id side price (t.mem.nodes o).qty) =
      (u.emit (.rest id side price (u.mem.nodes o).qty)).mapHandler f := by
  cases first with
  | false => exact mapHandler_emit commutes s _
  | true =>
      simp only [if_true, mapHandler_occupy]
      exact mapHandler_emit commutes (s.occupy side i) _

theorem mapHandler_rest :
    (s.mapHandler f).rest id side price qty owner stp peak =
      (s.rest id side price qty owner stp peak).mapHandler f := by
  unfold rest
  exact mapHandler_announce commutes { s with mem := _ } side id price _ _ _

theorem mapHandler_cancelHead (book : BookName) (i : Nat) (o : Ptr) :
    (s.mapHandler f).cancelHead book i o = mapResult f (s.cancelHead book i o) := by
  unfold cancelHead mapResult
  simp only
  rw [mapHandler_emit commutes]
  rfl

theorem mapHandler_cancelImpl :
    (s.mapHandler f).cancelImpl id = mapResult f (s.cancelImpl id) := by
  unfold cancelImpl lookup
  rw [mapHandler_mem]
  cases s.mem.lookup id with
  | none => rfl
  | some o =>
      simp only [mapHandler_removeStop, mapHandler_removeResting,
        ← apply_ite (mapHandler f), mapHandler_dispose, mapHandler_emit commutes]
      rfl

/-! ## Sweeps -/

theorem mapHandler_sweepRound (maker : Side) (i : Nat) (taker : OrderId) (px : Price)
    (takerSide : Side) (takerOwner : OwnerId) (state : MatchingEngine H × Option Ptr × Qty) :
    sweepRound maker i taker px takerSide takerOwner stp (mapResult f state) =
      (sweepRound maker i taker px takerSide takerOwner stp state).map
        (Turn.map (mapResult f) (mapResult f)) := by
  rcases state with ⟨s, cursor, qty⟩
  cases cursor with
  | none => rfl
  | some o =>
      simp only [mapResult, sweepRound]
      refine ite_map Iff.rfl (fun _ => rfl) (fun _ => ?_)
      refine ite_map Iff.rfl (fun _ => ?_) (fun _ => ?_)
      · rw [mapHandler_cancelHead commutes]
        cases stp <;> rfl
      let fill := if qty < (s.mem.nodes o).qty then qty else (s.mem.nodes o).qty
      let t : MatchingEngine H :=
        { s with mem := s.mem.takeDisplayed maker.book i o fill, lastPx := px, hasLast := true }
      let u := t.emit (.trade ⟨taker, (s.mem.nodes o).id, px, fill, takerSide⟩)
      have traded := mapHandler_emit commutes t
        (.trade ⟨taker, (s.mem.nodes o).id, px, fill, takerSide⟩)
      refine ite_map Iff.rfl (fun _ => ?_) (fun _ => ?_)
      · refine ite_map Iff.rfl (fun _ => ?_) (fun _ => ?_)
        · let v : MatchingEngine H := { u with mem := u.mem.replenish maker.book i o }
          let clip := Event.rest (s.mem.nodes o).id (s.mem.nodes o).side px (v.mem.nodes o).qty
          have shown := mapHandler_emit commutes v clip
          have before := congrArg (fun w : MatchingEngine H' =>
            { w with mem := w.mem.replenish maker.book i o }.emit clip) traded
          exact congrArg (fun w : MatchingEngine H' =>
            some (Turn.again ({ w with mem := w.mem.requeue maker.book i o },
              ((w.mem.requeue maker.book i o).levels maker.book i).head, qty - fill)))
            (before.trans shown)
        · exact congrArg (fun w : MatchingEngine H' =>
            some (Turn.again ({ w with mem := w.mem.dropHead maker.book i o },
              u.mem.links.next o, qty - fill))) traded
      · exact congrArg (fun w => some (Turn.again (w, some o, qty - fill))) traded

theorem mapHandler_sweepLevel (maker : Side) (i : Nat) (taker : OrderId) (px : Price)
    (takerSide : Side) (takerOwner : OwnerId) :
    (s.mapHandler f).sweepLevel maker i taker qty px takerSide takerOwner stp =
      (s.sweepLevel maker i taker qty px takerSide takerOwner stp).map (mapResult f) :=
  loop_map (mapHandler_sweepRound commutes stp maker i taker px takerSide takerOwner) _
    (s, _, qty)

theorem mapHandler_matchRound (taker : OrderId) (limitIdx : Int)
    (state : MatchingEngine H × Qty) :
    matchRound side taker limitIdx owner stp (mapResult f state) =
      (matchRound side taker limitIdx owner stp state).map
        (Turn.map (mapResult f) (mapResult f)) := by
  rcases state with ⟨s, qty⟩
  refine ite_map Iff.rfl (fun _ => ?_) (fun _ => rfl)
  refine bind_map (mapHandler_sweepLevel commutes ..) fun swept => ?_
  rcases swept with ⟨t, left⟩
  let finish (K : Type) (w : MatchingEngine K) :
      Option (Turn (MatchingEngine K × Qty) (MatchingEngine K × Qty)) :=
    if w.stpHalt then some (.leave (w, left)) else some (.again (w, left))
  have finished (w : MatchingEngine H) : finish H' (w.mapHandler f) =
      (finish H w).map (Turn.map (mapResult f) (mapResult f)) :=
    ite_map Iff.rfl (fun _ => rfl) fun _ => rfl
  have vacated : (if ((t.mapHandler f).mem.levels side.opposite.book
        (s.best side.opposite).toNat).head.isNone then
        (t.mapHandler f).vacateBest side.opposite else t.mapHandler f) =
      (if (t.mem.levels side.opposite.book (s.best side.opposite).toNat).head.isNone then
        t.vacateBest side.opposite else t).mapHandler f :=
    ite_map Iff.rfl (fun _ => rfl) fun _ => rfl
  exact (congrArg (finish H') vacated).trans (finished _)

theorem mapHandler_matchSide (taker : OrderId) (limitIdx : Int) :
    (s.mapHandler f).matchSide side taker qty limitIdx owner stp =
      (s.matchSide side taker qty limitIdx owner stp).map (mapResult f) :=
  loop_map (mapHandler_matchRound commutes side owner stp taker limitIdx) _ (s, qty)

theorem mapHandler_remainder (left : Qty) :
    (if (s.mapHandler f).stpHalt then
      some (if 0 < left then { s.mapHandler f with stpHalt := false }.emit (.cancel id)
        else { s.mapHandler f with stpHalt := false })
    else if 0 < left then
      if tif = .ioc ∨ tif = .fok then some ((s.mapHandler f).emit (.cancel id))
      else some ((s.mapHandler f).rest id side price left owner stp peak)
    else some (s.mapHandler f)) =
    (if s.stpHalt then
      some (if 0 < left then { s with stpHalt := false }.emit (.cancel id)
        else { s with stpHalt := false })
    else if 0 < left then
      if tif = .ioc ∨ tif = .fok then some (s.emit (.cancel id))
      else some (s.rest id side price left owner stp peak)
    else some s).map (mapHandler f) := by
  have cleared := mapHandler_emit commutes { s with stpHalt := false } (.cancel id)
  rw [mapHandler_emit commutes, mapHandler_rest commutes]
  refine ite_map Iff.rfl (fun _ => ?_) (fun _ => ?_)
  · exact congrArg some (ite_map Iff.rfl (fun _ => cleared) fun _ => rfl)
  · refine ite_map Iff.rfl (fun _ => ?_) (fun _ => rfl)
    exact ite_map Iff.rfl (fun _ => rfl) fun _ => rfl

theorem mapHandler_placeLimit :
    (s.mapHandler f).placeLimit id side price qty tif owner stp peak =
      (s.placeLimit id side price qty tif owner stp peak).map (mapHandler f) := by
  refine ite_map Iff.rfl
    (fun _ => congrArg some (mapHandler_rest commutes s side id price qty owner stp peak))
    (fun _ => ?_)
  have swept := mapHandler_matchSide commutes s side qty owner stp id (s.idx price)
  cases side with
  | buy => exact bind_map swept fun next => mapHandler_remainder commutes next.1 ..
  | sell => exact bind_map swept fun next => mapHandler_remainder commutes next.1 ..

theorem mapHandler_matchMarket :
    (s.mapHandler f).matchMarket id side qty owner stp =
      (s.matchMarket id side qty owner stp).map (mapResult f) := by
  cases side <;> exact bind_map (mapHandler_matchSide commutes ..) fun _ => rfl

/-! ## Stops -/

theorem mapHandler_executeStop (isMarket : Bool) :
    (s.mapHandler f).executeStop id side price qty isMarket owner stp =
      (s.executeStop id side price qty isMarket owner stp).map (mapHandler f) := by
  cases isMarket with
  | false => exact mapHandler_placeLimit commutes s side id price qty .gtc owner stp 0
  | true =>
      simp only [executeStop, if_true, mapHandler_matchMarket commutes]
      cases s.matchMarket id side qty owner stp <;> rfl

theorem mapHandler_pumpRound :
    pumpRound (s.mapHandler f) = (pumpRound s).map (Turn.map (mapHandler f) (mapHandler f)) := by
  unfold pumpRound
  rw [mapHandler_nextTriggeredStop]
  cases s.nextTriggeredStop with
  | none => rfl
  | some o =>
      simp only [mapHandler_removeStop, mapHandler_dispose]
      have fired := mapHandler_executeStop commutes ((s.removeStop o).dispose o)
        (s.mem.nodes o).side (s.mem.nodes o).id
        (if (s.mem.nodes o).stopMarket then 0 else (s.mem.extra o).limit) (s.mem.nodes o).qty
        (s.mem.nodes o).owner (s.mem.nodes o).stp (s.mem.nodes o).stopMarket
      exact bind_map fired fun _ => rfl

theorem mapHandler_pumpStops :
    (s.mapHandler f).pumpStops = s.pumpStops.map (mapHandler f) := by
  exact ite_map Iff.rfl (fun _ => rfl) fun _ => loop_map (mapHandler_pumpRound commutes) _ s

/-! ## Operations -/

theorem mapHandler_run {α : Type} (body : MatchingEngine H → Option (MatchingEngine H × α))
    (body' : MatchingEngine H' → Option (MatchingEngine H' × α))
    (same : body' (s.mapHandler f) = (body s).map (mapResult f)) :
    (s.mapHandler f).run body' = (s.run body).map (mapResult f) := by
  refine bind_map same fun next => ite_map Iff.rfl (fun _ => rfl) fun _ => ?_
  exact bind_map (mapHandler_pumpStops commutes { next.1 with pumping := true }) fun _ => rfl

theorem mapHandler_enterLimit :
    (s.mapHandler f).enterLimit side price qty tif owner stp peak =
      (s.enterLimit side price qty tif owner stp peak).map (mapResult f) := by
  unfold enterLimit
  rw [mapHandler_nextId]
  rcases s.nextId with ⟨id, t⟩
  simp only [mapHandler_emit commutes]
  generalize t.emit (.accept id side price qty) = t
  simp only [mapHandler_rest commutes, mapHandler_placeLimit commutes, mapHandler_fillable]
  have decided (short : Bool) :
      (if short then some ((t.emit (.cancel id)).mapHandler f, id)
      else if tif = .postOnly ∧ (t.mapHandler f).wouldCross side price then
        some ((t.emit (.cancel id)).mapHandler f, id)
      else do
        let s ← (t.placeLimit id side price qty tif owner stp peak).map (mapHandler f)
        some (s, id)) =
      (if short then some (t.emit (.cancel id), id)
      else if tif = .postOnly ∧ t.wouldCross side price then some (t.emit (.cancel id), id)
      else do
        let s ← t.placeLimit id side price qty tif owner stp peak
        some (s, id)).map (mapResult f) :=
    ite_map Iff.rfl (fun _ => rfl) fun _ =>
      ite_map Iff.rfl (fun _ => rfl) fun _ => bind_map rfl fun _ => rfl
  refine ite_map Iff.rfl (fun _ => ?_) (fun _ => ?_)
  · exact ite_map Iff.rfl (fun _ => rfl) fun _ => rfl
  · refine ite_map Iff.rfl (fun _ => ?_) (fun _ => decided false)
    exact bind_map Option.map_id'.symm decided

theorem mapHandler_doSubmitLimit :
    (s.mapHandler f).doSubmitLimit side price qty tif owner stp =
      (s.doSubmitLimit side price qty tif owner stp).map (mapResult f) :=
  ite_map Iff.rfl (fun _ => congrArg (fun w => some (w, _)) (mapHandler_emit commutes s _))
    fun _ => mapHandler_enterLimit commutes s side price qty tif owner stp 0

theorem mapHandler_doSubmitIceberg (display : Qty) :
    (s.mapHandler f).doSubmitIceberg side price qty display tif owner stp =
      (s.doSubmitIceberg side price qty display tif owner stp).map (mapResult f) :=
  ite_map Iff.rfl (fun _ => congrArg (fun w => some (w, _)) (mapHandler_emit commutes s _))
    fun _ => mapHandler_enterLimit commutes s side price qty tif owner stp display

theorem mapHandler_doSubmitMarket :
    (s.mapHandler f).doSubmitMarket side qty owner stp =
      (s.doSubmitMarket side qty owner stp).map (mapResult f) := by
  refine ite_map Iff.rfl
    (fun _ => congrArg (fun w => some (w, _)) (mapHandler_emit commutes s _)) (fun _ => ?_)
  rw [mapHandler_nextId]
  rcases s.nextId with ⟨id, t⟩
  simp only [mapHandler_emit commutes]
  exact mapHandler_matchMarket commutes _ side id qty owner stp

theorem mapHandler_doSubmitStop (limitPrice : Price) (isMarket : Bool) :
    (s.mapHandler f).doSubmitStop side price limitPrice qty isMarket owner stp =
      (s.doSubmitStop side price limitPrice qty isMarket owner stp).map (mapResult f) := by
  refine ite_map Iff.rfl
    (fun _ => congrArg (fun w => some (w, _)) (mapHandler_emit commutes s _)) (fun _ => ?_)
  rw [mapHandler_nextId]
  rcases s.nextId with ⟨id, t⟩
  simp only [mapHandler_emit commutes]
  refine ite_map Iff.rfl (fun _ => ?_) (fun _ => ?_)
  · exact bind_map (mapHandler_executeStop commutes _ side id limitPrice qty owner stp isMarket)
      fun _ => rfl
  · exact congrArg (fun w => some (w, _)) (mapHandler_restStop f _ side id price limitPrice qty
      isMarket owner stp)

theorem mapHandler_doModify :
    (s.mapHandler f).doModify id price qty = (s.doModify id price qty).map (mapResult f) := by
  unfold doModify lookup
  rw [mapHandler_mem]
  cases s.mem.lookup id with
  | none => rfl
  | some o =>
      simp only [mapHandler_cancelImpl commutes, mapHandler_doReduce, mapHandler_eraseResting,
        mapHandler_emit commutes]
      refine ite_map Iff.rfl (fun _ => rfl) (fun _ => ?_)
      refine ite_map Iff.rfl (fun _ => rfl) (fun _ => ?_)
      refine ite_map Iff.rfl (fun _ => rfl) (fun _ => ?_)
      refine ite_map Iff.rfl (fun _ => rfl) (fun _ => ?_)
      exact bind_map (mapHandler_placeLimit commutes _ _ _ _ _ _ _ _ _) fun _ => rfl

/-! ## Auctions -/

omit [Handler H] [Handler H'] commutes in
theorem mapHandler_dropSpent (f : H → H') (book : BookName) (i : Nat) (o : Ptr) :
    (let w := if ((s.mapHandler f).mem.nodes o).qty = 0 then
        { s.mapHandler f with mem := (s.mapHandler f).mem.dropHead book i o } else s.mapHandler f;
      (w, (w.mem.levels book i).head.isNone)) =
    mapResult f (let w := if (s.mem.nodes o).qty = 0 then
        { s with mem := s.mem.dropHead book i o } else s;
      (w, (w.mem.levels book i).head.isNone)) := by
  by_cases spent : (s.mem.nodes o).qty = 0
  · refine (congrArg (fun w : MatchingEngine H' => (w, (w.mem.levels book i).head.isNone))
      (if_pos spent)).trans ?_
    rw [if_pos spent]
    rfl
  · refine (congrArg (fun w : MatchingEngine H' => (w, (w.mem.levels book i).head.isNone))
      (if_neg spent)).trans ?_
    rw [if_neg spent]
    rfl

theorem mapHandler_auctionFill (i : Nat) (o : Ptr) (fill : Qty) (px : Price) :
    (s.mapHandler f).auctionFill side i o fill px =
      mapResult f (s.auctionFill side i o fill px) := by
  let fromDisp := if fill < (s.mem.nodes o).qty then fill else (s.mem.nodes o).qty
  let taken := s.mem.takeDisplayed side.book i o fromDisp
  unfold auctionFill
  by_cases iceberg : (s.mem.nodes o).iceberg = true
  · simp only [mapHandler_mem, iceberg, if_true, true_and]
    refine ite_map Iff.rfl (fun _ => ?_) (fun _ => ?_)
    · let mem := (taken.takeReserve side.book i o (fill - fromDisp)).replenish side.book i o
      have shown := mapHandler_emit commutes { s with mem }
        (.rest (s.mem.nodes o).id (s.mem.nodes o).side px (mem.nodes o).qty)
      exact congrArg (fun w : MatchingEngine H' =>
        ({ w with mem := w.mem.requeue side.book i o }, false)) shown
    · exact mapHandler_dropSpent
        { s with mem := taken.takeReserve side.book i o (fill - fromDisp) } f side.book i o
  · simp only [mapHandler_mem, iceberg, Bool.false_eq_true, if_false, false_and]
    exact mapHandler_dropSpent { s with mem := taken } f side.book i o

theorem mapHandler_crossRound (pIdx : Int) (state : MatchingEngine H × Qty) :
    crossRound pIdx (mapResult f state) =
      (crossRound pIdx state).map (Turn.map (mapResult f) (mapResult f)) := by
  rcases state with ⟨s, crossed⟩
  refine ite_map Iff.rfl (fun _ => ?_) (fun _ => rfl)
  simp only [mapHandler_mem, mapHandler_best]
  cases (s.mem.levels .bids (s.best .buy).toNat).head with
  | none => rfl
  | some bid =>
      cases (s.mem.levels .asks (s.best .sell).toNat).head with
      | none => rfl
      | some ask =>
          let bq := (s.mem.nodes bid).qty + s.mem.reserve bid
          let aq := (s.mem.nodes ask).qty + s.mem.reserve ask
          let fill := if bq < aq then bq else aq
          let p := s.min + pIdx
          let filled (K : Type) [Handler K] (w : MatchingEngine K) (side : Side) (i : Nat)
              (o : Ptr) : MatchingEngine K :=
            if (w.auctionFill side i o fill p).2 then
              (w.auctionFill side i o fill p).1.vacateBest side
            else (w.auctionFill side i o fill p).1
          have commuted (w : MatchingEngine H) (side : Side) (i : Nat) (o : Ptr) :
              filled H' (w.mapHandler f) side i o = (filled H w side i o).mapHandler f := by
            simp only [filled, mapHandler_auctionFill commutes, mapResult]
            exact ite_map Iff.rfl (fun _ => rfl) fun _ => rfl
          let t : MatchingEngine H := { s with lastPx := p, hasLast := true }
          let trade := Event.trade ⟨(s.mem.nodes bid).id, (s.mem.nodes ask).id, p, fill, .buy⟩
          have traded := mapHandler_emit commutes t trade
          have bought := (congrArg (filled H' · .buy (s.best .buy).toNat bid) traded).trans
            (commuted (t.emit trade) .buy (s.best .buy).toNat bid)
          have sold := (congrArg (filled H' · .sell (s.best .sell).toNat ask) bought).trans
            (commuted _ .sell (s.best .sell).toNat ask)
          exact congrArg (fun w => some (Turn.again (w, crossed + fill))) sold

theorem mapHandler_doUncross :
    (s.mapHandler f).doUncross = s.doUncross.map (mapResult f) := by
  refine ite_map Iff.rfl (fun _ => rfl) (fun _ => ?_)
  refine ite_map Iff.rfl (fun _ => rfl) (fun _ => ?_)
  exact loop_map (mapHandler_crossRound commutes _) _ (s, 0)

/-! ## Entry points -/

theorem mapHandler_step (op : Op) :
    (s.mapHandler f).step op = (s.step op).map (mapResult f) := by
  have renamed {α : Type} {answer : α → Ret} {call' : Option (MatchingEngine H' × α)}
      {call : Option (MatchingEngine H × α)} (same : call' = call.map (mapResult f)) :
      call'.map (·.map id answer) = (call.map (·.map id answer)).map (mapResult f) := by
    rw [same]
    cases call <;> rfl
  cases op with
  | submitLimit =>
      exact renamed (mapHandler_run commutes s _ _ (mapHandler_doSubmitLimit commutes ..))
  | submitMarket =>
      exact renamed (mapHandler_run commutes s _ _ (mapHandler_doSubmitMarket commutes ..))
  | submitIceberg =>
      exact renamed (mapHandler_run commutes s _ _ (mapHandler_doSubmitIceberg commutes ..))
  | submitStop =>
      exact renamed (mapHandler_run commutes s _ _ (mapHandler_doSubmitStop commutes ..))
  | submitStopLimit =>
      exact renamed (mapHandler_run commutes s _ _ (mapHandler_doSubmitStop commutes ..))
  | cancel id =>
      exact renamed (mapHandler_run commutes s _ _
        (congrArg some (mapHandler_cancelImpl commutes s id)))
  | reduce id delta =>
      exact renamed (mapHandler_run commutes s _ _
        (congrArg some (mapHandler_doReduce f s id delta)))
  | modify => exact renamed (mapHandler_run commutes s _ _ (mapHandler_doModify commutes ..))
  | halt =>
      exact mapHandler_run commutes s (fun s => some ({ s with halted := true }, Ret.done))
        (fun s => some ({ s with halted := true }, Ret.done)) rfl
  | resume =>
      exact mapHandler_run commutes s (fun s => some ({ s with halted := false }, Ret.done))
        (fun s => some ({ s with halted := false }, Ret.done)) rfl
  | uncross => exact renamed (mapHandler_run commutes s _ _ (mapHandler_doUncross commutes s))

omit commutes [Handler H] [Handler H'] in
theorem mapHandler_holds {m : Market} : (s.mapHandler f).Holds m ↔ s.Holds m := by
  constructor
  · rintro ⟨band, r, ⟨⟨cells, mirrors, pumping, stpHalt⟩, sound⟩, rfl⟩
    exact ⟨band, { r with h := s.h }, ⟨⟨cells, { mirrors with h := rfl }, pumping, stpHalt⟩,
      ⟨sound.valid, sound.keyed, sound.settled⟩⟩, rfl⟩
  · rintro ⟨band, r, ⟨⟨cells, mirrors, pumping, stpHalt⟩, sound⟩, rfl⟩
    exact ⟨band, { r with h := f s.h }, ⟨⟨cells, { mirrors with h := rfl }, pumping, stpHalt⟩,
      ⟨sound.valid, sound.keyed, sound.settled⟩⟩, rfl⟩

end MatchingEngine

end Matchbook
