import Matchbook.Engine.Walk

namespace Matchbook

open BoundedLoop

/-! # Order entry in lockstep -/

namespace MatchingEngine

variable {H : Type} [Handler H] {min : Price} {nLevels : Nat} {s s' : MatchingEngine H}
  {r r' : ReferenceEngine H}

abbrev accepted (s : MatchingEngine H) (side : Side) (price : Price) (qty : Qty) :
    MatchingEngine H :=
  s.nextId.2.emit (.accept s.nextId.1 side price qty)

theorem accepted_lockstep (tracks : Tracks min nLevels false false s r) (side : Side)
    (price : Price) (qty : Qty) :
    s.nextId.1 = r.nextId ∧
      Tracks min nLevels false false (s.accepted side price qty) (r.accepted side price qty) := by
  rcases tracks with ⟨cells, mirrors, flags⟩
  have issued : s.nextId.1 = r.nextId := mirrors.ids
  refine ⟨issued, cells, ?_, flags⟩
  rw [accepted, issued]
  exact mirrors.nextId.emit _

theorem enterLimit_eq (s : MatchingEngine H) (side : Side) (price : Price) (qty : Qty)
    (tif : TimeInForce) (owner : OwnerId) (stp : StpPolicy) (peak : Qty) :
    s.enterLimit side price qty tif owner stp peak =
      let id := s.nextId.1
      let s := s.accepted side price qty
      if s.halted then
        if tif ≠ .gtc then some (s.emit (.cancel id), id)
        else some (s.rest id side price qty owner stp peak, id)
      else
        (if tif = .fok then (s.fillable side price qty).map fun sum => decide (sum < qty)
          else some false).bind fun short =>
        if short then some (s.emit (.cancel id), id)
        else if tif = .postOnly ∧ s.wouldCross side price then some (s.emit (.cancel id), id)
        else (s.placeLimit id side price qty tif owner stp peak).bind fun s => some (s, id) := by
  unfold enterLimit
  by_cases isFok : tif = .fok
  · simp only [if_pos isFok]
    rfl
  · simp only [if_neg isFok]
    rfl

theorem enterLimit_lockstep {side : Side} {price : Price} {qty : Qty}
    {tif : TimeInForce} {owner : OwnerId} {stp : StpPolicy} {peak : Qty} {id : OrderId}
    (tracks : Tracks min nLevels false false s r) (valid : r.market.Valid) (keyed : r.Keyed)
    (settled : r.market.Settled) (inside : r.inBand price) (nonzero : qty ≠ 0)
    (run : r.enter side price qty tif owner stp peak = some (r', id)) :
    ∃ s', s.enterLimit side price qty tif owner stp peak = some (s', id) ∧
      PumpsTo min nLevels s' r' := by
  rcases accepted_lockstep tracks side price qty with ⟨issued, tracks₁⟩
  generalize accepted : s.accepted side price qty = s₁ at tracks₁
  rw [enterLimit_eq, issued, accepted]
  dsimp only
  rw [ReferenceEngine.enter_eq] at run
  simp only at run
  have valid₁ : (r.accepted side price qty).market.Valid := valid.issue
  have start : ValidState ({ r.market with nextId := r.nextId + 1 },
      .taking (.ofLimit r.nextId side price qty tif owner stp peak)) :=
    ⟨valid.issue, Taker.ofLimit_valid valid.fresh ⟨valid.started, Nat.lt_succ_self _⟩ inside⟩
  have settled₁ : (r.accepted side price qty).market.Settled := settled
  generalize accepted' : r.accepted side price qty = r₁ at run tracks₁ valid₁ settled₁
  have market : r₁.market = { r.market with nextId := r.nextId + 1 } := by
    rw [← accepted']
    rfl
  have keyed₁ : r₁.Keyed := by
    rw [← accepted']
    exact keyed
  have inside₁ : r₁.inBand price := by
    rw [← accepted']
    exact inside
  have halted₁ : r₁.halted = r.halted := by
    rw [← accepted']
    rfl
  have taking : ValidState (r₁.market,
      .taking (.ofLimit r.nextId side price qty tif owner stp peak)) := market ▸ start
  rcases tracks₁ with ⟨cells, mirrors, flags⟩
  have refused : PumpsTo min nLevels (s₁.emit (.cancel r.nextId))
      (r₁.emit (.cancel r.nextId)) :=
    pumpsTo_settled ⟨cells, mirrors.emit _, flags⟩ valid₁ keyed₁ settled₁
  rw [mirrors.halted, halted₁]
  by_cases halted : r.halted = true
  · rw [if_pos halted] at run ⊢
    by_cases isGtc : tif = .gtc
    · rw [if_neg (not_not.mpr isGtc)] at run ⊢
      cases run
      have isHalted : r₁.halted = true := halted₁.trans halted
      have pump : (r₁.restShaped r.nextId side price qty peak owner stp).pump =
          some (r₁.restShaped r.nextId side price qty peak owner stp) := by
        rw [ReferenceEngine.pump, if_pos]
        left
        unfold ReferenceEngine.restShaped
        split <;> exact isHalted
      obtain ⟨s₂, placed, pumps⟩ := placeLimit_pumps ⟨cells, mirrors, flags⟩ keyed₁
        taking (fun _ => ⟨nonzero, isGtc⟩) inside₁
        (if_pos isHalted) pump
      rw [placeLimit, if_pos (mirrors.halted.trans isHalted), Option.some.injEq] at placed
      exact ⟨s₂, by rw [placed], pumps⟩
    · rw [if_pos isGtc] at run ⊢
      cases run
      exact ⟨_, rfl, refused⟩
  · rw [if_neg halted] at run ⊢
    have check : (if tif = .fok then (s₁.fillable side price qty).map fun sum => decide (sum < qty)
        else some false) = some (decide (tif = .fok ∧ r₁.fillable side price qty < qty)) := by
      rw [mirrors.fillable_eq side inside₁]
      by_cases isFok : tif = .fok <;> simp [isFok]
    rw [check, Option.bind_some]
    by_cases short : tif = .fok ∧ r₁.fillable side price qty < qty
    · rw [if_pos short] at run
      cases run
      exact ⟨_, if_pos (decide_eq_true short), refused⟩
    rw [if_neg short] at run
    rw [if_neg (by simpa using short)]
    by_cases crosses : tif = .postOnly ∧ r₁.wouldCross side price
    · rw [if_pos crosses] at run
      cases run
      exact ⟨_, if_pos ⟨crosses.1, (mirrors.wouldCross_iff side price).mpr crosses.2⟩, refused⟩
    rw [if_neg crosses] at run
    rw [if_neg (by rwa [mirrors.wouldCross_iff])]
    rcases Option.bind_eq_some_iff.mp run with ⟨r₂, placed, run⟩
    rcases Option.bind_eq_some_iff.mp run with ⟨r₃, pump, same⟩
    cases same
    obtain ⟨s₂, placed, pumps⟩ := placeLimit_pumps ⟨cells, mirrors, flags⟩ keyed₁
      taking (fun isHalted => absurd (halted₁.symm.trans isHalted) halted) inside₁
      placed pump
    exact ⟨s₂, by rw [placed]; rfl, pumps⟩

theorem doSubmitLimit_lockstep {side : Side} {price : Price} {qty : Qty} {tif : TimeInForce}
    {owner : OwnerId} {stp : StpPolicy} {id : OrderId}
    (tracks : Tracks min nLevels false false s r) (valid : r.market.Valid) (keyed : r.Keyed)
    (settled : r.market.Settled)
    (run : r.submitLimit side price qty tif owner stp = some (r', id)) :
    ∃ s', s.doSubmitLimit side price qty tif owner stp = some (s', id) ∧
      PumpsTo min nLevels s' r' := by
  rcases tracks with ⟨cells, mirrors, flags⟩
  unfold ReferenceEngine.submitLimit at run
  unfold doSubmitLimit
  simp only [mirrors.inBand_iff]
  split at run
  · rename_i rejected
    cases run
    exact ⟨_, if_pos rejected, pumpsTo_settled ⟨cells, mirrors.emit _, flags⟩ valid keyed settled⟩
  · rename_i admitted
    rw [if_neg admitted]
    obtain ⟨inside, nonzero⟩ : r.inBand price ∧ qty ≠ 0 := by simpa using admitted
    exact enterLimit_lockstep ⟨cells, mirrors, flags⟩ valid keyed settled inside nonzero run

theorem doSubmitIceberg_lockstep {side : Side} {price : Price} {totalQty display : Qty}
    {tif : TimeInForce} {owner : OwnerId} {stp : StpPolicy} {id : OrderId}
    (tracks : Tracks min nLevels false false s r) (valid : r.market.Valid) (keyed : r.Keyed)
    (settled : r.market.Settled)
    (run : r.submitIceberg side price totalQty display tif owner stp = some (r', id)) :
    ∃ s', s.doSubmitIceberg side price totalQty display tif owner stp = some (s', id) ∧
      PumpsTo min nLevels s' r' := by
  rcases tracks with ⟨cells, mirrors, flags⟩
  unfold ReferenceEngine.submitIceberg at run
  unfold doSubmitIceberg
  simp only [mirrors.inBand_iff]
  split at run
  · rename_i rejected
    cases run
    exact ⟨_, if_pos rejected, pumpsTo_settled ⟨cells, mirrors.emit _, flags⟩ valid keyed settled⟩
  · rename_i admitted
    rw [if_neg admitted]
    obtain ⟨inside, nonzero, -⟩ : r.inBand price ∧ totalQty ≠ 0 ∧ display ≠ 0 := by
      simpa using admitted
    exact enterLimit_lockstep ⟨cells, mirrors, flags⟩ valid keyed settled inside nonzero run

theorem doSubmitMarket_lockstep {side : Side} {qty left : Qty} {owner : OwnerId}
    {stp : StpPolicy} (tracks : Tracks min nLevels false false s r) (valid : r.market.Valid)
    (keyed : r.Keyed) (settled : r.market.Settled)
    (run : r.submitMarket side qty owner stp = some (r', left)) :
    ∃ s', s.doSubmitMarket side qty owner stp = some (s', left) ∧ PumpsTo min nLevels s' r' := by
  rcases accepted_lockstep tracks side 0 qty with ⟨issued, tracks₁⟩
  rcases tracks with ⟨cells, mirrors, flags⟩
  unfold ReferenceEngine.submitMarket at run
  unfold doSubmitMarket
  rw [mirrors.halted]
  by_cases halted : r.halted = true
  · rw [if_pos halted] at run ⊢
    cases run
    exact ⟨_, rfl, pumpsTo_settled ⟨cells, mirrors.emit _, flags⟩ valid keyed settled⟩
  have running : r.halted = false := by simpa using halted
  rw [if_neg halted] at run ⊢
  rcases Option.bind_eq_some_iff.mp run with ⟨⟨r₁, left', haltFlag⟩, matched, run⟩
  rcases Option.bind_eq_some_iff.mp run with ⟨r₂, pump, same⟩
  cases same
  rcases matchMarket_lockstep tracks₁ matched with ⟨s₁, fast, tracks₂⟩
  have start : r.market.Begin (.submitMarket side qty owner stp) _ _ .done := .market running
  obtain ⟨r₁', left', haltFlag', matched', placed⟩ := ReferenceEngine.market_spec
    (r := r.accepted side 0 qty) (start.valid valid) keyed running
  rcases Prod.mk.inj (Option.some.inj (matched'.symm.trans matched)) with ⟨rfl, -⟩
  refine ⟨s₁, ?_, r₁', tracks₂, (placed.took.valid (start.valid valid)).1, placed.keyed, pump⟩
  rw [← fast, ← issued]

theorem doSubmitStop_eq (s : MatchingEngine H) (side : Side) (price limit : Price) (qty : Qty)
    (isMarket : Bool) (owner : OwnerId) (stp : StpPolicy)
    (admitted : ¬ (¬ s.inBand price ∨ qty = 0 ∨ (¬ isMarket ∧ ¬ s.inBand limit))) :
    s.doSubmitStop side price limit qty isMarket owner stp =
      let id := s.nextId.1
      let s := s.accepted side price qty
      if ¬ s.halted ∧ s.hasLast ∧ stopTriggered side price s.lastPx then
        (s.executeStop id side limit qty isMarket owner stp).bind fun s => some (s, id)
      else some (s.restStop id side price limit qty isMarket owner stp, id) :=
  if_neg admitted

theorem doSubmitStop_lockstep {op : Op} {o : RO} {id : OrderId}
    (tracks : Tracks min nLevels false false s r) (valid : r.market.Valid) (keyed : r.Keyed)
    (settled : r.market.Settled) (entry : op.Stop r.nextId o)
    (run : r.doStop o.side o.price o.stopLimit o.qty o.stopMarket o.owner o.stp =
      some (r', id)) :
    ∃ s', s.doSubmitStop o.side o.price o.stopLimit o.qty o.stopMarket o.owner o.stp =
        some (s', id) ∧ PumpsTo min nLevels s' r' := by
  rcases accepted_lockstep tracks o.side o.price o.qty with ⟨issued, tracks₁⟩
  rcases tracks with ⟨cells, mirrors, flags⟩
  unfold ReferenceEngine.doStop at run
  have sameCheck : (¬ s.inBand o.price ∨ o.qty = 0 ∨
      (¬ o.stopMarket = true ∧ ¬ s.inBand o.stopLimit)) ↔
      ¬ r.inBand o.price ∨ o.qty = 0 ∨ (¬ o.stopMarket = true ∧ ¬ r.inBand o.stopLimit) := by
    rw [mirrors.inBand_iff, mirrors.inBand_iff]
  split at run
  · rename_i rejected
    cases run
    exact ⟨_, if_pos (sameCheck.mpr rejected),
      pumpsTo_settled ⟨cells, mirrors.emit _, flags⟩ valid keyed settled⟩
  rename_i admitted
  obtain ⟨inside, nonzero, limit⟩ : r.inBand o.price ∧ o.qty ≠ 0 ∧
      (o.stopMarket = false → r.inBand o.stopLimit) := by simpa using admitted
  have sameId : o.id = r.nextId := entry.id_eq
  generalize accepted : s.accepted o.side o.price o.qty = s₁ at tracks₁
  rw [doSubmitStop_eq s _ _ _ _ _ _ _ (mt sameCheck.mp admitted), issued, accepted]
  dsimp only
  rcases tracks₁ with ⟨cells₁, mirrors₁, flags₁⟩
  have through : stopTriggered o.side o.price s₁.lastPx ↔ r.triggered o.side o.price := by
    rw [mirrors₁.last]
    cases o.side <;> rfl
  have fires_iff : (¬ s₁.halted = true ∧ s₁.hasLast = true ∧
      stopTriggered o.side o.price s₁.lastPx) ↔
      ¬ r.halted = true ∧ r.hasLast = true ∧ r.triggered o.side o.price := by
    rw [through, mirrors₁.halted, mirrors₁.hasLast]
    rfl
  by_cases fires : ¬ r.halted = true ∧ r.hasLast = true ∧ r.triggered o.side o.price
  · rw [if_pos (fires_iff.mpr fires)]
    have running : r.halted = false := by simpa using fires.1
    have start := Market.Begin.trigger (m := r.market) entry nonzero inside limit
      running ((ReferenceEngine.armed_iff fires.2.1 o).mpr fires.2.2)
    have valid₁ := start.valid valid
    rcases Option.bind_eq_some_iff.mp ((if_pos fires).symm.trans run) with ⟨r₂, fired, run⟩
    rcases Option.bind_eq_some_iff.mp run with ⟨r₃, pump, same⟩
    cases same
    replace fired : (r.accepted o.side o.price o.qty).fire o.id o.side o.stopLimit o.qty
        o.stopMarket o.owner o.stp = some r₂ := by
      rw [sameId]
      exact fired
    obtain ⟨s₂, fast, tracks₂⟩ := executeStop_lockstep o.stopLimit ⟨cells₁, mirrors₁, flags₁⟩
      keyed valid₁ (fun notMarket => ⟨rfl, limit notMarket⟩) fired
    obtain ⟨r₂', fired', placed⟩ := ReferenceEngine.fire_spec
      (r := r.accepted o.side o.price o.qty) valid₁ keyed running
    obtain rfl : r₂' = r₂ := Option.some.inj (fired'.symm.trans fired)
    rw [sameId] at fast
    exact ⟨s₂, by rw [fast]; rfl, r₂', tracks₂, (placed.took.valid valid₁).1, placed.keyed, pump⟩
  · rw [if_neg (mt fires_iff.mp fires)]
    have waits : r.halted = true ∨ ¬ r.market.Armed o := by
      by_cases halted : r.halted = true
      · exact .inl halted
      · refine .inr fun armed => fires ⟨halted, ?_⟩
        by_cases printed : r.hasLast = true
        · exact ⟨printed, (ReferenceEngine.armed_iff printed o).mp armed⟩
        · simp [Market.Armed, ReferenceEngine.market, printed] at armed
    have start := Market.Begin.park (m := r.market) entry nonzero inside limit waits
    rcases Option.bind_eq_some_iff.mp ((if_neg fires).symm.trans run) with ⟨r₃, pump, same⟩
    cases same
    have unlimited : o.stopMarket = true → o.stopLimit = 0 := by
      cases entry with
      | market => exact fun _ => rfl
      | limit => exact fun isMarket => absurd isMarket (by simp)
    have unused : s₁.mem.lookup o.id = none := by
      refine mirrors₁.lookup_none ?_
      rw [sameId]
      exact valid.fresh
    have issued₁ : o.id < r.nextId + 1 := by
      rw [sameId]
      exact Nat.lt_succ_self _
    have parks : RO.mk o.id o.side o.price o.qty 0 0 o.owner o.stp o.stopMarket o.stopLimit =
        o := by
      cases entry <;> rfl
    have parked : Tracks min nLevels false false
        (s₁.restStop o.id o.side o.price o.stopLimit o.qty o.stopMarket o.owner o.stp)
        { r.accepted o.side o.price o.qty with
          stops := r.stops ++ [RO.mk o.id o.side o.price o.qty 0 0 o.owner o.stp o.stopMarket
            o.stopLimit] } :=
      restStop_lockstep ⟨cells₁, mirrors₁, flags₁⟩ inside unused issued₁ unlimited
    rw [parks] at parked
    refine ⟨_, by rw [← sameId], _, parked, (start.valid valid).1, keyed, ?_⟩
    rw [sameId] at parks
    rw [← pump, parks]
    rfl

end MatchingEngine

end Matchbook
