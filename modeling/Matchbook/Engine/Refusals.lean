import Matchbook.Engine.Journal

namespace Matchbook

/-! # Refused calls change nothing

A refusal is decided before anything is changed, and the trigger pump that
still runs after it has nothing to fire. -/

namespace MatchingEngine

variable {H : Type}

/-- The call was refused, with the events a refusal shows. -/
inductive Refused (s : MatchingEngine H) : Op → Ret → List Event → Prop
  | submit {op} (submit : op.IsSubmit) :
      Refused s op (.id invalidOrderId) [.reject invalidOrderId]
  | market {side qty owner stp ret} (halted : s.halted = true) :
      Refused s (.submitMarket side qty owner stp) ret [.reject invalidOrderId]
  | order {op} : Refused s op (.ok false) []

variable [Handler H] {band : Band} {s s' : MatchingEngine H} {r : ReferenceEngine H}

/-- The engine with nothing but its handler changed. -/
def told (s : MatchingEngine H) (events : List Event) : MatchingEngine H :=
  { s with h := Handler.onAll s.h events }

/-! ## The pump at a fixpoint -/

theorem pumpStops_quiet (quiet : s.halted = true ∨ s.nextTriggeredStop = none) :
    s.pumpStops = some s := by
  unfold pumpStops
  rcases quiet with halted | none
  · exact if_pos halted
  · split
    · rfl
    · exact BoundedLoop.loop_leave (by rw [pumpRound, none]) _

omit [Handler H] in
theorem Simulates.quiet (simulates : Simulates band s r) :
    s.halted = true ∨ s.nextTriggeredStop = none := by
  rcases simulates.tracks with ⟨cells, mirrors, -⟩
  rcases simulates.sound.settled with halted | quiet
  · exact .inl (mirrors.halted.trans halted)
  · exact .inr (nextTriggeredStop_none mirrors simulates.sound.valid.stopInside quiet)

theorem Simulates.run_refused (simulates : Simulates band s r)
    (body : MatchingEngine H → Option (MatchingEngine H × α)) {result : α} (events : List Event)
    (refuses : body s = some (s.told events, result)) :
    s.run body = some (s.told events, result) := by
  have idle : (s.told events).pumping = false := by
    rcases simulates.tracks with ⟨cells, mirrors, flags⟩
    exact flags.1
  have pumped : { s.told events with pumping := true }.pumpStops =
      some { s.told events with pumping := true } := pumpStops_quiet simulates.quiet
  simp only [run, refuses, Option.bind_eq_bind, Option.bind_some, idle, Bool.false_eq_true,
    if_false, pumped]
  rw [← idle]

theorem run_inv (body : MatchingEngine H → Option (MatchingEngine H × α))
    {result : α} (run : s.run body = some (s', result)) : ∃ s₁, body s = some (s₁, result) := by
  rcases Option.bind_eq_some_iff.mp run with ⟨⟨s₁, result₁⟩, bodyRuns, rest⟩
  have same : result₁ = result := by
    dsimp only at rest
    split at rest
    · cases rest
      rfl
    · rcases Option.bind_eq_some_iff.mp rest with ⟨s₂, -, last⟩
      cases last
      rfl
  exact ⟨s₁, same ▸ bodyRuns⟩

/-! ## Who refuses -/

section bodies

variable {side : Side} {price limit : Price} {qty display delta : Qty} {tif : TimeInForce}
  {owner : OwnerId} {stp : StpPolicy} {peak : Qty} {id : OrderId}

theorem enterLimit_id (run : s.enterLimit side price qty tif owner stp peak = some (s', id)) :
    id = s.mem.orders.size := by
  rw [enterLimit_eq] at run
  dsimp only at run
  split at run
  · split at run <;> cases run <;> rfl
  · rcases Option.bind_eq_some_iff.mp run with ⟨short, -, rest⟩
    split at rest
    · cases rest
      rfl
    · split at rest
      · cases rest
        rfl
      · rcases Option.bind_eq_some_iff.mp rest with ⟨placed, -, last⟩
        cases last
        rfl

theorem doSubmitStop_id {isMarket : Bool}
    (run : s.doSubmitStop side price limit qty isMarket owner stp = some (s', id)) :
    (s' = s.told [.reject invalidOrderId] ∧ id = invalidOrderId) ∨ id = s.mem.orders.size := by
  by_cases admitted : ¬ s.inBand price ∨ qty = 0 ∨ (¬ isMarket ∧ ¬ s.inBand limit)
  · rw [doSubmitStop, if_pos admitted] at run
    cases run
    exact .inl ⟨rfl, rfl⟩
  · rw [doSubmitStop_eq s _ _ _ _ _ _ _ admitted] at run
    dsimp only at run
    split at run
    · rcases Option.bind_eq_some_iff.mp run with ⟨fired, -, last⟩
      cases last
      exact .inr rfl
    · cases run
      exact .inr rfl

theorem doSubmitLimit_id
    (run : s.doSubmitLimit side price qty tif owner stp = some (s', id)) :
    (s' = s.told [.reject invalidOrderId] ∧ id = invalidOrderId) ∨ id = s.mem.orders.size := by
  unfold doSubmitLimit at run
  split at run
  · cases run
    exact .inl ⟨rfl, rfl⟩
  · exact .inr (enterLimit_id run)

theorem doSubmitIceberg_id
    (run : s.doSubmitIceberg side price qty display tif owner stp = some (s', id)) :
    (s' = s.told [.reject invalidOrderId] ∧ id = invalidOrderId) ∨ id = s.mem.orders.size := by
  unfold doSubmitIceberg at run
  split at run
  · cases run
    exact .inl ⟨rfl, rfl⟩
  · exact .inr (enterLimit_id run)

theorem cancelImpl_false (refused : (s.cancelImpl id).2 = false) :
    s.cancelImpl id = (s, false) := by
  unfold cancelImpl at refused ⊢
  split
  · rfl
  · rename_i found
    simp [found] at refused

omit [Handler H] in
theorem doReduce_false (refused : (s.doReduce id delta).2 = false) :
    s.doReduce id delta = (s, false) := by
  unfold doReduce at refused ⊢
  split
  · rfl
  · rename_i o found
    simp only [found] at refused
    split at refused
    · rename_i stop
      rw [if_pos stop]
    · split at refused <;> split at refused <;> contradiction

theorem doModify_false (run : s.doModify id price qty = some (s', false)) : s' = s := by
  unfold doModify at run
  split at run
  · cases run
    rfl
  · dsimp only at run
    split at run
    · cases run
      rfl
    split at run
    · rename_i zero
      have same := Option.some.inj run
      rw [cancelImpl_false (congrArg Prod.snd same)] at same
      exact (congrArg Prod.fst same).symm
    split at run
    · cases run
      rfl
    rename_i o _ _ _ _
    generalize (if (s.mem.nodes o).iceberg = true then
      (s.mem.nodes o).qty + (s.mem.extra o).reserve else (s.mem.nodes o).qty) = total at run
    split at run
    · have same := Option.some.inj run
      rw [doReduce_false (congrArg Prod.snd same)] at same
      exact (congrArg Prod.fst same).symm
    · rcases Option.bind_eq_some_iff.mp run with ⟨placed, -, last⟩
      cases last

end bodies

/-! ## Refused operations -/

theorem Simulates.submit_refused (simulates : Simulates band s r)
    {body : MatchingEngine H → Option (MatchingEngine H × OrderId)}
    (decides : ∀ s₁ id, body s = some (s₁, id) →
      (s₁ = s.told [.reject invalidOrderId] ∧ id = invalidOrderId) ∨ id = s.mem.orders.size)
    (step : (s.run body).map (·.map id Ret.id) = some (s', .id invalidOrderId)) :
    s' = s.told [.reject invalidOrderId] := by
  rcases Option.map_eq_some_iff.mp step with ⟨⟨s₂, id⟩, runs, same⟩
  cases same
  rcases run_inv body runs with ⟨s₁, bodyRuns⟩
  rcases decides s₁ invalidOrderId bodyRuns with ⟨rejected, -⟩ | issued
  · rw [rejected] at bodyRuns
    have kept := simulates.run_refused body _ bodyRuns
    exact congrArg Prod.fst (Option.some.inj (runs.symm.trans kept))
  · rcases simulates.tracks with ⟨cells, mirrors, -⟩
    have started := simulates.sound.valid.started
    have ids : s.mem.orders.size = r.market.nextId := mirrors.ids
    rw [← ids, ← issued] at started
    exact absurd started (Nat.lt_irrefl 0)

theorem Simulates.order_refused (simulates : Simulates band s r)
    {body : MatchingEngine H → Option (MatchingEngine H × Bool)}
    (decides : ∀ s₁, body s = some (s₁, false) → s₁ = s)
    (step : (s.run body).map (·.map id Ret.ok) = some (s', .ok false)) : s' = s := by
  rcases Option.map_eq_some_iff.mp step with ⟨⟨s₂, ok⟩, runs, same⟩
  cases same
  rcases run_inv body runs with ⟨s₁, bodyRuns⟩
  rw [decides s₁ bodyRuns] at bodyRuns
  have kept := simulates.run_refused body [] bodyRuns
  exact congrArg Prod.fst (Option.some.inj (runs.symm.trans kept))

theorem Simulates.refused (simulates : Simulates band s r) {op : Op} {ret : Ret}
    {events : List Event} (step : s.step op = some (s', ret)) (refused : s.Refused op ret events) :
    s' = s.told events := by
  cases refused with
  | submit submit =>
      cases op with
      | submitLimit side price qty tif owner stp =>
          exact simulates.submit_refused (fun _ _ => doSubmitLimit_id) step
      | submitIceberg side price totalQty display tif owner stp =>
          exact simulates.submit_refused (fun _ _ => doSubmitIceberg_id) step
      | submitStop side stopPrice qty owner stp =>
          exact simulates.submit_refused (fun _ _ => doSubmitStop_id) step
      | submitStopLimit side stopPrice limitPrice qty owner stp =>
          exact simulates.submit_refused (fun _ _ => doSubmitStop_id) step
      | submitMarket side qty owner stp =>
          rcases Option.map_eq_some_iff.mp step with ⟨⟨s₂, left⟩, -, same⟩
          cases same
      | cancel id => exact submit.elim
      | reduce id delta => exact submit.elim
      | modify id price qty => exact submit.elim
      | halt => exact submit.elim
      | resume => exact submit.elim
      | uncross => exact submit.elim
  | @market side qty owner stp ret halted =>
      have rejects : s.doSubmitMarket side qty owner stp =
          some (s.told [.reject invalidOrderId], qty) := if_pos halted
      have kept := simulates.run_refused (·.doSubmitMarket side qty owner stp) _ rejects
      rcases Option.map_eq_some_iff.mp step with ⟨⟨s₂, left⟩, runs, same⟩
      cases same
      exact congrArg Prod.fst (Option.some.inj (runs.symm.trans kept))
  | order =>
      cases op with
      | cancel id =>
          exact simulates.order_refused (fun s₁ same => by
            have refuses := congrArg Prod.snd (Option.some.inj same)
            rw [cancelImpl_false refuses] at same
            exact (congrArg Prod.fst (Option.some.inj same)).symm) step
      | reduce id delta =>
          exact simulates.order_refused (fun s₁ same => by
            have refuses := congrArg Prod.snd (Option.some.inj same)
            rw [doReduce_false refuses] at same
            exact (congrArg Prod.fst (Option.some.inj same)).symm) step
      | modify id price qty =>
          exact simulates.order_refused (fun _ => doModify_false) step
      | submitLimit side price qty tif owner stp =>
          rcases Option.map_eq_some_iff.mp step with ⟨⟨s₂, id⟩, -, same⟩
          cases same
      | submitIceberg side price totalQty display tif owner stp =>
          rcases Option.map_eq_some_iff.mp step with ⟨⟨s₂, id⟩, -, same⟩
          cases same
      | submitMarket side qty owner stp =>
          rcases Option.map_eq_some_iff.mp step with ⟨⟨s₂, left⟩, -, same⟩
          cases same
      | submitStop side stopPrice qty owner stp =>
          rcases Option.map_eq_some_iff.mp step with ⟨⟨s₂, id⟩, -, same⟩
          cases same
      | submitStopLimit side stopPrice limitPrice qty owner stp =>
          rcases Option.map_eq_some_iff.mp step with ⟨⟨s₂, id⟩, -, same⟩
          cases same
      | uncross =>
          rcases Option.map_eq_some_iff.mp step with ⟨⟨s₂, crossed⟩, -, same⟩
          cases same
      | halt =>
          rcases run_inv (fun s => some ({ s with halted := true }, Ret.done)) step with ⟨s₁, same⟩
          cases same
      | resume =>
          rcases run_inv (fun s => some ({ s with halted := false }, Ret.done)) step with ⟨s₁, same⟩
          cases same

/-- In every reachable state a refused call leaves the whole engine as it was. The
handler hears of one reject if it was a submission, and of nothing otherwise. -/
theorem step_refused (band : Band) (h : H) (expectedOrders : Nat) (ops : List Op) (op : Op) :
    ∃ s rets s' ret, (new band h expectedOrders).runOps ops = some (s, rets) ∧
      s.step op = some (s', ret) ∧ ∀ events, s.Refused op ret events → s' = s.told events := by
  rcases (simulates_new band h expectedOrders).runOps ops with ⟨s, r, rets, run, -, simulates⟩
  rcases simulates.step op with ⟨s', r', ret, step, -, -, -⟩
  exact ⟨s, rets, s', ret, run, step, fun events => simulates.refused step⟩

end MatchingEngine

end Matchbook
