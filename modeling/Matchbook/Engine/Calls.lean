import Matchbook.Engine.Refusals
import Matchbook.Engine.Visits

namespace Matchbook

open Transitions

/-! # The entry points under their own types

What feeds and sessions call, with the answer each entry point returns. -/

namespace MatchingEngine

variable {H : Type} [Handler H]

def submitLimit (s : MatchingEngine H) (side : Side) (price : Price) (qty : Qty)
    (tif : TimeInForce) (owner : OwnerId) (stp : StpPolicy) :
    Option (MatchingEngine H × OrderId) :=
  s.run (·.doSubmitLimit side price qty tif owner stp)

def submitIceberg (s : MatchingEngine H) (side : Side) (price : Price) (totalQty display : Qty)
    (tif : TimeInForce) (owner : OwnerId) (stp : StpPolicy) :
    Option (MatchingEngine H × OrderId) :=
  s.run (·.doSubmitIceberg side price totalQty display tif owner stp)

def cancel (s : MatchingEngine H) (id : OrderId) : Option (MatchingEngine H × Bool) :=
  s.run fun s => some (s.cancelImpl id)

def reduce (s : MatchingEngine H) (id : OrderId) (delta : Qty) :
    Option (MatchingEngine H × Bool) :=
  s.run fun s => some (s.doReduce id delta)

def modify (s : MatchingEngine H) (id : OrderId) (newPrice : Price) (newQty : Qty) :
    Option (MatchingEngine H × Bool) :=
  s.run (·.doModify id newPrice newQty)

def uncross (s : MatchingEngine H) : Option (MatchingEngine H × Qty) := s.run (·.doUncross)

def halt (s : MatchingEngine H) : Option (MatchingEngine H) := (s.step .halt).map Prod.fst

def resume (s : MatchingEngine H) : Option (MatchingEngine H) := (s.step .resume).map Prod.fst

def Live (s : MatchingEngine H) : Prop := ∃ band r, Simulates band s r

end MatchingEngine

/-! ## The halted flag -/

def Op.haltedAfter (halted : Bool) : Op → Bool
  | .halt => true
  | .resume => false
  | _ => halted

namespace Market

theorem Step.halted {state next : Market × Phase} {events : List Event}
    (step : Step state events next) : next.1.halted = state.1.halted := by
  cases step <;> rfl

theorem Step.run_halted {state final : Market × Phase} {events : List Event}
    (run : Run Step state events final) : final.1.halted = state.1.halted := by
  induction run with
  | refl => rfl
  | snoc run last induction => exact (Step.halted last).trans induction

theorem Begin.halted {m : Market} {op : Op} {events : List Event} {next : Market × Phase}
    {ret : Ret} (start : m.Begin op events next ret) : next.1.halted = op.haltedAfter m.halted := by
  cases start with
  | reject submit answer bad => cases op <;> first | rfl | exact absurd submit id
  | refuse entry => cases entry <;> rfl
  | enter entry => cases entry <;> rfl
  | trigger entry => cases entry <;> rfl
  | park entry => cases entry <;> rfl
  | decline target => cases target <;> rfl
  | cancel cancels => cases cancels <;> rfl
  | cancelStop cancels => cases cancels <;> rfl
  | erase reduces => cases reduces <;> rfl
  | reduce reduces => cases reduces <;> rfl
  | _ => rfl

theorem Performs.halted {m m' : Market} {op : Op} {events : List Event} {ret : Ret}
    (performs : m.Performs op events m' ret) : m'.halted = op.haltedAfter m.halted := by
  cases performs with
  | intro start steps settled answers => exact (Step.run_halted steps).trans start.halted

/-! ## Trades while halted -/

theorem Step.quiet {state next : Market × Phase} {events : List Event}
    (step : Step state events next) (halted : state.1.halted = true)
    (calm : ∀ p, state.2 ≠ .crossing p) :
    (∀ t, .trade t ∉ events) ∧ ∀ p, next.2 ≠ .crossing p := by
  cases step with
  | fill meets => exact absurd (halted.symm.trans meets.running) Bool.noConfusion
  | cross => exact absurd rfl (calm _)
  | _ => simp

theorem Step.run_quiet {state final : Market × Phase} {events : List Event}
    (run : Run Step state events final) (halted : state.1.halted = true)
    (calm : ∀ p, state.2 ≠ .crossing p) :
    (∀ t, .trade t ∉ events) ∧ ∀ p, final.2 ≠ .crossing p := by
  induction run with
  | refl => exact ⟨fun _ => List.not_mem_nil, calm⟩
  | snoc run last induction =>
      have still : _ = true := (Step.run_halted run).trans halted
      rcases Step.quiet last still induction.2 with ⟨quiet, calm'⟩
      refine ⟨?_, calm'⟩
      intro t member
      rcases List.mem_append.1 member with before | now
      · exact induction.1 t before
      · exact quiet t now

theorem Begin.quiet {m : Market} {op : Op} {events : List Event} {next : Market × Phase}
    {ret : Ret} (start : m.Begin op events next ret) (continuous : op ≠ .uncross) :
    (∀ t, .trade t ∉ events) ∧ ∀ p, next.2 ≠ .crossing p := by
  cases start with
  | uncross => exact absurd rfl continuous
  | _ => simp

theorem Performs.quiet {m m' : Market} {op : Op} {events : List Event} {ret : Ret}
    (performs : m.Performs op events m' ret) (halted : op.haltedAfter m.halted = true)
    (continuous : op ≠ .uncross) : ∀ t, .trade t ∉ events := by
  cases performs with
  | intro start steps settled answers =>
      rcases start.quiet continuous with ⟨quiet, calm⟩
      rcases Step.run_quiet steps (start.halted.trans halted) calm with ⟨later, -⟩
      intro t member
      rcases List.mem_append.1 member with first | rest
      · exact quiet t first
      · exact later t rest

end Market

namespace MatchingEngine

variable {H : Type} [Handler H] {band : Band} {s s' : MatchingEngine H} {r : ReferenceEngine H}

omit [Handler H] in
theorem Simulates.halted (simulates : Simulates band s r) : s.halted = r.halted := by
  rcases simulates.tracks with ⟨cells, mirrors, -⟩
  exact mirrors.halted

theorem Live.step (live : s.Live) (op : Op) :
    ∃ s' ret, s.step op = some (s', ret) ∧ s'.Live ∧ s'.halted = op.haltedAfter s.halted := by
  rcases live with ⟨band, r, simulates⟩
  rcases simulates.step op with ⟨s', r', ret, fast, ref, simulates', performed⟩
  rcases performed.performs with ⟨events, performs, -⟩
  refine ⟨s', ret, fast, ⟨band, r', simulates'⟩, ?_⟩
  rw [simulates'.halted, simulates.halted]
  exact performs.halted

theorem Live.step_quiet (live : s.Live) (op : Op) (halted : op.haltedAfter s.halted = true)
    (continuous : op ≠ .uncross) :
    ∃ s' ret events, s.step op = some (s', ret) ∧ s'.h = Handler.onAll s.h events ∧
      ∀ t, .trade t ∉ events := by
  rcases live with ⟨band, r, simulates⟩
  rcases simulates.step op with ⟨s', r', ret, fast, ref, simulates', performed⟩
  rcases performed.performs with ⟨events, performs, handled⟩
  rcases simulates.tracks with ⟨cells, mirrors, -⟩
  rcases simulates'.tracks with ⟨cells', mirrors', -⟩
  refine ⟨s', ret, events, fast, by rw [mirrors'.h, handled, mirrors.h], ?_⟩
  rw [simulates.halted] at halted
  exact performs.quiet halted continuous

omit [Handler H] in
theorem live_new (band : Band) (h : H) (expectedOrders : Nat) : (new band h expectedOrders).Live :=
  ⟨band, _, simulates_new band h expectedOrders⟩

section visits

omit [Handler H]

theorem Live.visitOrders (live : s.Live) (side : Side) :
    ∃ views, s.visitOrders side = some views := by
  rcases live with ⟨band, r, simulates⟩
  rcases simulates.tracks with ⟨cells, mirrors, -⟩
  exact ⟨_, mirrors.visitOrders_eq simulates.sound.valid side⟩

theorem Live.visitStops (live : s.Live) : ∃ ids, s.visitStops = some ids := by
  rcases live with ⟨band, r, simulates⟩
  rcases simulates.tracks with ⟨cells, mirrors, -⟩
  rcases mirrors.visitStops_perm simulates.sound.valid with ⟨ids, visited, -⟩
  exact ⟨ids, visited⟩

end visits

omit [Handler H] in
theorem next_of_called {α : Type*} {step : Option (MatchingEngine H × Ret)}
    {call : Option (MatchingEngine H × α)} (answer : α → Ret) {ret : Ret} {result : α}
    {s₁ : MatchingEngine H} (same : step = call.map (·.map id answer))
    (stepped : step = some (s', ret)) (called : call = some (s₁, result)) : s₁ = s' := by
  rw [same, called] at stepped
  exact congrArg Prod.fst (Option.some.inj stepped)

theorem Live.call {call : Option (MatchingEngine H × α)} (live : s.Live) (op : Op)
    {answer : α → Ret} (step : s.step op = call.map (·.map id answer)) :
    ∃ s' result, call = some (s', result) ∧ s'.Live ∧
      s'.halted = op.haltedAfter s.halted := by
  rcases live.step op with ⟨s', ret, stepped, live', halted⟩
  cases called : call with
  | none =>
      rw [step, called] at stepped
      cases stepped
  | some next =>
      have same : next.1 = s' := next_of_called answer step stepped called
      exact ⟨next.1, next.2, rfl, by rwa [same], by rwa [same]⟩

section calls

variable (live : s.Live)
include live

theorem Live.submitLimit (side : Side) (price : Price) (qty : Qty) (tif : TimeInForce)
    (owner : OwnerId) (stp : StpPolicy) :
    ∃ s' id, s.submitLimit side price qty tif owner stp = some (s', id) ∧ s'.Live ∧
      s'.halted = s.halted :=
  live.call (.submitLimit side price qty tif owner stp) rfl

theorem Live.submitLimit_quiet (halted : s.halted = true) (side : Side) (price : Price) (qty : Qty)
    (tif : TimeInForce) (owner : OwnerId) (stp : StpPolicy) :
    ∃ s' id events, s.submitLimit side price qty tif owner stp = some (s', id) ∧
      s'.h = Handler.onAll s.h events ∧ ∀ t, .trade t ∉ events := by
  rcases live.step_quiet (.submitLimit side price qty tif owner stp) halted nofun with
    ⟨s', ret, events, stepped, told, quiet⟩
  rcases live.submitLimit side price qty tif owner stp with ⟨s₁, id, called, -⟩
  have same : s₁ = s' := next_of_called .id rfl stepped called
  exact ⟨s₁, id, events, called, by rw [same, told], quiet⟩

theorem Live.cancel (id : OrderId) :
    ∃ s' ok, s.cancel id = some (s', ok) ∧ s'.Live ∧ s'.halted = s.halted :=
  live.call (.cancel id) rfl

theorem Live.reduce (id : OrderId) (delta : Qty) :
    ∃ s' ok, s.reduce id delta = some (s', ok) ∧ s'.Live ∧ s'.halted = s.halted :=
  live.call (.reduce id delta) rfl

theorem Live.modify (id : OrderId) (newPrice : Price) (newQty : Qty) :
    ∃ s' ok, s.modify id newPrice newQty = some (s', ok) ∧ s'.Live ∧ s'.halted = s.halted :=
  live.call (.modify id newPrice newQty) rfl

theorem Live.halt : ∃ s', s.halt = some s' ∧ s'.Live ∧ s'.halted = true := by
  rcases live.step .halt with ⟨s', ret, stepped, live', halted⟩
  exact ⟨s', by rw [MatchingEngine.halt, stepped]; rfl, live', halted⟩

theorem Live.resume : ∃ s', s.resume = some s' ∧ s'.Live ∧ s'.halted = false := by
  rcases live.step .resume with ⟨s', ret, stepped, live', halted⟩
  exact ⟨s', by rw [MatchingEngine.resume, stepped]; rfl, live', halted⟩

theorem Live.halt_again (halted : s.halted = true) : s.halt = some s := by
  rcases live with ⟨band, r, simulates⟩
  have same : { s with halted := true } = s := by rw [← halted]
  have stepped : s.step .halt = some (s.told [], .done) :=
    simulates.run_refused (fun s => some ({ s with halted := true }, Ret.done)) []
      (congrArg (fun s => some (s, Ret.done)) same)
  rw [MatchingEngine.halt, stepped]
  rfl

theorem Live.resume_again (running : s.halted = false) : s.resume = some s := by
  rcases live with ⟨band, r, simulates⟩
  have same : { s with halted := false } = s := by rw [← running]
  have stepped : s.step .resume = some (s.told [], .done) :=
    simulates.run_refused (fun s => some ({ s with halted := false }, Ret.done)) []
      (congrArg (fun s => some (s, Ret.done)) same)
  rw [MatchingEngine.resume, stepped]
  rfl

end calls

/-! ## The market of an engine -/

def Holds {H : Type} (s : MatchingEngine H) (m : Market) : Prop :=
  ∃ band r, Simulates band s r ∧ r.market = m

structure Did (s : MatchingEngine H) (m : Market) (op : Op) (s' : MatchingEngine H) (m' : Market)
    (ret : Ret) (events : List Event) : Prop where
  holds : s'.Holds m'
  performs : m.Performs op events m' ret
  told : s'.h = Handler.onAll s.h events

def canModify {H : Type} (s : MatchingEngine H) (id : OrderId) (newPrice : Price) (newQty : Qty) :
    Bool :=
  match s.lookup id with
  | none => false
  | some o => newQty = 0 ∨ ((s.mem.nodes o).stopPending = false ∧ s.inBand newPrice)

theorem cancelImpl_ok {id : OrderId} {o : Ptr} (found : s.lookup id = some o) :
    (s.cancelImpl id).2 = true := by
  rw [cancelImpl, found]

omit [Handler H] in
theorem doReduce_ok {id : OrderId} {o : Ptr} {delta : Qty} (found : s.lookup id = some o)
    (resting : (s.mem.nodes o).stopPending = false) : (s.doReduce id delta).2 = true := by
  simp only [doReduce, found, resting, Bool.false_eq_true, if_false]
  split <;> split <;> rfl

theorem doModify_ok {id : OrderId} {newPrice : Price} {newQty : Qty} {ok : Bool}
    (run : s.doModify id newPrice newQty = some (s', ok)) :
    ok = s.canModify id newPrice newQty := by
  rw [canModify]
  cases found : s.lookup id with
  | none =>
    simp only [doModify, found, Option.some.injEq, Prod.mk.injEq] at run
    exact run.2.symm
  | some o =>
    simp only [doModify, found] at run
    split at run
    case isTrue stop =>
      cases run
      simp [stop.1, stop.2]
    case isFalse noStop =>
      split at run
      case isTrue zero =>
        have done : true = ok :=
          (cancelImpl_ok found).symm.trans (congrArg Prod.snd (Option.some.inj run))
        simp [zero, done.symm]
      case isFalse nonzero =>
        have resting : (s.mem.nodes o).stopPending = false := by simpa [nonzero] using noStop
        split at run
        case isTrue outside =>
          cases run
          simp [nonzero, outside]
        case isFalse inside =>
          have inside := not_not.mp inside
          generalize (if (s.mem.nodes o).iceberg = true then
            (s.mem.nodes o).qty + (s.mem.extra o).reserve else (s.mem.nodes o).qty) = total at run
          split at run
          case isTrue same =>
            have done : true = ok :=
              (doReduce_ok found resting).symm.trans (congrArg Prod.snd (Option.some.inj run))
            simp [resting, inside, done.symm]
          case isFalse moved =>
            rcases Option.bind_eq_some_iff.mp run with ⟨placed, -, last⟩
            cases last
            simp [resting, inside]

theorem modify_ok {id : OrderId} {newPrice : Price} {newQty : Qty} {ok : Bool}
    (run : s.modify id newPrice newQty = some (s', ok)) :
    ok = s.canModify id newPrice newQty := by
  rcases run_inv _ run with ⟨s₁, body⟩
  exact doModify_ok body

section market

omit [Handler H] in
theorem holds_new (band : Band) (h : H) (expectedOrders : Nat) :
    (new band h expectedOrders).Holds (.new band) :=
  ⟨band, _, simulates_new band h expectedOrders, market_new band h⟩

variable {m : Market} (holds : s.Holds m)
include holds

omit [Handler H]

theorem Holds.valid : m.Valid := by
  rcases holds with ⟨band, r, simulates, rfl⟩
  exact simulates.sound.valid

theorem Holds.settled : m.Settled := by
  rcases holds with ⟨band, r, simulates, rfl⟩
  exact simulates.sound.settled

theorem Holds.inBand_iff (price : Price) : s.inBand price ↔ m.inBand price := by
  rcases holds with ⟨band, r, simulates, rfl⟩
  rcases simulates.tracks with ⟨cells, mirrors, -⟩
  exact mirrors.inBand_iff price

theorem Holds.setHandler (h : H) : ({ s with h } : MatchingEngine H).Holds m := by
  rcases holds with ⟨band, r, ⟨⟨cells, mirrors, pumping, stpHalt⟩, sound⟩, rfl⟩
  refine ⟨band, { r with h }, ⟨⟨cells, { mirrors with h := rfl }, pumping, stpHalt⟩, ?_⟩, rfl⟩
  exact ⟨sound.valid, sound.keyed, sound.settled⟩

variable [Handler H]

theorem Holds.step (op : Op) :
    ∃ s' ret m' events, s.step op = some (s', ret) ∧ s.Did m op s' m' ret events := by
  rcases holds with ⟨band, r, simulates, rfl⟩
  rcases simulates.step op with ⟨s', r', ret, fast, ref, simulates', performed⟩
  rcases performed.performs with ⟨events, performs, handled⟩
  rcases simulates.tracks with ⟨cells, mirrors, -⟩
  rcases simulates'.tracks with ⟨cells', mirrors', -⟩
  exact ⟨s', ret, r'.market, events, fast, ⟨band, r', simulates', rfl⟩, performs,
    by rw [mirrors'.h, handled, mirrors.h]⟩

theorem Holds.call {call : Option (MatchingEngine H × α)} (op : Op) {answer : α → Ret}
    (step : s.step op = call.map (·.map id answer)) :
    ∃ s' result m' events, call = some (s', result) ∧ s.Did m op s' m' (answer result) events := by
  rcases holds.step op with ⟨s', ret, m', events, stepped, did⟩
  cases called : call with
  | none =>
      rw [step, called] at stepped
      cases stepped
  | some next =>
      rw [step, called] at stepped
      cases stepped
      exact ⟨next.1, next.2, m', events, rfl, did⟩

theorem Holds.submitLimit (side : Side) (price : Price) (qty : Qty) (tif : TimeInForce)
    (owner : OwnerId) (stp : StpPolicy) :
    ∃ s' id m' events, s.submitLimit side price qty tif owner stp = some (s', id) ∧
      s.Did m (.submitLimit side price qty tif owner stp) s' m' (.id id) events :=
  holds.call (.submitLimit side price qty tif owner stp) rfl

theorem Holds.submitIceberg (side : Side) (price : Price) (totalQty display : Qty)
    (tif : TimeInForce) (owner : OwnerId) (stp : StpPolicy) :
    ∃ s' id m' events, s.submitIceberg side price totalQty display tif owner stp = some (s', id) ∧
      s.Did m (.submitIceberg side price totalQty display tif owner stp) s' m' (.id id) events :=
  holds.call (.submitIceberg side price totalQty display tif owner stp) rfl

theorem Holds.cancel (id : OrderId) :
    ∃ s' ok m' events, s.cancel id = some (s', ok) ∧
      s.Did m (.cancel id) s' m' (.ok ok) events :=
  holds.call (.cancel id) rfl

theorem Holds.reduce (id : OrderId) (delta : Qty) :
    ∃ s' ok m' events, s.reduce id delta = some (s', ok) ∧
      s.Did m (.reduce id delta) s' m' (.ok ok) events :=
  holds.call (.reduce id delta) rfl

theorem Holds.modify (id : OrderId) (newPrice : Price) (newQty : Qty) :
    ∃ s' ok m' events, s.modify id newPrice newQty = some (s', ok) ∧
      s.Did m (.modify id newPrice newQty) s' m' (.ok ok) events :=
  holds.call (.modify id newPrice newQty) rfl

theorem Holds.declined {op : Op} {s' : MatchingEngine H} (step : s.step op = some (s', .ok false)) :
    s' = s := by
  rcases holds with ⟨band, r, simulates, rfl⟩
  exact simulates.refused step .order

end market

end MatchingEngine

end Matchbook
