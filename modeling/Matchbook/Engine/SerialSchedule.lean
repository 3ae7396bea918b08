import Matchbook.Engine.Reentrant

namespace Matchbook

open Transitions

/-! # Deliveries as a serial schedule

What the drain is for: every event is told to the handler once, in the order of the
events, and the operations that the handler calls are executed one after another. -/

namespace Heard

theorem events_append (first second : List Heard) :
    events (first ++ second) = events first ++ events second := by
  induction first with
  | nil => rfl
  | cons heard first induction => cases heard <;> simp [events, induction]

theorem ops_append (first second : List Heard) :
    ops (first ++ second) = ops first ++ ops second := by
  induction first with
  | nil => rfl
  | cons heard first induction => cases heard <;> simp [ops, induction]

theorem rets_append (first second : List Heard) :
    rets (first ++ second) = rets first ++ rets second := by
  induction first with
  | nil => rfl
  | cons heard first induction => cases heard <;> simp [rets, induction]

def remember (past : List Heard) (heard : Heard) : List Heard := past ++ [heard]

theorem foldl_remember (past heard : List Heard) : heard.foldl remember past = past ++ heard := by
  induction heard generalizing past with
  | nil => simp
  | cons first heard induction => simp [induction, remember]

def Called (handler : Callback) (past : List Heard) : Heard → Prop
  | .told _ => True
  | .answered op _ => handler past = .call op

end Heard

theorem MatchingEngine.runOps_concat {H : Type} [Handler H] {s s' s'' : MatchingEngine H}
    {ops : List Op} {op : Op} {rets : List Ret} {ret : Ret}
    (before : s.runOps ops = some (s', rets))
    (last : s'.step op = some (s'', ret)) :
    s.runOps (ops ++ [op]) = some (s'', rets ++ [ret]) := by
  induction ops generalizing s rets with
  | nil =>
      cases before
      simp [runOps, last]
  | cons first ops induction =>
      simp only [runOps, Option.bind_eq_bind, Option.bind_eq_some_iff] at before
      rcases before with ⟨⟨middle, ret₁⟩, taken, ⟨final, rets'⟩, rest, same⟩
      cases same
      simp only [List.cons_append, runOps, taken, induction rest, Option.bind_eq_bind,
        Option.bind_some]

structure Delivery where
  e : ReentrantMatchingEngine
  i : Nat
  told : Bool

inductive Delivers (handler : Callback) : Delivery → List Heard → Delivery → Prop
  | tell {e i event} (next : e.engine.h[i]? = some event) :
      Delivers handler ⟨e, i, false⟩ [.told event] ⟨e.hear (.told event), i, true⟩
  | answer {e i op engine ret} (calls : handler e.heard = .call op)
      (performs : e.engine.step op = some (engine, ret)) :
      Delivers handler ⟨e, i, true⟩ [.answered op ret]
        ⟨{ e with engine }.hear (.answered op ret), i, true⟩
  | leave {e i} (leaves : handler e.heard = .leave) :
      Delivers handler ⟨e, i, true⟩ [] ⟨e, i + 1, false⟩

namespace Delivery

variable {handler : Callback} {band : Band} {start : ReentrantMatchingEngine}
  {d d' : Delivery} {heard new : List Heard}

def Over (handler : Callback) (d : Delivery) (left : Bool) : Prop :=
  if left then d.told = false ∧ d.e.engine.h[d.i]? = none
  else d.told = true ∧ handler d.e.heard = .throw

theorem same_depth (run : Run (Delivers handler) d heard d') : d'.e.depth = d.e.depth := by
  have kept (before : Delivery) (heard : List Heard) (after : Delivery)
      (same : before.e.depth = d.e.depth) (step : Delivers handler before heard after) :
      after.e.depth = d.e.depth := by
    cases step <;> exact same
  exact run.invariant kept rfl

def dispatched (d : Delivery) : Nat := if d.told then d.i + 1 else d.i

structure Serial (handler : Callback) (band : Band) (start : ReentrantMatchingEngine) (d : Delivery)
    (heard : List Heard) : Prop where
  sound : ∃ r, d.e.engine.Simulates band r
  history : d.e.heard = start.heard ++ heard
  called : Throughout Heard.remember (Heard.Called handler) start.heard heard
  schedule : start.engine.runOps (Heard.ops heard) = some (d.e.engine, Heard.rets heard)
  told : Heard.events heard = d.e.engine.h.take d.dispatched
  within : d.dispatched ≤ d.e.engine.h.length

theorem Serial.step (serial : Serial handler band start d heard)
    (step : Delivers handler d new d') :
    Serial handler band start d' (heard ++ new) := by
  rcases serial with ⟨⟨r, simulates⟩, history, called, schedule, told, within⟩
  have calls (known : Throughout Heard.remember (Heard.Called handler) d.e.heard new) :
      Throughout Heard.remember (Heard.Called handler) start.heard (heard ++ new) := by
    apply throughout_append.mpr
    rw [Heard.foldl_remember, ← history]
    exact ⟨called, known⟩
  cases step with
  | @tell e i event next =>
      rcases List.getElem?_eq_some_iff.mp next with ⟨less, isEvent⟩
      refine ⟨⟨r, simulates⟩, ?_, calls ⟨trivial, trivial⟩, ?_, ?_, less⟩
      · rw [ReentrantMatchingEngine.hear, history, List.append_assoc]
      · rw [Heard.ops_append, Heard.rets_append]
        simp only [Heard.ops, Heard.rets, List.append_nil]
        exact schedule
      · rw [Heard.events_append, told]
        show e.engine.h.take i ++ [event] = e.engine.h.take (i + 1)
        rw [List.take_add_one, next]
        rfl
  | @answer e i op engine ret reaction performs =>
      rcases simulates.step op with ⟨engine', r', ret', taken, -, simulates', performed⟩
      rw [performs] at taken
      cases taken
      rcases performed.performs with ⟨events, -, tape⟩
      have appended : engine.h = e.engine.h ++ events := by
        rcases simulates.tracks with ⟨cells, mirrors, -⟩
        rw [simulates'.told tape]
        exact congrArg (· ++ events) mirrors.h.symm
      refine ⟨⟨r', simulates'⟩, ?_, calls ⟨reaction, trivial⟩, ?_, ?_, ?_⟩
      · rw [ReentrantMatchingEngine.hear, history, List.append_assoc]
      · rw [Heard.ops_append, Heard.rets_append]
        exact MatchingEngine.runOps_concat schedule performs
      · rw [Heard.events_append, told]
        have unchanged : (e.engine.h ++ events).take (i + 1) = e.engine.h.take (i + 1) :=
          List.take_append_of_le_length within
        show e.engine.h.take (i + 1) ++ [] = engine.h.take (i + 1)
        rw [appended, unchanged, List.append_nil]
      · show i + 1 ≤ engine.h.length
        rw [appended, List.length_append]
        exact Nat.le_trans within (Nat.le_add_right _ _)
  | leave leaves =>
      rw [List.append_nil]
      exact ⟨⟨r, simulates⟩, history, called, schedule, told, within⟩

theorem Serial.run (serial : Serial handler band start d [])
    (run : Run (Delivers handler) d heard d') :
    Serial handler band start d' heard :=
  run.recorded (fun _ _ _ _ serial step => serial.step step) serial

end Delivery

namespace ReentrantMatchingEngine

variable {handler : Callback} {e e' : ReentrantMatchingEngine} {i : Nat} {left : Bool}

theorem callback_delivers {bound : Nat} (inside : 0 < e.depth)
    (done : callback handler bound e = some (e', left)) (i : Nat) :
    ∃ heard, Run (Delivers handler) ⟨e, i, true⟩ heard ⟨e', i, true⟩ ∧
      handler e'.heard = if left then .leave else .throw := by
  induction bound generalizing e with
  | zero =>
      rw [callback] at done
      cases done
  | succ bound induction =>
      rw [callback] at done
      cases reaction : handler e.heard with
      | leave =>
          rw [reaction] at done
          cases done
          exact ⟨[], .refl, reaction⟩
      | throw =>
          rw [reaction] at done
          cases done
          exact ⟨[], .refl, reaction⟩
      | call op =>
          simp only [reaction, Option.bind_eq_bind, Option.bind_eq_some_iff] at done
          rcases done with ⟨⟨called, answer⟩, ran, rest⟩
          cases bound with
          | zero =>
              rw [run] at ran
              cases ran
          | succ bound =>
              rw [run_nested inside, Option.map_eq_some_iff] at ran
              rcases ran with ⟨⟨engine, ret⟩, performs, same⟩
              cases same
              have answered := Run.single (Delivers.answer (i := i) reaction performs)
              have deep : 0 < ({ e with engine }.hear (.answered op ret)).depth := inside
              rcases induction deep rest with ⟨heard, goes, ends⟩
              exact ⟨_, answered.trans goes, ends⟩

theorem drain_delivers {bound : Nat} (inside : 0 < e.depth)
    (done : drain handler bound e i = some (e', left)) :
    ∃ heard j told, Run (Delivers handler) ⟨e, i, false⟩ heard ⟨e', j, told⟩ ∧
      Delivery.Over handler ⟨e', j, told⟩ left := by
  induction bound generalizing e i with
  | zero =>
      rw [drain] at done
      cases done
  | succ bound induction =>
      rw [drain] at done
      cases next : e.engine.h[i]? with
      | none =>
          rw [next] at done
          cases done
          exact ⟨[], i, false, .refl, rfl, next⟩
      | some event =>
          simp only [next, Option.bind_eq_bind, Option.bind_eq_some_iff] at done
          rcases done with ⟨⟨reacted, returned⟩, reaction, rest⟩
          have told : Run (Delivers handler) ⟨e, i, false⟩ [.told event]
              ⟨e.hear (.told event), i, true⟩ := .single (.tell next)
          have deep : 0 < (e.hear (.told event)).depth := inside
          rcases callback_delivers deep reaction i with ⟨calls, goes, ends⟩
          cases returned with
          | false =>
              cases rest
              exact ⟨_, i, true, told.trans goes, rfl, ends⟩
          | true =>
              have leaves := Run.single (Delivers.leave (i := i) ends)
              have whole := (told.trans goes).trans leaves
              have deep' : 0 < reacted.depth := by
                rw [Delivery.same_depth whole]
                exact inside
              rcases induction deep' rest with ⟨heard, j, isTold, later, ends⟩
              exact ⟨_, j, isTold, whole.trans later, ends⟩

/-! ## Termination -/

def CallsAtMost (handler : Callback) (d : Delivery) (most : Nat) : Prop :=
  ∀ heard d', Run (Delivers handler) d heard d' → (Heard.ops heard).length ≤ most

theorem CallsAtMost.step {d d' : Delivery} {new : List Heard} {most : Nat}
    (atMost : CallsAtMost handler d most) (step : Delivers handler d new d') :
    (Heard.ops new).length ≤ most ∧
      CallsAtMost handler d' (most - (Heard.ops new).length) := by
  refine ⟨atMost new d' (.single step), fun heard final run => ?_⟩
  have whole := atMost _ final ((Run.single step).trans run)
  rw [Heard.ops_append, List.length_append] at whole
  omega

def Halts (handler : Callback) : Delivery → Prop
  | ⟨e, i, false⟩ => ∃ bound result, drain handler bound e i = some result
  | ⟨e, i, true⟩ => ∃ bound e' left, callback handler bound e = some (e', left) ∧
      (left = true → ∃ bound result, drain handler bound e' (i + 1) = some result)

theorem halts_end (done : e.engine.h[i]? = none) : Halts handler ⟨e, i, false⟩ := by
  refine ⟨1, (e, true), ?_⟩
  rw [drain, done]

theorem halts_tell {event : Event} (next : e.engine.h[i]? = some event)
    (halts : Halts handler ⟨e.hear (.told event), i, true⟩) : Halts handler ⟨e, i, false⟩ := by
  rcases halts with ⟨bound, e', left, reaction, later⟩
  cases left with
  | false =>
      refine ⟨bound + 1, (e', false), ?_⟩
      simp only [drain, next, reaction, Option.bind_eq_bind, Option.bind_some]
      rfl
  | true =>
      rcases later rfl with ⟨bound', result, rest⟩
      refine ⟨Nat.max bound bound' + 1, result, ?_⟩
      have reaction' := callback_mono (Nat.le_max_left bound bound') reaction
      have rest' := drain_mono (Nat.le_max_right bound bound') rest
      simp only [drain, next, reaction', Option.bind_eq_bind, Option.bind_some]
      exact rest'

theorem halts_leave (leaves : handler e.heard = .leave)
    (halts : Halts handler ⟨e, i + 1, false⟩) : Halts handler ⟨e, i, true⟩ := by
  refine ⟨1, e, true, ?_, fun _ => halts⟩
  rw [callback, leaves]

theorem halts_throw (throws : handler e.heard = .throw) : Halts handler ⟨e, i, true⟩ := by
  refine ⟨1, e, false, ?_, nofun⟩
  rw [callback, throws]

theorem halts_call {op : Op} {engine : MatchingEngine Tape} {ret : Ret} (inside : 0 < e.depth)
    (calls : handler e.heard = .call op) (performs : e.engine.step op = some (engine, ret))
    (halts : Halts handler ⟨{ e with engine }.hear (.answered op ret), i, true⟩) :
    Halts handler ⟨e, i, true⟩ := by
  rcases halts with ⟨bound, e', left, reaction, later⟩
  refine ⟨bound + 2, e', left, ?_, later⟩
  simp only [callback, calls, run_nested inside, performs, Option.map_some, Option.bind_eq_bind,
    Option.bind_some]
  exact callback_mono (Nat.le_succ bound) reaction

theorem halts_of_callsAtMost {band : Band} {d : Delivery} {most : Nat} (inside : 0 < d.e.depth)
    (sound : ∃ r, d.e.engine.Simulates band r) (atMost : CallsAtMost handler d most) :
    Halts handler d := by
  induction most using Nat.strongRecOn generalizing d with
  | ind most fewer =>
      have callbacks (e : ReentrantMatchingEngine) (i : Nat) (inside : 0 < e.depth)
          (sound : ∃ r, e.engine.Simulates band r)
          (atMost : CallsAtMost handler ⟨e, i, true⟩ most)
          (next : CallsAtMost handler ⟨e, i + 1, false⟩ most → Halts handler ⟨e, i + 1, false⟩) :
          Halts handler ⟨e, i, true⟩ := by
        cases reaction : handler e.heard with
        | leave => exact halts_leave reaction (next (atMost.step (.leave reaction)).2)
        | throw => exact halts_throw reaction
        | call op =>
            rcases sound with ⟨r, simulates⟩
            rcases simulates.step op with ⟨engine, r', ret, taken, -, simulates', -⟩
            rcases atMost.step (.answer reaction taken) with ⟨one, rest⟩
            apply halts_call inside reaction taken
            exact fewer (most - 1) (Nat.sub_lt one Nat.one_pos) inside ⟨r', simulates'⟩ rest
      have drains (left : Nat) : ∀ (e : ReentrantMatchingEngine) (i : Nat), 0 < e.depth →
          (∃ r, e.engine.Simulates band r) → CallsAtMost handler ⟨e, i, false⟩ most →
          e.engine.h.length - i = left → Halts handler ⟨e, i, false⟩ := by
        induction left with
        | zero =>
            intro e i inside sound atMost all
            exact halts_end (List.getElem?_eq_none (by omega))
        | succ left induction =>
            intro e i inside sound atMost some
            have less : i < e.engine.h.length := by omega
            have next := List.getElem?_eq_getElem less
            apply halts_tell next
            apply callbacks (e.hear (.told e.engine.h[i])) i inside sound
              (atMost.step (.tell next)).2
            intro atMost'
            apply induction (e.hear (.told e.engine.h[i])) (i + 1) inside sound atMost'
            show e.engine.h.length - (i + 1) = left
            omega
      rcases d with ⟨e, i, told⟩
      cases told with
      | false => exact drains _ e i inside sound atMost rfl
      | true =>
          exact callbacks e i inside sound atMost fun atMost' =>
            drains _ e (i + 1) inside sound atMost' rfl

/-! ## One outermost call -/

def opened (e : ReentrantMatchingEngine) (engine : MatchingEngine Tape) :
    ReentrantMatchingEngine :=
  { e.enter with engine }

def CallsFinitely (handler : Callback) (e : ReentrantMatchingEngine) (op : Op) : Prop :=
  ∀ engine ret, e.engine.step op = some (engine, ret) →
    ∃ most, CallsAtMost handler ⟨e.opened engine, 0, false⟩ most

theorem callsFinitely_of_budget {op : Op} {budget : Nat}
    (stops : ∀ heard op, handler heard = .call op → (Heard.ops heard).length < budget) :
    CallsFinitely handler e op := by
  intro engine ret performs
  let most := Nat.max budget (Heard.ops e.heard).length
  have kept (d : Delivery) (new : List Heard) (d' : Delivery) (seen : List Heard)
      (bounded : (Heard.ops seen).length ≤ (Heard.ops d.e.heard).length ∧
        (Heard.ops d.e.heard).length ≤ most) (step : Delivers handler d new d') :
      (Heard.ops (seen ++ new)).length ≤ (Heard.ops d'.e.heard).length ∧
        (Heard.ops d'.e.heard).length ≤ most := by
    cases step with
    | tell next => simpa [hear, Heard.ops_append, Heard.ops] using bounded
    | @answer e' i op engine ret calls performs =>
        have less : (Heard.ops e'.heard).length < most :=
          Nat.lt_of_lt_of_le (stops _ _ calls) (Nat.le_max_left budget _)
        simp only [hear, Heard.ops_append, Heard.ops, List.length_append, List.length_singleton]
        exact ⟨Nat.succ_le_succ bounded.1, less⟩
    | leave leaves => simpa using bounded
  refine ⟨most, fun heard d run => ?_⟩
  have bounded := run.recorded kept ⟨Nat.zero_le _, Nat.le_max_right budget _⟩
  exact Nat.le_trans bounded.1 bounded.2

/-- The call of `op` leads from `e` to `e'` with `answer`, where no answer means that
the handler threw. -/
structure Serves (handler : Callback) (e : ReentrantMatchingEngine) (op : Op)
    (e' : ReentrantMatchingEngine) (answer : Option Ret) (heard : List Heard)
    (final : MatchingEngine Tape) (ret : Ret) : Prop where
  history : e'.heard = e.heard ++ heard
  called : Throughout Heard.remember (Heard.Called handler) e.heard heard
  /-- An engine that is not re-entrant executes `op` and what the handler calls, one
  after another, with the same answers and the same book; its tape is all events. -/
  schedule : { e.engine with h := [] }.runOps (op :: Heard.ops heard) =
    some (final, ret :: Heard.rets heard)
  book : e'.engine = { final with h := [] }
  /-- The handler is told the events in their order, each once, all of them unless it
  throws. -/
  told : Heard.events heard <+: final.h
  whole : answer = some ret ∧ Heard.events heard = final.h ∨
    answer = none ∧ handler e'.heard = .throw
  depth : e'.depth = 0

structure Ready (band : Band) (e : ReentrantMatchingEngine) : Prop where
  depth : e.depth = 0
  empty : e.engine.h = []
  sound : ∃ r, e.engine.Simulates band r

section call

variable {band : Band} {op : Op}

theorem run_halts (ready : Ready band e) (finite : CallsFinitely handler e op) :
    ∃ bound result, run handler bound e op = some result := by
  rcases ready with ⟨depth, empty, r, simulates⟩
  rcases simulates.step op with ⟨engine, r', ret, taken, -, simulates', -⟩
  rcases finite engine ret taken with ⟨most, atMost⟩
  have halts : Halts handler ⟨e.opened engine, 0, false⟩ :=
    halts_of_callsAtMost (Nat.succ_pos _) ⟨r', simulates'⟩ atMost
  rcases halts with ⟨bound, ⟨e', left⟩, drained⟩
  have outermost : e.enter.depth = 1 := congrArg (· + 1) depth
  have same : e.enter.engine.step op = some (engine, ret) := taken
  refine ⟨bound + 1, (e'.exit, if left then some ret else none), ?_⟩
  rw [run]
  simp only [same, Option.bind_eq_bind, Option.bind_some]
  rw [if_pos outermost]
  show (drain handler bound (e.opened engine) 0).bind _ = _
  rw [drained]
  rfl

/-- What an outermost call does that ends: the body of the operation, the drain, and
the end of the session. -/
theorem run_outermost {bound : Nat} {answer : Option Ret} (outermost : e.depth = 0)
    (done : run handler bound e op = some (e', answer)) :
    ∃ engine ret drained left bound', e.engine.step op = some (engine, ret) ∧
      drain handler bound' (e.opened engine) 0 = some (drained, left) ∧ e' = drained.exit ∧
      answer = if left then some ret else none := by
  cases bound with
  | zero =>
      rw [run] at done
      cases done
  | succ bound =>
      have depth : e.enter.depth = 1 := congrArg (· + 1) outermost
      rw [run] at done
      simp only [Option.bind_eq_bind, Option.bind_eq_some_iff] at done
      rcases done with ⟨⟨engine, ret⟩, taken, ⟨drained, left⟩, rest, same⟩
      rw [if_pos depth] at rest
      cases same
      exact ⟨engine, ret, drained, left, bound, taken, rest, rfl, rfl⟩

theorem run_serves (ready : Ready band e) {bound : Nat} {answer : Option Ret}
    (done : run handler bound e op = some (e', answer)) :
    (∃ heard final ret, Serves handler e op e' answer heard final ret) ∧ Ready band e' := by
  rcases run_outermost ready.depth done with
    ⟨engine, ret, drained, left, bound', taken, drain, rfl, rfl⟩
  rcases ready with ⟨depth, empty, r, simulates⟩
  rcases simulates.step op with ⟨engine', r', ret', taken', -, simulates', -⟩
  rw [taken] at taken'
  cases taken'
  rcases drain_delivers (Nat.succ_pos _) drain with ⟨heard, j, told, delivers, ends⟩
  have start : Delivery.Serial handler band (e.opened engine) ⟨e.opened engine, 0, false⟩ [] :=
    ⟨⟨r', simulates'⟩, (List.append_nil _).symm, trivial, rfl, rfl, Nat.zero_le _⟩
  have serial := start.run delivers
  have inside : drained.depth = 1 := by
    rw [Delivery.same_depth delivers]
    exact congrArg (· + 1) depth
  have closed : drained.exit = ⟨{ drained.engine with h := [] }, 0, drained.heard⟩ := by
    simp only [exit, inside]
    rfl
  have fresh : { e.engine with h := [] } = e.engine := by rw [← empty]
  rcases serial.sound with ⟨final, sound⟩
  rw [closed]
  refine ⟨⟨heard, drained.engine, ret, ?_⟩, ⟨rfl, rfl, _, sound.rewind []⟩⟩
  constructor
  case history => exact serial.history
  case called => exact serial.called
  case schedule =>
      have schedule := serial.schedule
      rw [fresh]
      simp only [MatchingEngine.runOps, taken, Option.bind_eq_bind, Option.bind_some]
      rw [show engine.runOps _ = _ from schedule]
      rfl
  case book => rfl
  case told =>
      rw [serial.told]
      exact List.take_prefix _ _
  case whole =>
      cases left with
      | false => exact .inr ⟨rfl, ends.2⟩
      | true =>
          rcases ends with ⟨isIdle, atEnd⟩
          refine .inl ⟨rfl, ?_⟩
          rw [serial.told]
          apply List.take_of_length_le
          cases isIdle
          exact List.getElem?_eq_none_iff.mp atEnd
  case depth => rfl

end call

/-- Every call of the sequence ends if the handler calls finitely many operations, and
every call that ends is a serial schedule. -/
def Schedules (handler : Callback) : ReentrantMatchingEngine → List Op → Prop
  | _, [] => True
  | e, op :: ops =>
      (CallsFinitely handler e op → ∃ bound result, run handler bound e op = some result) ∧
      ∀ bound e' answer, run handler bound e op = some (e', answer) →
        (∃ heard final ret, Serves handler e op e' answer heard final ret) ∧
          Schedules handler e' ops

theorem Ready.schedules {band : Band} (ready : Ready band e) (ops : List Op) :
    Schedules handler e ops := by
  induction ops generalizing e with
  | nil => trivial
  | cons op ops induction =>
      refine ⟨run_halts ready, fun bound e' answer done => ?_⟩
      rcases run_serves ready done with ⟨serves, ready'⟩
      exact ⟨serves, induction ready'⟩

/-- The re-entrant engine serves its callers one at a time, whatever its handler does. -/
theorem new_schedules (band : Band) (expectedOrders : Nat) (handler : Callback)
    (ops : List Op) : Schedules handler (new band expectedOrders) ops :=
  Ready.schedules ⟨rfl, rfl, _, MatchingEngine.simulates_new band [] expectedOrders⟩ ops

/-- A handler that answers what it is told first with a sell. -/
def sellsOnce : Callback := fun heard =>
  match Heard.ops heard with
  | [] => .call (.submitLimit .sell 100 2 .gtc 0 .cancelTaker)
  | _ :: _ => .leave

/-- The sell that is submitted while the buy is reported comes after it. -/
theorem new_schedules_sellsOnce :
    let band : Band := ⟨100, 101, by decide, by decide, by decide⟩
    let buy : Op := .submitLimit .buy 100 5 .gtc 0 .cancelTaker
    (∃ bound result, run sellsOnce bound (new band 16) buy = some result) ∧
      ∃ e' answer heard final ret, run sellsOnce 16 (new band 16) buy = some (e', answer) ∧
        Serves sellsOnce (new band 16) buy e' answer heard final ret ∧
        Heard.ops heard = [.submitLimit .sell 100 2 .gtc 0 .cancelTaker] := by
  intro band buy
  have stops : ∀ heard op, sellsOnce heard = .call op → (Heard.ops heard).length < 1 := by
    intro heard op calls
    rw [sellsOnce] at calls
    split at calls
    case h_1 none => rw [none]; exact Nat.zero_lt_one
    case h_2 => cases calls
  have schedules := new_schedules band 16 sellsOnce [buy]
  constructor
  · exact schedules.1 (callsFinitely_of_budget stops)
  · have reenters :
        (run sellsOnce 16 (new band 16) buy).map (fun result => Heard.ops result.1.heard) =
        some [.submitLimit .sell 100 2 .gtc 0 .cancelTaker] := by decide +kernel
    rcases Option.map_eq_some_iff.1 reenters with ⟨⟨e', answer⟩, done, calls⟩
    rcases (schedules.2 16 e' answer done).1 with ⟨heard, final, ret, serves⟩
    refine ⟨e', answer, heard, final, ret, done, serves, ?_⟩
    rw [← calls, serves.history]
    rfl

end ReentrantMatchingEngine

end Matchbook
