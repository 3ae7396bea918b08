import Matchbook.Engine.Journal

namespace Matchbook

/-! # The re-entrant engine

With deferred events the handler may call back into the engine. Events are buffered
while an operation runs and dispatched when the outermost call has run, those of the
calls from the handler behind the others. The buffer is the tape of the engine. -/

/-- What a handler hears: events, and the answers to the operations it calls. -/
inductive Heard
  | told (event : Event)
  | answered (op : Op) (ret : Ret)
deriving DecidableEq, Repr

namespace Heard

def events : List Heard → List Event
  | [] => []
  | .told event :: heard => event :: events heard
  | .answered _ _ :: heard => events heard

def ops : List Heard → List Op
  | [] => []
  | .told _ :: heard => ops heard
  | .answered op _ :: heard => op :: ops heard

def rets : List Heard → List Ret
  | [] => []
  | .told _ :: heard => rets heard
  | .answered _ ret :: heard => ret :: rets heard

end Heard

inductive Reaction
  | call (op : Op)
  | leave
  | throw

/-- A handler that may call back, as what it does next after all that it has heard.
A handler without `on_rest` leaves whenever it is told of a rest. -/
abbrev Callback := List Heard → Reaction

/-- The engine, whose tape is the event buffer, and what its handler has heard. -/
structure ReentrantMatchingEngine where
  engine : MatchingEngine Tape
  depth : Nat
  heard : List Heard

namespace ReentrantMatchingEngine

def new (band : Band) (expectedOrders : Nat) : ReentrantMatchingEngine where
  engine := .new band [] expectedOrders
  depth := 0
  heard := []

/-- The constructor of `Session`. -/
def enter (e : ReentrantMatchingEngine) : ReentrantMatchingEngine :=
  { e with depth := e.depth + 1 }

def exit (e : ReentrantMatchingEngine) : ReentrantMatchingEngine :=
  let e := { e with depth := e.depth - 1 }
  if e.depth = 0 then { e with engine := { e.engine with h := [] } } else e

def hear (e : ReentrantMatchingEngine) (heard : Heard) : ReentrantMatchingEngine :=
  { e with heard := e.heard ++ [heard] }

/-! `run` drains the buffer, the drain dispatches to the handler, and the handler
runs operations: each has a bound on the calls below it. A callback that ends by
leaving is reported as `true`, one that throws as `false`. -/

mutual

/-- One public operation under a `Session`: its body with the trigger pump, then the
drain if the call is outermost. There is no answer if the handler throws. -/
def run (handler : Callback) : Nat → ReentrantMatchingEngine → Op →
    Option (ReentrantMatchingEngine × Option Ret)
  | 0, _, _ => none
  | bound + 1, e, op => do
      let e := e.enter
      let (engine, ret) ← e.engine.step op
      let e := { e with engine }
      let (e, left) ← (if e.depth = 1 then drain handler bound e 0 else some (e, true))
      some (e.exit, if left then some ret else none)

/-- Dispatch the buffered events from the `i`-th on, those that are appended
meanwhile too. -/
def drain (handler : Callback) : Nat → ReentrantMatchingEngine → Nat →
    Option (ReentrantMatchingEngine × Bool)
  | 0, _, _ => none
  | bound + 1, e, i =>
      match e.engine.h[i]? with
      | none => some (e, true)
      | some event => do
          let (e, left) ← callback handler bound (e.hear (.told event))
          if left then drain handler bound e (i + 1) else some (e, false)

def callback (handler : Callback) : Nat → ReentrantMatchingEngine →
    Option (ReentrantMatchingEngine × Bool)
  | 0, _ => none
  | bound + 1, e =>
      match handler e.heard with
      | .leave => some (e, true)
      | .throw => some (e, false)
      | .call op => do
          let (e, answer) ← run handler bound e op
          match answer with
          | some ret => callback handler bound (e.hear (.answered op ret))
          | none => some (e, false)

end

/-- A larger bound gives the same result. -/
theorem bound_succ (handler : Callback) (bound : Nat) :
    (∀ e op result, run handler bound e op = some result →
      run handler (bound + 1) e op = some result) ∧
    (∀ e i result, drain handler bound e i = some result →
      drain handler (bound + 1) e i = some result) ∧
    (∀ e result, callback handler bound e = some result →
      callback handler (bound + 1) e = some result) := by
  induction bound with
  | zero =>
      refine ⟨fun e op result done => ?_, fun e i result done => ?_, fun e result done => ?_⟩
      · rw [run] at done
        cases done
      · rw [drain] at done
        cases done
      · rw [callback] at done
        cases done
  | succ bound induction =>
      rcases induction with ⟨runs, drains, reacts⟩
      refine ⟨fun e op result done => ?_, fun e i result done => ?_, fun e result done => ?_⟩
      · rw [run] at done ⊢
        simp only [Option.bind_eq_bind, Option.bind_eq_some_iff] at done ⊢
        rcases done with ⟨stepped, taken, drained, rest, same⟩
        refine ⟨stepped, taken, drained, ?_, same⟩
        split at rest
        · rename_i outermost
          rw [if_pos outermost]
          exact drains _ _ _ rest
        · rename_i nested
          rw [if_neg nested]
          exact rest
      · rw [drain] at done ⊢
        cases event : e.engine.h[i]? with
        | none => simpa only [event] using done
        | some event' =>
            simp only [event, Option.bind_eq_bind, Option.bind_eq_some_iff] at done ⊢
            rcases done with ⟨reacted, reaction, rest⟩
            refine ⟨reacted, reacts _ _ reaction, ?_⟩
            split at rest
            · rename_i left
              rw [if_pos left]
              exact drains _ _ _ rest
            · rename_i threw
              rw [if_neg threw]
              exact rest
      · rw [callback] at done ⊢
        cases reaction : handler e.heard with
        | leave => simpa only [reaction] using done
        | throw => simpa only [reaction] using done
        | call op =>
            simp only [reaction, Option.bind_eq_bind, Option.bind_eq_some_iff] at done ⊢
            rcases done with ⟨called, ran, rest⟩
            refine ⟨called, runs _ _ _ ran, ?_⟩
            cases answer : called.2 with
            | none => simpa only [answer] using rest
            | some ret =>
                simp only [answer] at rest ⊢
                exact reacts _ _ rest

theorem drain_mono {handler : Callback} {bound larger : Nat} (le : bound ≤ larger)
    {e : ReentrantMatchingEngine} {i : Nat} {result : ReentrantMatchingEngine × Bool}
    (done : drain handler bound e i = some result) : drain handler larger e i = some result := by
  induction le with
  | refl => exact done
  | step _ induction => exact (bound_succ handler _).2.1 _ _ _ induction

theorem callback_mono {handler : Callback} {bound larger : Nat} (le : bound ≤ larger)
    {e : ReentrantMatchingEngine} {result : ReentrantMatchingEngine × Bool}
    (done : callback handler bound e = some result) : callback handler larger e = some result := by
  induction le with
  | refl => exact done
  | step _ induction => exact (bound_succ handler _).2.2 _ _ induction

theorem run_nested {handler : Callback} {e : ReentrantMatchingEngine} (inside : 0 < e.depth)
    (bound : Nat) (op : Op) :
    run handler (bound + 1) e op =
      (e.engine.step op).map fun (engine, ret) => ({ e with engine }, some ret) := by
  have nested : ¬ e.enter.depth = 1 := fun outermost => by
    rw [Nat.succ.inj outermost] at inside
    exact Nat.lt_irrefl 0 inside
  have stays : ¬ e.enter.depth - 1 = 0 := Nat.ne_of_gt inside
  rw [run]
  have same : e.enter.engine = e.engine := rfl
  cases step : e.engine.step op with
  | none => simp only [same, step, Option.bind_eq_bind, Option.bind_none, Option.map_none]
  | some result =>
      simp only [same, step, Option.bind_eq_bind, Option.bind_some, Option.map_some, if_neg nested,
        if_true, exit, if_neg stays]
      rfl

end ReentrantMatchingEngine

end Matchbook
