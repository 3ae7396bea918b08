import Matchbook.Market.Origins

namespace Matchbook

open Transitions

/-! # What an order was submitted as

An order keeps its id through fills, replenishments and modifications; what it
was asked to be is in the submission that was accepted under that id. -/

instance (op : Op) : Decidable op.IsSubmit := by
  cases op <;> unfold Op.IsSubmit <;> exact inferInstance

/-- The operation under way, and the submission each id was accepted for. -/
structure Register where
  calling : Option Op
  entry : OrderId → Option Op

namespace Register

def start : Register where
  calling := none
  entry _ := none

def see (register : Register) : Entry → Register
  | .called op _ => { register with calling := some op }
  | .seen (.accept id _ _ _) =>
      match register.calling with
      | some op =>
          if op.IsSubmit then { register with entry := Function.update register.entry id (some op) }
          else register
      | none => register
  | .seen _ => register

theorem see_seen {register : Register} {event : Event}
    (notAccept : ∀ id side price qty, event ≠ .accept id side price qty) :
    register.see (.seen event) = register := by
  cases event with
  | accept id side price qty => exact absurd rfl (notAccept id side price qty)
  | _ => rfl

theorem see_step {state next : Market × Phase} {events : List Event}
    (step : Step state events next) (register : Register) :
    ∀ entry ∈ events.map Entry.seen, register.see entry = register := by
  intro entry member
  rcases List.mem_map.mp member with ⟨event, isEvent, rfl⟩
  exact see_seen fun id side price qty same => step.not_accept (same ▸ isEvent)

def begun (register : Register) (op : Op) (ret : Ret) (events : List Event) : Register :=
  (Entry.called op ret :: events.map .seen).foldl see register

theorem begun_calling (register : Register) (op : Op) (ret : Ret) (events : List Event) :
    (register.begun op ret events).calling = some op := by
  have kept (entries : List Event) (register : Register) :
      ((entries.map Entry.seen).foldl see register).calling = register.calling := by
    induction entries generalizing register with
    | nil => rfl
    | cons event entries induction =>
        rw [List.map_cons, List.foldl_cons, induction]
        cases event with
        | accept id side price qty =>
            simp only [see]
            split
            · split <;> rfl
            · rfl
        | _ => rfl
  exact kept events _

theorem begun_entry {m : Market} {op : Op} {ret : Ret} {events : List Event}
    {next : Market × Phase} (start : m.Begin op events next ret) (register : Register)
    {id : OrderId} (old : id ≠ m.nextId) :
    (register.begun op ret events).entry id = register.entry id := by
  cases start with
  | replace => simp [begun, see, Op.IsSubmit]
  | refuse entry => cases entry <;> simp [begun, see, Op.IsSubmit, old]
  | enter entry => cases entry <;> simp [begun, see, Op.IsSubmit, old]
  | market => simp [begun, see, Op.IsSubmit, old]
  | trigger entry => cases entry <;> simp [begun, see, Op.IsSubmit, old]
  | park entry => cases entry <;> simp [begun, see, Op.IsSubmit, old]
  | _ => rfl

/-- The id that is issued is registered with the submission. -/
theorem begun_issued {m : Market} {op : Op} {ret : Ret} (submit : op.IsSubmit) {side : Side}
    {price : Price} {qty : Qty} (events : List Event)
    (notAccept : ∀ id side price qty, .accept id side price qty ∉ events) (register : Register) :
    (register.begun op ret (.accept m.nextId side price qty :: events)).entry m.nextId =
      some op := by
  have rest (register : Register) : (events.map Entry.seen).foldl see register = register := by
    apply foldl_ignored
    intro entry member
    rcases List.mem_map.mp member with ⟨event, isEvent, rfl⟩
    exact see_seen fun id side price qty same => notAccept id side price qty (same ▸ isEvent)
  rw [begun, List.foldl_cons, List.map_cons, List.foldl_cons, rest]
  simp [see, submit]

/-- Register rule for a whole operation. -/
theorem performs {Invariant : Market × Phase → Register → Prop} {Good : Register → Entry → Prop}
    (kept : ∀ state events next register, Invariant state register → Step state events next →
      Invariant next register ∧ ∀ entry ∈ events.map Entry.seen, Good register entry)
    {m m' : Market} {op : Op} {events : List Event} {ret : Ret} {register : Register}
    (performs : m.Performs op events m' ret)
    (begins : ∀ first next, m.Begin op first next ret →
      Invariant next (register.begun op ret first) ∧
        Throughout see Good register (.called op ret :: first.map .seen)) :
    Throughout see Good register (.called op ret :: events.map .seen) ∧
      Invariant (m', .idle) ((Entry.called op ret :: events.map .seen).foldl see register) := by
  cases performs with
  | @intro first rest m₁ phase m' ret start steps settled answers =>
      rcases begins first _ start with ⟨begun, goodFirst⟩
      have labelled : Run (fun state entries next => ∃ events, entries = events.map Entry.seen ∧
          Step state events next) (m₁, phase) (rest.map Entry.seen) (m', .idle) :=
        steps.map Entry.seen fun _ events _ step => ⟨events, rfl, step⟩
      have told : ∀ state entries next register, Invariant state register →
          (∃ events, entries = events.map Entry.seen ∧ Step state events next) →
          Throughout see Good register entries ∧ Invariant next (entries.foldl see register) := by
        rintro state entries next register holds ⟨events, rfl, step⟩
        have ignored := see_step step register
        have both := kept state events next register holds step
        rw [foldl_ignored ignored]
        exact ⟨throughout_ignored ignored both.2, both.1⟩
      have goes := labelled.throughout told begun
      have split : (Entry.called op ret :: (first ++ rest).map Entry.seen) =
          (.called op ret :: first.map .seen) ++ rest.map .seen := by simp
      rw [split, throughout_append, List.foldl_append]
      exact ⟨⟨goodFirst, goes.1⟩, goes.2⟩

end Register

end Matchbook
