import Matchbook.Engine.Handlers

namespace Matchbook

/-! # An engine and its recorder

Beside an engine with any handler runs one that only records, and the two differ in nothing but
what they are told. -/

/-! ## The trades of a tape -/

def Event.trade? : Event → Option Trade
  | .trade t => some t
  | _ => none

def tradesOf (events : List Event) : List Trade := events.filterMap Event.trade?

section trades

variable {t : Trade} {events later : List Event}

theorem mem_tradesOf : t ∈ tradesOf events ↔ .trade t ∈ events := by
  rw [tradesOf, List.mem_filterMap]
  constructor
  · rintro ⟨event, member, same⟩
    cases event <;> cases same
    exact member
  · exact fun member => ⟨_, member, rfl⟩

theorem tradesOf_append : tradesOf (events ++ later) = tradesOf events ++ tradesOf later :=
  List.filterMap_append

end trades

namespace MatchingEngine

variable {H : Type} {e : MatchingEngine H} {s : MatchingEngine Tape} {m : Market}

structure Records (e : MatchingEngine H) (s : MatchingEngine Tape) (m : Market) : Prop where
  holds : s.Holds m
  same : e = s.mapHandler fun _ => e.h

theorem records_new (band : Band) (h : H) (expectedOrders : Nat) :
    (new band h expectedOrders).Records (new band [] expectedOrders) (.new band) :=
  ⟨holds_new band [] expectedOrders, rfl⟩

theorem Records.holds_e (records : e.Records s m) : e.Holds m := by
  rw [records.same]
  exact (mapHandler_holds s).mpr records.holds

theorem Records.setHandler (records : e.Records s m) (h : H) :
    ({ e with h } : MatchingEngine H).Records s m where
  holds := records.holds
  same := by
    rw [records.same]
    rfl

variable [Handler H]

theorem runOps_append {e' e'' : MatchingEngine H} {before after : List Op} {rets rets' : List Ret}
    (first : e.runOps before = some (e', rets)) (second : e'.runOps after = some (e'', rets')) :
    e.runOps (before ++ after) = some (e'', rets ++ rets') := by
  induction before generalizing e rets with
  | nil =>
      cases first
      exact second
  | cons op before induction =>
      simp only [runOps, Option.bind_eq_bind, Option.bind_eq_some_iff] at first
      rcases first with ⟨⟨e₁, ret⟩, stepped, ⟨e₂, rets₂⟩, rest, same⟩
      cases same
      simp only [List.cons_append, runOps, stepped, induction rest, Option.bind_eq_bind,
        Option.bind_some]

theorem Records.step (records : e.Records s m) (op : Op) :
    ∃ e' s' ret m' events, e.step op = some (e', ret) ∧ s.step op = some (s', ret) ∧
      e'.Records s' m' ∧ m.Performs op events m' ret ∧ e'.h = Handler.onAll e.h events ∧
      s'.h = s.h ++ events := by
  rcases (records.holds.setHandler []).step op with ⟨base, ret, m', events, stepped, did⟩
  have told : base.h = events := did.told.trans (Handler.onAll_tape [] events)
  have hears : Handler.Commutes (Handler.onAll e.h : Tape → H) :=
    fun tape event => Handler.onAll_concat e.h tape event
  have appends : Handler.Commutes (fun tape : Tape => (s.h ++ tape : Tape)) :=
    fun tape event => (List.append_assoc s.h tape [event]).symm
  have isEngine : e = ({ s with h := [] } : MatchingEngine Tape).mapHandler
    (Handler.onAll e.h) := records.same
  have isRecorder : s = ({ s with h := [] } : MatchingEngine Tape).mapHandler
      fun tape => (s.h ++ tape : Tape) := by
    show s = { s with h := s.h ++ [] }
    rw [List.append_nil]
  refine ⟨base.mapHandler (Handler.onAll e.h), base.mapHandler fun tape => (s.h ++ tape : Tape),
    ret, m', events, ?_, ?_, ⟨did.holds.setHandler _, rfl⟩, did.performs, ?_, ?_⟩
  · have mapped := mapHandler_step hears { s with h := [] } op
    rw [← isEngine, stepped] at mapped
    exact mapped
  · have mapped := mapHandler_step appends { s with h := [] } op
    rw [← isRecorder, stepped] at mapped
    exact mapped
  · rw [mapHandler_h, told]
  · rw [mapHandler_h, told]

/-- The call behind a step, if the step only renames its answer. -/
theorem Records.call {α : Type} {call : Option (MatchingEngine H × α)}
    (records : e.Records s m) (op : Op) {answer : α → Ret}
    (step : e.step op = call.map (·.map id answer)) :
    ∃ e' result s' m' events, call = some (e', result) ∧ s.step op = some (s', answer result) ∧
      e'.Records s' m' ∧ m.Performs op events m' (answer result) ∧
      e'.h = Handler.onAll e.h events ∧ s'.h = s.h ++ events := by
  rcases records.step op with ⟨e', s', ret, m', events, stepped, recorded, told⟩
  rw [step] at stepped
  rcases Option.map_eq_some_iff.mp stepped with ⟨next, called, same⟩
  cases same
  exact ⟨next.1, next.2, s', m', events, called, recorded, told⟩

end MatchingEngine

end Matchbook
