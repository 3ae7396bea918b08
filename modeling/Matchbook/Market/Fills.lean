import Matchbook.Market.Origins

namespace Matchbook

open Transitions

/-! # What a taker is filled

Each fill takes its quantity off the taker, and an order that is neither on its
way nor parked as a stop takes nothing any more. -/

namespace Market

section tally

variable (measure : Trade → Nat)

@[simp] theorem tally_nil : tally measure [] = 0 := rfl

@[simp] theorem tally_append (first second : List Event) :
    tally measure (first ++ second) = tally measure first + tally measure second := by
  rw [tally, List.map_append, List.sum_append]
  rfl

@[simp] theorem tally_trade (trade : Trade) (events : List Event) :
    tally measure (.trade trade :: events) = measure trade + tally measure events := by
  rw [tally, List.map_cons, List.sum_cons]
  rfl

theorem tally_eq_zero {events : List Event}
    (quiet : ∀ trade, .trade trade ∈ events → measure trade = 0) : tally measure events = 0 := by
  induction events with
  | nil => rfl
  | cons event events induction =>
      have rest := induction fun trade member => quiet trade (List.mem_cons_of_mem event member)
      cases event with
      | trade trade => rw [tally_trade, quiet trade List.mem_cons_self, rest]
      | _ =>
          rw [tally, List.map_cons, List.sum_cons, Nat.zero_add]
          exact rest

theorem tally_consume (px : Price) (f : Qty) (level : List RO) :
    tally measure (consume px f level).2 = 0 := by
  apply tally_eq_zero
  intro trade member
  rcases mem_consume_events member with ⟨o, -, same, -⟩
  cases same

end tally

theorem filled_eq_zero {id : OrderId} {events : List Event}
    (quiet : ∀ trade, .trade trade ∈ events → trade.taker ≠ id) : filled id events = 0 :=
  tally_eq_zero _ fun trade member => if_neg (quiet trade member)

end Market

open Market

structure Passive (id : OrderId) (state : Market × Phase) : Prop where
  parked : ∀ o ∈ state.1.stops, o.id ≠ id
  taking : ∀ t, state.2 = .taking t ∨ state.2 = .stopped t → t.id ≠ id
  phase : ∀ clearing, state.2 ≠ .crossing clearing

variable {id : OrderId} {state next : Market × Phase} {events : List Event}

theorem Passive.step (passive : Passive id state) (step : Step state events next) :
    Passive id next where
  parked o member := passive.parked o (step.stops_origin.subset member)
  taking t' taking := by
    rcases step.taker_origin taking with ⟨t, before, same⟩ | ⟨-, o, parked, rfl⟩
    · rw [same]
      exact passive.taking t (.inl before)
    · rw [RO.fired_id]
      exact passive.parked o parked
  phase clearing crossing := by
    cases step <;> cases crossing
    exact passive.phase _ rfl

theorem Passive.filled (passive : Passive id state) (step : Step state events next) :
    filled id events = 0 := by
  apply filled_eq_zero
  intro trade member
  cases step with
  | fill meets other amount =>
      rcases List.mem_cons.mp member with same | clip
      · cases same
        exact passive.taking _ (.inl rfl)
      · rcases mem_consume_events clip with ⟨o, -, same, -⟩
        cases same
  | cross => exact absurd rfl (passive.phase _)
  | _ => simp at member

theorem Run.passive (run : Run Step state events next) (passive : Passive id state) :
    filled id events = 0 := by
  have kept : ∀ state new next seen, Passive id state ∧ filled id seen = 0 →
      Step state new next → Passive id next ∧ filled id (seen ++ new) = 0 := by
    intro state new next seen good step
    refine ⟨good.1.step step, ?_⟩
    rw [filled, tally_append]
    exact Nat.add_eq_zero_iff.mpr ⟨good.2, good.1.filled step⟩
  exact (run.recorded kept ⟨passive, rfl⟩).2

theorem Market.Performs.unfilled {m m' : Market} {side : Side} {qty : Qty} {owner : OwnerId}
    {stp : StpPolicy} {ret : Ret} (valid : m.Valid)
    (performs : m.Performs (.submitMarket side qty owner stp) events m' ret) :
    ∃ left : Qty, ret = .qty left ∧ qty.toNat = left.toNat + Market.filled m.nextId events := by
  cases performs with
  | @intro first rest m₁ phase m' ret start steps settled answers =>
      have quiet : Market.filled m.nextId (first ++ rest) = Market.filled m.nextId rest := by
        have first : Market.filled m.nextId first = 0 :=
          filled_eq_zero fun trade member => absurd member start.not_trade
        rw [Market.filled, tally_append]
        rw [Market.filled] at first
        rw [first, Nat.zero_add]
        rfl
      rw [quiet]
      by_cases running : m.halted = false
      · exact answers running
      · cases start with
        | reject submit answer bad =>
            have passive : Passive m.nextId (m, .idle) := by
              refine ⟨fun o parked same => ?_, fun t taking => ?_, nofun⟩
              · exact valid.fresh (same ▸ isOpen_of_stop parked)
              · rcases taking with same | same <;> cases same
            refine ⟨qty, answer, ?_⟩
            rw [Run.passive steps passive]
            rfl
        | refuse entry => cases entry
        | enter entry => cases entry
        | market running' => exact absurd running' running
        | trigger entry => cases entry
        | park entry => cases entry
        | decline target => cases target
        | cancel cancels => cases cancels
        | cancelStop cancels => cases cancels
        | erase reduces => cases reduces
        | reduce reduces => cases reduces

/-! ## A taker on its way -/

theorem toNat_fill {left shown fill : Qty} (amount : fill = if left < shown then left else shown) :
    left.toNat = (left - fill).toNat + fill.toNat := by
  have le : fill ≤ left := by
    rw [amount]
    split
    · exact UInt64.le_refl _
    · rename_i notLess
      exact UInt64.not_lt.mp notLess
  have := UInt64.le_iff_toNat_le.mp le
  rw [UInt64.toNat_sub_of_le _ _ le]
  omega

theorem Step.filled_taking {m : Market} {t : Taker} (step : Step (m, .taking t) events next)
    (parked : ∀ o ∈ m.stops, o.id ≠ t.id) :
    (∃ t', (next.2 = .taking t' ∨ next.2 = .stopped t') ∧ t' = t.withQty t'.qty ∧
      t.qty.toNat = t'.qty.toNat + Market.filled t.id events) ∨
        (Passive t.id next ∧ Market.filled t.id events = 0) := by
  have done {m' : Market} (stops : m'.stops = m.stops) : Passive t.id (m', .idle) := by
    refine ⟨fun o member => parked o (stops ▸ member), fun t' taking => ?_, fun _ same => ?_⟩
    · rcases taking with same | same <;> cases same
    · cases same
  cases step with
  | @fill m t px o rest fill meets other amount =>
      refine .inl ⟨_, .inl rfl, rfl, ?_⟩
      rw [Market.filled, tally_trade, tally_consume, if_pos rfl]
      exact toNat_fill amount
  | cancelMaker meets own policy => exact .inl ⟨t, .inl rfl, rfl, rfl⟩
  | cancelTaker meets own policy => exact .inl ⟨t, .inr rfl, rfl, rfl⟩
  | cancelBoth meets own policy => exact .inl ⟨t, .inr rfl, rfl, rfl⟩
  | filled _ => exact .inr ⟨done rfl, rfl⟩
  | rest left blocked rests => exact .inr ⟨done rfl, rfl⟩
  | cancelRemainder left blocked cancels => exact .inr ⟨done rfl, rfl⟩
  | discard left blocked discards => exact .inr ⟨done rfl, rfl⟩

theorem Run.filled_taking {m : Market} {t t' : Taker}
    (run : Run Step (m, .taking t) events next) (parked : ∀ o ∈ m.stops, o.id ≠ t.id)
    (taking : next.2 = .taking t' ∨ next.2 = .stopped t') (same : t'.id = t.id) :
    t.qty.toNat = t'.qty.toNat + Market.filled t.id events := by
  have kept : ∀ state new next seen,
      ((∃ t', (state.2 = .taking t' ∨ state.2 = .stopped t') ∧ t' = t.withQty t'.qty ∧
        (∀ o ∈ state.1.stops, o.id ≠ t.id) ∧ t.qty.toNat = t'.qty.toNat + Market.filled t.id seen) ∨
          Passive t.id state) → Step state new next →
      ((∃ t', (next.2 = .taking t' ∨ next.2 = .stopped t') ∧ t' = t.withQty t'.qty ∧
        (∀ o ∈ next.1.stops, o.id ≠ t.id) ∧
          t.qty.toNat = t'.qty.toNat + Market.filled t.id (seen ++ new)) ∨ Passive t.id next) := by
    rintro ⟨m', phase⟩ new next seen (⟨t', taking, isT, parked, total⟩ | passive) step
    · have parked' : ∀ o ∈ next.1.stops, o.id ≠ t.id := fun o member =>
        parked o (step.stops_origin.subset member)
      have sameId : t'.id = t.id := by rw [isT]; rfl
      rcases taking with taking | stopped
      · cases taking
        have parked'' : ∀ o ∈ m'.stops, o.id ≠ t'.id := fun o member => by
          rw [sameId]
          exact parked o member
        rcases step.filled_taking parked'' with ⟨t'', taking, isT', left⟩ | ⟨passive, -⟩
        · refine .inl ⟨t'', taking, ?_, parked', ?_⟩
          · rw [isT', isT]
            rfl
          · rw [total, left, sameId, Market.filled, Market.filled, Market.filled, tally_append]
            omega
        · rw [sameId] at passive
          exact .inr passive
      · cases stopped
        have idle : next.2 = .idle := by cases step <;> rfl
        refine .inr ⟨parked', ?_, ?_⟩
        · intro t'' taking
          rw [idle] at taking
          rcases taking with same | same <;> cases same
        · intro clearing same
          rw [idle] at same
          cases same
    · exact .inr (passive.step step)
  rcases run.recorded kept (.inl ⟨t, .inl rfl, rfl, parked, rfl⟩) with
    ⟨t'', taking', -, -, total⟩ | passive
  · rcases taking with now | now <;> rcases taking' with now' | now' <;> rw [now] at now' <;>
      cases now'
    · exact total
    · exact total
  · exact absurd same (passive.taking t' taking)

end Matchbook
