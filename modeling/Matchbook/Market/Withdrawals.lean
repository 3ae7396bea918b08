import Matchbook.Market.Determinism
import Matchbook.Market.OpenQuantity

namespace Matchbook

open Transitions

/-! # Orders that are withdrawn

A cancel takes its order out of the market and nothing else. -/

namespace Market

variable {m m' : Market} {id other : OrderId} {side : Side} {px : Price} {front back : List RO}
  {o : RO} {events : List Event} {ret : Ret}

theorem isOpen_iff_holds : m.IsOpen id ↔ ∃ q discards, m.Holds id q discards := by
  constructor
  · rintro (⟨side, px, o, member, rfl⟩ | ⟨o, parked, rfl⟩)
    · exact ⟨_, false, .inl ⟨rfl, side, px, o, member, rfl, rfl⟩⟩
    · exact ⟨_, _, .inr ⟨o, parked, rfl, rfl, rfl⟩⟩
  · exact fun ⟨q, discards, holds⟩ => holds.isOpen

section valid

variable (valid : m.Valid)

include valid

theorem Valid.isOpen_remove (place : m.levels side px = front ++ o :: back) :
    (m.setLevel side px (front ++ back)).IsOpen other ↔ m.IsOpen other ∧ other ≠ o.id := by
  simp only [isOpen_iff_holds, valid.holds_remove place, exists_and_left, and_comm]

theorem Valid.isOpen_unpark (place : m.stops = front ++ o :: back) :
    { m with stops := front ++ back }.IsOpen other ↔ m.IsOpen other ∧ other ≠ o.id := by
  simp only [isOpen_iff_holds, valid.holds_unpark place, exists_and_left, and_comm]

end valid

theorem Settled.still {final : Market × Phase} (settled : m.Settled)
    (run : Run Step (m, .idle) events final) : events = [] ∧ final = (m, .idle) := by
  rcases run.first with ⟨quiet, same⟩ | ⟨new, middle, later, first, -, -⟩
  · exact ⟨quiet, same.symm⟩
  · exact absurd first settled.stuck

structure Withdraws (m : Market) (id : OrderId) (m' : Market) : Prop where
  last : m'.last = m.last
  halted : m'.halted = m.halted
  stops : ∀ o ∈ m'.stops, o ∈ m.stops
  isOpen : ∀ other, m'.IsOpen other ↔ m.IsOpen other ∧ other ≠ id

theorem Withdraws.settled (withdraws : m.Withdraws id m') (settled : m.Settled) : m'.Settled := by
  rcases settled with halted | unarmed
  · exact .inl (withdraws.halted.trans halted)
  · refine .inr fun o parked armed => unarmed o (withdraws.stops o parked) ?_
    rwa [Armed, ← withdraws.last]

theorem Performs.withdraws (valid : m.Valid) (settled : m.Settled) (isOpen : m.IsOpen id)
    (performs : m.Performs (.cancel id) events m' ret) :
    events = [.cancel id] ∧ m.Withdraws id m' := by
  have accepted : ¬ m.Declines (.cancel id) := not_not.mpr isOpen
  have finish {m₁ : Market} {steps : List Event} (run : Run Step (m₁, .idle) steps (m', .idle))
      (withdraws : m.Withdraws id m₁) :
      [.cancel id] ++ steps = [.cancel id] ∧ m.Withdraws id m' := by
    rcases (withdraws.settled settled).still run with ⟨rfl, same⟩
    cases same
    exact ⟨rfl, withdraws⟩
  cases performs with
  | intro start run settled' answers =>
      rcases start.order_cases valid .cancel with ⟨declined, -⟩ | ⟨-, -, acted⟩
      · exact absurd declined accepted
      · rcases acted with ⟨side, px, front, o, back, place, rfl, same⟩ |
          ⟨front, o, back, place, rfl, same⟩
        · cases same
          exact finish run ⟨rfl, rfl, fun o parked => parked,
            fun other => valid.isOpen_remove place⟩
        · cases same
          refine finish run ⟨rfl, rfl, fun stop parked => ?_,
            fun other => valid.isOpen_unpark place⟩
          rw [place]
          exact List.mem_append.mpr ((List.mem_append.mp parked).imp_right (List.mem_cons_of_mem o))

end Market

end Matchbook
