import Matchbook.Market.Valid

namespace Matchbook

open Transitions

/-! # Histories

What an onlooker writes down of a market: every operation with its answer, and
after it the events it caused. -/

inductive Entry
  | called (op : Op) (ret : Ret)
  | seen (event : Event)
deriving DecidableEq, Repr

namespace Market

def new (band : Band) : Market where
  min := band.min
  max := band.max
  levels _ _ := []
  stops := []
  nextId := 1
  last := none
  halted := false

inductive Move : Market × Phase → List Entry → Market × Phase → Prop
  | begin {m op events next ret} (settled : m.Settled) (start : m.Begin op events next ret) :
      Move (m, .idle) (.called op ret :: events.map .seen) next
  | step {state events next} (taken : Step state events next) :
      Move state (events.map .seen) next

theorem Move.valid {state next : Market × Phase} {entries : List Entry}
    (valid : ValidState state) (move : Move state entries next) : ValidState next := by
  cases move with
  | begin settled start => exact start.valid valid.1
  | step taken => exact taken.valid valid

theorem Performs.moves {m m' : Market} {op : Op} {events : List Event} {ret : Ret}
    (settled : m.Settled) (performs : m.Performs op events m' ret) :
    Run Move (m, .idle) (.called op ret :: events.map .seen) (m', .idle) := by
  cases performs with
  | intro start steps settled' =>
      have rest := steps.map Entry.seen fun _ _ _ taken => Move.step taken
      have whole := (Run.single (Move.begin settled start)).trans rest
      rw [List.map_append]
      exact whole

end Market

end Matchbook
