import Mathlib.Algebra.Order.Ring.Int
import Mathlib.Data.UInt
import Mathlib.Tactic.Common

namespace Matchbook

/-! # Core types

Quantities and participant ids have the widths of the source. Prices and order
ids are unbounded: a price outside the band is refused wherever it is used as
one, and ids are handed out one by one. -/

abbrev OrderId := Nat
abbrev Price := Int
abbrev Qty := UInt64
abbrev OwnerId := UInt16

def invalidOrderId : OrderId := 0

inductive Side
  | buy
  | sell
deriving DecidableEq, Repr

namespace Side

def opposite : Side → Side
  | buy => sell
  | sell => buy

@[simp] theorem opposite_opposite (side : Side) : side.opposite.opposite = side := by
  cases side <;> rfl

@[simp] theorem opposite_ne (side : Side) : side.opposite ≠ side := by
  cases side <;> decide

@[simp] theorem ne_opposite (side : Side) : side ≠ side.opposite := by
  cases side <;> decide

/-- `price` is at least as aggressive as `limit` for an order resting on this
side, that is, an order of the other side with that limit can reach it. -/
def Reaches (maker : Side) (price limit : Price) : Prop :=
  match maker with
  | sell => price ≤ limit
  | buy => limit ≤ price

instance (maker : Side) (price limit : Price) : Decidable (maker.Reaches price limit) := by
  unfold Reaches
  cases maker <;> exact inferInstance

theorem reaches_refl (maker : Side) (price : Price) : maker.Reaches price price := by
  cases maker <;> exact Int.le_refl price

theorem reaches_trans {maker : Side} {first second third : Price}
    (left : maker.Reaches first second) (right : maker.Reaches second third) :
    maker.Reaches first third := by
  cases maker
  · exact Int.le_trans right left
  · exact Int.le_trans left right

theorem reaches_antisymm {maker : Side} {first second : Price}
    (left : maker.Reaches first second) (right : maker.Reaches second first) :
    first = second := by
  cases maker
  · exact Int.le_antisymm right left
  · exact Int.le_antisymm left right

def Within (maker : Side) (price : Price) : Option Price → Prop
  | none => True
  | some limit => maker.Reaches price limit

theorem Within.mono {maker : Side} {price better : Price} {limit : Option Price}
    (reaches : maker.Reaches better price) (within : maker.Within price limit) :
    maker.Within better limit := by
  cases limit with
  | none => trivial
  | some limit => exact reaches_trans reaches within

instance (maker : Side) (price : Price) (limit : Option Price) :
    Decidable (maker.Within price limit) := by
  cases limit <;> unfold Within <;> exact inferInstance

end Side

inductive TimeInForce
  | gtc
  | ioc
  | fok
  | postOnly
deriving DecidableEq, Repr

inductive StpPolicy
  | cancelTaker
  | cancelMaker
  | cancelBoth
deriving DecidableEq, Repr

structure Trade where
  taker : OrderId
  maker : OrderId
  price : Price
  qty : Qty
  takerSide : Side
deriving DecidableEq, Repr

/-! ## Events

The engine reports to a handler it is instantiated with. A handler sees one
event after another and nothing of the engine, so it is a state with one
update. -/

inductive Event
  | accept (id : OrderId) (side : Side) (price : Price) (qty : Qty)
  | trade (trade : Trade)
  | cancel (id : OrderId)
  | reject (id : OrderId)
  | rest (id : OrderId) (side : Side) (price : Price) (displayed : Qty)
deriving DecidableEq, Repr

class Handler (H : Type) where
  on : H → Event → H

/-- The handler that records everything, oldest first. -/
abbrev Tape := List Event

instance : Handler Tape where
  on tape event := tape ++ [event]

abbrev NullHandler := Unit

instance : Handler NullHandler where
  on handler _ := handler

namespace Handler

variable {H : Type} [Handler H]

def onAll (handler : H) (events : List Event) : H :=
  events.foldl Handler.on handler

@[simp] theorem onAll_nil (handler : H) : onAll handler [] = handler := rfl

theorem onAll_append (handler : H) (first second : List Event) :
    onAll handler (first ++ second) = onAll (onAll handler first) second := by
  simp [onAll]

@[simp] theorem onAll_concat (handler : H) (events : List Event) (event : Event) :
    onAll handler (events ++ [event]) = Handler.on (onAll handler events) event := by
  simp [onAll]

theorem onAll_tape (tape : Tape) (events : List Event) :
    onAll tape events = tape ++ events := by
  induction events generalizing tape with
  | nil => simp
  | cons event rest induction =>
      have first : Handler.on tape event = tape ++ [event] := rfl
      have split := induction (Handler.on tape event)
      rw [first, List.append_assoc] at split
      exact split

end Handler

/-! ## Public operations -/

def FitsPrice (price : Price) : Prop := -2 ^ 63 ≤ price ∧ price < 2 ^ 63

/-- The prices a book covers. The upper bound keeps `max + 1` in 64 bits. -/
structure Band where
  min : Price
  max : Price
  min_le_max : min ≤ max
  lower : -(2 ^ 63) ≤ min
  upper : max < 2 ^ 63 - 1

inductive Op
  | submitLimit (side : Side) (price : Price) (qty : Qty) (tif : TimeInForce)
      (owner : OwnerId) (stp : StpPolicy)
  | submitMarket (side : Side) (qty : Qty) (owner : OwnerId) (stp : StpPolicy)
  | submitIceberg (side : Side) (price : Price) (totalQty display : Qty)
      (tif : TimeInForce) (owner : OwnerId) (stp : StpPolicy)
  | submitStop (side : Side) (stopPrice : Price) (qty : Qty) (owner : OwnerId)
      (stp : StpPolicy)
  | submitStopLimit (side : Side) (stopPrice limitPrice : Price) (qty : Qty)
      (owner : OwnerId) (stp : StpPolicy)
  | cancel (id : OrderId)
  | reduce (id : OrderId) (delta : Qty)
  | modify (id : OrderId) (newPrice : Price) (newQty : Qty)
  | halt
  | resume
  | uncross
deriving DecidableEq, Repr

/-- What an operation returns: an order id, a quantity, a success flag, or
nothing. -/
inductive Ret
  | id (id : OrderId)
  | qty (qty : Qty)
  | ok (ok : Bool)
  | done
deriving DecidableEq, Repr

end Matchbook
