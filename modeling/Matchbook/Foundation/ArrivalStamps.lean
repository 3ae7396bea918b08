import Mathlib.Logic.Function.Basic

/-! # Arrival stamps

A clock that numbers arrivals, and queues whose members stand in the order in
which they last arrived. -/

structure ArrivalStamps (α : Type u) where
  clock : Nat
  of : α → Nat

namespace ArrivalStamps

variable {α : Type u}

def start : ArrivalStamps α where
  clock := 0
  of _ := 0

def stamp [DecidableEq α] (stamps : ArrivalStamps α) (a : α) : ArrivalStamps α where
  clock := stamps.clock + 1
  of := Function.update stamps.of a stamps.clock

structure InOrder (stamps : ArrivalStamps α) (queue : List α) : Prop where
  sorted : queue.Pairwise fun a b => stamps.of a < stamps.of b
  past : ∀ a ∈ queue, stamps.of a < stamps.clock

variable {stamps : ArrivalStamps α} {queue shorter : List α} {a : α}

theorem inOrder_nil : stamps.InOrder [] := ⟨.nil, fun _ member => absurd member List.not_mem_nil⟩

theorem InOrder.sublist (order : stamps.InOrder queue) (sub : shorter.Sublist queue) :
    stamps.InOrder shorter :=
  ⟨order.sorted.sublist sub, fun a member => order.past a (sub.subset member)⟩

theorem InOrder.head_lt (order : stamps.InOrder (a :: queue)) {b : α} (member : b ∈ queue) :
    stamps.of a < stamps.of b :=
  (List.pairwise_cons.mp order.sorted).1 b member

section stamp

variable [DecidableEq α]

@[simp] theorem stamp_self : (stamps.stamp a).of a = stamps.clock := Function.update_self ..

theorem stamp_of_ne {b : α} (ne : b ≠ a) : (stamps.stamp a).of b = stamps.of b :=
  Function.update_of_ne ne ..

theorem InOrder.elsewhere (order : stamps.InOrder queue) (absent : a ∉ queue) :
    (stamps.stamp a).InOrder queue := by
  have same : ∀ b ∈ queue, (stamps.stamp a).of b = stamps.of b := fun b member =>
    stamp_of_ne fun equal => absent (equal ▸ member)
  constructor
  · apply order.sorted.imp_of_mem
    intro b c first second less
    rw [same b first, same c second]
    exact less
  · intro b member
    rw [same b member]
    exact Nat.lt_succ_of_lt (order.past b member)

theorem InOrder.arrive (order : stamps.InOrder queue) (absent : a ∉ queue) :
    (stamps.stamp a).InOrder (queue ++ [a]) := by
  have before := order.elsewhere absent
  constructor
  · rw [List.pairwise_append]
    refine ⟨before.sorted, List.pairwise_singleton _ _, ?_⟩
    intro b member c isLast
    have ne : b ≠ a := fun equal => absent (equal ▸ member)
    rw [List.mem_singleton.mp isLast, stamp_self, stamp_of_ne ne]
    exact order.past b member
  · intro b member
    rcases List.mem_append.mp member with old | new
    · exact before.past b old
    · rw [List.mem_singleton.mp new, stamp_self]
      exact Nat.lt_succ_self _

end stamp

end ArrivalStamps
