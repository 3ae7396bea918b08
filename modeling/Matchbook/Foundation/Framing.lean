import Mathlib.Tactic.Common

/-! # Reading a stream item by item

`next` takes one item off the front of a stream, if a whole one is there. -/

namespace Framing

variable {Symbol Item : Type*} (next : List Symbol → Option (Item × List Symbol))

def readAll : Nat → List Symbol → List Item × List Symbol
  | 0, stream => ([], stream)
  | bound + 1, stream =>
      match next stream with
      | none => ([], stream)
      | some (item, rest) => (item :: (readAll bound rest).1, (readAll bound rest).2)

def Consumes : Prop :=
  ∀ stream item rest, next stream = some (item, rest) → rest.length < stream.length

variable {next}

/-- What was written item by item is read item by item. -/
theorem readAll_written {Value : Type*} {write : Value → List Symbol} {item : Value → Item}
    {values : List Value} (consumes : Consumes next) (done : next [] = none)
    (reads : ∀ value ∈ values, ∀ rest, next (write value ++ rest) = some (item value, rest))
    {bound : Nat} (enough : (values.flatMap write).length < bound) :
    readAll next bound (values.flatMap write) = (values.map item, []) := by
  induction values generalizing bound with
  | nil =>
      cases bound with
      | zero => rfl
      | succ bound => simp [readAll, done]
  | cons value values induction =>
      have first := reads value List.mem_cons_self (values.flatMap write)
      cases bound with
      | zero => exact absurd enough (Nat.not_lt_zero _)
      | succ bound =>
          have less := consumes _ _ _ first
          have rest := induction (fun other member => reads other (List.mem_cons_of_mem _ member))
            (Nat.lt_of_lt_of_le less (Nat.le_of_lt_succ enough))
          rw [List.flatMap_cons, readAll, first]
          simp only [rest, List.map_cons]

/-- A decoder that needs as many symbols as the first one says refuses what lacks its end. -/
theorem refused_of_prefix {Message : Type*} {decode : List Symbol → Option Message}
    {size : Symbol → Nat} {first : Symbol} {body start : List Symbol}
    (short : ∀ read, (first :: read).length < size first → decode (first :: read) = none)
    (empty : decode [] = none) (whole : (first :: body).length = size first)
    (isStart : start <+: first :: body) (strict : start ≠ first :: body) : decode start = none := by
  rcases isStart with ⟨rest, joined⟩
  cases start with
  | nil => exact empty
  | cons symbol read =>
      have same : symbol = first := (List.cons.inj joined).1
      subst same
      have more : rest ≠ [] := fun none => strict (by rw [← joined, none, List.append_nil])
      have positive := List.length_pos_iff.mpr more
      apply short
      rw [← whole, ← joined, List.length_append]
      omega

end Framing
