import Mathlib.Data.Nat.ModEq
import Mathlib.Data.UInt
import Mathlib.Tactic.Common

/-! # Bounded queues

A first-in first-out channel seen from outside: everything sent so far, and how
much of it has been received. A circular store holds what lies between. -/

structure BoundedQueue (T : Type u) (capacity : Nat) where
  sent : List T
  received : Nat
  received_le : received ≤ sent.length
  fits : sent.length ≤ received + capacity

namespace BoundedQueue

variable {T : Type u} {capacity : Nat}

def empty : BoundedQueue T capacity where
  sent := []
  received := 0
  received_le := Nat.le_refl 0
  fits := Nat.zero_le _

def send (queue : BoundedQueue T capacity) (value : T)
    (room : queue.sent.length < queue.received + capacity) : BoundedQueue T capacity where
  sent := queue.sent ++ [value]
  received := queue.received
  received_le := by
    have received_le := queue.received_le
    simp only [List.length_append, List.length_singleton]
    omega
  fits := by
    rw [List.length_append]
    exact room

def receive (queue : BoundedQueue T capacity) (waiting : queue.received < queue.sent.length) :
    BoundedQueue T capacity where
  sent := queue.sent
  received := queue.received + 1
  received_le := waiting
  fits := by
    have fits := queue.fits
    omega

def output (queue : BoundedQueue T capacity) : List T :=
  queue.sent.take queue.received

theorem output_prefix (queue : BoundedQueue T capacity) : queue.output <+: queue.sent :=
  List.take_prefix _ _

@[simp] theorem output_length (queue : BoundedQueue T capacity) :
    queue.output.length = queue.received := by
  simp [output, queue.received_le]

@[simp] theorem output_send (queue : BoundedQueue T capacity) (value : T)
    (room : queue.sent.length < queue.received + capacity) :
    (queue.send value room).output = queue.output := by
  simp [output, send, List.take_append_of_le_length queue.received_le]

theorem output_receive (queue : BoundedQueue T capacity)
    (waiting : queue.received < queue.sent.length) :
    (queue.receive waiting).output = queue.output ++ [queue.sent[queue.received]] := by
  simp only [output, receive]
  rw [← List.take_concat_get waiting, List.concat_eq_append]

/-! ## Circular slots -/

def LaidIn (queue : BoundedQueue T capacity) (slots : Vector T capacity) : Prop :=
  ∀ index (place : index % capacity < capacity), queue.received ≤ index →
    ∀ inside : index < queue.sent.length, slots[index % capacity] = queue.sent[index]

variable {queue : BoundedQueue T capacity} {slots : Vector T capacity} {value : T}

theorem slot_ne {first second : Nat} (before : first < second)
    (round : second < first + capacity) : first % capacity ≠ second % capacity := by
  intro same
  have divides : capacity ∣ second - first := (Nat.modEq_iff_dvd' before.le).1 same
  have := Nat.le_of_dvd (by omega) divides
  omega

theorem laidIn_empty (slots : Vector T capacity) :
    (empty : BoundedQueue T capacity).LaidIn slots := by
  intro index place low inside
  simp [empty] at inside

theorem LaidIn.write (laid : queue.LaidIn slots) (value : T)
    (room : queue.sent.length < queue.received + capacity)
    (place : queue.sent.length % capacity < capacity) :
    queue.LaidIn (slots.set (queue.sent.length % capacity) value place) := by
  intro index indexPlace low inside
  have apart : index % capacity ≠ queue.sent.length % capacity := slot_ne inside (by omega)
  rw [Vector.getElem_set_ne place indexPlace apart.symm]
  exact laid index indexPlace low inside

theorem LaidIn.send (laid : queue.LaidIn slots)
    (room : queue.sent.length < queue.received + capacity)
    (place : queue.sent.length % capacity < capacity)
    (written : slots[queue.sent.length % capacity] = value) :
    (queue.send value room).LaidIn slots := by
  intro index indexPlace low inside
  rcases Nat.lt_or_ge index queue.sent.length with old | new
  · have unchanged : (queue.send value room).sent[index] = queue.sent[index] :=
      List.getElem_append_left old
    rw [unchanged]
    exact laid index indexPlace low old
  · have last : index = queue.sent.length := by
      simp only [BoundedQueue.send, List.length_append, List.length_singleton] at inside
      omega
    subst last
    simpa [BoundedQueue.send] using written

theorem LaidIn.receive (laid : queue.LaidIn slots)
    (waiting : queue.received < queue.sent.length) : (queue.receive waiting).LaidIn slots := by
  intro index place low inside
  exact laid index place (Nat.le_of_succ_le low) inside

end BoundedQueue

/-! ## Wrapping counters

A 64-bit counter shows its count modulo 2^64. Counts that lie close together
are told apart by it. -/

namespace UInt64

theorem ofNat_inj_of_close {first second : Nat} (ordered : first ≤ second)
    (close : second - first < 2 ^ 64) :
    UInt64.ofNat first = UInt64.ofNat second ↔ first = second := by
  constructor
  · intro same
    have same := congrArg UInt64.toNat same
    simp only [UInt64.toNat_ofNat'] at same
    omega
  · intro same
    rw [same]

theorem ofNat_sub_eq_iff {first second distance : Nat} (ordered : first ≤ second)
    (close : second - first < 2 ^ 64) (small : distance < 2 ^ 64) :
    UInt64.ofNat second - UInt64.ofNat first = UInt64.ofNat distance ↔
      second = first + distance := by
  rw [← UInt64.ofNat_sub ordered]
  rcases Nat.le_total (second - first) distance with below | above
  · rw [ofNat_inj_of_close below (by omega)]
    omega
  · rw [eq_comm, ofNat_inj_of_close above (by omega)]
    omega

theorem toNat_ofNat_and_mask (count : Nat) {log2 : Nat} (fits : log2 < 64) :
    (UInt64.ofNat count &&& (UInt64.ofNat (2 ^ log2) - 1)).toNat = count % 2 ^ log2 := by
  have small : 2 ^ log2 < 2 ^ 64 := Nat.pow_lt_pow_right (by decide) fits
  have positive : 0 < 2 ^ log2 := Nat.two_pow_pos log2
  have mask : (UInt64.ofNat (2 ^ log2) - 1).toNat = 2 ^ log2 - 1 := by
    have ofOne : (1 : UInt64) = UInt64.ofNat 1 := rfl
    rw [ofOne, ← UInt64.ofNat_sub positive, UInt64.toNat_ofNat']
    exact Nat.mod_eq_of_lt (by omega)
  rw [UInt64.toNat_and, mask, UInt64.toNat_ofNat', Nat.and_two_pow_sub_one_eq_mod]
  exact Nat.mod_mod_of_dvd count (Nat.pow_dvd_pow 2 fits.le)

end UInt64
