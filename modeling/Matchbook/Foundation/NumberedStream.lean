import Mathlib.Tactic.Common

/-! # Numbered streams

What a receiver has taken of a stream whose messages are numbered from one on,
when it never goes back: a message that was jumped over counts as missed. -/

structure Reception where
  expected : Nat
  missed : Nat
  taken : List Nat
  sorted : taken.Pairwise (· < ·)
  past : ∀ number ∈ taken, 1 ≤ number ∧ number < expected
  balance : taken.length + missed + 1 = expected

namespace Reception

def start : Reception where
  expected := 1
  missed := 0
  taken := []
  sorted := .nil
  past := nofun
  balance := rfl

theorem expected_pos (reception : Reception) : 1 ≤ reception.expected := by
  have balance := reception.balance
  omega

def jump (reception : Reception) (number : Nat) (ahead : reception.expected ≤ number) :
    Reception where
  expected := number
  missed := reception.missed + (number - reception.expected)
  taken := reception.taken
  sorted := reception.sorted
  past := by
    intro old member
    have past := reception.past old member
    omega
  balance := by
    have balance := reception.balance
    omega

def take (reception : Reception) (count : Nat) : Reception where
  expected := reception.expected + count
  missed := reception.missed
  taken := reception.taken ++ List.range' reception.expected count
  sorted := by
    apply List.pairwise_append.2
    refine ⟨reception.sorted, List.pairwise_lt_range', ?_⟩
    intro old member new newMember
    have past := reception.past old member
    have bounds := List.mem_range'_1.1 newMember
    omega
  past := by
    intro number member
    have positive := reception.expected_pos
    rcases List.mem_append.1 member with old | new
    · have past := reception.past number old
      omega
    · have bounds := List.mem_range'_1.1 new
      omega
  balance := by
    have balance := reception.balance
    simp only [List.length_append, List.length_range']
    omega

def arrive (reception : Reception) (number count : Nat) : Reception :=
  let reception :=
    if ahead : reception.expected ≤ number then reception.jump number ahead else reception
  reception.take (number + count - reception.expected)

variable {reception : Reception} {number count : Nat}

theorem expected_arrive (reception : Reception) (number count : Nat) :
    (reception.arrive number count).expected = max reception.expected (number + count) := by
  simp only [arrive, take]
  split
  case isTrue ahead =>
      simp only [jump]
      omega
  case isFalse => omega

theorem missed_arrive (reception : Reception) (number count : Nat) :
    (reception.arrive number count).missed =
      reception.missed + (number - reception.expected) := by
  simp only [arrive, take]
  split
  case isTrue ahead => rfl
  case isFalse behind => omega

theorem taken_arrive (reception : Reception) (number count : Nat) :
    (reception.arrive number count).taken =
      reception.taken ++ (List.range' number count).drop (reception.expected - number) := by
  rw [List.drop_range']
  simp only [arrive, take]
  split
  case isTrue ahead =>
      have noneSeen : reception.expected - number = 0 := by omega
      have allNew : number + count - number = count := by omega
      simp [jump, noneSeen, allNew]
  case isFalse behind =>
      have shifted : number + (reception.expected - number) * 1 = reception.expected := by omega
      have size : number + count - reception.expected =
          count - (reception.expected - number) := by omega
      rw [size]
      simp only [shifted]

theorem eq_range'_of_increasing {numbers : List Nat} {first : Nat}
    (increasing : numbers.Pairwise (· < ·))
    (within : ∀ number ∈ numbers, first ≤ number ∧ number < first + numbers.length) :
    numbers = List.range' first numbers.length := by
  induction numbers generalizing first with
  | nil => rfl
  | cons least numbers induction =>
      rcases List.pairwise_cons.1 increasing with ⟨less, increasing'⟩
      have bounds := within least List.mem_cons_self
      rw [List.length_cons] at bounds within
      have later := @induction (first + 1) increasing' fun number member => by
        have past := less number member
        have bounds' := within number (List.mem_cons_of_mem _ member)
        omega
      have isFirst : least = first := by
        cases numbers with
        | nil => exact Nat.le_antisymm (Nat.le_of_lt_succ bounds.2) bounds.1
        | cons second rest =>
            have next : second = first + 1 := by
              rw [List.length_cons, List.range'_succ] at later
              exact (List.cons.inj later).1
            have past := less second List.mem_cons_self
            omega
      rw [isFirst, List.length_cons, List.range'_succ, ← later]

theorem taken_of_complete (complete : reception.missed = 0) :
    reception.taken = List.range' 1 (reception.expected - 1) := by
  have balance := reception.balance
  have count : reception.taken.length = reception.expected - 1 := by omega
  rw [← count]
  apply eq_range'_of_increasing reception.sorted
  intro number member
  have past := reception.past number member
  omega

end Reception
