import Mathlib.Algebra.Ring.Nat
import Mathlib.Tactic.Common

/-! # Wrapping sums

Sums of 64-bit words against the sums of numbers they stand for. -/

namespace WrappingSums

theorem toNat_ofNat_iff {n : Nat} : (UInt64.ofNat n).toNat = n ↔ n < 2 ^ 64 := by
  constructor
  · intro same
    rw [← same]
    exact UInt64.toNat_lt _
  · exact UInt64.toNat_ofNat_of_lt'

def countUntil (want : Nat) : List Nat → Nat → Nat
  | [], sum => sum
  | amount :: amounts, sum =>
      if sum < want then countUntil want amounts (sum + amount) else sum

def countWords (want : UInt64) : List Nat → UInt64 → UInt64
  | [], sum => sum
  | amount :: amounts, sum =>
      if sum < want then countWords want amounts (sum + UInt64.ofNat amount) else sum

variable {want want' sum : Nat} {amounts more : List Nat}

theorem le_countUntil : sum ≤ countUntil want amounts sum := by
  induction amounts generalizing sum with
  | nil => exact Nat.le_refl sum
  | cons amount amounts induction =>
      rw [countUntil]
      split
      case isTrue short => exact Nat.le_trans (Nat.le_add_right sum amount) induction
      case isFalse enough => exact Nat.le_refl sum

theorem countUntil_le_append :
    countUntil want amounts sum ≤ countUntil want (amounts ++ more) sum := by
  induction amounts generalizing sum with
  | nil => exact le_countUntil
  | cons amount amounts induction =>
      rw [List.cons_append, countUntil, countUntil]
      split
      case isTrue short => exact induction
      case isFalse enough => exact Nat.le_refl sum

theorem countUntil_mono (less : want ≤ want') :
    countUntil want amounts sum ≤ countUntil want' amounts sum := by
  induction amounts generalizing sum with
  | nil => exact Nat.le_refl sum
  | cons amount amounts induction =>
      rw [countUntil]
      split
      case isTrue short =>
          rw [countUntil, if_pos (Nat.lt_of_lt_of_le short less)]
          exact induction
      case isFalse enough => exact le_countUntil

theorem countWords_iff {want start : UInt64} :
    (countWords want amounts start).toNat = countUntil want.toNat amounts start.toNat ↔
      countUntil want.toNat amounts start.toNat < 2 ^ 64 := by
  constructor
  · intro same
    rw [← same]
    exact UInt64.toNat_lt _
  · intro fits
    induction amounts generalizing start with
    | nil => rfl
    | cons amount amounts induction =>
        rw [countUntil] at fits ⊢
        rw [countWords]
        by_cases short : start < want
        · have less := UInt64.lt_iff_toNat_lt.mp short
          rw [if_pos less] at fits ⊢
          rw [if_pos short]
          have small : start.toNat + amount < 2 ^ 64 := Nat.lt_of_le_of_lt le_countUntil fits
          have word : amount < 2 ^ 64 := by omega
          have next : (start + UInt64.ofNat amount).toNat = start.toNat + amount := by
            rw [UInt64.toNat_add, toNat_ofNat_iff.mpr word, Nat.mod_eq_of_lt small]
          rw [← next] at fits ⊢
          exact induction fits
        · have notLess := mt UInt64.lt_iff_toNat_lt.mpr short
          rw [if_neg short, if_neg notLess]

end WrappingSums
