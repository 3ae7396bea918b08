import Mathlib.Algebra.BigOperators.Group.List.Basic
import Mathlib.Algebra.GroupWithZero.Nat
import Mathlib.Data.List.Nodup
import Mathlib.Logic.Function.Basic

/-! # Numbered accounts

A log of accounts that are opened under new numbers, drawn on and closed, and what is left
in each account that somebody holds. -/

namespace NumberedAccounts

inductive Posting
  | opened (number amount : Nat)
  | drawn (number amount : Nat)
  | closed (number : Nat)

namespace Posting

def number : Posting → Nat
  | opened number _ => number
  | drawn number _ => number
  | closed number => number

def credit (of : Nat) : Posting → Nat
  | opened number amount => if number = of then amount else 0
  | _ => 0

def debit (of : Nat) : Posting → Nat
  | drawn number amount => if number = of then amount else 0
  | _ => 0

def opens : Posting → Option Nat
  | opened number _ => some number
  | _ => none

variable {posting : Posting} {of : Nat}

theorem credit_other (other : posting.number ≠ of) : posting.credit of = 0 := by
  cases posting with
  | opened number amount => exact if_neg other
  | _ => rfl

theorem debit_other (other : posting.number ≠ of) : posting.debit of = 0 := by
  cases posting with
  | drawn number amount => exact if_neg other
  | _ => rfl

theorem credit_of_opens_none (later : posting.opens = none) : posting.credit of = 0 := by
  cases posting with
  | opened number amount => cases later
  | _ => rfl

end Posting

def given (log : List Posting) (number : Nat) : Nat := (log.map (Posting.credit number)).sum

def spent (log : List Posting) (number : Nat) : Nat := (log.map (Posting.debit number)).sum

def numbers (log : List Posting) : List Nat := log.filterMap Posting.opens

variable {Key : Type} {log : List Posting} {next number left amount : Nat} {posting : Posting}
  {held : Key → Option (Nat × Nat)} {key : Key}

@[simp] theorem given_concat :
    given (log ++ [posting]) number = given log number + posting.credit number := by
  simp [given]

@[simp] theorem spent_concat :
    spent (log ++ [posting]) number = spent log number + posting.debit number := by
  simp [spent]

theorem given_of_unnamed (unnamed : ∀ posting ∈ log, posting.number ≠ number) :
    given log number = 0 := by
  apply List.sum_eq_zero
  intro credit member
  rcases List.mem_map.mp member with ⟨posting, present, rfl⟩
  exact Posting.credit_other (unnamed posting present)

theorem spent_of_unnamed (unnamed : ∀ posting ∈ log, posting.number ≠ number) :
    spent log number = 0 := by
  apply List.sum_eq_zero
  intro debit member
  rcases List.mem_map.mp member with ⟨posting, present, rfl⟩
  exact Posting.debit_other (unnamed posting present)

theorem mem_numbers : number ∈ numbers log ↔ ∃ amount, .opened number amount ∈ log := by
  constructor
  · intro member
    rcases List.mem_filterMap.mp member with ⟨posting, present, opens⟩
    cases posting with
    | opened number' amount =>
        cases opens
        exact ⟨amount, present⟩
    | _ => cases opens
  · rintro ⟨amount, present⟩
    exact List.mem_filterMap.mpr ⟨_, present, rfl⟩

theorem given_of_not_mem (unopened : number ∉ numbers log) : given log number = 0 := by
  apply List.sum_eq_zero
  intro credit member
  rcases List.mem_map.mp member with ⟨posting, present, rfl⟩
  cases posting with
  | opened number' amount =>
      apply if_neg
      rintro rfl
      exact unopened (mem_numbers.mpr ⟨amount, present⟩)
  | _ => rfl

theorem given_of_opened (once : (numbers log).Nodup) (present : .opened number amount ∈ log) :
    given log number = amount := by
  induction log with
  | nil => cases present
  | cons posting log induction =>
      have sum : given (posting :: log) number = posting.credit number + given log number := rfl
      rw [sum]
      rcases List.mem_cons.mp present with rfl | later
      · have unopened : number ∉ numbers log := (List.nodup_cons.mp once).1
        rw [given_of_not_mem unopened]
        exact if_pos rfl
      · have known : number ∈ numbers log := mem_numbers.mpr ⟨amount, later⟩
        have rest : (numbers log).Nodup :=
          once.sublist ((List.sublist_cons_self posting log).filterMap _)
        have other : posting.credit number = 0 := by
          cases posting with
          | opened number' amount' =>
              apply if_neg
              rintro rfl
              exact (List.nodup_cons.mp once).1 known
          | _ => rfl
        rw [other, induction rest later, Nat.zero_add]

structure Shut (log : List Posting) (number : Nat) : Prop where
  covered : spent log number ≤ given log number
  whole : .closed number ∉ log → spent log number = given log number

structure Kept (log : List Posting) (next : Nat) (held : Key → Option (Nat × Nat)) : Prop where
  issued : ∀ key number left, held key = some (number, left) → number < next
  apart : ∀ key key' number left left', held key = some (number, left) →
    held key' = some (number, left') → key = key'
  left : ∀ key number left, held key = some (number, left) →
    given log number = spent log number + left ∧ .closed number ∉ log
  shut : ∀ number, (∀ key left, held key ≠ some (number, left)) → Shut log number
  unnamed : ∀ number, next ≤ number → ∀ posting ∈ log, posting.number ≠ number
  once : (numbers log).Nodup

theorem kept_nil : Kept [] next (fun _ : Key => none) where
  issued := nofun
  apart := nofun
  left := nofun
  shut _ _ := ⟨Nat.le_refl _, fun _ => rfl⟩
  unnamed := nofun
  once := List.nodup_nil

namespace Kept

variable [DecidableEq Key] (kept : Kept log next held)
include kept

theorem opens (free : held key = none) (amount : Nat) :
    Kept (log ++ [.opened next amount]) (next + 1)
      (Function.update held key (some (next, amount))) := by
  have fresh := kept.unnamed next (Nat.le_refl next)
  have old {other : Key} {number left : Nat}
      (holds : Function.update held key (some (next, amount)) other = some (number, left)) :
      (other = key ∧ number = next ∧ left = amount) ∨
        (other ≠ key ∧ held other = some (number, left) ∧ number < next) := by
    by_cases same : other = key
    · rw [same, Function.update_self] at holds
      cases holds
      exact .inl ⟨same, rfl, rfl⟩
    · rw [Function.update_of_ne same] at holds
      exact .inr ⟨same, holds, kept.issued _ _ _ holds⟩
  constructor
  case issued =>
      intro other number left holds
      rcases old holds with ⟨-, rfl, -⟩ | ⟨-, -, less⟩
      · exact Nat.lt_succ_self number
      · exact Nat.lt_succ_of_lt less
  case apart =>
      intro first second number left left' holds holds'
      rcases old holds with ⟨rfl, same, -⟩ | ⟨-, before, less⟩
      · rcases old holds' with ⟨rfl, -, -⟩ | ⟨-, -, less'⟩
        · rfl
        · exact absurd same (Nat.ne_of_lt less')
      · rcases old holds' with ⟨-, same, -⟩ | ⟨-, before', -⟩
        · exact absurd same (Nat.ne_of_lt less)
        · exact kept.apart _ _ _ _ _ before before'
  case left =>
      intro other number left holds
      rcases old holds with ⟨-, rfl, rfl⟩ | ⟨-, before, less⟩
      · rw [given_concat, spent_concat, given_of_unnamed fresh, spent_of_unnamed fresh]
        refine ⟨by simp [Posting.credit, Posting.debit], ?_⟩
        intro closed
        rcases List.mem_append.mp closed with inLog | last
        · exact fresh _ inLog rfl
        · simp at last
      · rcases kept.left _ _ _ before with ⟨sum, notClosed⟩
        have other : (Posting.opened next amount).number ≠ number := Nat.ne_of_gt less
        rw [given_concat, spent_concat, Posting.credit_other other, Posting.debit_other other]
        exact ⟨sum, by simpa using notClosed⟩
  case shut =>
      intro number none
      have other : (Posting.opened next amount).number ≠ number := by
        rintro rfl
        exact none key amount (Function.update_self ..)
      have before : ∀ key left, held key ≠ some (number, left) := by
        intro holder left holds
        by_cases same : holder = key
        · rw [same, free] at holds
          cases holds
        · exact none holder left (by rwa [Function.update_of_ne same])
      rcases kept.shut number before with ⟨covered, whole⟩
      constructor <;> rw [given_concat, spent_concat, Posting.credit_other other,
        Posting.debit_other other]
      · exact covered
      · exact fun notClosed => whole (by simpa using notClosed)
  case unnamed =>
      intro number later posting member
      rcases List.mem_append.mp member with before | last
      · exact kept.unnamed number (Nat.le_of_succ_le later) posting before
      · rw [List.mem_singleton.mp last]
        exact Nat.ne_of_lt later
  case once =>
      rw [numbers, List.filterMap_append, List.nodup_append]
      refine ⟨kept.once, by simp [Posting.opens], ?_⟩
      intro number member other last
      rcases List.mem_filterMap.mp member with ⟨posting, present, opens⟩
      have same : other = next := by simpa [Posting.opens] using last
      rintro rfl
      cases posting with
      | opened number amount =>
          cases opens
          exact fresh _ present same
      | _ => cases opens

/-- An posting on an account that is held, and what is left then. -/
theorem record (holds : held key = some (number, left)) {posting : Posting}
    (about : posting.number = number) (later : posting.opens = none) {rest : Option Nat}
    (still : ∀ left', rest = some left' →
      left = posting.debit number + left' ∧ posting ≠ .closed number)
    (gone : rest = none →
      posting.debit number ≤ left ∧ (posting ≠ .closed number → posting.debit number = left)) :
    Kept (log ++ [posting]) next
      (Function.update held key (rest.map fun left => (number, left))) := by
  rcases kept.left key number left holds with ⟨sum, notClosed⟩
  have old {other : Key} {number' left' : Nat} (after : Function.update held key
      (rest.map fun left => (number, left)) other = some (number', left')) :
      (other = key ∧ number' = number ∧ rest = some left') ∨
        (other ≠ key ∧ number' ≠ number ∧ held other = some (number', left')) := by
    by_cases same : other = key
    · rw [same, Function.update_self] at after
      rcases Option.map_eq_some_iff.mp after with ⟨left'', isRest, pair⟩
      cases pair
      exact .inl ⟨same, rfl, isRest⟩
    · rw [Function.update_of_ne same] at after
      refine .inr ⟨same, ?_, after⟩
      rintro rfl
      exact same (kept.apart _ _ _ _ _ after holds)
  constructor
  case issued =>
      intro other number' left' after
      rcases old after with ⟨-, rfl, -⟩ | ⟨-, -, before⟩
      · exact kept.issued _ _ _ holds
      · exact kept.issued _ _ _ before
  case apart =>
      intro first second number' left' left'' after after'
      rcases old after with ⟨rfl, same, -⟩ | ⟨-, other, before⟩
      · rcases old after' with ⟨rfl, -, -⟩ | ⟨-, other, -⟩
        · rfl
        · exact absurd same other
      · rcases old after' with ⟨-, same, -⟩ | ⟨-, -, before'⟩
        · exact absurd same other
        · exact kept.apart _ _ _ _ _ before before'
  case left =>
      intro other number' left' after
      rw [given_concat, spent_concat]
      rcases old after with ⟨-, rfl, isRest⟩ | ⟨-, other, before⟩
      · rcases still left' isRest with ⟨part, open'⟩
        rw [Posting.credit_of_opens_none later, sum, part]
        refine ⟨by omega, ?_⟩
        rw [List.mem_append, List.mem_singleton, not_or]
        exact ⟨notClosed, Ne.symm open'⟩
      · have elsewhere : posting.number ≠ number' := about ▸ Ne.symm other
        rcases kept.left _ _ _ before with ⟨sum', notClosed'⟩
        rw [Posting.credit_other elsewhere, Posting.debit_other elsewhere]
        refine ⟨sum', ?_⟩
        rw [List.mem_append, List.mem_singleton, not_or]
        refine ⟨notClosed', ?_⟩
        rintro rfl
        exact elsewhere rfl
  case shut =>
      intro number' none
      by_cases same : number' = number
      · subst same
        have isGone : rest = .none := by
          apply Option.eq_none_iff_forall_ne_some.mpr
          rintro left' rfl
          exact none key left' (Function.update_self ..)
        rcases gone isGone with ⟨covered, whole⟩
        constructor <;> rw [given_concat, spent_concat, Posting.credit_of_opens_none later, sum]
        · omega
        · intro notClosed'
          rw [List.mem_append, List.mem_singleton, not_or] at notClosed'
          rw [whole (Ne.symm notClosed'.2)]
          rfl
      · have elsewhere : posting.number ≠ number' := about ▸ Ne.symm same
        have before : ∀ key left, held key ≠ some (number', left) := by
          intro holder left' isHeld
          by_cases isKey : holder = key
          · rw [isKey, holds] at isHeld
            cases isHeld
            exact same rfl
          · exact none holder left' (by rwa [Function.update_of_ne isKey])
        rcases kept.shut number' before with ⟨covered, whole⟩
        constructor <;> rw [given_concat, spent_concat, Posting.credit_other elsewhere,
          Posting.debit_other elsewhere]
        · exact covered
        · intro notClosed'
          rw [List.mem_append, not_or] at notClosed'
          exact whole notClosed'.1
  case unnamed =>
      intro number' beyond other member
      rcases List.mem_append.mp member with before | last
      · exact kept.unnamed number' beyond other before
      · rw [List.mem_singleton.mp last, about]
        exact Nat.ne_of_lt (Nat.lt_of_lt_of_le (kept.issued _ _ _ holds) beyond)
  case once =>
      have same : numbers (log ++ [posting]) = numbers log := by
        simp [numbers, later]
      rw [same]
      exact kept.once

theorem draws (holds : held key = some (number, left)) (within : amount ≤ left) :
    Kept (log ++ [.drawn number amount]) next (Function.update held key
      (if left - amount = 0 then none else some (number, left - amount))) := by
  have rest : (if left - amount = 0 then none else some (number, left - amount)) =
      (if left - amount = 0 then none else some (left - amount)).map fun left =>
        (number, left) := by
    split <;> rfl
  have debit : (Posting.drawn number amount).debit number = amount := if_pos rfl
  rw [rest]
  refine kept.record holds rfl rfl ?_ ?_
  · intro left' isRest
    split at isRest
    · cases isRest
    · rw [debit, ← Option.some.inj isRest]
      exact ⟨by omega, Posting.noConfusion⟩
  · intro isGone
    split at isGone
    · rw [debit]
      exact ⟨within, fun _ => by omega⟩
    · cases isGone

theorem closes (holds : held key = some (number, left)) :
    Kept (log ++ [.closed number]) next (Function.update held key none) := by
  have after : Kept (log ++ [.closed number]) next
      (Function.update held key (none.map fun left => (number, left))) := by
    apply kept.record holds rfl rfl
    · exact nofun
    · exact fun _ => ⟨Nat.zero_le _, fun open' => absurd rfl open'⟩
  exact after

omit [DecidableEq Key] in
theorem never_again {later : List Posting} {next' : Nat} {held' : Key → Option (Nat × Nat)}
    (kept' : Kept (log ++ later) next' held') (known : number ∈ numbers log)
    (gone : ∀ key left, held key ≠ some (number, left)) (holds : held' key = some (number, left)) :
    left = 0 := by
  rcases kept'.left key number left holds with ⟨sum, open'⟩
  have unopened : number ∉ numbers later := by
    have once := kept'.once
    rw [numbers, List.filterMap_append] at once
    exact List.disjoint_of_nodup_append once known
  have whole : spent log number = given log number :=
    (kept.shut number gone).whole fun closed => open' (List.mem_append_left later closed)
  have after : given later number = 0 := given_of_not_mem unopened
  rw [given, spent, List.map_append, List.map_append, List.sum_append, List.sum_append] at sum
  rw [given] at whole after
  rw [spent] at whole
  omega

end Kept

end NumberedAccounts
