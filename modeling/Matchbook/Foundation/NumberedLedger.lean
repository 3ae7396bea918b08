import Matchbook.Foundation.NumberedAccounts

/-! # Lawful logs

Postings that are entered one after another. An account is opened under a number above all that
were given out, with something in it, and nothing is taken out of it but what is left. -/

namespace NumberedAccounts

def Posting.amount : Posting → Nat
  | .opened _ amount => amount
  | .drawn _ amount => amount
  | .closed _ => 0

/-- The next number, and what is left in each account: 0 if it is not open. -/
structure Ledger where
  next : Nat
  left : Nat → Nat

namespace Ledger

def fresh : Ledger := ⟨1, fun _ => 0⟩

def post (ledger : Ledger) : Posting → Option Ledger
  | .opened number amount =>
      if ledger.next ≤ number ∧ amount ≠ 0 then
        some ⟨number + 1, Function.update ledger.left number amount⟩
      else none
  | .drawn number amount =>
      if amount ≠ 0 ∧ amount ≤ ledger.left number then
        some { ledger with
          left := Function.update ledger.left number (ledger.left number - amount) }
      else none
  | .closed number =>
      if ledger.left number ≠ 0 then
        some { ledger with left := Function.update ledger.left number 0 }
      else none

def postAll (ledger : Ledger) : List Posting → Option Ledger
  | [] => some ledger
  | posting :: log => (ledger.post posting).bind fun ledger => ledger.postAll log

variable {ledger ledger' : Ledger} {log more : List Posting} {posting : Posting}
  {next number amount left : Nat}

theorem postAll_append :
    ledger.postAll (log ++ more) = (ledger.postAll log).bind fun ledger => ledger.postAll more := by
  induction log generalizing ledger with
  | nil => rfl
  | cons posting log induction =>
      rw [List.cons_append, postAll, postAll]
      cases ledger.post posting with
      | none => rfl
      | some ledger => exact induction

theorem next_of_post (posted : ledger.post posting = some ledger') :
    ledger.next ≤ ledger'.next ∧
      ∀ number ∈ posting.opens, ledger.next ≤ number ∧ number < ledger'.next := by
  cases posting <;> simp only [post, Option.ite_none_right_eq_some, Option.some.injEq] at posted
  case opened number amount =>
      rcases posted with ⟨⟨fresh, -⟩, rfl⟩
      refine ⟨Nat.le_succ_of_le fresh, ?_⟩
      rintro _ ⟨⟩
      exact ⟨fresh, Nat.lt_succ_self number⟩
  all_goals
    rcases posted with ⟨-, rfl⟩
    exact ⟨Nat.le_refl _, nofun⟩

theorem numbers_ascend (posted : ledger.postAll log = some ledger') :
    (numbers log).Pairwise (· < ·) ∧ ∀ number ∈ numbers log, ledger.next ≤ number := by
  induction log generalizing ledger with
  | nil => exact ⟨.nil, nofun⟩
  | cons posting log induction =>
      rcases Option.bind_eq_some_iff.mp posted with ⟨after, first, rest⟩
      rcases next_of_post first with ⟨grows, opened⟩
      rcases induction rest with ⟨ascend, later⟩
      rw [numbers, List.filterMap_cons]
      cases opens : posting.opens with
      | none => exact ⟨ascend, fun number member => Nat.le_trans grows (later number member)⟩
      | some number =>
          rcases opened number opens with ⟨fresh, below⟩
          refine ⟨.cons (fun other member => Nat.lt_of_lt_of_le below (later other member)) ascend,
            ?_⟩
          intro other member
          rcases List.mem_cons.mp member with rfl | member
          · exact fresh
          · exact Nat.le_trans grows (later other member)

def Within (bound : Nat) (ledger : Ledger) : Prop :=
  ∀ number, ledger.left number < bound ∧ (ledger.left number ≠ 0 → number < ledger.next)

theorem within_update {bound rest : Nat} (within : Within bound ledger) (later : ledger.next ≤ next)
    (small : rest < bound) (given : rest ≠ 0 → number < next) :
    Within bound ⟨next, Function.update ledger.left number rest⟩ := by
  intro other
  dsimp only
  by_cases same : other = number
  · rw [same, Function.update_self]
    exact ⟨small, given⟩
  · rw [Function.update_of_ne same]
    exact ⟨(within other).1, fun nonzero => Nat.lt_of_lt_of_le ((within other).2 nonzero) later⟩

theorem Within.post {bound : Nat} (within : Within bound ledger)
    (posted : ledger.post posting = some ledger')
    (small : ∀ number amount, posting = .opened number amount → amount < bound) :
    Within bound ledger' ∧ posting.number < ledger'.next ∧ posting.amount < bound := by
  have positive : 0 < bound := Nat.zero_lt_of_lt (within 0).1
  cases posting with
  | opened number amount =>
      simp only [post, Option.ite_none_right_eq_some, Option.some.injEq] at posted
      rcases posted with ⟨⟨fresh, -⟩, rfl⟩
      have less := small number amount rfl
      have later := Nat.le_succ_of_le fresh
      exact ⟨within_update within later less fun _ => Nat.lt_succ_self _, Nat.lt_succ_self _, less⟩
  | drawn number amount =>
      simp only [post, Option.ite_none_right_eq_some, Option.some.injEq] at posted
      rcases posted with ⟨⟨some, covered⟩, rfl⟩
      rcases within number with ⟨less, given⟩
      have given := given (by omega)
      exact ⟨within_update within (Nat.le_refl _) (by omega) fun _ => given, given,
        Nat.lt_of_le_of_lt covered less⟩
  | closed number =>
      simp only [post, Option.ite_none_right_eq_some, Option.some.injEq] at posted
      rcases posted with ⟨nonzero, rfl⟩
      have given := (within number).2 nonzero
      exact ⟨within_update within (Nat.le_refl _) positive fun _ => given, given, positive⟩

/-- In a lawful log every number was given out, and nothing moves that is not below the bound of
what the accounts are opened with. -/
theorem Within.postAll {bound : Nat} (within : Within bound ledger)
    (posted : ledger.postAll log = some ledger')
    (small : ∀ number amount, .opened number amount ∈ log → amount < bound) :
    ledger.next ≤ ledger'.next ∧
      ∀ posting ∈ log, posting.number < ledger'.next ∧ posting.amount < bound := by
  induction log generalizing ledger with
  | nil =>
      cases posted
      exact ⟨Nat.le_refl _, nofun⟩
  | cons posting log induction =>
      rcases Option.bind_eq_some_iff.mp posted with ⟨after, first, rest⟩
      have grows := (next_of_post first).1
      have now : ∀ number amount, posting = .opened number amount → amount < bound := by
        rintro number amount rfl
        exact small number amount List.mem_cons_self
      rcases within.post first now with ⟨within', given, less⟩
      rcases induction within' rest fun number amount member =>
        small number amount (List.mem_cons_of_mem _ member) with ⟨grows', all⟩
      refine ⟨Nat.le_trans grows grows', ?_⟩
      intro other member
      rcases List.mem_cons.mp member with rfl | member
      · exact ⟨Nat.lt_of_lt_of_le given grows', less⟩
      · exact all other member

theorem within_fresh (bound : Nat) (positive : 0 < bound) : Within bound fresh :=
  fun _ => ⟨positive, fun nonzero => absurd rfl nonzero⟩

/-! ## Holders -/

variable {Key : Type} {held : Key → Option (Nat × Nat)} {key : Key}

structure Books (ledger : Ledger) (next : Nat) (held : Key → Option (Nat × Nat)) : Prop where
  counter : ledger.next = next
  balance : ∀ key number left, held key = some (number, left) →
    left ≠ 0 ∧ ledger.left number = left ∧ number < next
  owned : ∀ number, ledger.left number ≠ 0 → ∃ key left, held key = some (number, left)
  apart : ∀ key key' number left left', held key = some (number, left) →
    held key' = some (number, left') → key = key'

theorem books_fresh : fresh.Books 1 (fun _ : Key => none) := by
  constructor
  case counter => rfl
  case balance => exact nofun
  case owned => exact fun number nonzero => absurd rfl nonzero
  case apart => exact nofun

namespace Books

variable [DecidableEq Key] (books : ledger.Books next held)
include books

theorem opens (free : held key = none) (some : amount ≠ 0) :
    ∃ ledger', ledger.post (.opened next amount) = .some ledger' ∧
      ledger'.Books (next + 1) (Function.update held key (.some (next, amount))) := by
  refine ⟨_, if_pos ⟨Nat.le_of_eq books.counter, some⟩, ?_⟩
  have old {other : Key} {number left : Nat}
      (holds : Function.update held key (.some (next, amount)) other = .some (number, left)) :
      (other = key ∧ number = next ∧ left = amount) ∨
        (other ≠ key ∧ held other = .some (number, left) ∧ number < next) := by
    by_cases same : other = key
    · rw [same, Function.update_self] at holds
      cases holds
      exact .inl ⟨same, rfl, rfl⟩
    · rw [Function.update_of_ne same] at holds
      exact .inr ⟨same, holds, (books.balance _ _ _ holds).2.2⟩
  constructor
  case counter => rfl
  case balance =>
      intro other number left holds
      rcases old holds with ⟨-, rfl, rfl⟩ | ⟨-, before, less⟩
      · exact ⟨some, Function.update_self .., Nat.lt_succ_self _⟩
      · rcases books.balance _ _ _ before with ⟨nonzero, same, -⟩
        refine ⟨nonzero, ?_, Nat.lt_succ_of_lt less⟩
        exact (Function.update_of_ne (Nat.ne_of_lt less) ..).trans same
  case owned =>
      intro number nonzero
      by_cases same : number = next
      · exact ⟨key, amount, by rw [same, Function.update_self]⟩
      · have left : Function.update ledger.left next amount number = ledger.left number :=
          Function.update_of_ne same ..
        rcases books.owned number (left ▸ nonzero) with ⟨other, left, holds⟩
        refine ⟨other, left, ?_⟩
        rw [Function.update_of_ne, holds]
        rintro rfl
        rw [free] at holds
        cases holds
  case apart =>
      intro first second number left left' holds holds'
      rcases old holds with ⟨rfl, same, -⟩ | ⟨-, before, less⟩
      · rcases old holds' with ⟨rfl, -, -⟩ | ⟨-, -, less'⟩
        · rfl
        · exact absurd same (Nat.ne_of_lt less')
      · rcases old holds' with ⟨-, same, -⟩ | ⟨-, before', -⟩
        · exact absurd same (Nat.ne_of_lt less)
        · exact books.apart _ _ _ _ _ before before'

theorem changes (holds : held key = some (number, left)) (rest : Nat) :
    Books { ledger with left := Function.update ledger.left number rest } next
      (Function.update held key (if rest = 0 then none else some (number, rest))) := by
  have old {other : Key} {number' left' : Nat} (after : Function.update held key
      (if rest = 0 then none else some (number, rest)) other = some (number', left')) :
      (other = key ∧ number' = number ∧ left' = rest ∧ rest ≠ 0) ∨
        (number' ≠ number ∧ held other = some (number', left')) := by
    by_cases same : other = key
    · rw [same, Function.update_self] at after
      split at after
      · cases after
      · rename_i nonzero
        cases after
        exact .inl ⟨same, rfl, rfl, nonzero⟩
    · rw [Function.update_of_ne same] at after
      refine .inr ⟨?_, after⟩
      rintro rfl
      exact same (books.apart _ _ _ _ _ after holds)
  constructor
  case counter => exact books.counter
  case balance =>
      intro other number' left' after
      rcases old after with ⟨-, rfl, rfl, nonzero⟩ | ⟨different, before⟩
      · exact ⟨nonzero, Function.update_self .., (books.balance _ _ _ holds).2.2⟩
      · rcases books.balance _ _ _ before with ⟨nonzero, same, less⟩
        exact ⟨nonzero, (Function.update_of_ne different ..).trans same, less⟩
  case owned =>
      intro number' nonzero
      by_cases same : number' = number
      · have something : rest ≠ 0 := by
          rw [same] at nonzero
          simpa using nonzero
        exact ⟨key, rest, by rw [same, Function.update_self, if_neg something]⟩
      · have left : Function.update ledger.left number rest number' = ledger.left number' :=
          Function.update_of_ne same ..
        rcases books.owned number' (left ▸ nonzero) with ⟨other, left, before⟩
        refine ⟨other, left, ?_⟩
        rw [Function.update_of_ne, before]
        rintro rfl
        rw [holds] at before
        cases before
        exact same rfl
  case apart =>
      intro first second number' left' left'' after after'
      rcases old after with ⟨rfl, same, -⟩ | ⟨different, before⟩
      · rcases old after' with ⟨rfl, -⟩ | ⟨different, -⟩
        · rfl
        · exact absurd same different
      · rcases old after' with ⟨-, same, -⟩ | ⟨-, before'⟩
        · exact absurd same different
        · exact books.apart _ _ _ _ _ before before'

theorem draws (holds : held key = some (number, left)) (some : amount ≠ 0)
    (within : amount ≤ left) :
    ∃ ledger', ledger.post (.drawn number amount) = .some ledger' ∧ ledger'.Books next
      (Function.update held key
        (if left - amount = 0 then none else .some (number, left - amount))) := by
  have same := (books.balance _ _ _ holds).2.1
  have changed := books.changes holds (left - amount)
  rw [← same] at within changed
  exact ⟨_, if_pos ⟨some, within⟩, by rwa [same] at changed ⊢⟩

theorem closes (holds : held key = some (number, left)) :
    ∃ ledger', ledger.post (.closed number) = .some ledger' ∧
      ledger'.Books next (Function.update held key none) := by
  rcases books.balance _ _ _ holds with ⟨nonzero, same, -⟩
  exact ⟨_, if_pos (same ▸ nonzero), books.changes holds 0⟩

end Books

end Ledger

end NumberedAccounts
