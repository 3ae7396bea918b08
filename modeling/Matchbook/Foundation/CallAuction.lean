import Mathlib.Order.Defs.LinearOrder

namespace CallAuction

/-! # Call auctions

What is demanded at every price or more and supplied at every price or less, the
price at which most of it trades, and what is left when it has. -/

variable (demand supply : Int → Nat) (last : Option Int)

def volume (p : Int) : Nat := min (demand p) (supply p)

def imbalance (p : Int) : Nat := ((demand p : Int) - supply p).natAbs

def distance (p : Int) : Nat :=
  match last with
  | some last => (p - last).natAbs
  | none => 0

structure Equilibrium (lo hi p : Int) : Prop where
  low : lo ≤ p
  high : p ≤ hi
  most : ∀ q, lo ≤ q → q ≤ hi → volume demand supply q ≤ volume demand supply p
  balanced : ∀ q, lo ≤ q → q ≤ hi → volume demand supply q = volume demand supply p →
    imbalance demand supply p ≤ imbalance demand supply q
  nearest : ∀ q, lo ≤ q → q ≤ hi → volume demand supply q = volume demand supply p →
    imbalance demand supply q = imbalance demand supply p → distance last p ≤ distance last q
  lowest : ∀ q, lo ≤ q → q ≤ hi → volume demand supply q = volume demand supply p →
    imbalance demand supply q = imbalance demand supply p →
    distance last q = distance last p → p ≤ q

def Preferred (q p : Int) : Prop :=
  volume demand supply p < volume demand supply q ∨
    (volume demand supply q = volume demand supply p ∧
      (imbalance demand supply q < imbalance demand supply p ∨
        (imbalance demand supply q = imbalance demand supply p ∧
          distance last q < distance last p)))

/-! ## The scan -/

section scan

variable {demand supply last} {lo hi p : Int}

theorem equilibrium_self : Equilibrium demand supply last p p p := by
  have only (q : Int) (low : p ≤ q) (high : q ≤ p) : q = p := Int.le_antisymm high low
  constructor
  case low => exact Int.le_refl p
  case high => exact Int.le_refl p
  case most =>
      intro q low high
      exact Nat.le_of_eq (by rw [only q low high])
  case balanced =>
      intro q low high _
      exact Nat.le_of_eq (by rw [only q low high])
  case nearest =>
      intro q low high _ _
      exact Nat.le_of_eq (by rw [only q low high])
  case lowest => exact fun q low _ _ _ _ => low

theorem Equilibrium.keep (equilibrium : Equilibrium demand supply last lo hi p)
    (worse : ¬ Preferred demand supply last (hi + 1) p) :
    Equilibrium demand supply last lo (hi + 1) p := by
  rcases equilibrium with ⟨low, high, most, balanced, nearest, lowest⟩
  have split (q : Int) (top : q ≤ hi + 1) : q ≤ hi ∨ q = hi + 1 := by omega
  unfold Preferred at worse
  constructor
  case low => exact low
  case high => omega
  case most =>
      intro q bottom top
      rcases split q top with inside | rfl
      · exact most q bottom inside
      · omega
  case balanced =>
      intro q bottom top same
      rcases split q top with inside | rfl
      · exact balanced q bottom inside same
      · omega
  case nearest =>
      intro q bottom top same same'
      rcases split q top with inside | rfl
      · exact nearest q bottom inside same same'
      · omega
  case lowest =>
      intro q bottom top same same' same''
      rcases split q top with inside | rfl
      · exact lowest q bottom inside same same' same''
      · omega

theorem Equilibrium.change (equilibrium : Equilibrium demand supply last lo hi p)
    (better : Preferred demand supply last (hi + 1) p) :
    Equilibrium demand supply last lo (hi + 1) (hi + 1) := by
  rcases equilibrium with ⟨low, high, most, balanced, nearest, lowest⟩
  have split (q : Int) (top : q ≤ hi + 1) : q ≤ hi ∨ q = hi + 1 := by omega
  unfold Preferred at better
  constructor
  case low => omega
  case high => omega
  case most =>
      intro q bottom top
      rcases split q top with inside | rfl
      · have := most q bottom inside
        omega
      · exact Nat.le_refl _
  case balanced =>
      intro q bottom top same
      rcases split q top with inside | rfl
      · have := most q bottom inside
        have := balanced q bottom inside
        omega
      · exact Nat.le_refl _
  case nearest =>
      intro q bottom top same same'
      rcases split q top with inside | rfl
      · have := most q bottom inside
        have := balanced q bottom inside
        have := nearest q bottom inside
        omega
      · exact Nat.le_refl _
  case lowest =>
      intro q bottom top same same' same''
      rcases split q top with inside | rfl
      · have := most q bottom inside
        have := balanced q bottom inside
        have := nearest q bottom inside
        omega
      · exact Int.le_refl _

end scan

/-! ## The execution -/

structure Executes (demand supply demand' supply' : Int → Nat) (p : Int) (n : Nat) : Prop where
  demand : ∀ q, demand' q ≠ 0 ∨ q ≤ p → demand' q + n = demand q
  supply : ∀ q, supply' q ≠ 0 ∨ p ≤ q → supply' q + n = supply q

section execution

variable {demand supply demand' supply' demand'' supply'' : Int → Nat} {lo hi p : Int} {n k : Nat}

theorem Executes.refl (p : Int) : Executes demand supply demand supply p 0 :=
  ⟨fun _ _ => rfl, fun _ _ => rfl⟩

theorem Executes.trans (first : Executes demand supply demand' supply' p n)
    (second : Executes demand' supply' demand'' supply'' p k) :
    Executes demand supply demand'' supply'' p (n + k) := by
  constructor
  case demand =>
      intro q left
      have later := second.demand q left
      have earlier := first.demand q (left.imp (by omega) fun below => below)
      omega
  case supply =>
      intro q left
      have later := second.supply q left
      have earlier := first.supply q (left.imp (by omega) fun above => above)
      omega

theorem Executes.volume_eq (executes : Executes demand supply demand' supply' p n)
    (used : demand' p = 0 ∨ supply' p = 0) : n = volume demand supply p := by
  have bid := executes.demand p (.inr (Int.le_refl p))
  have ask := executes.supply p (.inr (Int.le_refl p))
  unfold volume
  omega

theorem Executes.cleared (executes : Executes demand supply demand' supply' p n)
    (used : demand' p = 0 ∨ supply' p = 0)
    (most : ∀ q, lo ≤ q → q ≤ hi → volume demand supply q ≤ volume demand supply p)
    {q : Int} (low : lo ≤ q) (high : q ≤ hi) : demand' q = 0 ∨ supply' q = 0 := by
  by_contra both
  rw [not_or] at both
  have bid := executes.demand q (.inl both.1)
  have ask := executes.supply q (.inl both.2)
  have all := executes.volume_eq used
  have bound := most q low high
  unfold volume at all bound
  omega

end execution

end CallAuction
