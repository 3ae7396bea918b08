import Mathlib.Algebra.Order.Group.Abs
import Matchbook.Gate.Caps

namespace Matchbook

/-! # What the gate admits

The limits in unbounded integers, and how the checks of the gate differ from them: three
of the checks compute in 64 bits and can wrap. -/

/-! ## Wrapped distances -/

def Slips (limit : Int64) (x : Int) : Prop :=
  limit.toInt < |x| ∧ (x.bmod (2 ^ 64) = -2 ^ 63 ∨ |x.bmod (2 ^ 64)| ≤ limit.toInt)

theorem abs_le_iff {d limit : Int64} (nonneg : 0 ≤ limit) :
    (if d < 0 then -d else d) ≤ limit ↔ d.toInt = -2 ^ 63 ∨ |d.toInt| ≤ limit.toInt := by
  have nonneg : 0 ≤ limit.toInt := Int64.le_iff_toInt_le.mp nonneg
  have low := d.le_toInt
  have high := d.toInt_lt
  rw [Int64.le_iff_toInt_le]
  split
  case isTrue negative =>
    have negative : d.toInt < 0 := Int64.lt_iff_toInt_lt.mp negative
    rw [abs_of_neg negative, Int64.toInt_neg]
    by_cases least : d.toInt = -2 ^ 63
    · have self : (-d.toInt).bmod (2 ^ 64) = -2 ^ 63 := by rw [least]; rfl
      rw [self]
      exact ⟨fun _ => .inl least, fun _ => by lia⟩
    · rw [Int.bmod_eq_of_le (by lia) (by lia), or_iff_right least]
  case isFalse notNegative =>
    have notNegative : 0 ≤ d.toInt := by
      rw [Int64.lt_iff_toInt_lt, not_lt] at notNegative
      exact notNegative
    rw [abs_of_nonneg notNegative]
    constructor
    · exact .inr
    · rintro (least | within)
      · lia
      · exact within

theorem wrapped_le_iff {d limit : Int64} {x : Int} (nonneg : 0 ≤ limit)
    (wraps : d.toInt = x.bmod (2 ^ 64)) :
    (if d < 0 then -d else d) ≤ limit ↔ |x| ≤ limit.toInt ∨ Slips limit x := by
  have below := limit.toInt_lt
  rw [abs_le_iff nonneg, wraps, Slips]
  by_cases within : |x| ≤ limit.toInt
  · have same : x.bmod (2 ^ 64) = x := by
      have bounds := abs_le.mp within
      exact Int.bmod_eq_of_le (by lia) (by lia)
    rw [same]
    exact ⟨fun _ => .inl within, fun _ => .inr within⟩
  · rw [or_iff_right within, and_iff_right (not_le.mp within)]

/-! ## Submissions -/

/-- What the gate checks of a submission. A stop has a price only if it has a limit. -/
structure Submission where
  owner : OwnerId
  side : Side
  qty : Qty
  market : Bool
  price : Option Price

def Op.submission : Op → Option Submission
  | .submitLimit side price qty _ owner _ => some ⟨owner, side, qty, false, some price⟩
  | .submitMarket side qty owner _ => some ⟨owner, side, qty, true, none⟩
  | .submitIceberg side price totalQty _ _ owner _ =>
      some ⟨owner, side, totalQty, false, some price⟩
  | .submitStop side _ qty owner _ => some ⟨owner, side, qty, false, none⟩
  | .submitStopLimit side _ limitPrice qty owner _ =>
      some ⟨owner, side, qty, false, some limitPrice⟩
  | _ => none

namespace RiskGate

variable {H : Type} (g : RiskGate H) (o : Submission)

def reference : Option Price :=
  if o.market then if g.engine.hasLast then some g.engine.lastPx else none else o.price

def exposure : Int :=
  (g.position o.owner).toInt + if o.side = .buy then (o.qty.toNat : Int) else -(o.qty.toNat : Int)

/-! ### The limits, over the integers -/

def WithinBudget : Prop :=
  g.limits.maxMessages ≠ 0 → g.windowMsgs.toNat + 1 ≤ g.limits.maxMessages.toNat

def WithinCollar : Prop :=
  g.limits.priceCollar ≠ 0 → g.engine.hasLast = true → ∀ px ∈ o.price,
    |px - g.engine.lastPx| ≤ g.limits.priceCollar.toInt

def WithinPosition : Prop :=
  g.limits.maxPosition ≠ 0 → o.owner ≠ 0 → |g.exposure o| ≤ g.limits.maxPosition.toInt

structure WithinRest : Prop where
  on : g.killed = false
  market : o.market = true → g.limits.allowMarket = true
  qty : g.limits.maxOrderQty ≠ 0 → o.qty.toNat ≤ g.limits.maxOrderQty.toNat
  notional : g.limits.maxNotional ≠ 0 → ∀ px ∈ g.reference o, 0 < px →
    px * o.qty.toNat ≤ g.limits.maxNotional.toInt
  openOrders : g.limits.maxOpenOrders ≠ 0 → g.engine.openOrders < g.limits.maxOpenOrders

structure Allows : Prop where
  rest : g.WithinRest o
  budget : g.WithinBudget
  collar : g.WithinCollar o
  position : g.WithinPosition o

/-! ### Where 64 bits differ -/

def BudgetSlips : Prop := g.limits.maxMessages ≠ 0 ∧ g.windowMsgs.toNat + 1 = 2 ^ 64

def CollarSlips : Prop :=
  g.limits.priceCollar ≠ 0 ∧ g.engine.hasLast = true ∧
    ∃ px ∈ o.price, Slips g.limits.priceCollar (px - g.engine.lastPx)

def PositionSlips : Prop :=
  g.limits.maxPosition ≠ 0 ∧ o.owner ≠ 0 ∧ Slips g.limits.maxPosition (g.exposure o)

/-- Every limit is kept or slips, and one slips. -/
structure Misjudges : Prop where
  rest : g.WithinRest o
  budget : g.WithinBudget ∨ g.BudgetSlips
  collar : g.WithinCollar o ∨ g.CollarSlips o
  position : g.WithinPosition o ∨ g.PositionSlips o
  slips : g.BudgetSlips ∨ g.CollarSlips o ∨ g.PositionSlips o

/-! ### What the checks decide -/

section checks

variable {g o}

theorem overBudget_iff : g.countMessage.overBudget = false ↔ g.WithinBudget ∨ g.BudgetSlips := by
  have small := g.windowMsgs.toNat_lt
  have next : (g.windowMsgs + 1).toNat = (g.windowMsgs.toNat + 1) % 2 ^ 64 :=
    UInt64.toNat_add g.windowMsgs 1
  simp only [overBudget, countMessage, WithinBudget, BudgetSlips, decide_eq_false_iff_not, not_and,
    UInt64.lt_iff_toNat_lt, next, not_lt]
  by_cases limited : g.limits.maxMessages = 0
  · simp [limited]
  · by_cases last : g.windowMsgs.toNat + 1 = 2 ^ 64
    · rw [last]
      simp [limited]
    · have same : (g.windowMsgs.toNat + 1) % 2 ^ 64 = g.windowMsgs.toNat + 1 :=
        Nat.mod_eq_of_lt (by lia)
      rw [same]
      simp only [ne_eq, limited, not_false_eq_true, last, and_false, or_false]

theorem checkQty_iff {q : Qty} : g.checkQty q = true ↔
    (g.limits.maxOrderQty ≠ 0 → q.toNat ≤ g.limits.maxOrderQty.toNat) := by
  rw [checkQty, decide_eq_true_eq, UInt64.le_iff_toNat_le, or_iff_not_imp_left]

theorem checkOpenOrders_iff : g.checkOpenOrders = true ↔
    (g.limits.maxOpenOrders ≠ 0 → g.engine.openOrders < g.limits.maxOpenOrders) := by
  rw [checkOpenOrders, decide_eq_true_eq, or_iff_not_imp_left]

theorem checkCollar_iff {px : Price} (nonneg : 0 ≤ g.limits.priceCollar) (fits : FitsPrice px)
    (last : FitsPrice g.engine.lastPx) : g.checkCollar px = true ↔
      (g.limits.priceCollar ≠ 0 → g.engine.hasLast = true →
        |px - g.engine.lastPx| ≤ g.limits.priceCollar.toInt) ∨
      (g.limits.priceCollar ≠ 0 ∧ g.engine.hasLast = true ∧
        Slips g.limits.priceCollar (px - g.engine.lastPx)) := by
  have wraps : (Int64.ofInt px - Int64.ofInt g.engine.lastPx).toInt =
      (px - g.engine.lastPx).bmod (2 ^ 64) := by
    rw [Int64.toInt_sub, Int64.toInt_ofInt_of_le fits.1 fits.2,
      Int64.toInt_ofInt_of_le last.1 last.2]
  have compared := wrapped_le_iff nonneg wraps
  unfold checkCollar
  by_cases off : g.limits.priceCollar = 0
  · simp [off]
  cases traded : g.engine.hasLast with
  | false => simp
  | true =>
      rw [if_neg (by simp [off])]
      simpa [off] using compared

theorem checkPosition_iff (nonneg : 0 ≤ g.limits.maxPosition) :
    g.checkPosition o.owner o.side o.qty = true ↔ g.WithinPosition o ∨ g.PositionSlips o := by
  have signed : o.qty.toInt64.toInt = (o.qty.toNat : Int).bmod (2 ^ 64) :=
    BitVec.toInt_eq_toNat_bmod o.qty.toBitVec
  have wraps : (g.position o.owner +
      if o.side = .buy then o.qty.toInt64 else -o.qty.toInt64).toInt =
        (g.exposure o).bmod (2 ^ 64) := by
    rw [Int64.toInt_add, exposure]
    split
    · rw [signed, Int.add_bmod_bmod]
    · rw [Int64.toInt_neg, signed, Int.add_bmod_bmod, ← Int.sub_eq_add_neg, Int.sub_bmod_bmod,
        Int.sub_eq_add_neg]
  have compared := wrapped_le_iff nonneg wraps
  unfold checkPosition WithinPosition PositionSlips
  by_cases off : g.limits.maxPosition = 0
  · simp [off]
  by_cases nobody : o.owner = 0
  · simp [nobody]
  rw [if_neg (not_or.mpr ⟨off, nobody⟩)]
  simpa [off, nobody] using compared

theorem refusal_eq_none_iff {owner : OwnerId} {side : Side} {qty : Qty} {px : Price}
    {checksPrice : Bool} : g.refusal owner side qty px checksPrice = none ↔
      g.killed = false ∧ g.overBudget = false ∧ g.checkQty qty = true ∧
      (checksPrice = true → g.checkNotional px qty = true) ∧
      (checksPrice = true → g.checkCollar px = true) ∧ g.checkOpenOrders = true ∧
      g.checkPosition owner side qty = true := by
  unfold refusal
  grind

theorem marketRefusal_eq_none_iff {owner : OwnerId} {side : Side} {qty : Qty} :
    g.marketRefusal owner side qty = none ↔
      g.killed = false ∧ g.overBudget = false ∧ g.limits.allowMarket = true ∧
      g.checkQty qty = true ∧
      (g.engine.hasLast = true → g.checkNotional g.engine.lastPx qty = true) ∧
      g.checkOpenOrders = true ∧ g.checkPosition owner side qty = true := by
  unfold marketRefusal
  grind

end checks

/-! ### Verdicts -/

end RiskGate

structure RiskLimits.Nonneg (limits : RiskLimits) : Prop where
  notional : 0 ≤ limits.maxNotional
  collar : 0 ≤ limits.priceCollar
  position : 0 ≤ limits.maxPosition

/-- Prices have 64 bits. -/
structure Submission.Fits {H : Type} (o : Submission) (s : MatchingEngine H) : Prop where
  price : ∀ px ∈ o.price, FitsPrice px
  last : FitsPrice s.lastPx

namespace RiskGate

section verdicts

variable {H : Type} {g : RiskGate H} {op : Op} {o : Submission}

theorem fits_reference (fits : o.Fits g.engine) :
    ∀ px ∈ g.reference o, FitsPrice px := by
  intro px given
  unfold RiskGate.reference at given
  split_ifs at given
  · cases given
    exact fits.last
  · cases given
  · exact fits.price px given

theorem withinRest_iff (nonneg : g.limits.Nonneg) (fits : o.Fits g.engine) :
    g.WithinRest o ↔ g.killed = false ∧ (o.market = true → g.limits.allowMarket = true) ∧
      g.checkQty o.qty = true ∧ (∀ px ∈ g.reference o, g.checkNotional px o.qty = true) ∧
      g.checkOpenOrders = true := by
  have notional : (∀ px ∈ g.reference o, g.checkNotional px o.qty = true) ↔
      (g.limits.maxNotional ≠ 0 → ∀ px ∈ g.reference o, 0 < px →
        px * o.qty.toNat ≤ g.limits.maxNotional.toInt) := by
    constructor
    · intro checked limited px given
      exact (checkNotional_iff nonneg.notional (fits_reference fits px given)).mp (checked px given)
        limited
    · intro bounded px given
      exact (checkNotional_iff nonneg.notional (fits_reference fits px given)).mpr fun limited =>
        bounded limited px given
  rw [notional, checkQty_iff, checkOpenOrders_iff]
  constructor
  · exact fun within => ⟨within.on, within.market, within.qty, within.notional, within.openOrders⟩
  · exact fun ⟨on, market, qty, notional, openOrders⟩ => ⟨on, market, qty, notional, openOrders⟩

theorem withinCollar_iff (nonneg : g.limits.Nonneg) (fits : o.Fits g.engine) :
    (∀ px ∈ o.price, g.checkCollar px = true) ↔ g.WithinCollar o ∨ g.CollarSlips o := by
  unfold WithinCollar CollarSlips
  cases priced : o.price with
  | none => simp
  | some px =>
      have checked := checkCollar_iff nonneg.collar (fits.price px priced) fits.last
      simpa using checked

theorem verdict_eq_none_iff (entry : op.submission = some o) (nonneg : g.limits.Nonneg)
    (fits : o.Fits g.engine) : g.verdict (.order op) = none ↔
      g.WithinRest o ∧ (g.WithinBudget ∨ g.BudgetSlips) ∧ (g.WithinCollar o ∨ g.CollarSlips o) ∧
        (g.WithinPosition o ∨ g.PositionSlips o) := by
  rw [withinRest_iff nonneg fits, ← overBudget_iff, ← withinCollar_iff nonneg fits,
    ← checkPosition_iff nonneg.position]
  -- The counter of the window is all that the count of the call changes.
  have sameQty : g.countMessage.checkQty = g.checkQty := rfl
  have sameNotional : g.countMessage.checkNotional = g.checkNotional := rfl
  have sameCollar : g.countMessage.checkCollar = g.checkCollar := rfl
  have sameRoom : g.countMessage.checkOpenOrders = g.checkOpenOrders := rfl
  have samePosition : g.countMessage.checkPosition = g.checkPosition := rfl
  have sameSwitch : g.countMessage.killed = g.killed := rfl
  have sameLimits : g.countMessage.limits = g.limits := rfl
  have sameEngine : g.countMessage.engine = g.engine := rfl
  cases op with
  | submitMarket side qty owner stp =>
      cases entry
      rw [verdict, marketRefusal_eq_none_iff, sameQty, sameNotional, sameRoom, samePosition,
        sameSwitch, sameLimits, sameEngine]
      cases traded : g.engine.hasLast <;> simp [reference, traded] <;> tauto
  | submitLimit | submitIceberg | submitStop | submitStopLimit =>
      cases entry
      rw [verdict, refusal_eq_none_iff, sameQty, sameNotional, sameCollar, sameRoom, samePosition,
        sameSwitch]
      simp [reference]
      tauto
  | _ => cases entry

theorem allows_or_misjudges (entry : op.submission = some o) (nonneg : g.limits.Nonneg)
    (fits : o.Fits g.engine) :
    g.verdict (.order op) = none ↔ g.Allows o ∨ g.Misjudges o := by
  rw [verdict_eq_none_iff entry nonneg fits]
  constructor
  · rintro ⟨rest, budget, collar, position⟩
    by_cases slips : g.BudgetSlips ∨ g.CollarSlips o ∨ g.PositionSlips o
    · exact .inr ⟨rest, budget, collar, position, slips⟩
    · rcases not_or.mp slips with ⟨noBudget, others⟩
      rcases not_or.mp others with ⟨noCollar, noPosition⟩
      exact .inl ⟨rest, budget.resolve_right noBudget, collar.resolve_right noCollar,
        position.resolve_right noPosition⟩
  · rintro (allows | misjudges)
    · exact ⟨allows.rest, .inl allows.budget, .inl allows.collar, .inl allows.position⟩
    · exact ⟨misjudges.rest, misjudges.budget, misjudges.collar, misjudges.position⟩

theorem Misjudges.not_allows (misjudges : g.Misjudges o) : ¬ g.Allows o := by
  intro allows
  rcases misjudges.slips with ⟨limited, last⟩ | ⟨limited, traded, px, priced, beyond, -⟩ |
    ⟨limited, somebody, beyond, -⟩
  · have within := allows.budget limited
    have below : g.limits.maxMessages.toNat < 2 ^ 64 := g.limits.maxMessages.toNat_lt
    lia
  · exact absurd (allows.collar limited traded px priced) (not_le.mpr beyond)
  · exact absurd (allows.position limited somebody) (not_le.mpr beyond)

theorem forwards_iff [Handler H] :
    g.step (.order op) = (g.ready op).forward op ↔ g.verdict (.order op) = none := by
  constructor
  · intro handed
    by_contra refused
    rcases Option.ne_none_iff_exists'.mp refused with ⟨reason, refused⟩
    rw [step_turnedAway g op refused] at handed
    rcases forward_frame handed.symm with ⟨engine, same⟩
    have counts := congrArg (fun gate => gate.rejectCount reason) same
    have unchanged : (g.ready op).rejectCount = g.rejectCount := by cases op <;> rfl
    simp [fail, countMessage, unchanged] at counts
  · exact step_admitted g op

end verdicts

/-- A submission reaches the engine exactly if the limits over the integers allow it, unless a
limit slips that would have refused it. -/
theorem reaches_exactly_iff [Handler H] (g : RiskGate H) (op : Op) (o : Submission)
    (entry : op.submission = some o) (nonneg : g.limits.Nonneg) (fits : o.Fits g.engine) :
    (g.step (.order op) = (g.ready op).forward op ↔ g.Allows o) ↔ ¬ g.Misjudges o := by
  rw [forwards_iff, allows_or_misjudges entry nonneg fits]
  constructor
  · intro exact misjudges
    exact misjudges.not_allows (exact.mp (.inr misjudges))
  · intro right
    exact ⟨fun admitted => admitted.resolve_right right, .inl⟩

/-- A bid for one at five, for an owner with a position limit. -/
theorem reaches_exactly_bid :
    ((new ⟨1, 10, by decide, by decide, by decide⟩ () { maxPosition := 10 } 0 :
          RiskGate NullHandler).step (.order (.submitLimit .buy 5 1 .gtc 1 .cancelTaker)) =
        ((new ⟨1, 10, by decide, by decide, by decide⟩ () { maxPosition := 10 } 0 :
          RiskGate NullHandler).ready (.submitLimit .buy 5 1 .gtc 1 .cancelTaker)).forward
            (.submitLimit .buy 5 1 .gtc 1 .cancelTaker) ↔
      (new ⟨1, 10, by decide, by decide, by decide⟩ () { maxPosition := 10 } 0 :
        RiskGate NullHandler).Allows ⟨1, .buy, 1, false, some 5⟩) ↔
    ¬ (new ⟨1, 10, by decide, by decide, by decide⟩ () { maxPosition := 10 } 0 :
      RiskGate NullHandler).Misjudges ⟨1, .buy, 1, false, some 5⟩ :=
  reaches_exactly_iff _ _ ⟨1, .buy, 1, false, some 5⟩ rfl ⟨by decide, by decide, by decide⟩
    ⟨fun px given => by cases given; exact ⟨by decide, by decide⟩, ⟨by decide, by decide⟩⟩

/-- A bid for 2^64 - 1, which is -1 as a signed number, passes the position limit. -/
theorem not_reaches_exactly : ¬ ∀ (g : RiskGate NullHandler) (op : Op) (o : Submission),
    op.submission = some o → g.limits.Nonneg → o.Fits g.engine →
      (g.step (.order op) = (g.ready op).forward op ↔ g.Allows o) := by
  intro exact
  let g : RiskGate NullHandler :=
    new ⟨1, 10, by decide, by decide, by decide⟩ () { maxPosition := 10 } 0
  let o : Submission := ⟨1, .buy, 18446744073709551615, false, some 5⟩
  have fits : o.Fits g.engine :=
    ⟨fun px given => by cases given; exact ⟨by decide, by decide⟩, ⟨by decide, by decide⟩⟩
  have reached := exact g (.submitLimit .buy 5 18446744073709551615 .gtc 1 .cancelTaker) o rfl
    ⟨by decide, by decide, by decide⟩ fits
  rw [forwards_iff] at reached
  have allows := reached.mp (by decide)
  exact absurd (allows.position (by decide) (by decide)) (by decide)

end RiskGate

end Matchbook
