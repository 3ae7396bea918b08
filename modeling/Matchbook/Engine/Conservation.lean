import Matchbook.Engine.CrossAndPump
import Matchbook.Market.Ledger

namespace Matchbook

open Transitions

/-! # The engine loses no quantity

What an onlooker counts under an id is what the engine has open under it. -/

namespace MatchingEngine

structure Agrees {H : Type} (s : MatchingEngine H) (id : OrderId) (account : Account) : Prop where
  resting : ∀ (side : Side) (px : Price), ∀ o ∈ s.queue side.book px, o.id = id →
    account.accepted = account.traded + account.reduced + (o.qty.toNat + o.reserve.toNat)
  parked : ∀ (side : Side) (px : Price), ∀ o ∈ s.queue side.stopBook px, o.id = id →
    account.accepted = account.traded + account.reduced + o.qty.toNat
  closed : s.lookup id = none → account.Closed
  covered : account.Covered

def ReturnsUnfilled (s : MatchingEngine Tape) : Prop :=
  ∀ side qty owner stp, ∃ s' left,
    { s with h := [] }.step (.submitMarket side qty owner stp) = some (s', .qty left) ∧
      qty.toNat = left.toNat + Market.filled s.nextId.1 s'.h

/-- An auction answers the sum of what it has printed when the stop pump starts. While
the engine is halted the pump prints nothing. -/
def ReturnsCrossed (s : MatchingEngine Tape) : Prop :=
  ∃ s₁ s' crossed, { s with h := [] }.body .uncross = some (s₁, .qty crossed) ∧
    { s with h := [] }.step .uncross = some (s', .qty crossed) ∧
    crossed = UInt64.ofNat (Market.printed s₁.h) ∧ (s.halted = true → s'.h = s₁.h)

/-- The call answers the sum of all that is printed before it returns. -/
def ReturnsPrinted (s : MatchingEngine Tape) : Prop :=
  ∀ s' crossed, { s with h := [] }.step .uncross = some (s', .qty crossed) →
    crossed.toNat = Market.printed s'.h

section agreement

variable {H : Type} {s : MatchingEngine H} {m : Market} {id : OrderId} {account : Account}

theorem Shows.agrees (shows : s.Shows m) (valid : m.Valid)
    (closed : s.lookup id = none → ¬ m.IsOpen id)
    (balanced : Balanced id (m, .idle) account) : s.Agrees id account := by
  constructor
  case resting =>
      intro side px o member same
      rw [shows.levels] at member
      have holds := (valid.holds_of_mem (q := o.total.toNat) member).mpr ⟨rfl, rfl⟩
      rw [same] at holds
      rw [← (valid.shape side px o member).total_toNat]
      exact (balanced.opens _ _ (open_idle.mpr holds)).1
  case parked =>
      intro side px o member same
      have parked : o ∈ m.stops := (shows.mem_stops.mp member).1
      have holds := (valid.holds_of_stop (q := o.qty.toNat) parked).mpr ⟨rfl, rfl⟩
      rw [same] at holds
      exact (balanced.opens _ _ (open_idle.mpr holds)).1
  case closed =>
      intro none
      apply balanced.closed
      intro q discards isOpen
      exact closed none (open_idle.mp isOpen).isOpen
  case covered => exact balanced.covered

end agreement

section simulation

variable {band : Band} {s : MatchingEngine Tape} {r : ReferenceEngine Tape}

theorem Simulates.returnsUnfilled (simulates : Simulates band s r) : s.ReturnsUnfilled := by
  intro side qty owner stp
  rcases (simulates.rewind []).step (.submitMarket side qty owner stp) with
    ⟨s', r', ret, fast, -, simulates', performed⟩
  rcases performed.performs with ⟨events, performs, tape⟩
  have recorded : s'.h = events := simulates'.told tape
  rcases performs.unfilled simulates.sound.valid with ⟨left, rfl, all⟩
  refine ⟨s', left, fast, ?_⟩
  have ids : s.nextId.1 = r.nextId := simulates.shows.nextId
  rw [ids, recorded]
  exact all

theorem Simulates.returnsCrossed (simulates : Simulates band s r) : s.ReturnsCrossed := by
  have holds : ({ s with h := [] } : MatchingEngine Tape).Holds r.market :=
    ⟨band, _, simulates.rewind [], rfl⟩
  rcases holds.uncross with ⟨s', m', crossed, cross, pump, parts⟩
  rcases parts with ⟨⟨s₁, body, heard⟩, called, told, -, m₁, crosses, run⟩
  have tape : s₁.h = cross := heard.trans (Handler.onAll_tape [] cross)
  have step : { s with h := [] }.step .uncross = some (s', .qty crossed) := by
    have renamed : { s with h := [] }.step .uncross =
        ({ s with h := [] } : MatchingEngine Tape).uncross.map (·.map id .qty) := rfl
    rw [renamed, called]
    rfl
  refine ⟨s₁, s', crossed, ?_, step, ?_, ?_⟩
  · rw [MatchingEngine.body, body]
    rfl
  · rw [tape]
    exact crosses.counted
  · intro halted
    have stopped : r.market.halted = true := simulates.shows.halted.symm.trans halted
    rw [told, crosses.quiet stopped run, List.append_nil, heard]

/-- In every run, and for every id, what is open is what was accepted less what has been
traded and taken off; market orders and auctions answer for what they trade. -/
theorem journal_conserves (band : Band) (expectedOrders : Nat) (ops : List Op) (id : OrderId) :
    ∃ log s, (new band [] expectedOrders : MatchingEngine Tape).journal ops = some (log, s) ∧
      Throughout (Account.see id) (fun account _ => account.Covered) .new log ∧
      s.Agrees id (log.foldl (Account.see id) .new) ∧ s.ReturnsUnfilled ∧ s.ReturnsCrossed := by
  rcases (simulates_new band [] expectedOrders).journal ops with
    ⟨log, s, r, run, -, simulates, moves⟩
  rw [market_new] at moves
  have valid := simulates.sound.valid
  have balanced := Run.balanced moves (new_valid band) (.new band id)
  have closed : s.lookup id = none → ¬ r.market.IsOpen id := by
    intro none isOpen
    rcases simulates.tracks with ⟨cells, mirrors, -⟩
    rcases (mirrors.isOpen_iff valid).mp isOpen with ⟨ptr, found⟩
    rw [MatchingEngine.lookup, found] at none
    cases none
  exact ⟨log, s, run, balanced.1, simulates.shows.agrees valid closed balanced.2,
    simulates.returnsUnfilled, simulates.returnsCrossed⟩

theorem not_returnsPrinted_of (band : Band) (ops : List Op) (halted : Bool) (crossed : Qty)
    (sum : Nat) (other : crossed.toNat ≠ sum)
    (ref : (((ReferenceEngine.new band ([] : Tape)).journal ops).bind fun result =>
      (({ result.2 with h := [] } : ReferenceEngine Tape).step .uncross).map fun answer =>
        (result.2.halted, answer.2, Market.printed answer.1.h)) =
          some (halted, .qty crossed, sum)) :
    ∃ log s, (new band [] 16 : MatchingEngine Tape).journal ops = some (log, s) ∧
      s.halted = halted ∧ ¬ s.ReturnsPrinted := by
  rcases (simulates_new band ([] : Tape) 16).journal ops with
    ⟨log, s, r, run, refRun, simulates, -⟩
  rcases (simulates.rewind []).step .uncross with ⟨s', r', ret, step, refStep, simulates', -⟩
  simp only [refRun, refStep, Option.bind_some, Option.map_some, Option.some_inj,
    Prod.mk.injEq] at ref
  rcases ref with ⟨isHalted, rfl, printed⟩
  refine ⟨log, s, run, simulates.shows.halted.trans isHalted, fun returns => other ?_⟩
  have told : s'.h = r'.h := by
    rcases simulates'.tracks with ⟨cells, mirrors, -⟩
    exact mirrors.h
  rw [returns s' crossed step, told, printed]

/-- While halted an auction of 2^64 and more answers the sum without its carry, and an
auction of a running engine is followed by what the stops it arms trade. -/
theorem not_journal_returnsPrinted :
    (¬ ∀ (band : Band) (expectedOrders : Nat) (ops : List Op) (log : List Entry)
      (s : MatchingEngine Tape), (new band [] expectedOrders).journal ops = some (log, s) →
        s.halted = true → s.ReturnsPrinted) ∧
    ¬ ∀ (band : Band) (expectedOrders : Nat) (ops : List Op) (log : List Entry)
      (s : MatchingEngine Tape), (new band [] expectedOrders).journal ops = some (log, s) →
        s.halted = false → s.ReturnsPrinted := by
  let band : Band := ⟨95, 105, by decide, by decide, by decide⟩
  constructor
  · intro claim
    let order (side : Side) (qty : Qty) : Op := .submitLimit side 100 qty .gtc 0 .cancelTaker
    let half : Qty := 9223372036854775808
    let ops : List Op :=
      [.halt, order .buy half, order .buy half, order .buy 5, order .sell half,
        order .sell half, order .sell 5]
    rcases not_returnsPrinted_of band ops true 5 18446744073709551621 (by decide)
      (by decide +kernel) with ⟨log, s, run, halted, fails⟩
    exact fails (claim band 16 ops log s run halted)
  · intro claim
    let ops : List Op :=
      [.halt, .submitLimit .buy 100 1 .gtc 0 .cancelTaker,
        .submitLimit .sell 100 1 .gtc 0 .cancelTaker, .submitLimit .sell 101 5 .gtc 0 .cancelTaker,
        .submitStop .buy 100 2 0 .cancelTaker, .resume]
    rcases not_returnsPrinted_of band ops false 1 3 (by decide) (by decide +kernel) with
      ⟨log, s, run, running, fails⟩
    exact fails (claim band 16 ops log s run running)

end simulation

end MatchingEngine

end Matchbook
