import Matchbook.Engine.Journal
import Matchbook.Market.Mandates
import Matchbook.Market.Priority
import Matchbook.Market.SelfTrade
import Matchbook.Market.StopPump

namespace Matchbook

open Transitions

/-! # What holds in every run of the fast engine

The results about histories, for the histories the engine makes. -/

namespace MatchingEngine

/-! ## Price-time priority -/

/-- Every run is a history whose trades are due by arrival stamps, and every
queue of the engine stands in the order of the stamps. -/
theorem journal_prioritized (band : Band) (expectedOrders : Nat) (ops : List Op) :
    ∃ log s m, (new band [] expectedOrders : MatchingEngine Tape).journal ops = some (log, s) ∧
      let stamps := log.foldl Stamps.see .start
      Run Market.Prioritized ((Market.new band, .idle), .start) log ((m, .idle), stamps) ∧
        s.Shows m ∧
        ∀ (side : Side) (px : Price), (s.queue side.book px).Pairwise fun o o' =>
          stamps.of o.id < stamps.of o'.id := by
  rcases journal_moves band expectedOrders ops with ⟨log, s, m, run, moves, shows, -, -⟩
  rcases Run.prioritized moves (new_valid band) (Market.new_ordered band .start) with
    ⟨prioritized, ordered⟩
  refine ⟨log, s, m, run, prioritized, shows, fun side px => ?_⟩
  have sorted := (ordered side px).sorted
  rw [List.pairwise_map] at sorted
  rw [shows.levels]
  exact sorted

/-! ## Self-trade prevention -/

/-- In every run each trade outside an auction is between orders that were submitted
by different owners or by none, and the run is a history in which a taker that
meets its own order is dealt with by its policy. -/
theorem journal_fair (band : Band) (expectedOrders : Nat) (ops : List Op) :
    ∃ log s m, (new band [] expectedOrders : MatchingEngine Tape).journal ops = some (log, s) ∧
      Throughout Submissions.see Submissions.Fair .start log ∧
      Run Prevented (Market.new band, .idle) log (m, .idle) ∧ s.Shows m := by
  rcases journal_moves band expectedOrders ops with ⟨log, s, m, run, moves, shows, -, -⟩
  have fair := Run.fair moves (new_valid band) (Attributed.new band)
  have prevented := moves.mono fun _ _ _ move => move.prevented
  exact ⟨log, s, m, run, fair.1, prevented, shows⟩

/-! ## Limits -/

/-- In every run both parties of every trade, fired stops, modified orders and auctions included,
trade within the limit last asked for, outside auctions at that of the maker. Whatever is open
is open at it. -/
theorem journal_mandated (band : Band) (expectedOrders : Nat) (ops : List Op) :
    ∃ log s, (new band [] expectedOrders : MatchingEngine Tape).journal ops = some (log, s) ∧
      Throughout Mandates.see Mandates.Kept .start log ∧
      let mandates := log.foldl Mandates.see .start
      (∀ (side : Side) (px : Price), ∀ o ∈ s.queue side.book px,
        mandates.mandate o.id = some ⟨side, some px⟩) ∧
      ∀ (side : Side) (px : Price), ∀ o ∈ s.queue side.stopBook px,
        mandates.mandate o.id = some o.fires := by
  rcases journal_moves band expectedOrders ops with ⟨log, s, m, run, moves, shows, -, -⟩
  rcases Run.mandated moves (new_valid band) (Mandated.new band) with ⟨kept, mandated⟩
  refine ⟨log, s, run, kept, ?_, ?_⟩
  · intro side px o queued
    rw [shows.levels] at queued
    exact mandated.resting side px o queued
  · intro side px o queued
    exact mandated.parked o (shows.mem_stops.mp queued).1

/-! ## The stop pump -/

variable {H : Type} {s : MatchingEngine H} {m : Market}

theorem Shows.settled (shows : s.Shows m) (settled : m.Settled) (running : s.halted = false)
    (printed : s.hasLast = true) :
    (∀ px, s.queue .stopBids px ≠ [] → s.lastPx < px) ∧
      ∀ px, s.queue .stopAsks px ≠ [] → px < s.lastPx := by
  have last : m.last = some s.lastPx := by
    rw [← shows.last, if_pos printed]
  have halted : m.halted = false := shows.halted.symm.trans running
  have unarmed := settled.resolve_left (by rw [halted]; exact Bool.false_ne_true)
  have beyond (side : Side) (px : Price) (occupied : s.queue side.stopBook px ≠ []) :
      ¬ side.opposite.Reaches px s.lastPx := by
    intro through
    rw [shows.stops] at occupied
    rcases List.exists_mem_of_ne_nil _ occupied with ⟨o, member⟩
    have found := List.mem_filter.mp member
    have place : o.side = side ∧ o.price = px := by simpa using found.2
    apply unarmed o found.1
    refine ⟨s.lastPx, last, ?_⟩
    rw [place.1, place.2]
    exact through
  constructor
  · intro px occupied
    exact Int.not_le.mp (beyond .buy px occupied)
  · intro px occupied
    exact Int.not_le.mp (beyond .sell px occupied)

/-- Every run ends, and is a history in which a stop fires at most once, in continuous
trading and through its trigger, or is cancelled. After it no stop is armed. -/
theorem journal_pumps (band : Band) (expectedOrders : Nat) (ops : List Op) :
    ∃ log s m fired,
      (new band [] expectedOrders : MatchingEngine Tape).journal ops = some (log, s) ∧
      Run Market.Pumps ((Market.new band, .idle), []) log ((m, .idle), fired) ∧ s.Shows m ∧
      (s.halted = false → s.hasLast = true →
        (∀ px, s.queue .stopBids px ≠ [] → s.lastPx < px) ∧
          ∀ px, s.queue .stopAsks px ≠ [] → px < s.lastPx) := by
  rcases journal_moves band expectedOrders ops with ⟨log, s, m, run, moves, shows, -, settled⟩
  rcases Run.pumps moves (new_valid band) (Market.firedBefore_new band) with ⟨fired, pumps⟩
  exact ⟨log, s, m, fired, run, pumps, shows, shows.settled settled⟩

end MatchingEngine

end Matchbook
