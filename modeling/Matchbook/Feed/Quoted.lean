import Matchbook.Engine.MarketData
import Matchbook.Feed.BookRoundTrip

namespace Matchbook

/-! # The quotes of a consumer

Who has the displayed book has its levels, and with them every price, depth and count that the
source quotes. -/

namespace MatchingEngine

/-- Both engines quote the same of every level, and the second hides nothing. -/
structure SameQuotes {H H' : Type} (s : MatchingEngine H) (e : MatchingEngine H') : Prop where
  top : ∀ side maxLevels, e.topLevels side maxLevels = s.topLevels side maxLevels
  hasBest : ∀ side, e.hasBest side ↔ s.hasBest side
  best : ∀ side, s.hasBest side → e.bestPrice side = s.bestPrice side
  depth : ∀ side px, e.depthAt side px = s.depthAt side px
  count : ∀ side px, e.orderCountAt side px = s.orderCountAt side px
  hidden : ∀ side px, e.hiddenAt side px = 0

variable {H H' : Type} {s : MatchingEngine H} {e : MatchingEngine H'} {m copy : Market}
  {side : Side} {levels : List LevelView}

theorem Holds.quotes (holds : s.Holds m) (side : Side) :
    s.Quotes side (((m.ladder side).filter fun px => m.levels side px ≠ []).map fun px =>
      .ofLevel px (m.levels side px)) := by
  have shows := holds.shows
  rcases holds with ⟨band, r, simulates, -⟩
  have quotes := simulates.quotes side
  simpa only [shows.ladder_eq, shows.levels] using quotes

theorem Quotes.depth_eq (quotes : s.Quotes side levels) (quotes' : e.Quotes side levels)
    (px : Price) : e.depthAt side px = s.depthAt side px ∧
      e.orderCountAt side px = s.orderCountAt side px := by
  by_cases listed : px ∈ levels.map LevelView.price
  · rcases List.mem_map.mp listed with ⟨view, member, rfl⟩
    rcases quotes.listed view member with ⟨depth, count⟩
    rcases quotes'.listed view member with ⟨depth', count'⟩
    exact ⟨depth'.trans depth.symm, count'.trans count.symm⟩
  · rcases quotes.unlisted px listed with ⟨depth, -, count⟩
    rcases quotes'.unlisted px listed with ⟨depth', -, count'⟩
    exact ⟨depth'.trans depth.symm, count'.trans count.symm⟩

theorem Quotes.best_eq (quotes : s.Quotes side levels) (quotes' : e.Quotes side levels) :
    (e.hasBest side ↔ s.hasBest side) ∧
      (s.hasBest side → e.bestPrice side = s.bestPrice side) := by
  have same := quotes'.best.symm.trans quotes.best
  by_cases best : s.hasBest side <;> by_cases best' : e.hasBest side <;>
    simp_all

theorem Holds.hiddenAt (holds : s.Holds m) (plain : ∀ o ∈ m.levels side px, o.reserve = 0) :
    s.hiddenAt side px = 0 := by
  rcases holds with ⟨band, r, simulates, rfl⟩
  rcases simulates.tracks with ⟨cells, mirrors, -⟩
  have nothing (level : List RO) (plain : ∀ o ∈ level, o.reserve = 0) :
      level.foldl (fun sum o => sum + o.reserve) 0 = 0 := by
    induction level with
    | nil => rfl
    | cons o level induction =>
        rw [List.foldl_cons, plain o List.mem_cons_self, UInt64.add_zero]
        exact induction fun other member => plain other (List.mem_cons_of_mem o member)
  rw [mirrors.hiddenAt_eq]
  exact nothing _ plain

end MatchingEngine

namespace Itch

open Market

variable {m copy : Market} {b : BookBuilder} {e : MatchingEngine Tape}

theorem ofLevel_copied {sink : Sink} {level level' : List RO}
    (copied : List.Forall₂ (Copied sink b) level level') (px : Price) :
    LevelView.ofLevel px level' = .ofLevel px level := by
  have sum (start : Qty) : level'.foldl (fun sum o => sum + o.qty) start =
      level.foldl (fun sum o => sum + o.qty) start := by
    induction copied generalizing start with
    | nil => rfl
    | cons first _ induction => rw [List.foldl_cons, List.foldl_cons, induction, first.qty]
  rw [LevelView.ofLevel, LevelView.ofLevel, sum, copied.length_eq]

theorem Copies.quotes {sink : Sink} (copies : Copies sink m b e copy) (side : Side) :
    e.Quotes side (((m.ladder side).filter fun px => m.levels side px ≠ []).map fun px =>
      .ofLevel px (m.levels side px)) := by
  have quotes := copies.holds.quotes side
  have ladder : copy.ladder side = m.ladder side := by
    rw [ladder, ladder, copies.band.1, copies.band.2]
  have occupied : (m.ladder side).filter (fun px => copy.levels side px ≠ []) =
      (m.ladder side).filter fun px => m.levels side px ≠ [] :=
    List.filter_congr fun px _ => decide_eq_decide.mpr copies.occupied_iff
  have views : (fun px => LevelView.ofLevel px (copy.levels side px)) =
      fun px => .ofLevel px (m.levels side px) :=
    funext fun px => ofLevel_copied (copies.levels side px) px
  rwa [ladder, occupied, views] at quotes

namespace Publisher

variable {p : Publisher} {calls : List Call}

theorem Follows.sameQuotes (follows : p.Follows m b e copy) : p.engine.SameQuotes e := by
  have copies := follows.rebuilds.toCopies
  have quotes := follows.holds.quotes
  have quotes' := copies.quotes
  constructor
  case top => exact fun side n => ((quotes' side).top n).trans ((quotes side).top n).symm
  case hasBest => exact fun side => ((quotes side).best_eq (quotes' side)).1
  case best => exact fun side => ((quotes side).best_eq (quotes' side)).2
  case depth => exact fun side px => ((quotes side).depth_eq (quotes' side) px).1
  case count => exact fun side px => ((quotes side).depth_eq (quotes' side) px).2
  case hidden =>
    exact fun side px => copies.holds.hiddenAt fun o member =>
      (copies.holds.valid.shape side px o member).plain (copies.plain.shown side px o member)

/-- Whoever reads what a session published quotes what the source quotes. -/
theorem run_quoted (band : Band) (stock : List UInt8) (expectedOrders expectedOrders' : Nat)
    (narrow : 0 ≤ band.min ∧ band.max < 2 ^ 32)
    (shielded : (new band stock expectedOrders).Along Shields calls)
    (admitted : ∀ op, .op op ∈ calls → op.Admitted (.below (2 ^ 32))) :
    ∃ p taken, (new band stock expectedOrders).run calls = some (p, taken) ∧
      (p.sink.nextRef ≤ 2 ^ 64 → ∃ b e,
        BookBuilder.readAll {} (.new band ([] : Tape) expectedOrders')
          (bodies (.ofBytes stock) (taken ++ p.sink.out)) = some (b, e) ∧
        p.engine.SameQuotes e) := by
  have shields (p : Publisher) (m : Market) (op : Op) (holds : p.engine.Holds m) (_ : True)
      (shields : p.Shields op) : m.Shields op := shields m holds
  rcases (tracks_new band stock expectedOrders).run calls with ⟨p, taken, -, -, ran, -⟩
  refine ⟨p, taken, ran, fun wide => ?_⟩
  have follows := follows_new band stock expectedOrders expectedOrders' narrow
  rcases follows.run shields (fun _ _ _ _ _ _ _ _ _ _ => trivial) (.ofBytes stock) trivial shielded
    admitted ran wide with ⟨m, more, b, e, copy, out, read, -, follows'⟩
  have whole : taken ++ p.sink.out = more := out
  rw [whole]
  exact ⟨b, e, read, follows'.sameQuotes⟩

/-- Two bids at one price and one below, of which an offer takes a part. -/
theorem run_quoted_levels :
    let band : Band := ⟨5, 15, by decide, by decide, by decide⟩
    let calls : List Call :=
      [.op (.submitLimit .buy 10 5 .gtc 1 .cancelTaker),
        .op (.submitLimit .buy 10 2 .gtc 2 .cancelTaker), .drain,
        .op (.submitLimit .buy 9 4 .gtc 1 .cancelTaker),
        .op (.submitLimit .sell 10 3 .gtc 3 .cancelTaker)]
    ∃ p taken, (new band [] 16).run calls = some (p, taken) ∧ ∃ b e,
      BookBuilder.readAll {} (.new band ([] : Tape) 16)
        (bodies (.ofBytes []) (taken ++ p.sink.out)) = some (b, e) ∧
      p.engine.SameQuotes e := by
  intro band calls
  have bare : (Market.new band).Bare := fun _ _ _ member => absurd member List.not_mem_nil
  have shows : ∀ op, .op op ∈ calls → ¬ op.Hides := by
    simp [calls, Op.Hides]
  have admitted : ∀ op, .op op ∈ calls → op.Admitted (.below (2 ^ 32)) := by
    intro op member
    simp only [calls, List.mem_cons, Call.op.injEq, List.not_mem_nil, or_false, false_or,
      reduceCtorEq] at member
    rcases member with rfl | rfl | rfl | rfl
    · exact show (5 : Qty) < 2 ^ 32 by decide
    · exact show (2 : Qty) < 2 ^ 32 by decide
    · exact show (4 : Qty) < 2 ^ 32 by decide
    · exact show (3 : Qty) < 2 ^ 32 by decide
  have seen : ((new band [] 16).run calls).map (fun run => run.1.sink.nextRef) = some 4 := by
    decide +kernel
  rcases run_quoted band [] 16 16 (by decide) (along_bare (tracks_new band [] 16) bare shows)
    admitted with ⟨p, taken, ran, quoted⟩
  rw [ran, Option.map_some, Option.some.injEq] at seen
  exact ⟨p, taken, ran, quoted (by rw [seen]; decide)⟩

end Publisher

end Itch

end Matchbook
