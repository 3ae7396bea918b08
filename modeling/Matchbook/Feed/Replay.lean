import Mathlib.Data.List.TakeWhile
import Matchbook.Feed.AutoBand
import Matchbook.Feed.Distribution

namespace Matchbook

/-! # The replay of a file

One thread reads and filters the file, the other makes the books. Each book is what its symbol's
messages make of it, whatever else the file holds and whichever other symbols were asked for. -/

open Itch Mcast

open VenueBookBuilder (firstBand fromFirst fromFirst_eq_nil Lone)

structure Stats where
  trades : UInt64 := 0
deriving Inhabited

instance : Handler Stats where
  on stats
    | .trade _ => { stats with trades := stats.trades + 1 }
    | _ => stats

namespace Replay

/-- The symbols of the command line, or that of the generated files. -/
def symbolsOf (args : List (List UInt8)) : List (List UInt8) :=
  if args = [] then [padSymbol mbtest] else args.map padSymbol

def parsed (file : List UInt8) : List Message :=
  (readFrames file).filterMap fun body => parse body {}

def passes (symbols : List (List UInt8)) (m : Message) : Bool :=
  ¬ ((m.type = .add ∨ m.type = .action) ∧ m.stock ∉ symbols)

def feedThread (symbols : List (List UInt8)) (file : List UInt8) : List Message :=
  (parsed file).filter (passes symbols)

def book : VenueBookBuilder := { autoBand := 2 ^ 17 }

/-! ## The filter -/

variable {symbols : List (List UInt8)} {symbol : List UInt8} {feed : List Message}
  {mine : UInt64 → Bool} {m : Message}

theorem padSymbol_length (arg : List UInt8) : (padSymbol arg).length = 8 := by
  simp [padSymbol]

theorem pad_padSymbol (arg : List UInt8) : Venue.pad (padSymbol arg) = padSymbol arg := by
  have text : ∀ c ∈ padSymbol arg, c ≠ 0 := by
    intro c member
    rcases List.mem_append.mp (List.mem_of_mem_take member) with inName | inPadding
    · simpa using List.mem_takeWhile_imp inName
    · rw [List.eq_of_mem_replicate inPadding]
      decide
  have whole : (padSymbol arg).takeWhile (· ≠ 0) = padSymbol arg :=
    List.takeWhile_eq_self_iff.mpr fun c member => by simpa using text c member
  rw [Venue.pad, whole]
  exact List.take_left' (padSymbol_length arg)

theorem pad_symbolsOf {args : List (List UInt8)} (listed : symbol ∈ symbolsOf args) :
    Venue.pad symbol = symbol := by
  unfold symbolsOf at listed
  split at listed
  · rw [List.mem_singleton.mp listed]
    exact pad_padSymbol mbtest
  · rcases List.mem_map.mp listed with ⟨arg, -, rfl⟩
    exact pad_padSymbol arg

theorem about_feedThread (padded : ∀ other ∈ symbols, Venue.pad other = other)
    (listed : symbol ∈ symbols) :
    about (named symbol) mine (feed.filter (passes symbols)) = about (· == symbol) mine feed := by
  induction feed generalizing mine with
  | nil => rfl
  | cons m feed induction =>
      by_cases passed : passes symbols m = true
      · have same : concerns (named symbol) mine m = concerns (· == symbol) mine m := by
          have inSymbols : m.type = .add ∨ m.type = .action → m.stock ∈ symbols := by
            intro kind
            by_contra missing
            exact of_decide_eq_true passed ⟨kind, missing⟩
          unfold concerns
          cases kind : m.type <;> try rfl
          all_goals
            have own := padded m.stock (inSymbols (by simp [kind]))
            simp only [named, own, padded symbol listed]
        have later : mineAfter (named symbol) mine m = mineAfter (· == symbol) mine m := by
          unfold mineAfter
          rw [same]
        rw [List.filter_cons_of_pos passed, about, about, same, later, induction]
      · have off : (m.type = .add ∨ m.type = .action) ∧ m.stock ∉ symbols := by
          simpa only [passes, decide_eq_true_eq, not_not] using passed
        have different : (m.stock == symbol) = false := by
          rw [beq_eq_false_iff_ne]
          rintro rfl
          exact off.2 listed
        have foreign : concerns (· == symbol) mine m = false := by
          unfold concerns
          rcases off.1 with kind | kind <;> simp [kind, different]
        have later : mineAfter (· == symbol) mine m = mine := by
          funext ref
          simp [mineAfter, foreign]
        rw [List.filter_cons_of_neg passed, about, foreign, later, induction]
        rfl

/-! ## Prices -/

theorem parse_price {body : List UInt8} (read : parse body {} = some m) :
    0 ≤ m.price ∧ m.price < 2 ^ 32 := by
  have wide (word : UInt32) : 0 ≤ ((word.toNat : Nat) : Price) ∧
      ((word.toNat : Nat) : Price) < 2 ^ 32 := by
    have := word.toNat_lt
    lia
  have none : (0 : Price) ≤ 0 ∧ (0 : Price) < 2 ^ 32 := by decide
  unfold parse at read
  split at read
  case isTrue => cases read
  case isFalse =>
    dsimp only at read
    repeat' split at read
    all_goals cases read
    all_goals first | exact none | exact wide _

theorem firstBand_isSome {price : Price} (low : 0 ≤ price) (high : price < 2 ^ 32) :
    (firstBand book.autoBand price).isSome := by
  have width : book.autoBand = 131072 := rfl
  have legal :
      (if price > book.autoBand then price - book.autoBand else 1) ≤ price + book.autoBand ∧
      -(2 ^ 63) ≤ (if price > book.autoBand then price - book.autoBand else 1) ∧
      price + book.autoBand < 2 ^ 63 - 1 := by
    rw [width]
    split <;> lia
  simp only [firstBand, dif_pos legal, Option.isSome_some]

/-! ## Whole files -/

/-- However the two threads take turns, the book of every symbol that was asked for is what its own
messages make of it, and no other symbol has a book. -/
theorem replay_projects (args : List (List UInt8)) (file : List UInt8)
    (unique : UniqueRefs (parsed file)) :
    ∃ b v, (∀ (capacity : CapacityPow2) (buf : Vector Message capacity.size)
        (schedule : List Pipeline.Turn) (pipeline : Pipeline Message capacity),
        pipeline = (Pipeline.start (feedThread (symbolsOf args) file) buf).run schedule →
        pipeline.loop = .exited →
        book.applyAll (Venue.empty : Venue Stats) pipeline.applied = some (b, v)) ∧
      (∀ symbol ∈ symbolsOf args, Lone book.autoBand b v symbol
        (fromFirst (· == symbol) (parsed file))) ∧
      ∀ name, Venue.pad name ∉ symbolsOf args → v.find name = none := by
  have unique' : UniqueRefs (feedThread (symbolsOf args) file) :=
    unique.sublist (List.filter_sublist.flatMap _)
  have legal : ∀ m ∈ feedThread (symbolsOf args) file, m.type = .add →
      (firstBand book.autoBand m.price).isSome := by
    intro m member _
    rcases List.mem_filterMap.mp (List.mem_of_mem_filter member) with ⟨body, -, read⟩
    rcases parse_price read with ⟨low, high⟩
    exact firstBand_isSome low high
  have on : book.autoBand ≠ 0 := by decide
  have books (name : List UInt8) := VenueBookBuilder.run_empty (H := Stats) on unique' legal name
  rcases books [] with ⟨b, v, ran, -⟩
  have lone (name : List UInt8) : Lone book.autoBand b v name
      (fromFirst (named name) (feedThread (symbolsOf args) file)) := by
    rcases books name with ⟨b', v', ran', lone⟩
    rw [ran] at ran'
    cases ran'
    exact lone
  refine ⟨b, v, ?_, ?_, ?_⟩
  · intro capacity buf schedule pipeline running exited
    have applied := (Pipeline.run_exactlyOnce (feedThread (symbolsOf args) file) buf schedule).2.2.1
    rw [← running] at applied
    rw [applied exited]
    exact ran
  · intro symbol listed
    have own := lone symbol
    have padded (other : List UInt8) (member : other ∈ symbolsOf args) := pad_symbolsOf member
    have same : fromFirst (named symbol) (feedThread (symbolsOf args) file) =
        fromFirst (· == symbol) (parsed file) := by
      rw [fromFirst, feedThread, about_feedThread padded listed, fromFirst]
    rwa [same] at own
  · intro name foreign
    have own := lone name
    rw [fromFirst_eq_nil] at own
    · exact own
    · intro m member
      have passed := (List.mem_filter.mp member).2
      cases first : adds (named name) m with
      | false => rfl
      | true =>
          simp only [adds, named, beq_iff_eq, decide_eq_true_eq] at first
          by_contra
          refine of_decide_eq_true passed ⟨.inl first.1, fun inSymbols => foreign ?_⟩
          rw [← first.2, pad_symbolsOf inSymbols]
          exact inSymbols

/-- Two symbols, one of which was asked for, and a frame that is cut off. -/
theorem replay_projects_two :
    let file : List UInt8 :=
      [encodeAction 1 (.ofBytes mbtest) 'H'.toUInt8,
        encodeAdd 2 1 'B'.toUInt8 5 (.ofBytes mbtest) 100,
        encodeAdd 3 2 'S'.toUInt8 5 (.ofBytes other) 50,
        encodeExecute 4 1 2 1, encodeDelete 5 2].flatMap frame ++ [0, 36, 65]
    ∃ b v, (∀ (capacity : CapacityPow2) (buf : Vector Message capacity.size)
        (schedule : List Pipeline.Turn) (pipeline : Pipeline Message capacity),
        pipeline = (Pipeline.start (feedThread (symbolsOf []) file) buf).run schedule →
        pipeline.loop = .exited →
        book.applyAll (Venue.empty : Venue Stats) pipeline.applied = some (b, v)) ∧
      Lone book.autoBand b v mbtest (fromFirst (· == mbtest) (parsed file)) ∧
      (fromFirst (· == mbtest) (parsed file)).length = 2 ∧ v.find other = none := by
  intro file
  have unique : UniqueRefs (parsed file) := by decide +kernel
  have few : (fromFirst (· == mbtest) (parsed file)).length = 2 := by decide +kernel
  have listed : mbtest ∈ symbolsOf [] := by decide +kernel
  have unlisted : Venue.pad other ∉ symbolsOf [] := by decide +kernel
  clear_value file
  rcases replay_projects [] file unique with ⟨b, v, ran, lone, foreign⟩
  exact ⟨b, v, ran, lone mbtest listed, few, foreign other unlisted⟩

end Replay

end Matchbook
