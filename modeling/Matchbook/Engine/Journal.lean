import Matchbook.Engine.Refinement
import Matchbook.Market.History

namespace Matchbook

open Transitions

/-! # Journals of the fast engine

The history of a run as the fast engine makes it, and the book it ends with,
read off the lists of the engine. -/

namespace MatchingEngine

variable {H : Type}

def orderAt (s : MatchingEngine H) (o : Ptr) : RO :=
  let node := s.mem.nodes o
  let extra := s.mem.extra o
  { id := node.id
    side := node.side
    price := node.price
    qty := node.qty
    reserve := extra.reserve
    peak := extra.peak
    owner := node.owner
    stp := node.stp
    stopMarket := node.stopMarket
    stopLimit := extra.limit }

def queue (s : MatchingEngine H) (book : BookName) (px : Price) : List RO :=
  if s.inBand px then ((s.levelOrders book (s.idx px)).getD []).map s.orderAt else []

structure Shows (s : MatchingEngine H) (m : Market) : Prop where
  min : s.min = m.min
  max : s.min + s.nLevels = m.max + 1
  levels : ∀ (side : Side) (px : Price), s.queue side.book px = m.levels side px
  stops : ∀ (side : Side) (px : Price), s.queue side.stopBook px = parkedAt side px m.stops
  nextId : s.mem.orders.size = m.nextId
  last : (if s.hasLast then some s.lastPx else none) = m.last
  halted : s.halted = m.halted

theorem Shows.mem_stops {s : MatchingEngine H} {m : Market} (shows : s.Shows m) {side : Side}
    {px : Price} {o : RO} :
    o ∈ s.queue side.stopBook px ↔ o ∈ m.stops ∧ o.side = side ∧ o.price = px := by
  rw [shows.stops, parkedAt, List.mem_filter]
  simp

def journal (s : MatchingEngine Tape) : List Op → Option (List Entry × MatchingEngine Tape)
  | [] => some ([], s)
  | op :: ops => do
      let (s, ret) ← { s with h := [] }.step op
      let (log, final) ← s.journal ops
      some (.called op ret :: s.h.map .seen ++ log, final)

section shows

variable {band : Band} {min : Price} {nLevels : Nat} {s : MatchingEngine H} {cells : Cells}
  {r : ReferenceEngine H}

theorem Mirrors.orderAt_eq (mirrors : Mirrors min nLevels s cells r) {book : BookName} {i : Nat}
    {ptr : Ptr} {o : RO} (member : (ptr, o) ∈ cells book i) : s.orderAt ptr = o := by
  have holds := mirrors.heap.filed.holds book i ptr o member
  rw [orderAt, holds.extra, holds.node]
  rfl

theorem Mirrors.queue_eq (mirrors : Mirrors min nLevels s cells r) (valid : r.market.Valid)
    (book : BookName) {px : Price} (inside : r.inBand px) :
    s.queue book px = (cells book (s.idx px)).map Prod.snd := by
  rw [queue, if_pos ((mirrors.inBand_iff px).mpr inside), mirrors.levelOrders_eq valid,
    Option.getD_some, List.map_map]
  apply List.map_congr_left
  intro cell member
  exact mirrors.orderAt_eq (show (cell.1, cell.2) ∈ cells book (s.idx px) from member)

theorem Mirrors.queue_outside (mirrors : Mirrors min nLevels s cells r) (book : BookName)
    {px : Price} (outside : ¬ r.inBand px) : s.queue book px = [] :=
  if_neg (mt (mirrors.inBand_iff px).mp outside)

theorem parkedAt_outside (valid : r.market.Valid) (side : Side) {px : Price}
    (outside : ¬ r.inBand px) : parkedAt side px r.stops = [] := by
  apply List.filter_eq_nil_iff.mpr
  intro o member same
  have place : o.side = side ∧ o.price = px := by simpa using same
  exact outside (place.2 ▸ valid.stopInside o member)

theorem Mirrors.shows (mirrors : Mirrors min nLevels s cells r) (valid : r.market.Valid) :
    s.Shows r.market := by
  constructor
  case min => exact mirrors.fastMin.trans mirrors.refMin.symm
  case max =>
      rw [mirrors.fastMin, mirrors.fastLevels]
      exact mirrors.refMax.symm
  case levels =>
      intro side px
      by_cases inside : r.inBand px
      · rw [mirrors.queue_eq valid side.book inside, mirrors.resting,
          (mirrors.idx_eq inside).1]
        rfl
      · rw [mirrors.queue_outside side.book inside]
        exact (mirrors.level_outside inside).symm
  case stops =>
      intro side px
      by_cases inside : r.inBand px
      · rw [mirrors.queue_eq valid side.stopBook inside, mirrors.parked,
          (mirrors.idx_eq inside).1]
        rfl
      · rw [mirrors.queue_outside side.stopBook inside]
        exact (parkedAt_outside valid side inside).symm
  case nextId => exact mirrors.ids
  case last =>
      rw [mirrors.last, mirrors.hasLast]
      rfl
  case halted => exact mirrors.halted

theorem Simulates.shows (simulates : Simulates band s r) : s.Shows r.market := by
  rcases simulates.tracks with ⟨cells, mirrors, flags⟩
  exact mirrors.shows simulates.sound.valid

end shows

theorem market_new (band : Band) (h : H) :
    (ReferenceEngine.new band h).market = Market.new band := by
  have empty : (ReferenceEngine.new band h).level = fun _ _ => [] := by
    funext side px
    exact Std.ExtTreeMap.getD_empty
  simp only [ReferenceEngine.market, empty]
  rfl

theorem new_valid (band : Band) : ValidState (Market.new band, .idle) := by
  have sound := ReferenceEngine.new_sound band ()
  rw [← market_new band ()]
  exact ⟨sound.valid, trivial⟩

theorem Simulates.rewind {band : Band} {s : MatchingEngine H} {r : ReferenceEngine H}
    (simulates : Simulates band s r) (h : H) :
    Simulates band { s with h } { r with h } := by
  rcases simulates with ⟨⟨cells, mirrors, flags⟩, valid, keyed, settled⟩
  exact ⟨⟨cells, { mirrors with h := rfl }, flags.1, flags.2⟩, valid, keyed, settled⟩

theorem Simulates.told {band : Band} {s : MatchingEngine Tape} {r : ReferenceEngine Tape}
    {tape : Tape} {events : List Event} (simulates : Simulates band s r)
    (handled : r.h = Handler.onAll tape events) : s.h = tape ++ events := by
  rcases simulates.tracks with ⟨cells, mirrors, -⟩
  rw [mirrors.h, handled, Handler.onAll_tape]

end MatchingEngine

namespace ReferenceEngine

def journal (r : ReferenceEngine Tape) : List Op → Option (List Entry × ReferenceEngine Tape)
  | [] => some ([], r)
  | op :: ops => do
      let (r, ret) ← { r with h := [] }.step op
      let (log, final) ← r.journal ops
      some (.called op ret :: r.h.map .seen ++ log, final)

def abides {Observer : Type} (observe : Observer → Entry → Observer)
    (check : ReferenceEngine Tape → Observer → Op → Bool) :
    ReferenceEngine Tape → Observer → List Op → Bool
  | _, _, [] => true
  | r, observer, op :: ops => check r observer op &&
      match { r with h := [] }.step op with
      | some (r', ret) =>
          abides observe check r'
            ((Entry.called op ret :: r'.h.map .seen).foldl observe observer) ops
      | none => false

end ReferenceEngine

namespace MatchingEngine

theorem Simulates.journal {band : Band} {s : MatchingEngine Tape} {r : ReferenceEngine Tape}
    (simulates : Simulates band s r) (ops : List Op) :
    ∃ log s' r', s.journal ops = some (log, s') ∧ r.journal ops = some (log, r') ∧
      Simulates band s' r' ∧ Run Market.Move (r.market, .idle) log (r'.market, .idle) := by
  induction ops generalizing s r with
  | nil => exact ⟨[], s, r, rfl, rfl, simulates, .refl⟩
  | cons op ops induction =>
      rcases (simulates.rewind []).step op with ⟨s₁, r₁, ret, fast, ref, simulates₁, performed⟩
      rcases performed.performs with ⟨events, performs, tape⟩
      rcases induction simulates₁ with ⟨log, s', r', rest, rest', simulates', moves⟩
      have told : r₁.h = events := by
        rw [tape, Handler.onAll_tape, List.nil_append]
      have recorded : s₁.h = events := simulates₁.told tape
      refine ⟨_, s', r', ?_, ?_, simulates', (performs.moves simulates.sound.settled).trans moves⟩
      · simp only [MatchingEngine.journal, fast, rest, recorded, Option.bind_eq_bind,
          Option.bind_some]
      · simp only [ReferenceEngine.journal, ref, rest', told, Option.bind_eq_bind,
          Option.bind_some]

/-! ## Restricted runs -/

section restricted

variable {Observer : Type} {observe : Observer → Entry → Observer}
  {Allowed : MatchingEngine Tape → Observer → Op → Prop}

/-- Every operation of the run is allowed, where it is called, by an observer of the
history so far. -/
def Abides (observe : Observer → Entry → Observer)
    (Allowed : MatchingEngine Tape → Observer → Op → Prop) :
    MatchingEngine Tape → Observer → List Op → Prop
  | _, _, [] => True
  | s, observer, op :: ops => Allowed s observer op ∧
      ∀ s' ret, { s with h := [] }.step op = some (s', ret) →
        Abides observe Allowed s'
          ((Entry.called op ret :: s'.h.map .seen).foldl observe observer) ops

/-- Invariant rule for a restricted run. -/
theorem Simulates.abides {band : Band} {Good : Observer → Entry → Prop}
    (Invariant : Market → Observer → Prop)
    (kept : ∀ (s : MatchingEngine Tape) (r : ReferenceEngine Tape) observer op events m' ret,
      Simulates band s r → Invariant r.market observer → Allowed s observer op →
      r.market.Performs op events m' ret →
      Throughout observe Good observer (.called op ret :: events.map .seen) ∧
        Invariant m' ((Entry.called op ret :: events.map .seen).foldl observe observer))
    {s : MatchingEngine Tape} {r : ReferenceEngine Tape} (simulates : Simulates band s r)
    {observer : Observer} (initial : Invariant r.market observer) {ops : List Op}
    (abides : Abides observe Allowed s observer ops) :
    ∃ log s' r', s.journal ops = some (log, s') ∧ Simulates band s' r' ∧
      Throughout observe Good observer log ∧ Invariant r'.market (log.foldl observe observer) := by
  induction ops generalizing s r observer with
  | nil => exact ⟨[], s, r, rfl, simulates, trivial, initial⟩
  | cons op ops induction =>
      rcases (simulates.rewind []).step op with ⟨s₁, r₁, ret, fast, ref, simulates₁, performed⟩
      rcases performed.performs with ⟨events, performs, tape⟩
      have recorded : s₁.h = events := simulates₁.told tape
      have goes := kept s r observer op events r₁.market ret simulates initial abides.1 performs
      have later := abides.2 s₁ ret fast
      rw [recorded] at later
      rcases induction simulates₁ goes.2 later with ⟨log, s', r', rest, simulates', good, holds⟩
      refine ⟨_, s', r', ?_, simulates', throughout_append.mpr ⟨goes.1, good⟩, ?_⟩
      · simp only [MatchingEngine.journal, fast, rest, recorded, Option.bind_eq_bind,
          Option.bind_some]
      · rw [List.foldl_append]
        exact holds

/-- A run of the reference engine decides whether the run of the fast one abides. -/
theorem Simulates.abides_of {band : Band} {check : ReferenceEngine Tape → Observer → Op → Bool}
    (decides : ∀ s r observer op, Simulates band s r → check r observer op = true →
      Allowed s observer op)
    {s : MatchingEngine Tape} {r : ReferenceEngine Tape} (simulates : Simulates band s r)
    {observer : Observer} {ops : List Op}
    (checked : ReferenceEngine.abides observe check r observer ops = true) :
    Abides observe Allowed s observer ops := by
  induction ops generalizing s r observer with
  | nil => trivial
  | cons op ops induction =>
      rcases (simulates.rewind []).step op with ⟨s₁, r₁, ret, fast, ref, simulates₁, -⟩
      rw [ReferenceEngine.abides, ref, Bool.and_eq_true] at checked
      refine ⟨decides s r observer op simulates checked.1, fun s' ret' run => ?_⟩
      rw [fast] at run
      cases run
      have told : s₁.h = r₁.h := by
        rcases simulates₁.tracks with ⟨cells, mirrors, -⟩
        exact mirrors.h
      rw [told]
      exact induction simulates₁ checked.2

end restricted

theorem journal_moves (band : Band) (expectedOrders : Nat) (ops : List Op) :
    ∃ log s m, (new band [] expectedOrders : MatchingEngine Tape).journal ops = some (log, s) ∧
      Run Market.Move (Market.new band, .idle) log (m, .idle) ∧ s.Shows m ∧
      ValidState (m, .idle) ∧ m.Settled := by
  rcases (simulates_new band [] expectedOrders).journal ops with
    ⟨log, s, r, run, -, simulates, moves⟩
  rw [market_new] at moves
  exact ⟨log, s, r.market, run, moves, simulates.shows, ⟨simulates.sound.valid, trivial⟩,
    simulates.sound.settled⟩

end MatchingEngine

end Matchbook
