import Mathlib.Data.UInt
import Matchbook.Engine.Invariant
import Matchbook.Engine.Journal
import Matchbook.Engine.TableGrowth
import Matchbook.Market.Determinism

namespace Matchbook

/-! # The side table in 32 bits

`Order::ext` and the free list of the side table are 32-bit signed numbers. A slot whose
index is not one of them is looked for outside of the table. -/

/-! ## The table -/

structure SideTable where
  extras : Array Extra
  free : List Int32

namespace SideTable

/-- `static_cast<size_t>(ext)`. -/
def index (ext : Int32) : Nat := (UInt64.ofInt ext.toInt).toNat

/-- `extras_[static_cast<size_t>(ext)]`, if there is one. -/
def read (table : SideTable) (ext : Int32) : Option Extra := table.extras[index ext]?

def write (table : SideTable) (ext : Int32) (extra : Extra) : Option SideTable :=
  if index ext < table.extras.size then
    some { table with extras := table.extras.setIfInBounds (index ext) extra }
  else none

def alloc (table : SideTable) : Int32 × SideTable :=
  match table.free with
  | ext :: rest => (ext, { table with free := rest })
  | [] =>
      let extras := table.extras.push {}
      (Int32.ofNat (extras.size - 1), { table with extras })

/-- What `release` does to the table. -/
def release (table : SideTable) (ext : Int32) : Option SideTable :=
  if 0 ≤ ext then do
    let table ← table.write ext {}
    some { table with free := ext :: table.free }
  else some table

end SideTable

/-- `ext` of the source: -1 for an order without a slot. -/
def Order.word (o : Order) : Int32 :=
  match o.ext with
  | some slot => Int32.ofNat slot
  | none => -1

def Memory.sideTable (mem : Memory) : SideTable where
  extras := mem.extras
  free := mem.extraFree.map Int32.ofNat

/-! ## Words and slots -/

namespace SideTable

theorem toInt_word {slot : Nat} (small : slot < 2 ^ 31) : (Int32.ofNat slot).toInt = slot :=
  Int32.toInt_ofNat_of_lt small

theorem index_word {slot : Nat} (small : slot < 2 ^ 31) : index (Int32.ofNat slot) = slot := by
  rw [index, toInt_word small, UInt64.ofInt, UInt64.toNat_ofNat']
  omega

theorem word_inj {slot slot' : Nat} (small : slot < 2 ^ 31) (small' : slot' < 2 ^ 31)
    (same : Int32.ofNat slot = Int32.ofNat slot') : slot = slot' := by
  rw [← index_word small, same, index_word small']

theorem word_nonneg {slot : Nat} (small : slot < 2 ^ 31) : 0 ≤ Int32.ofNat slot := by
  rw [Int32.le_iff_toInt_le, toInt_word small]
  exact Int.natCast_nonneg slot

end SideTable

namespace Memory

open SideTable

variable {mem : Memory} {o : Ptr} {slot : Nat}

theorem alloc_sideTable (mem : Memory) :
    mem.sideTable.alloc = (Int32.ofNat mem.allocExtra.1, mem.allocExtra.2.sideTable) := by
  unfold SideTable.alloc allocExtra sideTable
  cases mem.extraFree <;> simp

theorem write_alloc_full (full : mem.extras.size = 2 ^ 31) (used : mem.extraFree = [])
    (extra : Extra) : mem.sideTable.alloc.2.write mem.sideTable.alloc.1 extra = none := by
  have slot : mem.allocExtra.1 = 2 ^ 31 := by
    unfold allocExtra
    rw [used]
    exact full
  have size : mem.allocExtra.2.extras.size = 2 ^ 31 + 1 := by
    unfold allocExtra
    simp [used, full]
  have outside : ¬ index (Int32.ofNat (2 ^ 31)) < 2 ^ 31 + 1 := by decide
  rw [alloc_sideTable, slot]
  apply if_neg
  show ¬ index (Int32.ofNat (2 ^ 31)) < mem.allocExtra.2.extras.size
  rw [size]
  exact outside

theorem word_of_slot (has : (mem.nodes o).ext = some slot) :
    (mem.nodes o).word = Int32.ofNat slot := by
  rw [Order.word, has]

section small

variable (small : mem.extras.size ≤ 2 ^ 31)

include small

theorem read_sideTable (has : (mem.nodes o).ext = some slot) (inside : slot < mem.extras.size) :
    mem.sideTable.read (mem.nodes o).word = some (mem.extra o) := by
  have extra : mem.extra o = mem.extras.getD slot {} := by
    rw [Memory.extra, has]
  rw [word_of_slot has, SideTable.read, index_word (inside.trans_le small), extra]
  simp [sideTable, inside]

theorem write_sideTable (has : (mem.nodes o).ext = some slot) (inside : slot < mem.extras.size)
    (extra : Extra) :
    mem.sideTable.write (mem.nodes o).word extra = some (mem.setExtra o extra).sideTable := by
  have index := index_word (inside.trans_le small)
  have inside : slot < mem.sideTable.extras.size := inside
  rw [word_of_slot has, SideTable.write, index, if_pos inside, setExtra, has]
  rfl

theorem release_sideTable
    (inside : ∀ slot, (mem.nodes o).ext = some slot → slot < mem.extras.size) :
    mem.sideTable.release (mem.nodes o).word = some (mem.release o).sideTable := by
  cases has : (mem.nodes o).ext with
  | none =>
      have word : (mem.nodes o).word = -1 := by rw [Order.word, has]
      rw [word, SideTable.release, if_neg (by decide), Memory.release, has]
      rfl
  | some slot =>
      have within := inside slot has
      have blank := write_sideTable small has within {}
      rw [word_of_slot has] at blank
      rw [word_of_slot has, SideTable.release, if_pos (word_nonneg (within.trans_le small)), blank,
        Memory.release, setExtra, has]
      rfl

end small

end Memory

/-! ## Runs -/

namespace MatchingEngine

variable {H : Type} [Handler H]

/-- An operation with the side table of the source. The table never shrinks, so if it is too
long in the end, then a slot was handed out that cannot be written, and there is no result. -/
def narrowStep (s : MatchingEngine H) (op : Op) : Option (MatchingEngine H × Ret) := do
  let (s, ret) ← s.step op
  if s.mem.extras.size ≤ 2 ^ 31 then some (s, ret) else none

def narrowRun (s : MatchingEngine H) : List Op → Option (MatchingEngine H × List Ret)
  | [] => some (s, [])
  | op :: ops => do
      let (s, ret) ← s.narrowStep op
      let (s, rets) ← s.narrowRun ops
      some (s, ret :: rets)

def narrowTrace (s : MatchingEngine Tape) : List Op → Option (List (Ret × Tape × View))
  | [] => some []
  | op :: ops => do
      let (s, ret) ← s.narrowStep op
      let seen ← s.narrowTrace ops
      some ((ret, s.h, s.view) :: seen)

variable {s s' : MatchingEngine H} {op : Op} {ops : List Op} {ret : Ret} {rets : List Ret}

theorem narrowStep_eq (step : s.step op = some (s', ret)) : s.narrowStep op =
    if s'.mem.extras.size ≤ 2 ^ 31 then some (s', ret) else none := by
  rw [narrowStep, step]
  rfl

theorem narrowRun_eq (small : s.mem.extras.size ≤ 2 ^ 31) (run : s.runOps ops = some (s', rets)) :
    s.narrowRun ops = if s'.mem.extras.size ≤ 2 ^ 31 then some (s', rets) else none := by
  induction ops generalizing s rets with
  | nil =>
      cases run
      exact (if_pos small).symm
  | cons op ops induction =>
      rcases Option.bind_eq_some_iff.mp run with ⟨⟨s₁, ret⟩, step, run⟩
      rcases Option.bind_eq_some_iff.mp run with ⟨⟨s₂, later⟩, rest, run⟩
      cases run
      rw [narrowRun, narrowStep_eq step]
      by_cases short : s₁.mem.extras.size ≤ 2 ^ 31
      · simp only [if_pos short, Option.bind_eq_bind, Option.bind_some, induction short rest]
        split <;> rfl
      · have grows := (growsBy_runOps rest).1
        have long : ¬ s'.mem.extras.size ≤ 2 ^ 31 := fun short' => short (grows.trans short')
        rw [if_neg short, if_neg long]
        rfl

theorem narrowTrace_eq {s s' : MatchingEngine Tape} {seen : List (Ret × Tape × View)}
    (small : s.mem.extras.size ≤ 2 ^ 31) (run : s.runOps ops = some (s', rets))
    (trace : s.trace ops = some seen) :
    s.narrowTrace ops = if s'.mem.extras.size ≤ 2 ^ 31 then some seen else none := by
  induction ops generalizing s rets seen with
  | nil =>
      cases run
      cases trace
      exact (if_pos small).symm
  | cons op ops induction =>
      rcases Option.bind_eq_some_iff.mp run with ⟨⟨s₁, ret⟩, step, run⟩
      rcases Option.bind_eq_some_iff.mp run with ⟨⟨s₂, later⟩, rest, run⟩
      cases run
      rcases Option.bind_eq_some_iff.mp trace with ⟨⟨s₁', ret'⟩, step', trace⟩
      rw [step] at step'
      cases step'
      rcases Option.bind_eq_some_iff.mp trace with ⟨seen', traced, same⟩
      cases same
      rw [narrowTrace, narrowStep_eq step]
      by_cases short : s₁.mem.extras.size ≤ 2 ^ 31
      · simp only [if_pos short, Option.bind_eq_bind, Option.bind_some, induction short rest traced]
        split <;> rfl
      · have grows := (growsBy_runOps rest).1
        have long : ¬ s'.mem.extras.size ≤ 2 ^ 31 := fun short' => short (grows.trans short')
        rw [if_neg short, if_neg long]
        rfl

/-- The fast engine refines the reference: from the empty book on, any operations
give the same answers, the same tape and the same book after each of them, until the side
table is longer than its indices. -/
theorem refines_reference (band : Band) (expectedOrders : Nat) (ops : List Op) :
    ∃ s rets seen, (new band [] expectedOrders : MatchingEngine Tape).runOps ops = some (s, rets) ∧
      s.mem.extras.size ≤ (ops.map newSlots).sum ∧
      (ReferenceEngine.new band [] : ReferenceEngine Tape).trace ops = some seen ∧
      (new band [] expectedOrders : MatchingEngine Tape).narrowTrace ops =
        if s.mem.extras.size ≤ 2 ^ 31 then some seen else none := by
  rcases (simulates_new band ([] : Tape) expectedOrders).runOps ops with ⟨s, -, rets, fast, -⟩
  rcases (simulates_new band ([] : Tape) expectedOrders).trace_eq ops with ⟨seen, trace, ref⟩
  have grows := (growsBy_runOps fast).2
  have none : (new band ([] : Tape) expectedOrders).slots = 0 := rfl
  rw [none, Nat.zero_add] at grows
  exact ⟨s, rets, seen, fast, grows, ref, narrowTrace_eq (Nat.zero_le _) fast trace⟩

/-! ## The slots of a well-formed engine -/

/-- The slots of the listed orders and of the free list, as the source names them. -/
structure Words (s : MatchingEngine H) (listed : BookName → Nat → List Ptr) : Prop where
  plain : ∀ book i, ∀ o ∈ listed book i, (s.mem.nodes o).ext = none ↔ (s.mem.nodes o).word < 0
  own : ∀ book i, ∀ o ∈ listed book i, 0 ≤ (s.mem.nodes o).word →
    s.mem.sideTable.read (s.mem.nodes o).word = some (s.mem.extra o) ∧
      (s.mem.nodes o).word ∉ s.mem.sideTable.free ∧
      ∀ book' i', ∀ o' ∈ listed book' i', (s.mem.nodes o').word = (s.mem.nodes o).word → o' = o
  freeOnce : s.mem.sideTable.free.Nodup

omit [Handler H] in
theorem WellFormed.words {listed : BookName → Nat → List Ptr} (wellFormed : s.WellFormed listed)
    (small : s.mem.extras.size ≤ 2 ^ 31) : s.Words listed := by
  have slotOf {book : BookName} {i : Nat} {o : Ptr} (member : o ∈ listed book i)
      (taken : 0 ≤ (s.mem.nodes o).word) : ∃ slot, (s.mem.nodes o).ext = some slot ∧
        slot < 2 ^ 31 ∧ (s.mem.nodes o).word = Int32.ofNat slot := by
    cases has : (s.mem.nodes o).ext with
    | none =>
        rw [Order.word, has] at taken
        exact absurd taken (by decide)
    | some slot =>
        have inside := (wellFormed.slots book i o member slot has).1
        exact ⟨slot, rfl, inside.trans_le small, Memory.word_of_slot has⟩
  have free (slot : Nat) (isFree : slot ∈ s.mem.extraFree) : slot < 2 ^ 31 :=
    (wellFormed.freeInside slot isFree).trans_le small
  constructor
  case plain =>
      intro book i o member
      cases has : (s.mem.nodes o).ext with
      | none => simp [Order.word, has]
      | some slot =>
          have inside := (wellFormed.slots book i o member slot has).1
          have taken := SideTable.word_nonneg (inside.trans_le small)
          simpa [Memory.word_of_slot has] using taken
  case own =>
      intro book i o member taken
      rcases slotOf member taken with ⟨slot, has, low, word⟩
      rcases wellFormed.slots book i o member slot has with ⟨inside, notFree, alone⟩
      refine ⟨?_, ?_, ?_⟩
      · exact Memory.read_sideTable small has inside
      · intro isFree
        rcases List.mem_map.mp isFree with ⟨slot', isFree, same⟩
        rw [word] at same
        rw [SideTable.word_inj (free slot' isFree) low same] at isFree
        exact notFree isFree
      · intro book' i' o' member' same
        rcases slotOf member' (same ▸ taken) with ⟨slot', has', low', word'⟩
        rw [word, word'] at same
        rw [SideTable.word_inj low' low same] at has'
        exact alone book' i' o' member' has'
  case freeOnce =>
      apply List.Nodup.map_on _ wellFormed.freeOnce.2
      intro slot isFree slot' isFree' same
      exact SideTable.word_inj (free slot isFree) (free slot' isFree') same

/-- Every sequence of operations leaves a well-formed engine, until the side table is
longer than its indices. -/
theorem runOps_wellFormed (band : Band) (h : H) (expectedOrders : Nat) (ops : List Op) :
    ∃ s rets, (new band h expectedOrders).runOps ops = some (s, rets) ∧
      s.mem.extras.size ≤ (ops.map newSlots).sum ∧
      if s.mem.extras.size ≤ 2 ^ 31 then
        (new band h expectedOrders).narrowRun ops = some (s, rets) ∧
          ∃ listed, s.WellFormed listed ∧ s.Words listed
      else (new band h expectedOrders).narrowRun ops = none := by
  rcases (simulates_new band h expectedOrders).runOps ops with ⟨s, r, rets, fast, -, simulates⟩
  have grows := (growsBy_runOps fast).2
  have none : (new band h expectedOrders).slots = 0 := rfl
  rw [none, Nat.zero_add] at grows
  refine ⟨s, rets, fast, grows, ?_⟩
  rw [narrowRun_eq (Nat.zero_le _) fast]
  rcases simulates.wellFormed with ⟨listed, wellFormed⟩
  split
  · next small => exact ⟨rfl, listed, wellFormed, wellFormed.words small⟩
  · rfl

end MatchingEngine

/-! ## A table that is too long -/

namespace Market

def icebergAtFive : Op := .submitIceberg .buy 5 2 1 .gtc 0 .cancelTaker

structure Waits (m : Market) (n : Nat) : Prop where
  length : (m.levels .buy 5).length = n
  clips : ∀ o ∈ m.levels .buy 5, o.peak ≠ 0
  alone : ∀ px, m.levels .sell px = []
  unstopped : m.stops = []
  running : m.halted = false
  inside : m.inBand 5

variable {m m' : Market} {n : Nat}

theorem Waits.another (waits : m.Waits n) : ∃ events m' ret,
    m.Performs icebergAtFive events m' ret ∧ m'.Waits (n + 1) := by
  let t : Taker := .ofLimit m.nextId .buy 5 2 .gtc 0 .cancelTaker 1
  let entered : Market := { m with nextId := m.nextId + 1 }
  have start : m.Begin icebergAtFive [.accept m.nextId .buy 5 2] (entered, .taking t)
      (.id m.nextId) :=
    .enter (.iceberg (by decide)) (by decide) waits.inside fun refused => refused
  have blocked : t.Blocked entered := .inr fun px occupied => absurd (waits.alone px) occupied
  have left : t.qty ≠ 0 := show (2 : Qty) ≠ 0 by decide
  have rests : t.remainder = .rest 5 1 := rfl
  have last := Step.rest left blocked rests
  have clipped : (t.resting 5 1).peak ≠ 0 := by
    have less : (1 : Qty) < 2 := by decide
    simp [Taker.resting, t, Taker.ofLimit, less]
  have here : (entered.setLevel t.side 5 (entered.levels t.side 5 ++ [t.resting 5 1])).levels .buy 5
      = m.levels .buy 5 ++ [t.resting 5 1] := setLevel_levels_self ..
  refine ⟨_, _, _, .intro start (.single last) (.inr fun o parked => ?_) trivial, ?_⟩
  · have parked : o ∈ m.stops := parked
    rw [waits.unstopped] at parked
    cases parked
  · constructor
    case length => rw [here, List.length_append, waits.length, List.length_singleton]
    case clips =>
        intro o member
        rw [here] at member
        rcases List.mem_append.mp member with old | new
        · exact waits.clips o old
        · rw [List.mem_singleton.mp new]
          exact clipped
    case alone =>
        intro px
        have apart : Side.sell ≠ t.side := show Side.sell ≠ Side.buy by decide
        exact (setLevel_levels_side _ _ _ _ _ _ apart).trans (waits.alone px)
    case unstopped => exact waits.unstopped
    case running => exact waits.running
    case inside => exact waits.inside

theorem Waits.next (waits : m.Waits n) (valid : m.Valid) {events : List Event} {ret : Ret}
    (performs : m.Performs icebergAtFive events m' ret) : m'.Waits (n + 1) := by
  rcases waits.another with ⟨events', m₁, ret', performs', waits'⟩
  have continuous : Continuous icebergAtFive := trivial
  rcases performs.deterministic valid continuous performs' with ⟨-, rfl, -⟩
  exact waits'

end Market

namespace MatchingEngine

variable {H : Type} {band : Band} {s : MatchingEngine H} {r : ReferenceEngine H} {n : Nat}

theorem Simulates.slots (simulates : Simulates band s r) (waits : r.market.Waits n) :
    n ≤ s.mem.extras.size := by
  rcases simulates with ⟨⟨cells, mirrors, -⟩, -⟩
  rcases mirrors.idx_eq waits.inside with ⟨index, -⟩
  have queue : (cells .bids (s.idx 5)).map Prod.snd = r.market.levels .buy 5 := by
    have resting := mirrors.resting .buy (s.idx 5)
    rw [index] at resting
    exact resting
  let nodes := (cells .bids (s.idx 5)).map Prod.fst
  let slotOf (ptr : Ptr) : Nat := (s.mem.nodes ptr).ext.getD 0
  have slot (ptr : Ptr) (member : ptr ∈ nodes) : (s.mem.nodes ptr).ext = some (slotOf ptr) := by
    rcases List.mem_map.mp member with ⟨⟨ptr, o⟩, cell, rfl⟩
    have resting : o ∈ r.market.levels .buy 5 := queue ▸ List.mem_map_of_mem cell
    have shaped := (mirrors.heap.filed.holds _ _ ptr o cell).shaped (waits.clips o resting)
    rcases Option.ne_none_iff_exists'.mp shaped with ⟨slot, has⟩
    simp [slotOf, has]
  have live (ptr : Ptr) (member : ptr ∈ nodes) : cells.Live ptr := ⟨.bids, s.idx 5, member⟩
  have apart : (nodes.map slotOf).Nodup := by
    apply List.Nodup.map_on _ (mirrors.heap.filed.linked .bids (s.idx 5)).nodup
    intro ptr member ptr' member' same
    have has' := slot ptr' member'
    rw [← same] at has'
    exact mirrors.heap.stocked.apart ptr ptr' _ (live ptr member) (live ptr' member')
      (slot ptr member) has'
  have inside : nodes.map slotOf ⊆ List.range s.mem.extras.size := by
    intro slot' member
    rcases List.mem_map.mp member with ⟨ptr, listed, rfl⟩
    exact List.mem_range.mpr (mirrors.heap.stocked.used ptr _ (live ptr listed) (slot ptr listed)).1
  have length := (apart.subperm inside).length_le
  rw [← waits.length, ← queue]
  simpa [nodes] using length

theorem Simulates.waits [Handler H] (simulates : Simulates band s r) (start : r.market.Waits n)
    (k : Nat) : ∃ s' r' rets, s.runOps (List.replicate k Market.icebergAtFive) = some (s', rets) ∧
      Simulates band s' r' ∧ r'.market.Waits (n + k) := by
  induction k generalizing s r n with
  | zero => exact ⟨s, r, [], rfl, simulates, start⟩
  | succ k induction =>
      rcases simulates.step Market.icebergAtFive with ⟨s₁, r₁, ret, step, -, simulates₁, performed⟩
      rcases performed.performs with ⟨events, performs, -⟩
      rcases induction simulates₁ (start.next simulates.sound.valid performs) with
        ⟨s', r', rets, run, simulates', waits⟩
      refine ⟨s', r', ret :: rets, ?_, simulates', ?_⟩
      · simp only [List.replicate_succ, MatchingEngine.runOps, step, run, Option.bind_eq_bind,
          Option.bind_some]
      · rwa [Nat.add_assoc, Nat.add_comm 1 k] at waits

theorem runOps_full [Handler H] (h : H) (expectedOrders : Nat) :
    ∃ s rets, (new ⟨1, 10, by decide, by decide, by decide⟩ h expectedOrders).runOps
        (List.replicate (2 ^ 31 + 1) Market.icebergAtFive) = some (s, rets) ∧
      ¬ s.mem.extras.size ≤ 2 ^ 31 := by
  let band : Band := ⟨1, 10, by decide, by decide, by decide⟩
  have start : (ReferenceEngine.new band h).market.Waits 0 := by
    have inside : (1 : Price) ≤ 5 ∧ (5 : Price) ≤ 10 := by decide
    rw [market_new]
    exact ⟨rfl, fun _ member => absurd member List.not_mem_nil, fun _ => rfl, rfl, rfl, inside⟩
  rcases (simulates_new band h expectedOrders).waits start (2 ^ 31 + 1) with
    ⟨s, r, rets, run, simulates, waits⟩
  have many := simulates.slots waits
  exact ⟨s, rets, run, by omega⟩

/-- The run has no result then. -/
theorem not_refines_reference : ¬ ∀ (band : Band) (expectedOrders : Nat) (ops : List Op),
    ∃ seen, (new band [] expectedOrders : MatchingEngine Tape).narrowTrace ops = some seen ∧
      (ReferenceEngine.new band [] : ReferenceEngine Tape).trace ops = some seen := by
  intro claim
  rcases runOps_full ([] : Tape) 0 with ⟨s, rets, run, long⟩
  rcases claim ⟨1, 10, by decide, by decide, by decide⟩ 0
    (List.replicate (2 ^ 31 + 1) Market.icebergAtFive) with ⟨seen, narrow, -⟩
  rcases (simulates_new ⟨1, 10, by decide, by decide, by decide⟩ ([] : Tape) 0).trace_eq
    (List.replicate (2 ^ 31 + 1) Market.icebergAtFive) with ⟨seen', trace, -⟩
  rw [narrowTrace_eq (Nat.zero_le _) run trace, if_neg long] at narrow
  cases narrow

theorem not_runOps_wellFormed : ¬ ∀ (band : Band) (expectedOrders : Nat) (ops : List Op),
    ∃ s rets, (new band [] expectedOrders : MatchingEngine Tape).narrowRun ops = some (s, rets) ∧
      ∃ listed, s.WellFormed listed := by
  intro claim
  rcases runOps_full ([] : Tape) 0 with ⟨s, rets, run, long⟩
  rcases claim ⟨1, 10, by decide, by decide, by decide⟩ 0
    (List.replicate (2 ^ 31 + 1) Market.icebergAtFive) with ⟨s', rets', narrow, -⟩
  rw [narrowRun_eq (Nat.zero_le _) run, if_neg long] at narrow
  cases narrow

end MatchingEngine

end Matchbook
