import Mathlib.Data.UInt
import Matchbook.Foundation.BoundedLoop
import Matchbook.LevelBitmap

namespace Matchbook

open BoundedLoop

/-! # The bitmap in 64 bits

The bitmap with the sizes, indices and results of the source, where every access to a word
is checked. For the sizes whose indices are 64-bit signed numbers it is the bitmap over
unbounded indices. -/

structure CheckedBitmap where
  words : Array (BitVec 64)
  n : UInt64

namespace CheckedBitmap

def new (nLevels : UInt64) : CheckedBitmap where
  words := Array.replicate ((nLevels + 63) / 64).toNat 0#64
  n := nLevels

def word (map : CheckedBitmap) (w : UInt64) : Option (BitVec 64) := map.words[w.toNat]?

def modify (map : CheckedBitmap) (i : UInt64) (f : BitVec 64 → BitVec 64) :
    Option CheckedBitmap := do
  let _ ← map.word (i >>> 6)
  some { map with words := map.words.modify (i >>> 6).toNat f }

def set (map : CheckedBitmap) (i : UInt64) : Option CheckedBitmap :=
  map.modify i (· ||| (1#64 <<< (i &&& 63).toNat))

def clear (map : CheckedBitmap) (i : UInt64) : Option CheckedBitmap :=
  map.modify i (· &&& ~~~(1#64 <<< (i &&& 63).toNat))

def leRound (map : CheckedBitmap) (state : UInt64 × BitVec 64) :
    Option (Turn (UInt64 × BitVec 64) Int64) :=
  let (w, v) := state
  if v ≠ 0#64 then some (.leave ((w <<< 6).toInt64 + 63 - Int64.ofNat v.clz.toNat))
  else if w = 0 then some (.leave (-1))
  else do
    let v ← map.word (w - 1)
    some (.again (w - 1, v))

def findLe (map : CheckedBitmap) (i : Int64) : Option Int64 :=
  if i < 0 then some (-1)
  else do
    let i := if map.n ≤ i.toUInt64 then map.n.toInt64 - 1 else i
    let w := i.toUInt64 >>> 6
    let bit := (i.toUInt64.toUInt32 &&& 63).toNat
    let v ← map.word w
    loop map.leRound (map.words.size + 1) (w, v &&& LevelBitmap.lowMask bit)

def geRound (map : CheckedBitmap) (state : UInt64 × BitVec 64) :
    Option (Turn (UInt64 × BitVec 64) Int64) :=
  let (w, v) := state
  if v ≠ 0#64 then some (.leave ((w <<< 6).toInt64 + Int64.ofNat v.ctz.toNat))
  else if (w + 1).toNat = map.words.size then some (.leave (-1))
  else do
    let v ← map.word (w + 1)
    some (.again (w + 1, v))

/-- Lowest set index at or above `i`, or -1. -/
def findGe (map : CheckedBitmap) (i : Int64) : Option Int64 :=
  let i := if i < 0 then 0 else i
  if map.n ≤ i.toUInt64 then some (-1)
  else do
    let w := i.toUInt64 >>> 6
    let bit := (i.toUInt64.toUInt32 &&& 63).toNat
    let v ← map.word w
    loop map.geRound (map.words.size + 1) (w, v &&& (BitVec.allOnes 64 <<< bit))

/-! ## Sequences of updates -/

inductive Toggle
  | set (i : UInt64)
  | clear (i : UInt64)

def Toggle.index : Toggle → UInt64
  | .set i => i
  | .clear i => i

def toggle (map : CheckedBitmap) : Toggle → Option CheckedBitmap
  | .set i => map.set i
  | .clear i => map.clear i

def run (map : CheckedBitmap) : List Toggle → Option CheckedBitmap
  | [] => some map
  | op :: ops => do
      let map ← map.toggle op
      map.run ops

def Toggle.mark (marked : Nat → Bool) : Toggle → Nat → Bool
  | .set i => fun j => decide (j = i.toNat) || marked j
  | .clear i => fun j => !decide (j = i.toNat) && marked j

def marks (ops : List Toggle) : Nat → Bool := ops.foldl Toggle.mark fun _ => false

/-- After every sequence of updates of a bitmap of that size, each search ends without an
access outside the words, and finds what it looks for. -/
def Exact (n : UInt64) : Prop :=
  ∀ ops : List Toggle, (∀ op ∈ ops, op.index < n) →
    ∃ map, (new n).run ops = some map ∧ ∀ k : Int64,
      (∃ found, map.findLe k = some found ∧
        LevelBitmap.GreatestLe (fun i => marks ops i = true) k.toInt found.toInt) ∧
      ∃ found, map.findGe k = some found ∧
        LevelBitmap.LeastGe (fun i => marks ops i = true) k.toInt found.toInt

/-! ## Indices of 64 bits -/

theorem toNat_word (i : UInt64) : (i >>> 6).toNat = i.toNat / 64 := by
  rw [UInt64.toNat_shiftRight]
  exact Nat.shiftRight_eq_div_pow i.toNat 6

theorem toNat_bit (i : UInt64) : (i &&& 63).toNat = i.toNat % 64 := by
  rw [UInt64.toNat_and]
  exact Nat.and_two_pow_sub_one_eq_mod i.toNat 6

theorem toNat_bit32 (i : UInt64) : (i.toUInt32 &&& 63).toNat = i.toNat % 64 := by
  rw [UInt32.toNat_and, UInt64.toNat_toUInt32]
  have low : (i.toNat % 2 ^ 32) &&& 63 = i.toNat % 2 ^ 32 % 64 :=
    Nat.and_two_pow_sub_one_eq_mod _ 6
  change (i.toNat % 2 ^ 32) &&& 63 = i.toNat % 64
  rw [low]
  omega

theorem toInt64_base (w : UInt64) : (w <<< 6).toInt64 = Int64.ofInt (w.toNat * 64 : Nat) := by
  have base : w <<< 6 = UInt64.ofNat (w.toNat * 64) := by
    apply UInt64.toNat_inj.mp
    rw [UInt64.toNat_shiftLeft, UInt64.toNat_ofNat', Nat.shiftLeft_eq]
    rfl
  rw [base, UInt64.toInt64_ofNat', Int64.ofInt_eq_ofNat]

theorem toNat_of_nonneg {k : Int64} (nonneg : ¬ k < 0) : k.toUInt64.toNat = k.toInt.toNat :=
  Int64.toNat_toUInt64_of_le (Int64.not_lt.mp nonneg)

/-! ## The unbounded bitmap -/

structure Refines (map : CheckedBitmap) (m : LevelBitmap) : Prop where
  words : map.words = m.words
  n : map.n.toNat = m.n
  small : m.n + 63 < 2 ^ 64

theorem refines_new {n : UInt64} (small : n.toNat + 63 < 2 ^ 64) :
    (new n).Refines (.new n.toNat) where
  words := by
    have size : ((n + 63) / 64).toNat = (n.toNat + 63) / 64 := by
      rw [UInt64.toNat_div, UInt64.toNat_add]
      exact congrArg (· / 64) (Nat.mod_eq_of_lt small)
    rw [new, LevelBitmap.new, size]
  n := rfl
  small := small

section refines

variable {map : CheckedBitmap} {m : LevelBitmap} (refines : map.Refines m)
include refines

theorem Refines.size : map.words.size = (m.n + 63) / 64 := by
  rw [refines.words, m.size_words]

theorem Refines.word {w : UInt64} (inside : w.toNat < map.words.size) :
    map.word w = some (m.word w.toNat) := by
  rw [CheckedBitmap.word, LevelBitmap.word, ← refines.words, Array.getElem?_eq_getElem inside,
    Array.getD_eq_getD_getElem?, Array.getElem?_eq_getElem inside, Option.getD_some]

theorem Refines.inside {i : UInt64} (inRange : i < map.n) : (i >>> 6).toNat < map.words.size := by
  rw [UInt64.lt_iff_toNat_lt, refines.n] at inRange
  rw [toNat_word, refines.words]
  exact LevelBitmap.div_lt_size inRange

theorem Refines.modify {i : UInt64} (inRange : i < map.n) (f : BitVec 64 → BitVec 64) :
    map.modify i f = some { map with words := m.words.modify (i.toNat / 64) f } := by
  rw [CheckedBitmap.modify, refines.word (refines.inside inRange), Option.bind_eq_bind,
    Option.bind_some, toNat_word, refines.words]

theorem Refines.toggle {op : Toggle} (inRange : op.index < map.n) :
    ∃ map' m', map.toggle op = some map' ∧ map'.Refines m' ∧ map'.n = map.n ∧
      ∀ j, m'.test j = op.mark m.test j := by
  have level : op.index.toNat < m.n := by
    rw [← refines.n]
    exact UInt64.lt_iff_toNat_lt.mp inRange
  cases op with
  | set i =>
      refine ⟨_, m.set i.toNat, refines.modify inRange _, ⟨?_, refines.n, refines.small⟩, rfl,
        LevelBitmap.test_set level⟩
      rw [toNat_bit]
      rfl
  | clear i =>
      refine ⟨_, m.clear i.toNat, refines.modify inRange _, ⟨?_, refines.n, refines.small⟩, rfl,
        LevelBitmap.test_clear level⟩
      rw [toNat_bit]
      rfl

theorem Refines.run {ops : List Toggle} (inRange : ∀ op ∈ ops, op.index < map.n) :
    ∃ map' m', map.run ops = some map' ∧ map'.Refines m' ∧ map'.n = map.n ∧
      m'.test = ops.foldl Toggle.mark m.test := by
  induction ops generalizing map m with
  | nil => exact ⟨map, m, rfl, refines, rfl, rfl⟩
  | cons op ops induction =>
      rcases refines.toggle (inRange op List.mem_cons_self) with
        ⟨map₁, m₁, toggled, refines₁, size₁, marked⟩
      rcases induction refines₁ (fun other member => size₁ ▸ inRange other (.tail op member)) with
        ⟨map', m', ran, refines', size', marks⟩
      refine ⟨map', m', ?_, refines', size'.trans size₁, ?_⟩
      · rw [CheckedBitmap.run, toggled]
        exact ran
      · rw [marks, List.foldl_cons, funext marked]

/-! ## Scans -/

theorem Refines.leLoop {w : UInt64} (inside : w.toNat < map.words.size) (v : BitVec 64)
    {bound : Nat} (enough : w.toNat < bound) :
    loop map.leRound bound (w, v) = some (Int64.ofInt (m.scanDown w.toNat v)) := by
  induction bound generalizing w v with
  | zero => exact absurd enough (Nat.not_lt_zero _)
  | succ bound induction =>
      by_cases nonzero : v ≠ 0#64
      · have leaves : map.leRound (w, v) =
            some (.leave ((w <<< 6).toInt64 + 63 - Int64.ofNat v.clz.toNat)) := by
          simp only [leRound, if_pos nonzero]
        rw [loop_leave leaves, m.scanDown_found _ nonzero, toInt64_base, ← Int64.ofInt_eq_ofNat,
          Int64.ofInt_sub, Int64.ofInt_add]
        rfl
      · have zero : v = 0#64 := not_not.mp nonzero
        subst zero
        by_cases first : w = 0
        · subst first
          have leaves : map.leRound (0, 0#64) = some (.leave (-1)) := by simp [leRound]
          rw [loop_leave leaves]
          simp [LevelBitmap.scanDown]
        · have positive : w.toNat ≠ 0 := fun zero => first (UInt64.toNat_inj.mp zero)
          have below : (w - 1).toNat = w.toNat - 1 := by
            apply UInt64.toNat_sub_of_le
            rw [UInt64.le_iff_toNat_le]
            exact Nat.pos_of_ne_zero positive
          have inside' : (w - 1).toNat < map.words.size := by omega
          have goesOn : map.leRound (w, 0#64) =
              some (.again (w - 1, m.word (w - 1).toNat)) := by
            simp [leRound, first, refines.word inside']
          have next : w.toNat = (w - 1).toNat + 1 := by omega
          rw [loop_again goesOn, induction inside' _ (by omega), next, m.scanDown_next]

theorem Refines.geLoop {left : Nat} {w : UInt64} (last : w.toNat + left + 1 = map.words.size)
    (v : BitVec 64) :
    loop map.geRound (left + 1) (w, v) = some (Int64.ofInt (m.scanUp left w.toNat v)) := by
  have size := refines.size
  have small := refines.small
  have next : (w + 1).toNat = w.toNat + 1 := by
    rw [UInt64.toNat_add]
    exact Nat.mod_eq_of_lt (by change w.toNat + 1 < 2 ^ 64; omega)
  induction left generalizing w v with
  | zero =>
      by_cases nonzero : v ≠ 0#64
      · have leaves : map.geRound (w, v) =
            some (.leave ((w <<< 6).toInt64 + Int64.ofNat v.ctz.toNat)) := by
          simp only [geRound, if_pos nonzero]
        rw [loop_leave leaves, m.scanUp_found _ _ nonzero, toInt64_base, ← Int64.ofInt_eq_ofNat,
          Int64.ofInt_add]
        rfl
      · have zero : v = 0#64 := not_not.mp nonzero
        subst zero
        have leaves : map.geRound (w, 0#64) = some (.leave (-1)) := by
          simp only [geRound, ne_eq, not_true_eq_false, if_false]
          rw [if_pos (by omega)]
        rw [loop_leave leaves]
        simp [LevelBitmap.scanUp]
  | succ left induction =>
      by_cases nonzero : v ≠ 0#64
      · have leaves : map.geRound (w, v) =
            some (.leave ((w <<< 6).toInt64 + Int64.ofNat v.ctz.toNat)) := by
          simp only [geRound, if_pos nonzero]
        rw [loop_leave leaves, m.scanUp_found _ _ nonzero, toInt64_base, ← Int64.ofInt_eq_ofNat,
          Int64.ofInt_add]
        rfl
      · have zero : v = 0#64 := not_not.mp nonzero
        subst zero
        have inside : (w + 1).toNat < map.words.size := by omega
        have goesOn : map.geRound (w, 0#64) = some (.again (w + 1, m.word (w + 1).toNat)) := by
          simp only [geRound, ne_eq, not_true_eq_false, if_false, refines.word inside]
          rw [if_neg (by omega)]
          rfl
        have further : (w + 1 + 1).toNat = (w + 1).toNat + 1 := by
          rw [UInt64.toNat_add]
          exact Nat.mod_eq_of_lt (by change (w + 1).toNat + 1 < 2 ^ 64; omega)
        rw [loop_again goesOn, induction (by omega) _ further, m.scanUp_next, next]

/-! ## Searches -/

theorem Refines.findLe (nonempty : m.n ≠ 0) (addressable : m.n ≤ 2 ^ 63) (k : Int64) :
    map.findLe k = some (Int64.ofInt (m.findLe k.toInt)) := by
  have zero : (0 : Int64).toInt = 0 := rfl
  rw [CheckedBitmap.findLe, LevelBitmap.findLe]
  by_cases negative : k < 0
  · have below : k.toInt < 0 := Int64.lt_iff_toInt_lt.mp negative
    rw [if_pos negative, if_pos below]
    rfl
  · have above : ¬ k.toInt < 0 := fun below => negative (Int64.lt_iff_toInt_lt.mpr below)
    rw [if_neg negative, if_neg above]
    -- the index the search starts at, in either width
    have start : (if map.n ≤ k.toUInt64 then map.n.toInt64 - 1 else k).toUInt64.toNat =
        m.clampLe k.toInt := by
      rw [LevelBitmap.clampLe, ← toNat_of_nonneg negative, ← refines.n]
      by_cases beyond : map.n ≤ k.toUInt64
      · rw [if_pos beyond, if_pos (UInt64.le_iff_toNat_le.mp beyond), Int64.toUInt64_sub]
        apply UInt64.toNat_sub_of_le
        rw [UInt64.le_iff_toNat_le]
        exact Nat.pos_of_ne_zero (refines.n ▸ nonempty)
      · rw [if_neg beyond, if_neg (mt UInt64.le_iff_toNat_le.mpr beyond)]
    have inRange : m.clampLe k.toInt < m.n := by
      unfold LevelBitmap.clampLe
      split <;> omega
    dsimp only
    generalize (if map.n ≤ k.toUInt64 then map.n.toInt64 - 1 else k) = i at start ⊢
    have inside : (i.toUInt64 >>> 6).toNat < map.words.size := by
      rw [toNat_word, start, refines.words]
      exact LevelBitmap.div_lt_size inRange
    rw [refines.word inside, Option.bind_eq_bind, Option.bind_some,
      refines.leLoop inside _ (by omega), toNat_word, toNat_bit32, start]

theorem Refines.findGe (k : Int64) : map.findGe k = some (Int64.ofInt (m.findGe k.toInt)) := by
  have zero : (0 : Int64).toInt = 0 := rfl
  have start : (if k < 0 then 0 else k).toUInt64.toNat = k.toInt.toNat := by
    by_cases negative : k < 0
    · have below : k.toInt < 0 := Int64.lt_iff_toInt_lt.mp negative
      rw [if_pos negative, Int.toNat_of_nonpos (Int.le_of_lt below)]
      rfl
    · rw [if_neg negative, toNat_of_nonneg negative]
  rw [CheckedBitmap.findGe, LevelBitmap.findGe]
  dsimp only
  generalize (if k < 0 then 0 else k) = i at start ⊢
  rw [← start]
  by_cases beyond : map.n ≤ i.toUInt64
  · have outside : m.n ≤ i.toUInt64.toNat := refines.n ▸ UInt64.le_iff_toNat_le.mp beyond
    rw [if_pos beyond, if_pos outside]
    rfl
  · have within : ¬ m.n ≤ i.toUInt64.toNat := fun outside =>
      beyond (UInt64.le_iff_toNat_le.mpr (refines.n ▸ outside))
    have inside := refines.inside (UInt64.not_le.mp beyond)
    have last : (i.toUInt64 >>> 6).toNat + (m.words.size - (i.toUInt64.toNat / 64 + 1)) + 1 =
        map.words.size := by
      rw [toNat_word] at inside ⊢
      rw [refines.words] at inside ⊢
      omega
    rw [if_neg beyond, if_neg within, refines.word inside, Option.bind_eq_bind, Option.bind_some,
      loop_mono (by omega) (refines.geLoop last _), toNat_word, toNat_bit32]

end refines

/-! ## Exactness -/

theorem marks_beyond {n : UInt64} {ops : List Toggle} (inRange : ∀ op ∈ ops, op.index < n) {i : Nat}
    (beyond : n.toNat ≤ i) : marks ops i = false := by
  have kept (ops : List Toggle) (inRange : ∀ op ∈ ops, op.index < n) (marked : Nat → Bool)
      (clear : marked i = false) : ops.foldl Toggle.mark marked i = false := by
    induction ops generalizing marked with
    | nil => exact clear
    | cons op ops induction =>
        refine induction (fun other member => inRange other (.tail op member)) _ ?_
        have below := UInt64.lt_iff_toNat_lt.mp (inRange op List.mem_cons_self)
        have other : i ≠ op.index.toNat := by omega
        cases op with
        | set j => simp [Toggle.mark, clear, show i ≠ j.toNat from other]
        | clear j => simp [Toggle.mark, clear]
  exact kept ops inRange _ rfl

theorem refines_run {n : UInt64} (small : n.toNat + 63 < 2 ^ 64) {ops : List Toggle}
    (inRange : ∀ op ∈ ops, op.index < n) :
    ∃ map m, (new n).run ops = some map ∧ map.Refines m ∧ m.n = n.toNat ∧ m.test = marks ops := by
  have refines := refines_new small
  rcases refines.run inRange with ⟨map, m, ran, refines', size, tests⟩
  have empty : (LevelBitmap.new n.toNat).test = fun _ => false :=
    funext (LevelBitmap.test_new n.toNat)
  rw [empty] at tests
  exact ⟨map, m, ran, refines', by rw [← refines'.n, size]; rfl, tests⟩

theorem toInt_ofInt_found {marked : Nat → Bool} {n : Nat} (addressable : n ≤ 2 ^ 63)
    (beyond : ∀ i, n ≤ i → marked i = false) {found : Int}
    (isFound : found = -1 ∨ ∃ i : Nat, found = i ∧ marked i = true) :
    (Int64.ofInt found).toInt = found := by
  rcases isFound with rfl | ⟨i, rfl, isSet⟩
  · rfl
  · have inRange : i < n := by
      by_contra outside
      rw [beyond i (Nat.le_of_not_lt outside)] at isSet
      cases isSet
    exact Int64.toInt_ofInt_of_le (by omega) (by omega)

/-- In a bitmap whose indices are 64-bit signed numbers, the searches are exact. -/
theorem exact_of_addressable (n : UInt64) (nonempty : 1 ≤ n) (addressable : n.toNat ≤ 2 ^ 63) :
    Exact n := by
  intro ops inRange
  rcases refines_run (by omega) inRange with ⟨map, m, ran, refines, size, tests⟩
  have some : m.n ≠ 0 := by
    rw [size]
    exact Nat.pos_iff_ne_zero.mp (UInt64.le_iff_toNat_le.mp nonempty)
  have beyond (i : Nat) (outside : m.n ≤ i) : m.test i = false := by
    rw [tests]
    exact marks_beyond inRange (size ▸ outside)
  have fits {found : Int} (isFound : found = -1 ∨ ∃ i : Nat, found = i ∧ m.test i = true) :
      (Int64.ofInt found).toInt = found :=
    toInt_ofInt_found (size ▸ addressable : m.n ≤ 2 ^ 63) beyond isFound
  refine ⟨map, ran, fun k => ⟨?_, ?_⟩⟩
  · have greatest := m.findLe_spec beyond k.toInt
    refine ⟨_, refines.findLe some (size ▸ addressable) k, ?_⟩
    have isFound : m.findLe k.toInt = -1 ∨
        ∃ i : Nat, m.findLe k.toInt = i ∧ m.test i = true := by
      rcases greatest with ⟨missing, -⟩ | ⟨i, found, isSet, -⟩
      · exact .inl missing
      · exact .inr ⟨i, found, isSet⟩
    rw [fits isFound, ← tests]
    exact greatest
  · have least := m.findGe_spec beyond k.toInt
    refine ⟨_, refines.findGe k, ?_⟩
    have isFound : m.findGe k.toInt = -1 ∨
        ∃ i : Nat, m.findGe k.toInt = i ∧ m.test i = true := by
      rcases least with ⟨missing, -⟩ | ⟨i, found, isSet, -⟩
      · exact .inl missing
      · exact .inr ⟨i, found, isSet⟩
    rw [fits isFound, ← tests]
    exact least

theorem exact_300 : Exact 300 := exact_of_addressable 300 (by decide) (by decide)

theorem addressable_of_exact {n : UInt64} (holds : Exact n) : n.toNat ≤ 2 ^ 63 := by
  by_contra large
  have top : (9223372036854775808 : UInt64).toNat = 2 ^ 63 := rfl
  have inRange : (9223372036854775808 : UInt64) < n := by
    rw [UInt64.lt_iff_toNat_lt, top]
    omega
  rcases holds [.set 9223372036854775808] (by simpa [Toggle.index] using inRange) with
    ⟨map, -, finds⟩
  have isSet : marks [.set 9223372036854775808] (2 ^ 63) = true := by
    simp [marks, Toggle.mark, top]
  rcases (finds 0).2 with ⟨found, -, ⟨-, none⟩ | ⟨i, same, marked, -, -⟩⟩
  · exact none (2 ^ 63) (by decide) isSet
  · have only : i = 2 ^ 63 := by simpa [marks, Toggle.mark, top] using marked
    have below := found.toInt_lt
    omega

/-- The index after the last 64-bit signed number is set, and found as the least of them. -/
theorem not_exact :
    (∃ map, (new 9223372036854775809).run [.set 9223372036854775808] = some map ∧
      map.findGe 0 = some Int64.minValue) ∧ ¬ ∀ n : UInt64, 1 ≤ n → Exact n := by
  have top : (9223372036854775808 : UInt64).toNat = 2 ^ 63 := rfl
  have inRange : ∀ op ∈ [Toggle.set 9223372036854775808],
      op.index < (9223372036854775809 : UInt64) := by
    intro op member
    rw [List.mem_singleton.mp member]
    decide
  constructor
  · rcases refines_run (by decide) inRange with ⟨map, m, ran, refines, size, tests⟩
    refine ⟨map, ran, ?_⟩
    have isSet (i : Nat) : m.test i = true ↔ i = 2 ^ 63 := by
      rw [tests]
      simp [marks, Toggle.mark, top]
    have beyond (i : Nat) (outside : m.n ≤ i) : m.test i = false := by
      rw [tests]
      exact marks_beyond inRange (size ▸ outside)
    rw [refines.findGe]
    rcases m.findGe_spec beyond (0 : Int64).toInt with ⟨-, none⟩ | ⟨i, found, marked, -, -⟩
    · exact absurd ((isSet (2 ^ 63)).mpr rfl) (none (2 ^ 63) (by decide))
    · rw [found, (isSet i).mp marked]
      rfl
  · intro always
    exact absurd (addressable_of_exact (always 9223372036854775809 (by decide))) (by decide)

end CheckedBitmap

end Matchbook
