import Mathlib.Tactic.Common

namespace Matchbook

/-! # Occupancy bitmap over price levels

One bit per level in 64-bit words. The searches scan whole words and finish
with a leading or trailing zero count. -/

structure LevelBitmap where
  words : Array (BitVec 64)
  n : Nat
  size_words : words.size = (n + 63) / 64

namespace LevelBitmap

def new (nLevels : Nat) : LevelBitmap where
  words := Array.replicate ((nLevels + 63) / 64) 0#64
  n := nLevels
  size_words := by simp

def word (map : LevelBitmap) (w : Nat) : BitVec 64 :=
  map.words.getD w 0#64

def set (map : LevelBitmap) (i : Nat) : LevelBitmap where
  words := map.words.modify (i / 64) (· ||| (1#64 <<< (i % 64)))
  n := map.n
  size_words := by simpa using map.size_words

def clear (map : LevelBitmap) (i : Nat) : LevelBitmap where
  words := map.words.modify (i / 64) (· &&& ~~~(1#64 <<< (i % 64)))
  n := map.n
  size_words := by simpa using map.size_words

def test (map : LevelBitmap) (i : Nat) : Bool :=
  (map.word (i / 64)).getLsbD (i % 64)

def scanDown (map : LevelBitmap) : Nat → BitVec 64 → Int
  | w, v =>
      if v ≠ 0#64 then w * 64 + 63 - v.clz.toNat
      else match w with
        | 0 => -1
        | w + 1 => map.scanDown w (map.word w)

def lowMask (bit : Nat) : BitVec 64 :=
  if bit = 63 then BitVec.allOnes 64 else (1#64 <<< (bit + 1)) - 1#64

def clampLe (map : LevelBitmap) (i : Int) : Nat :=
  if map.n ≤ i.toNat then map.n - 1 else i.toNat

/-- Highest set index at or below `i`, or -1. -/
def findLe (map : LevelBitmap) (i : Int) : Int :=
  if i < 0 then -1
  else map.scanDown (map.clampLe i / 64)
    (map.word (map.clampLe i / 64) &&& lowMask (map.clampLe i % 64))

def scanUp (map : LevelBitmap) : Nat → Nat → BitVec 64 → Int
  | left, w, v =>
      if v ≠ 0#64 then w * 64 + v.ctz.toNat
      else match left with
        | 0 => -1
        | left + 1 => map.scanUp left (w + 1) (map.word (w + 1))

/-- Lowest set index at or above `i`, or -1. -/
def findGe (map : LevelBitmap) (i : Int) : Int :=
  if map.n ≤ i.toNat then -1
  else map.scanUp (map.words.size - (i.toNat / 64 + 1)) (i.toNat / 64)
    (map.word (i.toNat / 64) &&& (BitVec.allOnes 64 <<< (i.toNat % 64)))

/-! ## Single bits -/

@[simp] theorem set_n (map : LevelBitmap) (i : Nat) : (map.set i).n = map.n := rfl

@[simp] theorem clear_n (map : LevelBitmap) (i : Nat) : (map.clear i).n = map.n := rfl

@[simp] theorem new_n (nLevels : Nat) : (new nLevels).n = nLevels := rfl

theorem test_new (nLevels i : Nat) : (new nLevels).test i = false := by
  by_cases inRange : i / 64 < (nLevels + 63) / 64 <;>
    simp [test, word, new, Array.getD, inRange]

theorem div_lt_size {map : LevelBitmap} {i : Nat} (inRange : i < map.n) :
    i / 64 < map.words.size := by
  rw [map.size_words]
  omega

private theorem word_modify (map : LevelBitmap) (f : BitVec 64 → BitVec 64)
    {w : Nat} (inRange : w < map.words.size) (other : Nat) :
    (map.words.modify w f).getD other 0#64 =
      if other = w then f (map.word w) else map.word other := by
  by_cases same : other = w
  · subst other
    simp [word, Array.getD, inRange, Array.getElem_modify]
  · simp only [word, Array.getD, Array.size_modify, if_neg same]
    split
    · simp [Array.getElem_modify, Ne.symm same]
    · rfl

theorem test_set {map : LevelBitmap} {i : Nat} (inRange : i < map.n) (j : Nat) :
    (map.set i).test j = (decide (j = i) || map.test j) := by
  simp only [test, word, set]
  rw [word_modify map _ (div_lt_size inRange)]
  by_cases sameWord : j / 64 = i / 64
  · have sameBit : j % 64 = i % 64 ↔ j = i := by omega
    have bound : j % 64 < 64 := by omega
    simp only [sameWord, if_true, BitVec.getLsbD_or, BitVec.getLsbD_shiftLeft,
      BitVec.getLsbD_one, bound, word, ← sameBit]
    by_cases equal : j % 64 = i % 64
    · simp [equal]
    · have apart : ¬ (i % 64 ≤ j % 64 ∧ j % 64 - i % 64 = 0) := by omega
      simp [equal]
      omega
  · have different : j ≠ i := fun equal => sameWord (equal ▸ rfl)
    simp [sameWord, different, word]

theorem test_clear {map : LevelBitmap} {i : Nat} (inRange : i < map.n) (j : Nat) :
    (map.clear i).test j = (!decide (j = i) && map.test j) := by
  simp only [test, word, clear]
  rw [word_modify map _ (div_lt_size inRange)]
  by_cases sameWord : j / 64 = i / 64
  · have sameBit : j % 64 = i % 64 ↔ j = i := by omega
    have bound : j % 64 < 64 := by omega
    simp only [sameWord, if_true, BitVec.getLsbD_and, BitVec.getLsbD_not,
      BitVec.getLsbD_shiftLeft, BitVec.getLsbD_one, bound, word, ← sameBit]
    by_cases equal : j % 64 = i % 64
    · simp [equal]
    · have apart : j % 64 < i % 64 ∨ j % 64 - i % 64 ≠ 0 := by omega
      rcases apart with below | above
      · simp [equal, below]
      · simp [equal, above]
  · have different : j ≠ i := fun equal => sameWord (equal ▸ rfl)
    simp [sameWord, different, word]

/-! ## Searches -/

def GreatestLe (occupied : Nat → Prop) (bound found : Int) : Prop :=
  (found = -1 ∧ ∀ i : Nat, (i : Int) ≤ bound → ¬ occupied i) ∨
    ∃ i : Nat, found = i ∧ occupied i ∧ (i : Int) ≤ bound ∧
      ∀ j : Nat, occupied j → (j : Int) ≤ bound → j ≤ i

def LeastGe (occupied : Nat → Prop) (bound found : Int) : Prop :=
  (found = -1 ∧ ∀ i : Nat, bound ≤ (i : Int) → ¬ occupied i) ∨
    ∃ i : Nat, found = i ∧ occupied i ∧ bound ≤ (i : Int) ∧
      ∀ j : Nat, occupied j → bound ≤ (j : Int) → i ≤ j

private theorem clz_bit {v : BitVec 64} (nonzero : v ≠ 0#64) :
    v.clz.toNat ≤ 63 ∧ v.getLsbD (63 - v.clz.toNat) = true ∧
      ∀ b, v.getLsbD b = true → b ≤ 63 - v.clz.toNat := by
  have below : v.clz.toNat < 64 := by
    simpa [BitVec.lt_def] using BitVec.clz_lt_iff_ne_zero.mpr nonzero
  refine ⟨by omega, BitVec.getLsbD_true_clz_of_ne_zero (by omega) nonzero, ?_⟩
  intro b isSet
  by_contra above
  have small : v.toNat < 2 ^ (64 - v.clz.toNat) := BitVec.toNat_lt_two_pow_sub_clz
  have large : 2 ^ b ≤ v.toNat := Nat.ge_two_pow_of_testBit isSet
  have powers : 2 ^ (64 - v.clz.toNat) ≤ 2 ^ b := Nat.pow_le_pow_right (by omega) (by omega)
  omega

private theorem ctz_bit {v : BitVec 64} (nonzero : v ≠ 0#64) :
    v.ctz.toNat ≤ 63 ∧ v.getLsbD v.ctz.toNat = true ∧
      ∀ b, v.getLsbD b = true → v.ctz.toNat ≤ b := by
  have below : v.ctz.toNat < 64 := by
    simpa [BitVec.lt_def] using BitVec.ctz_lt_iff_ne_zero.mpr nonzero
  refine ⟨by omega, BitVec.getLsbD_true_ctz_of_ne_zero nonzero, ?_⟩
  intro b isSet
  by_contra above
  rw [BitVec.getLsbD_false_of_lt_ctz (by omega)] at isSet
  contradiction

theorem scanDown_found (map : LevelBitmap) (w : Nat) {v : BitVec 64}
    (nonzero : v ≠ 0#64) : map.scanDown w v = w * 64 + 63 - v.clz.toNat := by
  unfold scanDown
  rw [if_pos nonzero]

theorem scanDown_next (map : LevelBitmap) (w : Nat) :
    map.scanDown (w + 1) 0#64 = map.scanDown w (map.word w) := by
  rw [scanDown]
  simp

theorem scanUp_found (map : LevelBitmap) (left w : Nat) {v : BitVec 64}
    (nonzero : v ≠ 0#64) : map.scanUp left w v = w * 64 + v.ctz.toNat := by
  unfold scanUp
  rw [if_pos nonzero]

theorem scanUp_next (map : LevelBitmap) (left w : Nat) :
    map.scanUp (left + 1) w 0#64 = map.scanUp left (w + 1) (map.word (w + 1)) := by
  rw [scanUp]
  simp

/-- The scan from word `w` down, `v` being what is left of that word: it finds
the greatest index among the bits of `v` and the words below. -/
private theorem scanDown_spec (map : LevelBitmap) (w : Nat) (v : BitVec 64) :
    GreatestLe
      (fun i => if i / 64 = w then v.getLsbD (i % 64) = true
        else i / 64 < w ∧ map.test i = true)
      (w * 64 + 63 : Nat) (map.scanDown w v) := by
  induction w generalizing v with
  | zero =>
      by_cases nonzero : v ≠ 0#64
      · rcases clz_bit nonzero with ⟨bound, isSet, greatest⟩
        rw [scanDown_found map _ nonzero]
        refine .inr ⟨63 - v.clz.toNat, by omega, ?_, by omega, ?_⟩
        · have inWord : (63 - v.clz.toNat) / 64 = 0 := by omega
          have bit : (63 - v.clz.toNat) % 64 = 63 - v.clz.toNat := by omega
          simp only [inWord, if_true, bit, isSet]
        · intro j occupied within
          have inWord : j / 64 = 0 := by omega
          simp only [inWord, if_true] at occupied
          have := greatest _ occupied
          omega
      · obtain rfl : v = 0#64 := by simpa using nonzero
        refine .inl ⟨by simp [scanDown], ?_⟩
        intro i within occupied
        have inWord : i / 64 = 0 := by omega
        simp [inWord] at occupied
  | succ w induction =>
      by_cases nonzero : v ≠ 0#64
      · rcases clz_bit nonzero with ⟨bound, isSet, greatest⟩
        rw [scanDown_found map _ nonzero]
        refine .inr ⟨(w + 1) * 64 + (63 - v.clz.toNat), by omega, ?_, by omega, ?_⟩
        · have inWord : ((w + 1) * 64 + (63 - v.clz.toNat)) / 64 = w + 1 := by omega
          have bit : ((w + 1) * 64 + (63 - v.clz.toNat)) % 64 = 63 - v.clz.toNat := by omega
          simp only [inWord, if_true, bit, isSet]
        · intro j occupied within
          by_cases inWord : j / 64 = w + 1
          · simp only [inWord, if_true] at occupied
            have := greatest _ occupied
            omega
          · omega
      · obtain rfl : v = 0#64 := by simpa using nonzero
        rw [scanDown_next]
        rcases induction (map.word w) with ⟨missing, none⟩ | ⟨i, found, occupied, within, greatest⟩
        · refine .inl ⟨missing, ?_⟩
          intro i within occupied
          by_cases top : i / 64 = w + 1
          · simp [top] at occupied
          · simp only [top, if_false] at occupied
            apply none i (by omega)
            by_cases inWord : i / 64 = w
            · simpa [inWord, test] using occupied.2
            · simp only [inWord, if_false]
              exact ⟨by omega, occupied.2⟩
        · refine .inr ⟨i, found, ?_, by omega, ?_⟩
          · have notTop : i / 64 ≠ w + 1 := by
              split at occupied <;> omega
            simp only [notTop, if_false]
            by_cases inWord : i / 64 = w
            · simp only [inWord, if_true] at occupied
              exact ⟨by omega, by simpa [test, inWord] using occupied⟩
            · simp only [inWord, if_false] at occupied
              exact ⟨by omega, occupied.2⟩
          · intro j occupied within
            by_cases top : j / 64 = w + 1
            · simp [top] at occupied
            · simp only [top, if_false] at occupied
              apply greatest j _ (by omega)
              by_cases inWord : j / 64 = w
              · simpa [inWord, test] using occupied.2
              · simp only [inWord, if_false]
                exact ⟨by omega, occupied.2⟩

/-- Likewise upwards, through the `left` words above `w`. -/
private theorem scanUp_spec (map : LevelBitmap) (left w : Nat) (v : BitVec 64) :
    LeastGe
      (fun i => if i / 64 = w then v.getLsbD (i % 64) = true
        else w < i / 64 ∧ i / 64 ≤ w + left ∧ map.test i = true)
      (w * 64 : Nat) (map.scanUp left w v) := by
  induction left generalizing w v with
  | zero =>
      by_cases nonzero : v ≠ 0#64
      · rcases ctz_bit nonzero with ⟨bound, isSet, least⟩
        rw [scanUp_found map _ _ nonzero]
        refine .inr ⟨w * 64 + v.ctz.toNat, by omega, ?_, by omega, ?_⟩
        · have inWord : (w * 64 + v.ctz.toNat) / 64 = w := by omega
          have bit : (w * 64 + v.ctz.toNat) % 64 = v.ctz.toNat := by omega
          simp only [inWord, if_true, bit, isSet]
        · intro j occupied within
          have inWord : j / 64 = w := by
            split at occupied <;> omega
          simp only [inWord, if_true] at occupied
          have := least _ occupied
          omega
      · obtain rfl : v = 0#64 := by simpa using nonzero
        refine .inl ⟨by simp [scanUp], ?_⟩
        intro i within occupied
        split at occupied
        · simp at occupied
        · omega
  | succ left induction =>
      by_cases nonzero : v ≠ 0#64
      · rcases ctz_bit nonzero with ⟨bound, isSet, least⟩
        rw [scanUp_found map _ _ nonzero]
        refine .inr ⟨w * 64 + v.ctz.toNat, by omega, ?_, by omega, ?_⟩
        · have inWord : (w * 64 + v.ctz.toNat) / 64 = w := by omega
          have bit : (w * 64 + v.ctz.toNat) % 64 = v.ctz.toNat := by omega
          simp only [inWord, if_true, bit, isSet]
        · intro j occupied within
          by_cases inWord : j / 64 = w
          · simp only [inWord, if_true] at occupied
            have := least _ occupied
            omega
          · simp only [inWord, if_false] at occupied
            omega
      · obtain rfl : v = 0#64 := by simpa using nonzero
        rw [scanUp_next]
        -- The bits above `w` as the scan of the next word sees them.
        have shift : ∀ i, (if i / 64 = w then (0#64).getLsbD (i % 64) = true
              else w < i / 64 ∧ i / 64 ≤ w + (left + 1) ∧ map.test i = true) ↔
            w + 1 ≤ i / 64 ∧ (if i / 64 = w + 1 then
              (map.word (w + 1)).getLsbD (i % 64) = true
              else w + 1 < i / 64 ∧ i / 64 ≤ w + 1 + left ∧ map.test i = true) := by
          intro i
          by_cases low : i / 64 = w
          · rw [if_pos low, BitVec.getLsbD_zero]
            constructor
            · exact fun impossible => absurd impossible Bool.false_ne_true
            · omega
          · by_cases next : i / 64 = w + 1
            · simp [next, test]
            · simp only [low, next, if_false]
              constructor
              · exact fun ⟨above, below, isSet⟩ => ⟨by omega, by omega, by omega, isSet⟩
              · exact fun ⟨_, above, below, isSet⟩ => ⟨by omega, by omega, isSet⟩
        rcases induction (w + 1) (map.word (w + 1)) with
          ⟨missing, none⟩ | ⟨i, found, occupied, within, least⟩
        · refine .inl ⟨missing, fun i _ occupied => ?_⟩
          rcases (shift i).mp occupied with ⟨above, occupied⟩
          exact none i (by omega) occupied
        · refine .inr ⟨i, found, (shift i).mpr ⟨by omega, occupied⟩,
            by omega, fun j occupied _ => ?_⟩
          rcases (shift j).mp occupied with ⟨above, occupied⟩
          exact least j occupied (by omega)

private theorem getLsbD_lowMask {bit : Nat} (small : bit < 64) (b : Nat) :
    (lowMask bit).getLsbD b = decide (b ≤ bit) := by
  unfold lowMask
  split
  · rename_i full
    rw [BitVec.getLsbD_allOnes, full]
    exact decide_eq_decide.mpr (by omega)
  · rename_i notFull
    have power : (1#64 <<< (bit + 1)) - 1#64 = BitVec.ofNat 64 (2 ^ (bit + 1) - 1) := by
      have below : 2 ^ (bit + 1) < 2 ^ 64 := Nat.pow_lt_pow_right (by omega) (by omega)
      have positive : 0 < 2 ^ (bit + 1) := Nat.two_pow_pos _
      apply BitVec.eq_of_toNat_eq
      simp only [BitVec.toNat_sub, BitVec.toNat_shiftLeft, BitVec.toNat_ofNat,
        Nat.shiftLeft_eq]
      omega
    rw [power, BitVec.getLsbD_ofNat, Nat.testBit_two_pow_sub_one, ← Bool.decide_and]
    exact decide_eq_decide.mpr (by omega)

theorem findLe_spec (map : LevelBitmap) (beyond : ∀ i, map.n ≤ i → map.test i = false)
    (bound : Int) : GreatestLe (fun i => map.test i = true) bound (map.findLe bound) := by
  unfold findLe
  by_cases negative : bound < 0
  · rw [if_pos negative]
    exact .inl ⟨rfl, fun i within => by omega⟩
  rw [if_neg negative]
  by_cases empty : map.n = 0
  · have clear : ∀ i, map.test i = false := fun i => beyond i (by omega)
    have noWord : map.word 0 = 0#64 := by
      apply BitVec.eq_of_getLsbD_eq
      intro b small
      have bit := clear b
      have inWord : b / 64 = 0 := by omega
      have same : b % 64 = b := by omega
      simpa [test, inWord, same] using bit
    refine .inl ⟨?_, fun i _ => by simp [clear i]⟩
    simp [clampLe, empty, noWord, scanDown]
  have inRange : map.clampLe bound < map.n := by
    unfold clampLe
    split <;> omega
  -- The start is the last index that is in range and within the bound.
  have top : ∀ j : Nat, map.test j = true →
      ((j : Int) ≤ bound ↔ j ≤ map.clampLe bound) := by
    intro j isSet
    have small : j < map.n := by
      by_contra large
      simp [beyond j (by omega)] at isSet
    unfold clampLe
    split <;> omega
  generalize map.clampLe bound = i at inRange top ⊢
  have masked : ∀ b, (map.word (i / 64) &&& lowMask (i % 64)).getLsbD b =
      ((map.word (i / 64)).getLsbD b && decide (b ≤ i % 64)) := by
    intro b
    rw [BitVec.getLsbD_and, getLsbD_lowMask (by omega)]
  rcases map.scanDown_spec (i / 64) (map.word (i / 64) &&& lowMask (i % 64)) with
    ⟨missing, none⟩ | ⟨found, isFound, occupied, within, greatest⟩
  · refine .inl ⟨missing, fun j within isSet => ?_⟩
    have le := (top j isSet).mp within
    apply none j (by omega)
    by_cases inWord : j / 64 = i / 64
    · simp only [inWord, if_true, masked]
      simp only [test, inWord] at isSet
      simp [isSet]
      omega
    · simp only [inWord, if_false]
      exact ⟨by omega, isSet⟩
  · have facts : map.test found = true ∧ found ≤ i := by
      by_cases inWord : found / 64 = i / 64
      · simp only [inWord, if_true, masked, Bool.and_eq_true, decide_eq_true_eq] at occupied
        exact ⟨by simpa [test, inWord] using occupied.1, by omega⟩
      · simp only [inWord, if_false] at occupied
        exact ⟨occupied.2, by omega⟩
    refine .inr ⟨found, isFound, facts.1, (top found facts.1).mpr facts.2, fun j isSet within => ?_⟩
    have le := (top j isSet).mp within
    apply greatest j _ (by omega)
    by_cases inWord : j / 64 = i / 64
    · simp only [inWord, if_true, masked]
      simp only [test, inWord] at isSet
      simp [isSet]
      omega
    · simp only [inWord, if_false]
      exact ⟨by omega, isSet⟩

theorem findGe_spec (map : LevelBitmap) (beyond : ∀ i, map.n ≤ i → map.test i = false)
    (bound : Int) : LeastGe (fun i => map.test i = true) bound (map.findGe bound) := by
  unfold findGe
  generalize start : bound.toNat = i
  have reached : ∀ j : Nat, bound ≤ (j : Int) ↔ i ≤ j := by omega
  by_cases outside : map.n ≤ i
  · simp only [outside, if_true]
    refine .inl ⟨rfl, fun j within => ?_⟩
    have := (reached j).mp within
    simp [beyond j (by omega)]
  simp only [outside, if_false]
  have size := map.size_words
  have masked : ∀ b, (map.word (i / 64) &&& (BitVec.allOnes 64 <<< (i % 64))).getLsbD b =
      ((map.word (i / 64)).getLsbD b && decide (i % 64 ≤ b)) := by
    intro b
    rw [BitVec.getLsbD_and]
    by_cases small : b < 64
    · have width : b - i % 64 < 64 := by omega
      by_cases below : b < i % 64
      · simp only [BitVec.getLsbD_shiftLeft, below, decide_true, Bool.not_true,
          Bool.and_false, Bool.false_and]
        simp [Nat.not_le.mpr below]
      · simp only [BitVec.getLsbD_shiftLeft, BitVec.getLsbD_allOnes, small, below, width,
          decide_true, decide_false, Bool.not_false, Bool.and_true]
        simp [Nat.le_of_not_lt below]
    · rw [BitVec.getLsbD_of_ge (map.word (i / 64)) b (by omega), Bool.false_and, Bool.false_and]
  -- Set bits lie in the words the scan reaches.
  have inWords : ∀ j, map.test j = true → j / 64 ≤ i / 64 + (map.words.size - (i / 64 + 1)) := by
    intro j isSet
    have small : j < map.n := by
      by_contra large
      simp [beyond j (by omega)] at isSet
    omega
  have seen : ∀ j, map.test j = true → i ≤ j →
      (if j / 64 = i / 64 then
        (map.word (i / 64) &&& (BitVec.allOnes 64 <<< (i % 64))).getLsbD (j % 64) = true
        else i / 64 < j / 64 ∧ j / 64 ≤ i / 64 + (map.words.size - (i / 64 + 1)) ∧
          map.test j = true) := by
    intro j isSet le
    by_cases inWord : j / 64 = i / 64
    · simp only [inWord, if_true, masked]
      simp only [test, inWord] at isSet
      simp [isSet]
      omega
    · simp only [inWord, if_false]
      exact ⟨by omega, inWords j isSet, isSet⟩
  rcases map.scanUp_spec (map.words.size - (i / 64 + 1)) (i / 64)
      (map.word (i / 64) &&& (BitVec.allOnes 64 <<< (i % 64))) with
    ⟨missing, none⟩ | ⟨found, isFound, occupied, within, least⟩
  · refine .inl ⟨missing, fun j within isSet => ?_⟩
    have le := (reached j).mp within
    exact none j (by omega) (seen j isSet le)
  · have facts : map.test found = true ∧ i ≤ found := by
      by_cases inWord : found / 64 = i / 64
      · simp only [inWord, if_true, masked, Bool.and_eq_true, decide_eq_true_eq] at occupied
        exact ⟨by simpa [test, inWord] using occupied.1, by omega⟩
      · simp only [inWord, if_false] at occupied
        exact ⟨occupied.2.2, by omega⟩
    refine .inr ⟨found, isFound, facts.1, (reached found).mpr facts.2, fun j isSet within => ?_⟩
    have le := (reached j).mp within
    exact least j (seen j isSet le) (by omega)

end LevelBitmap

end Matchbook
