import Mathlib.Data.UInt
import Mathlib.Tactic.Common
import Mathlib.Tactic.Ring

/-! # Big-endian numbers

The number a byte string spells, most significant byte first, and the byte
string of a given width that spells a number. -/

namespace BigEndian

def value : List UInt8 → Nat
  | [] => 0
  | byte :: bytes => byte.toNat * 256 ^ bytes.length + value bytes

def bytes : Nat → Nat → List UInt8
  | 0, _ => []
  | width + 1, number => UInt8.ofNat (number / 256 ^ width) :: bytes width number

@[simp] theorem length_bytes (width number : Nat) : (bytes width number).length = width := by
  induction width with
  | zero => rfl
  | succ width induction => simp [bytes, induction]

theorem value_bytes (width number : Nat) : value (bytes width number) = number % 256 ^ width := by
  induction width with
  | zero => simp [bytes, value, Nat.mod_one]
  | succ width induction =>
      have split : number % 256 ^ (width + 1) =
          number % 256 ^ width + 256 ^ width * (number / 256 ^ width % 256) := Nat.mod_pow_succ
      rw [bytes, value, length_bytes, induction, UInt8.toNat_ofNat', split, Nat.add_comm,
        Nat.mul_comm]

theorem value_lt (spelling : List UInt8) : value spelling < 256 ^ spelling.length := by
  induction spelling with
  | nil => exact Nat.one_pos
  | cons byte spelling induction =>
      have small := byte.toNat_lt
      have room : byte.toNat * 256 ^ spelling.length + 256 ^ spelling.length ≤
          256 * 256 ^ spelling.length := by
        rw [← Nat.succ_mul]
        exact Nat.mul_le_mul_right _ small
      rw [value, List.length_cons, Nat.pow_succ']
      omega

theorem bytes_value (spelling : List UInt8) :
    bytes spelling.length (value spelling) = spelling := by
  suffices ∀ upper, bytes spelling.length (upper * 256 ^ spelling.length + value spelling) =
      spelling by simpa using this 0
  induction spelling with
  | nil => exact fun upper => rfl
  | cons byte spelling induction =>
      intro upper
      have small := value_lt spelling
      have positive : 0 < 256 ^ spelling.length := Nat.pow_pos (Nat.succ_pos 255)
      have sum : upper * 256 ^ (spelling.length + 1) + value (byte :: spelling) =
          (upper * 256 + byte.toNat) * 256 ^ spelling.length + value spelling := by
        rw [value]
        ring
      have top : UInt8.ofNat (((upper * 256 + byte.toNat) * 256 ^ spelling.length +
          value spelling) / 256 ^ spelling.length) = byte := by
        apply UInt8.toNat_inj.1
        have below := byte.toNat_lt
        rw [Nat.mul_comm, Nat.mul_add_div positive, Nat.div_eq_of_lt small, UInt8.toNat_ofNat']
        omega
      rw [List.length_cons, bytes, sum, top, induction]

/-! ## Words taken apart by shifts -/

theorem byte_shifted32 (v shift : UInt32) {width : Nat} (bits : shift.toNat % 32 = 8 * width) :
    (v >>> shift).toUInt8 = UInt8.ofNat (v.toNat / 256 ^ width) := by
  apply UInt8.toNat_inj.1
  rw [UInt32.toNat_toUInt8, UInt32.toNat_shiftRight, bits, UInt8.toNat_ofNat',
    Nat.shiftRight_eq_div_pow, Nat.pow_mul]

theorem byte_shifted64 (v shift : UInt64) {width : Nat} (bits : shift.toNat % 64 = 8 * width) :
    (v >>> shift).toUInt8 = UInt8.ofNat (v.toNat / 256 ^ width) := by
  apply UInt8.toNat_inj.1
  rw [UInt64.toNat_toUInt8, UInt64.toNat_shiftRight, bits, UInt8.toNat_ofNat',
    Nat.shiftRight_eq_div_pow, Nat.pow_mul]

/-! ## Words put together by shifts -/

theorem or_byte (number byte shift : Nat) (small : byte < 256) :
    number <<< (shift + 8) ||| byte <<< shift = (number * 256 + byte) <<< shift := by
  have below : byte <<< shift < 2 ^ (shift + 8) := by
    rw [Nat.shiftLeft_eq, Nat.pow_add, Nat.mul_comm]
    exact Nat.mul_lt_mul_of_pos_left small (Nat.two_pow_pos shift)
  rw [← Nat.shiftLeft_add_eq_or_of_lt below]
  simp only [Nat.shiftLeft_eq, Nat.pow_add]
  ring

end BigEndian
