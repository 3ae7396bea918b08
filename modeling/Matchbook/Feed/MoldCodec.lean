import Matchbook.Feed.MoldUdp64

namespace Matchbook

/-! # Decoding what was encoded -/

namespace Mold

open Itch (be16 be64)

theorem put16_eq (v : UInt16) : put16 v = BigEndian.bytes 2 v.toNat := by
  have small := v.toNat_lt
  have high : (v >>> 8).toUInt8 = UInt8.ofNat (v.toNat / 256 ^ 1) := by
    apply UInt8.toNat_inj.1
    simp [Nat.shiftRight_eq_div_pow]
  have low : v.toUInt8 = UInt8.ofNat (v.toNat / 256 ^ 0) := by
    apply UInt8.toNat_inj.1
    simp
  rw [put16, high, low]
  rfl

theorem put64_eq (v : UInt64) : put64 v = BigEndian.bytes 8 v.toNat := by
  have byte (shift : UInt64) (width : Nat) (bits : shift.toNat % 64 = 8 * width) :
      (v >>> shift).toUInt8 = UInt8.ofNat (v.toNat / 256 ^ width) :=
    BigEndian.byte_shifted64 v shift bits
  simp only [put64, List.map_cons, List.map_nil, BigEndian.bytes]
  rw [byte 56 7 rfl, byte 48 6 rfl, byte 40 5 rfl, byte 32 4 rfl, byte 24 3 rfl, byte 16 2 rfl,
    byte 8 1 rfl, byte 0 0 rfl]

@[simp] theorem length_put16 (v : UInt16) : (put16 v).length = 2 := rfl

@[simp] theorem length_put64 (v : UInt64) : (put64 v).length = 8 := rfl

theorem be16_put16 (v : UInt16) (rest : List UInt8) : be16 (put16 v ++ rest) = v := by
  apply UInt16.toNat_inj.1
  have spelled := BigEndian.value_bytes 2 v.toNat
  rw [← put16_eq] at spelled
  have small := v.toNat_lt
  calc (be16 (put16 v ++ rest)).toNat
      = BigEndian.value (put16 v) := Itch.be16_toNat _ _ rest
    _ = v.toNat := by rw [spelled]; exact Nat.mod_eq_of_lt small

theorem be64_put64 (v : UInt64) (rest : List UInt8) : be64 (put64 v ++ rest) = v := by
  apply UInt64.toNat_inj.1
  have spelled := BigEndian.value_bytes 8 v.toNat
  rw [← put64_eq] at spelled
  have small := v.toNat_lt
  calc (be64 (put64 v ++ rest)).toNat
      = BigEndian.value (put64 v) := Itch.be64_toNat _ _ _ _ _ _ _ _ rest
    _ = v.toNat := by rw [spelled]; exact Nat.mod_eq_of_lt small

@[simp] theorem length_padSession (session : List UInt8) : (padSession session).length = 10 := by
  simp [padSession]

theorem length_decodeBlocks_le (pkt : List UInt8) (seq : UInt64) (left : Nat) (i : UInt16)
    (off : Nat) : (decodeBlocks pkt seq left i off).1.length ≤ left := by
  induction left generalizing i off with
  | zero => exact Nat.le_refl 0
  | succ left induction =>
      rw [decodeBlocks]
      split
      · exact Nat.zero_le _
      · simp only
        split
        · exact Nat.zero_le _
        · exact Nat.succ_le_succ (induction _ _)

theorem length_decodeBlocks (pkt : List UInt8) (seq : UInt64) (left : Nat) (i : UInt16) (off : Nat)
    (complete : (decodeBlocks pkt seq left i off).2 = true) :
    (decodeBlocks pkt seq left i off).1.length = left := by
  induction left generalizing i off with
  | zero => rfl
  | succ left induction =>
      rw [decodeBlocks] at complete ⊢
      split at complete
      case isTrue => exact absurd complete Bool.false_ne_true
      case isFalse inside =>
          rw [if_neg inside]
          simp only at complete ⊢
          split at complete
          case isTrue => exact absurd complete Bool.false_ne_true
          case isFalse insideBlock =>
              rw [if_neg insideBlock]
              exact congrArg (· + 1) (induction _ _ complete)

theorem length_blocks_lt (pkt : List UInt8) : (decode pkt).blocks.length < 65535 := by
  unfold decode
  split
  · exact Nat.zero_lt_succ _
  · simp only
    split
    · exact Nat.zero_lt_succ _
    case isFalse notEnd =>
        have count : (be16 (pkt.drop 18)).toNat ≠ 65535 :=
          fun same => notEnd (UInt16.toNat_inj.1 same)
        have below := (be16 (pkt.drop 18)).toNat_lt
        have blocks := length_decodeBlocks_le pkt (be64 (pkt.drop 10))
          (be16 (pkt.drop 18)).toNat 0 headerSize
        change (decodeBlocks pkt (be64 (pkt.drop 10)) (be16 (pkt.drop 18)).toNat 0
          headerSize).1.length < 65535
        omega

def numbered (seq : UInt64) : List (List UInt8) → List (UInt64 × List UInt8)
  | [] => []
  | m :: msgs => (seq, m) :: numbered (seq + 1) msgs

@[simp] theorem length_numbered (seq : UInt64) (msgs : List (List UInt8)) :
    (numbered seq msgs).length = msgs.length := by
  induction msgs generalizing seq with
  | nil => rfl
  | cons m msgs induction => simp [numbered, induction]

/-- What the callback sees of a block. -/
def Block.seen (pkt : List UInt8) (block : Block) : UInt64 × List UInt8 :=
  (block.seq, block.payload pkt)

theorem decodeBlocks_putBlocks (msgs : List (List UInt8)) (front : List UInt8) (seq : UInt64)
    (i : UInt16) (short : ∀ m ∈ msgs, m.length ≤ 65535) (fits : i.toNat + msgs.length < 2 ^ 16) :
    (decodeBlocks (front ++ putBlocks msgs) seq msgs.length i front.length).2 = true ∧
      (decodeBlocks (front ++ putBlocks msgs) seq msgs.length i front.length).1.map
        (Block.seen (front ++ putBlocks msgs)) = numbered (seq + i.toUInt64) msgs := by
  induction msgs generalizing front i with
  | nil => exact ⟨rfl, rfl⟩
  | cons m msgs induction =>
      have shortM : m.length ≤ 65535 := short m (by simp)
      have next : (i + 1).toNat = i.toNat + 1 := by
        have wrapped := UInt16.toNat_add i 1
        simp only [List.length_cons] at fits
        rw [wrapped]
        exact Nat.mod_eq_of_lt (by change i.toNat + 1 < 2 ^ 16; omega)
      have nextSeq : seq + (i + 1).toUInt64 = seq + i.toUInt64 + 1 := by
        have step : (i + 1).toUInt64 = i.toUInt64 + 1 := by
          apply UInt64.toNat_inj.1
          rw [UInt16.toNat_toUInt64, next, UInt64.toNat_add, UInt16.toNat_toUInt64]
          exact (Nat.mod_eq_of_lt (by have := i.toNat_lt; change i.toNat + 1 < _; omega)).symm
        rw [step, UInt64.add_assoc]
      have len : (UInt16.ofNat m.length).toNat = m.length := by
        rw [UInt16.toNat_ofNat']
        exact Nat.mod_eq_of_lt (by omega)
      have whole : front ++ putBlocks (m :: msgs) =
          (front ++ put16 (UInt16.ofNat m.length) ++ m) ++ putBlocks msgs := by
        simp [putBlocks]
      have prefixed : be16 ((front ++ putBlocks (m :: msgs)).drop front.length) =
          UInt16.ofNat m.length := by
        rw [List.drop_left, putBlocks, List.flatMap_cons, List.append_assoc]
        exact be16_put16 _ _
      have payload : ((front ++ putBlocks (m :: msgs)).drop (front.length + 2)).take m.length =
          m := by
        have at2 : front.length + 2 = (front ++ put16 (UInt16.ofNat m.length)).length := by simp
        rw [whole, List.append_assoc, at2, List.drop_left, List.take_left]
      have size : (front ++ putBlocks (m :: msgs)).length =
          front.length + 2 + m.length + (putBlocks msgs).length := by
        rw [whole]
        simp only [List.length_append, length_put16]
      have there : front.length + 2 + m.length =
          (front ++ put16 (UInt16.ofNat m.length) ++ m).length := by
        simp only [List.length_append, length_put16]
      have rest := induction (front ++ put16 (UInt16.ofNat m.length) ++ m) (i + 1)
        (fun m' member => short m' (by simp [member]))
        (by simp only [List.length_cons] at fits; omega)
      rw [← whole, ← there, nextSeq] at rest
      rw [List.length_cons, decodeBlocks, if_neg (by omega), prefixed, len]
      simp only
      rw [if_neg (by omega)]
      refine ⟨rest.1, ?_⟩
      rw [List.map_cons, rest.2, numbered]
      exact congrArg (· :: _) (congrArg (Prod.mk _) payload)

/-! ## Headers -/

variable (session : List UInt8) (seq : UInt64) (msgs : List (List UInt8))

theorem length_encode : (encode session seq msgs).length = headerSize +
    (putBlocks msgs).length := by
  simp only [encode, List.length_append, length_padSession, length_put64, length_put16]
  rfl

theorem be64_encode : be64 ((encode session seq msgs).drop 10) = seq := by
  have field : (encode session seq msgs).drop 10 =
      put64 seq ++ (put16 (UInt16.ofNat msgs.length) ++ putBlocks msgs) := by
    simp [encode]
  rw [field, be64_put64]

theorem be16_encode : be16 ((encode session seq msgs).drop 18) = UInt16.ofNat msgs.length := by
  have field : (encode session seq msgs).drop 18 =
      put16 (UInt16.ofNat msgs.length) ++ putBlocks msgs := by
    have front : (padSession session ++ put64 seq).length = 18 := by simp
    rw [encode, List.append_assoc, ← front, List.drop_left]
  rw [field, be16_put16]

theorem encodeEnd_eq : encodeEnd session seq = padSession session ++ put64 seq ++ [0xFF, 0xFF] := by
  have front : (padSession session ++ put64 seq).length = 18 := by simp
  have whole : encode session seq [] = padSession session ++ put64 seq ++ [0, 0] := by
    simp [encode, putBlocks]
    rfl
  rw [encodeEnd, whole, List.set_append_right _ _ (by omega),
    List.set_append_right _ _ (by omega), front]
  rfl

theorem length_encodeEnd : (encodeEnd session seq).length = headerSize := by
  simp [encodeEnd_eq, headerSize]

theorem be64_encodeEnd : be64 ((encodeEnd session seq).drop 10) = seq := by
  have field : (encodeEnd session seq).drop 10 = put64 seq ++ [0xFF, 0xFF] := by
    simp [encodeEnd_eq]
  rw [field, be64_put64]

theorem be16_encodeEnd : be16 ((encodeEnd session seq).drop 18) = endOfSession := by
  have field : (encodeEnd session seq).drop 18 = [0xFF, 0xFF] := by
    have front : (padSession session ++ put64 seq).length = 18 := by simp
    rw [encodeEnd_eq, ← front, List.drop_left]
  rw [field]
  rfl

variable {msgs}

theorem decode_encode (few : msgs.length < 65535) (short : ∀ m ∈ msgs, m.length ≤ 65535) :
    (decode (encode session seq msgs)).result = msgs.length ∧
      (decode (encode session seq msgs)).blocks.map (Block.seen (encode session seq msgs)) =
        numbered seq msgs := by
  have count : (UInt16.ofNat msgs.length).toNat = msgs.length := by
    rw [UInt16.toNat_ofNat']
    exact Nat.mod_eq_of_lt (by omega)
  have notEnd : UInt16.ofNat msgs.length ≠ endOfSession := by
    intro same
    have := congrArg UInt16.toNat same
    rw [count] at this
    exact absurd this (Nat.ne_of_lt few)
  have front : (padSession session ++ put64 seq ++ put16 (UInt16.ofNat msgs.length)).length =
      headerSize := by simp [headerSize]
  have blocks := decodeBlocks_putBlocks msgs
    (padSession session ++ put64 seq ++ put16 (UInt16.ofNat msgs.length)) seq 0 short
    (by change 0 + msgs.length < 2 ^ 16; omega)
  rw [front] at blocks
  change (decodeBlocks (encode session seq msgs) seq msgs.length 0 headerSize).2 = true ∧
    (decodeBlocks (encode session seq msgs) seq msgs.length 0 headerSize).1.map
      (Block.seen (encode session seq msgs)) = numbered (seq + 0) msgs at blocks
  rw [UInt64.add_zero] at blocks
  have size := length_encode session seq msgs
  rw [decode, if_neg (by omega)]
  simp only [be64_encode, be16_encode]
  rw [if_neg notEnd, count]
  simp only [blocks.1, if_true]
  exact ⟨trivial, blocks.2⟩

end Mold

end Matchbook
