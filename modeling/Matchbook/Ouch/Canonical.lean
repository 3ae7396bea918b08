import Matchbook.Ouch.RoundTrip

namespace Matchbook

/-! # Which inbound buffers are canonical

A buffer that is accepted should be the one that its message is written as. The decoder
checks the bytes of the time in force and of the self-trade policy, but takes every side
byte other than B for a sell. -/

namespace Ouch

open Itch (byteAt be16 be32 be64)
open Mold (put16 put64)

/-! ## Bytes from their values -/

section fields

variable {p : List UInt8}

theorem put32_be32 (room : 4 ≤ p.length) : put32 (be32 p) = p.take 4 := by
  match p, room with
  | a :: b :: c :: d :: rest, _ =>
      rw [put32_eq, Itch.be32_toNat]
      exact BigEndian.bytes_value [a, b, c, d]

theorem put16_be16 (room : 2 ≤ p.length) : put16 (be16 p) = p.take 2 := by
  match p, room with
  | a :: b :: rest, _ =>
      rw [Mold.put16_eq, Itch.be16_toNat]
      exact BigEndian.bytes_value [a, b]

theorem put64_be64 (room : 8 ≤ p.length) : put64 (be64 p) = p.take 8 := by
  match p, room with
  | a :: b :: c :: d :: e :: f :: g :: h :: rest, _ =>
      rw [Mold.put64_eq, Itch.be64_toNat]
      exact BigEndian.bytes_value [a, b, c, d, e, f, g, h]

theorem putPrice_be64 (room : 8 ≤ p.length) : putPrice (be64 p).toInt64.toInt = p.take 8 := by
  rw [putPrice, Int64.ofInt_toInt, ← put64_be64 room]
  rfl

theorem putToken_getToken (noNul : (0 : UInt8) ∉ p.take tokenLen) (room : tokenLen ≤ p.length) :
    putToken (getToken p) = p.take tokenLen := by
  rw [getToken_eq_take noNul, putToken_of_length (List.length_take_of_le room)]

theorem tifByte_tifOf {byte : UInt8} {tif : TimeInForce} (read : tifOf byte = some tif) :
    tifByte tif = byte := by
  simpa using List.find?_some read

theorem stpByte_stpOf {byte : UInt8} {stp : StpPolicy} (read : stpOf byte = some stp) :
    stpByte stp = byte := by
  simpa using List.find?_some read

theorem take_append_rest {field : List UInt8} {n : Nat} (k : Nat)
    (read : field = (p.drop k).take n) : field ++ p.drop (k + n) = p.drop k := by
  rw [read, ← List.drop_drop, List.take_append_drop]

theorem byte_cons_rest {k : Nat} (inside : k < p.length) :
    byteAt p k :: p.drop (k + 1) = p.drop k := by
  rw [List.drop_eq_getElem_cons inside]
  simp [byteAt, inside]

theorem byteAt_behind (kind byte : UInt8) (field rest : List UInt8) :
    byteAt (kind :: (field ++ byte :: rest)) (field.length + 1) = byte := by
  simp [byteAt]

end fields

/-! ## The buffers -/

def NulFree (p : List UInt8) : Prop :=
  (0 : UInt8) ∉ (p.drop 1).take tokenLen ∧
    (byteAt p 0 = 'U'.toUInt8 → (0 : UInt8) ∉ (p.drop (1 + tokenLen)).take tokenLen)

/-- The buffer ends where its type says, and the side of an Enter is one of its letters. -/
def Spelled (p : List UInt8) : Prop :=
  p.length = inSize (byteAt p 0) ∧
    (byteAt p 0 = 'O'.toUInt8 → byteAt p 15 = 'B'.toUInt8 ∨ byteAt p 15 = 'S'.toUInt8)

section canonical

variable {p : List UInt8}

theorem putSide_getSide {byte : UInt8} :
    putSide (getSide byte) = byte ↔ byte = 'B'.toUInt8 ∨ byte = 'S'.toUInt8 := by
  unfold getSide
  split
  case isTrue same =>
    rw [same]
    decide
  case isFalse other =>
    rw [or_iff_right other]
    exact eq_comm

theorem decodeIn_enter {m : InMsg} (kind : byteAt p 0 = 'O'.toUInt8) (read : decodeIn p = some m) :
    enterSize ≤ p.length ∧ ∃ tif stp, tifOf (byteAt p 28) = some tif ∧
      stpOf (byteAt p 35) = some stp ∧
      m = .enter (getToken (p.drop 1)) (getSide (byteAt p 15)) (be32 (p.drop 16))
        (be64 (p.drop 20)).toInt64.toInt tif (be32 (p.drop 29)) (be16 (p.drop 33)) stp := by
  have some : p.length ≠ 0 := by
    intro none
    simp [decodeIn, none] at read
  rw [decodeIn, if_neg some, if_pos kind] at read
  split at read
  case isTrue => cases read
  case isFalse whole =>
    rcases Option.bind_eq_some_iff.mp read with ⟨tif, timed, read⟩
    rcases Option.bind_eq_some_iff.mp read with ⟨stp, policy, read⟩
    exact ⟨Nat.le_of_not_lt whole, tif, stp, timed, policy, (Option.some.inj read).symm⟩

theorem encodeEnter_read {tif : TimeInForce} {stp : StpPolicy} (length : p.length = enterSize)
    (kind : byteAt p 0 = 'O'.toUInt8) (noNul : (0 : UInt8) ∉ (p.drop 1).take tokenLen)
    (timed : tifOf (byteAt p 28) = some tif) (policy : stpOf (byteAt p 35) = some stp) :
    encodeEnter (getToken (p.drop 1)) (getSide (byteAt p 15)) (be32 (p.drop 16))
        (be64 (p.drop 20)).toInt64.toInt tif (be32 (p.drop 29)) (be16 (p.drop 33)) stp =
      byteAt p 0 :: ((p.drop 1).take tokenLen ++ putSide (getSide (byteAt p 15)) :: p.drop 16) := by
  have length : p.length = 36 := length
  have room (k : Nat) : (p.drop k).length = 36 - k := by rw [List.length_drop, length]
  have ends : [byteAt p 35] = p.drop 35 := by
    rw [← byte_cons_rest (by omega), List.drop_of_length_le (by omega)]
  have owned := take_append_rest 33 (put16_be16 (p := p.drop 33) (by rw [room]; decide))
  have shown := take_append_rest 29 (put32_be32 (p := p.drop 29) (by rw [room]; decide))
  have priced := take_append_rest 20 (putPrice_be64 (p := p.drop 20) (by rw [room]; decide))
  have amount := take_append_rest 16 (put32_be32 (p := p.drop 16) (by rw [room]; decide))
  have token := putToken_getToken noNul (by rw [room]; decide)
  rw [encodeEnter, stpByte_stpOf policy, tifByte_tifOf timed, ends, owned, shown,
    byte_cons_rest (by omega), priced, amount, token, kind]

theorem enter_encode_iff {m : InMsg} (kind : byteAt p 0 = 'O'.toUInt8) (read : decodeIn p = some m)
    (noNul : (0 : UInt8) ∉ (p.drop 1).take tokenLen) : m.encode = p ↔ Spelled p := by
  rcases decodeIn_enter kind read with ⟨whole, tif, stp, timed, policy, rfl⟩
  have size : inSize (byteAt p 0) = enterSize := by rw [kind]; rfl
  constructor
  · intro same
    have length := InMsg.length_encode (.enter (getToken (p.drop 1)) (getSide (byteAt p 15))
      (be32 (p.drop 16)) (be64 (p.drop 20)).toInt64.toInt tif (be32 (p.drop 29))
      (be16 (p.drop 33)) stp)
    rw [same] at length
    refine ⟨length.trans size.symm, fun _ => putSide_getSide.mp ?_⟩
    have read := encodeEnter_read length kind noNul timed policy
    have tokenEnd : ((p.drop 1).take tokenLen).length = 14 := by
      have length : p.length = 36 := length
      exact List.length_take_of_le (by rw [List.length_drop, length]; decide)
    have sided := byteAt_behind (byteAt p 0) (putSide (getSide (byteAt p 15)))
      ((p.drop 1).take tokenLen) (p.drop 16)
    rw [tokenEnd, ← read] at sided
    exact sided.symm.trans (congrArg (fun bytes => byteAt bytes 15) same)
  · rintro ⟨length, letters⟩
    have length : p.length = 36 := length.trans size
    have token : (p.drop 1).take tokenLen ++ p.drop 15 = p.drop 1 := take_append_rest 1 rfl
    change encodeEnter _ _ _ _ _ _ _ _ = _
    rw [encodeEnter_read length kind noNul timed policy, putSide_getSide.mpr (letters kind),
      byte_cons_rest (by omega), token, byte_cons_rest (by omega), List.drop_zero]

theorem replace_encode_iff {m : InMsg} (kind : byteAt p 0 = 'U'.toUInt8)
    (read : decodeIn p = some m) (nulFree : NulFree p) : m.encode = p ↔ Spelled p := by
  have size : inSize (byteAt p 0) = replaceSize := by rw [kind]; rfl
  have noEnter : byteAt p 0 ≠ 'O'.toUInt8 := by rw [kind]; decide
  have some : p.length ≠ 0 := by
    intro none
    simp [decodeIn, none] at read
  rw [decodeIn, if_neg some, if_neg noEnter, if_pos kind] at read
  split at read
  case isTrue => cases read
  case isFalse whole =>
    cases read
    rw [Spelled, size, and_iff_left fun enter => absurd enter noEnter]
    constructor
    · intro same
      have length := InMsg.length_encode (.replace (getToken (p.drop 1))
        (getToken (p.drop (1 + tokenLen))) (be32 (p.drop (1 + 2 * tokenLen)))
        (be64 (p.drop (5 + 2 * tokenLen))).toInt64.toInt)
      rwa [same] at length
    · intro length
      have length : p.length = 41 := length
      have room (k : Nat) : (p.drop k).length = 41 - k := by rw [List.length_drop, length]
      have ends : putPrice (be64 (p.drop 33)).toInt64.toInt = p.drop 33 := by
        rw [putPrice_be64 (by rw [room]), List.take_of_length_le (by rw [room])]
      have amount := take_append_rest 29 (put32_be32 (p := p.drop 29) (by rw [room]; decide))
      have second : putToken (getToken (p.drop 15)) ++ p.drop 29 = p.drop 15 :=
        take_append_rest 15 (putToken_getToken (nulFree.2 kind) (by rw [room]; decide))
      have first : putToken (getToken (p.drop 1)) ++ p.drop 15 = p.drop 1 :=
        take_append_rest 1 (putToken_getToken nulFree.1 (by rw [room]; decide))
      change 'U'.toUInt8 :: (putToken (getToken (p.drop 1)) ++ (putToken (getToken (p.drop 15)) ++
        (put32 (be32 (p.drop 29)) ++ putPrice (be64 (p.drop 33)).toInt64.toInt))) = p
      rw [ends, amount, second, first, ← kind, byte_cons_rest (by omega), List.drop_zero]

theorem cancel_encode_iff {m : InMsg} (kind : byteAt p 0 = 'X'.toUInt8)
    (read : decodeIn p = some m) (noNul : (0 : UInt8) ∉ (p.drop 1).take tokenLen) :
    m.encode = p ↔ Spelled p := by
  have size : inSize (byteAt p 0) = cancelSize := by rw [kind]; rfl
  have noEnter : byteAt p 0 ≠ 'O'.toUInt8 := by rw [kind]; decide
  have noReplace : byteAt p 0 ≠ 'U'.toUInt8 := by rw [kind]; decide
  have some : p.length ≠ 0 := by
    intro none
    simp [decodeIn, none] at read
  rw [decodeIn, if_neg some, if_neg noEnter, if_neg noReplace, if_pos kind] at read
  split at read
  case isTrue => cases read
  case isFalse whole =>
    cases read
    rw [Spelled, size, and_iff_left fun enter => absurd enter noEnter]
    constructor
    · intro same
      have length := InMsg.length_encode (.cancel (getToken (p.drop 1)))
      rwa [same] at length
    · intro length
      have length : p.length = 15 := length
      have room : (p.drop 1).length = 14 := by rw [List.length_drop, length]
      have token := putToken_getToken noNul (Nat.le_of_eq room.symm)
      have whole : (p.drop 1).take tokenLen = p.drop 1 := List.take_of_length_le (Nat.le_of_eq room)
      change encodeCancel _ = _
      rw [encodeCancel, token, whole, ← kind, byte_cons_rest (by omega), List.drop_zero]

theorem encode_iff {m : InMsg} (read : decodeIn p = some m) (nulFree : NulFree p) :
    m.encode = p ↔ Spelled p := by
  by_cases enter : byteAt p 0 = 'O'.toUInt8
  · exact enter_encode_iff enter read nulFree.1
  by_cases replace : byteAt p 0 = 'U'.toUInt8
  · exact replace_encode_iff replace read nulFree
  by_cases cancel : byteAt p 0 = 'X'.toUInt8
  · exact cancel_encode_iff cancel read nulFree.1
  simp [decodeIn, enter, replace, cancel] at read

theorem tifByte_le (tif : TimeInForce) : tifByte tif ≤ 3 := by
  cases tif <;> decide

theorem stpByte_le (stp : StpPolicy) : stpByte stp ≤ 2 := by
  cases stp <;> decide

end canonical

/-- An accepted buffer is the one its message is written as exactly if it is spelled out, and then
no other such buffer means the same. Bytes beyond the times in force and the self-trade policies
are always refused. -/
theorem decodeIn_canonical_iff (p : List UInt8) (m : InMsg) (read : decodeIn p = some m)
    (nulFree : NulFree p) :
    (m.encode = p ↔ Spelled p) ∧
      (byteAt p 0 = 'O'.toUInt8 → byteAt p 28 ≤ 3 ∧ byteAt p 35 ≤ 2) ∧
      ∀ q, decodeIn q = some m → NulFree q → Spelled p → Spelled q → q = p := by
  refine ⟨encode_iff read nulFree, ?_, ?_⟩
  · intro kind
    rcases decodeIn_enter kind read with ⟨whole, tif, stp, timed, policy, same⟩
    rw [← tifByte_tifOf timed, ← stpByte_stpOf policy]
    exact ⟨tifByte_le tif, stpByte_le stp⟩
  · intro q readQ nulFreeQ spelled spelledQ
    exact ((encode_iff readQ nulFreeQ).mpr spelledQ).symm.trans
      ((encode_iff read nulFree).mpr spelled)

/-- A cancel of a token of fourteen letters. -/
def lettered : List UInt8 := encodeCancel (List.replicate 14 'A'.toUInt8)

theorem decodeIn_canonical_lettered : ∃ m, decodeIn lettered = some m ∧
    (m.encode = lettered ↔ Spelled lettered) :=
  ⟨.cancel (List.replicate 14 'A'.toUInt8), by decide,
    (decodeIn_canonical_iff lettered _ (by decide) ⟨by decide, by decide⟩).1⟩

def sideless : List UInt8 :=
  (encodeEnter (List.replicate 14 'A'.toUInt8) .sell 1 5 .gtc 0 0 .cancelTaker).set 15 'Z'.toUInt8

theorem not_decodeIn_canonical : ¬ ∀ (p : List UInt8) (m : InMsg),
    p.length = enterSize ∨ p.length = replaceSize ∨ p.length = cancelSize →
      decodeIn p = some m → NulFree p → m.encode = p := by
  intro canonical
  have written := canonical sideless
    (.enter (List.replicate 14 'A'.toUInt8) .sell 1 5 .gtc 0 0 .cancelTaker) (by decide) (by decide)
    ⟨by decide, by decide⟩
  exact absurd written (by decide)

end Ouch

end Matchbook
