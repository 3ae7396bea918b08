import Matchbook.Types
import Matchbook.Foundation.BigEndian

namespace Matchbook

/-! # The ITCH parser

A pointer into a buffer is the list of bytes from there on. -/

namespace Itch

def byteAt (p : List UInt8) (i : Nat) : UInt8 := p.getD i 0

def be16 (p : List UInt8) : UInt16 :=
  (byteAt p 0).toUInt16 <<< 8 ||| (byteAt p 1).toUInt16

def be32 (p : List UInt8) : UInt32 :=
  (byteAt p 0).toUInt32 <<< 24 ||| (byteAt p 1).toUInt32 <<< 16 |||
    (byteAt p 2).toUInt32 <<< 8 ||| (byteAt p 3).toUInt32

def be64 (p : List UInt8) : UInt64 :=
  (be32 p).toUInt64 <<< 32 ||| (be32 (p.drop 4)).toUInt64

theorem be16_toNat (a b : UInt8) (rest : List UInt8) :
    (be16 (a :: b :: rest)).toNat = BigEndian.value [a, b] := by
  have smallA := a.toNat_lt
  have smallB := b.toNat_lt
  have low : b.toNat = b.toNat <<< 0 := rfl
  simp only [be16, byteAt, List.getD_cons_zero, List.getD_cons_succ, UInt16.toNat_or,
    UInt16.toNat_shiftLeft, UInt8.toNat_toUInt16]
  have inside : a.toNat <<< 8 % 2 ^ 16 = a.toNat <<< (0 + 8) :=
    Nat.mod_eq_of_lt (by rw [Nat.shiftLeft_eq]; omega)
  change a.toNat <<< 8 % 2 ^ 16 ||| b.toNat = _
  rw [inside, low, BigEndian.or_byte _ _ _ smallB]
  simp [BigEndian.value]

theorem be32_toNat (a b c d : UInt8) (rest : List UInt8) :
    (be32 (a :: b :: c :: d :: rest)).toNat = BigEndian.value [a, b, c, d] := by
  have smallA := a.toNat_lt
  have smallB := b.toNat_lt
  have smallC := c.toNat_lt
  have smallD := d.toNat_lt
  have low : d.toNat = d.toNat <<< 0 := rfl
  simp only [be32, byteAt, List.getD_cons_zero, List.getD_cons_succ, UInt32.toNat_or,
    UInt32.toNat_shiftLeft, UInt8.toNat_toUInt32]
  have insideA : a.toNat <<< 24 % 2 ^ 32 = a.toNat <<< (16 + 8) :=
    Nat.mod_eq_of_lt (by rw [Nat.shiftLeft_eq]; omega)
  have insideB : b.toNat <<< 16 % 2 ^ 32 = b.toNat <<< 16 :=
    Nat.mod_eq_of_lt (by rw [Nat.shiftLeft_eq]; omega)
  have insideC : c.toNat <<< 8 % 2 ^ 32 = c.toNat <<< 8 :=
    Nat.mod_eq_of_lt (by rw [Nat.shiftLeft_eq]; omega)
  change a.toNat <<< 24 % 2 ^ 32 ||| b.toNat <<< 16 % 2 ^ 32 ||| c.toNat <<< 8 % 2 ^ 32 |||
    d.toNat = _
  rw [insideA, insideB, insideC, BigEndian.or_byte _ _ 16 smallB]
  rw [show (16 : Nat) = 8 + 8 from rfl, BigEndian.or_byte _ _ 8 smallC]
  rw [low, show (8 : Nat) = 0 + 8 from rfl, BigEndian.or_byte _ _ 0 smallD]
  simp [BigEndian.value]
  ring

theorem be64_toNat (a b c d e f g h : UInt8) (rest : List UInt8) :
    (be64 (a :: b :: c :: d :: e :: f :: g :: h :: rest)).toNat =
      BigEndian.value [a, b, c, d, e, f, g, h] := by
  have high := be32_toNat a b c d (e :: f :: g :: h :: rest)
  have low := be32_toNat e f g h rest
  have below := (be32 (e :: f :: g :: h :: rest)).toNat_lt
  have above := (be32 (a :: b :: c :: d :: e :: f :: g :: h :: rest)).toNat_lt
  simp only [be64, List.drop_succ_cons, List.drop_zero, UInt64.toNat_or, UInt64.toNat_shiftLeft,
    UInt32.toNat_toUInt64]
  have inside : (be32 (a :: b :: c :: d :: e :: f :: g :: h :: rest)).toNat <<< 32 % 2 ^ 64 =
      (be32 (a :: b :: c :: d :: e :: f :: g :: h :: rest)).toNat <<< 32 :=
    Nat.mod_eq_of_lt (by rw [Nat.shiftLeft_eq]; omega)
  change (be32 (a :: b :: c :: d :: e :: f :: g :: h :: rest)).toNat <<< 32 % 2 ^ 64 |||
    (be32 (e :: f :: g :: h :: rest)).toNat = _
  rw [inside, ← Nat.shiftLeft_add_eq_or_of_lt below, high, low]
  simp [BigEndian.value, Nat.shiftLeft_eq]
  ring

/-! ## Messages -/

inductive MsgType
  | add
  | execute
  | cancel
  | delete
  | replace
  | action
  | other
deriving DecidableEq, Repr

structure Message where
  type : MsgType := .other
  ref : UInt64 := 0
  newRef : UInt64 := 0
  side : Side := .sell
  qty : Qty := 0
  price : Price := 0
  stock : List UInt8 := []
  state : UInt8 := 0
deriving DecidableEq, Repr

/-- Parses one message body into `out`. `none` stands for the messages that
callers skip. -/
def parse (body : List UInt8) (out : Message) : Option Message :=
  if body.length = 0 then none
  else
    let kind := byteAt body 0
    if kind = 'A'.toUInt8 ∨ kind = 'F'.toUInt8 then
      if body.length < 36 then none
      else some { out with
        type := .add
        ref := be64 (body.drop 11)
        side := if byteAt body 19 = 'B'.toUInt8 then .buy else .sell
        qty := (be32 (body.drop 20)).toUInt64
        stock := (body.drop 24).take 8
        price := (be32 (body.drop 32)).toNat }
    else if kind = 'E'.toUInt8 then
      if body.length < 31 then none
      else some { out with
        type := .execute
        ref := be64 (body.drop 11)
        qty := (be32 (body.drop 19)).toUInt64 }
    else if kind = 'C'.toUInt8 then
      if body.length < 36 then none
      else some { out with
        type := .execute
        ref := be64 (body.drop 11)
        qty := (be32 (body.drop 19)).toUInt64
        price := (be32 (body.drop 32)).toNat }
    else if kind = 'X'.toUInt8 then
      if body.length < 23 then none
      else some { out with
        type := .cancel
        ref := be64 (body.drop 11)
        qty := (be32 (body.drop 19)).toUInt64 }
    else if kind = 'D'.toUInt8 then
      if body.length < 19 then none
      else some { out with type := .delete, ref := be64 (body.drop 11) }
    else if kind = 'U'.toUInt8 then
      if body.length < 35 then none
      else some { out with
        type := .replace
        ref := be64 (body.drop 11)
        newRef := be64 (body.drop 19)
        qty := (be32 (body.drop 27)).toUInt64
        price := (be32 (body.drop 31)).toNat }
    else if kind = 'H'.toUInt8 then
      if body.length < 25 then none
      else some { out with
        type := .action
        stock := (body.drop 11).take 8
        state := byteAt body 19 }
    else none

end Itch

end Matchbook
