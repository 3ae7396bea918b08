import Mathlib.Data.List.TakeWhile
import Matchbook.Feed.MoldCodec

namespace Matchbook

/-! # OUCH messages

Fixed width, big-endian, one letter of type. A C string is the list of its bytes up to
the NUL. -/

namespace Ouch

open Itch (byteAt be16 be32 be64)
open Mold (put16 put64)

def tokenLen : Nat := 14

/-! ## Reasons -/

def userRequested : UInt8 := 'U'.toUInt8
def killedOnEntry : UInt8 := 'K'.toUInt8
def selfTrade : UInt8 := 'S'.toUInt8
def badToken : UInt8 := 'T'.toUInt8
def validation : UInt8 := 'V'.toUInt8

/-! ## Sizes, with the type byte -/

def enterSize : Nat := 1 + tokenLen + 1 + 4 + 8 + 1 + 4 + 2 + 1
def replaceSize : Nat := 1 + 2 * tokenLen + 4 + 8
def cancelSize : Nat := 1 + tokenLen
def acceptedSize : Nat := 1 + tokenLen + 8 + 1 + 4 + 8
def executedSize : Nat := 1 + tokenLen + 4 + 8 + 8
def canceledSize : Nat := 1 + tokenLen + 1
def replacedSize : Nat := 1 + 2 * tokenLen + 8 + 4 + 8
def rejectedSize : Nat := 1 + tokenLen + 1

/-! ## Primitives -/

def put32 (v : UInt32) : List UInt8 :=
  [24, 16, 8, 0].map fun shift : UInt32 => (v >>> shift).toUInt8

def putPrice (price : Price) : List UInt8 := put64 (Int64.ofInt price).toUInt64

def putSide (side : Side) : UInt8 := if side = .buy then 'B'.toUInt8 else 'S'.toUInt8

def getSide (byte : UInt8) : Side := if byte = 'B'.toUInt8 then .buy else .sell

def putToken (token : List UInt8) : List UInt8 :=
  let n := if tokenLen < token.length then tokenLen else token.length
  token.take n ++ List.replicate (tokenLen - n) ' '.toUInt8

/-- The token at `p` as the C string it is copied to. -/
def getToken (p : List UInt8) : List UInt8 := (p.take tokenLen).takeWhile (· ≠ 0)

/-! ## Inbound -/

inductive InMsg
  | enter (token : List UInt8) (side : Side) (qty : UInt32) (price : Price) (tif : TimeInForce)
      (display : UInt32) (owner : OwnerId) (stp : StpPolicy)
  | replace (token newToken : List UInt8) (qty : UInt32) (price : Price)
  | cancel (token : List UInt8)
deriving DecidableEq, Repr

def tifByte : TimeInForce → UInt8
  | .gtc => 0
  | .ioc => 1
  | .fok => 2
  | .postOnly => 3

def stpByte : StpPolicy → UInt8
  | .cancelTaker => 0
  | .cancelMaker => 1
  | .cancelBoth => 2

def tifOf (byte : UInt8) : Option TimeInForce :=
  [TimeInForce.gtc, .ioc, .fok, .postOnly].find? (tifByte · = byte)

def stpOf (byte : UInt8) : Option StpPolicy :=
  [StpPolicy.cancelTaker, .cancelMaker, .cancelBoth].find? (stpByte · = byte)

def decodeIn (p : List UInt8) : Option InMsg :=
  if p.length = 0 then none
  else if byteAt p 0 = 'O'.toUInt8 then
    if p.length < enterSize then none
    else do
      let tif ← tifOf (byteAt p 28)
      let stp ← stpOf (byteAt p 35)
      some (.enter (getToken (p.drop 1)) (getSide (byteAt p 15)) (be32 (p.drop 16))
        (be64 (p.drop 20)).toInt64.toInt tif (be32 (p.drop 29)) (be16 (p.drop 33)) stp)
  else if byteAt p 0 = 'U'.toUInt8 then
    if p.length < replaceSize then none
    else some (.replace (getToken (p.drop 1)) (getToken (p.drop (1 + tokenLen)))
      (be32 (p.drop (1 + 2 * tokenLen))) (be64 (p.drop (5 + 2 * tokenLen))).toInt64.toInt)
  else if byteAt p 0 = 'X'.toUInt8 then
    if p.length < cancelSize then none
    else some (.cancel (getToken (p.drop 1)))
  else none

def encodeEnter (token : List UInt8) (side : Side) (qty : UInt32) (price : Price)
    (tif : TimeInForce) (display : UInt32) (owner : OwnerId) (stp : StpPolicy) : List UInt8 :=
  'O'.toUInt8 :: (putToken token ++ (putSide side :: (put32 qty ++ (putPrice price ++
    (tifByte tif :: (put32 display ++ (put16 owner ++ [stpByte stp])))))))

def encodeReplace (oldToken newToken : List UInt8) (qty : UInt32) (price : Price) : List UInt8 :=
  'U'.toUInt8 :: (putToken oldToken ++ (putToken newToken ++ (put32 qty ++ putPrice price)))

def encodeCancel (token : List UInt8) : List UInt8 := 'X'.toUInt8 :: putToken token

/-! ## Outbound -/

def encodeAccepted (token : List UInt8) (id : OrderId) (side : Side) (qty : UInt32)
    (price : Price) : List UInt8 :=
  'A'.toUInt8 :: (putToken token ++ (put64 (UInt64.ofNat id) ++ (putSide side ::
    (put32 qty ++ putPrice price))))

def encodeExecuted (token : List UInt8) (qty : UInt32) (price : Price) (number : UInt64) :
    List UInt8 :=
  'E'.toUInt8 :: (putToken token ++ (put32 qty ++ (putPrice price ++ put64 number)))

def encodeCanceled (token : List UInt8) (reason : UInt8) : List UInt8 :=
  'C'.toUInt8 :: (putToken token ++ [reason])

def encodeReplaced (oldToken newToken : List UInt8) (id : OrderId) (qty : UInt32)
    (price : Price) : List UInt8 :=
  'U'.toUInt8 :: (putToken oldToken ++ (putToken newToken ++ (put64 (UInt64.ofNat id) ++
    (put32 qty ++ putPrice price))))

def encodeRejected (token : List UInt8) (reason : UInt8) : List UInt8 :=
  'J'.toUInt8 :: (putToken token ++ [reason])

inductive OutMsg
  | accepted (token : List UInt8) (id : UInt64) (side : Side) (qty : UInt32) (price : Int64)
  | executed (token : List UInt8) (qty : UInt32) (price : Int64) (number : UInt64)
  | canceled (token : List UInt8) (reason : UInt8)
  | replaced (token newToken : List UInt8) (id : UInt64) (qty : UInt32) (price : Int64)
  | rejected (token : List UInt8) (reason : UInt8)
deriving DecidableEq

def decodeOut (p : List UInt8) : Option OutMsg :=
  if p.length = 0 then none
  else if byteAt p 0 = 'A'.toUInt8 then
    if p.length < acceptedSize then none
    else some (.accepted (getToken (p.drop 1)) (be64 (p.drop 15)) (getSide (byteAt p 23))
      (be32 (p.drop 24)) (be64 (p.drop 28)).toInt64)
  else if byteAt p 0 = 'E'.toUInt8 then
    if p.length < executedSize then none
    else some (.executed (getToken (p.drop 1)) (be32 (p.drop 15)) (be64 (p.drop 19)).toInt64
      (be64 (p.drop 27)))
  else if byteAt p 0 = 'C'.toUInt8 then
    if p.length < canceledSize then none
    else some (.canceled (getToken (p.drop 1)) (byteAt p 15))
  else if byteAt p 0 = 'U'.toUInt8 then
    if p.length < replacedSize then none
    else some (.replaced (getToken (p.drop 1)) (getToken (p.drop (1 + tokenLen)))
      (be64 (p.drop (1 + 2 * tokenLen))) (be32 (p.drop (9 + 2 * tokenLen)))
      (be64 (p.drop (13 + 2 * tokenLen))).toInt64)
  else if byteAt p 0 = 'J'.toUInt8 then
    if p.length < rejectedSize then none
    else some (.rejected (getToken (p.drop 1)) (byteAt p 15))
  else none

/-! ## Tokens -/

structure IsToken (token : List UInt8) : Prop where
  noNul : (0 : UInt8) ∉ token
  short : token.length ≤ tokenLen

@[simp] theorem length_putToken (token : List UInt8) : (putToken token).length = tokenLen := by
  simp only [putToken, List.length_append, List.length_take, List.length_replicate]
  split <;> omega

theorem noNul_putToken {token : List UInt8} (isToken : IsToken token) :
    (0 : UInt8) ∉ putToken token := by
  intro member
  rcases List.mem_append.mp member with inside | padding
  · exact isToken.noNul (List.mem_of_mem_take inside)
  · exact absurd (List.eq_of_mem_replicate padding) (by decide)

theorem getToken_putToken {token : List UInt8} (isToken : IsToken token) (rest : List UInt8) :
    getToken (putToken token ++ rest) = putToken token := by
  have whole : (putToken token ++ rest).take tokenLen = putToken token :=
    List.take_left' (length_putToken token)
  rw [getToken, whole, List.takeWhile_eq_self_iff]
  intro byte member
  simpa using fun zero : byte = 0 => noNul_putToken isToken (zero ▸ member)

theorem putToken_of_length {token : List UInt8} (whole : token.length = tokenLen) :
    putToken token = token := by
  rw [putToken, whole, if_neg (lt_irrefl _), Nat.sub_self, List.replicate_zero, List.append_nil,
    ← whole, List.take_length]

theorem getToken_eq_take {p : List UInt8} (noNul : (0 : UInt8) ∉ p.take tokenLen) :
    getToken p = p.take tokenLen := by
  rw [getToken, List.takeWhile_eq_self_iff]
  intro byte member
  simpa using fun zero : byte = 0 => noNul (zero ▸ member)

/-! ## Reading back what was written -/

theorem put32_eq (v : UInt32) : put32 v = BigEndian.bytes 4 v.toNat := by
  have byte (shift : UInt32) (width : Nat) (bits : shift.toNat % 32 = 8 * width) :
      (v >>> shift).toUInt8 = UInt8.ofNat (v.toNat / 256 ^ width) :=
    BigEndian.byte_shifted32 v shift bits
  simp only [put32, List.map_cons, List.map_nil, BigEndian.bytes]
  rw [byte 24 3 rfl, byte 16 2 rfl, byte 8 1 rfl, byte 0 0 rfl]

theorem be32_put32 (v : UInt32) (rest : List UInt8) : be32 (put32 v ++ rest) = v := by
  apply UInt32.toNat_inj.1
  have spelled := BigEndian.value_bytes 4 v.toNat
  rw [← put32_eq] at spelled
  have small := v.toNat_lt
  calc (be32 (put32 v ++ rest)).toNat
      = BigEndian.value (put32 v) := Itch.be32_toNat _ _ _ _ rest
    _ = v.toNat := by rw [spelled]; exact Nat.mod_eq_of_lt small

theorem getPrice_putPrice (price : Price) (rest : List UInt8) :
    (be64 (putPrice price ++ rest)).toInt64 = Int64.ofInt price := by
  rw [putPrice, Mold.be64_put64]
  rfl

theorem getSide_putSide (side : Side) : getSide (putSide side) = side := by
  cases side <;> decide

section fields

variable (kind : UInt8) (token : List UInt8) (rest : List UInt8)

theorem drop_putToken (k : Nat) :
    (kind :: (putToken token ++ rest)).drop (1 + tokenLen + k) = rest.drop k := by
  rw [← List.drop_drop, ← List.drop_drop, List.drop_succ_cons, List.drop_zero,
    List.drop_left' (length_putToken token)]

theorem drop_putTokens (newToken : List UInt8) (k : Nat) :
    (kind :: (putToken token ++ (putToken newToken ++ rest))).drop (1 + 2 * tokenLen + k) =
      rest.drop k := by
  have both : 1 + 2 * tokenLen + k = 1 + tokenLen + (tokenLen + k) := by omega
  rw [both, drop_putToken, ← List.drop_drop, List.drop_left' (length_putToken newToken)]

theorem byteAt_putToken (k : Nat) :
    byteAt (kind :: (putToken token ++ rest)) (1 + tokenLen + k) = byteAt rest k := by
  have same := congrArg (fun bytes => byteAt bytes 0) (drop_putToken kind token rest k)
  simpa [byteAt] using same

theorem length_putToken_append :
    (kind :: (putToken token ++ rest)).length = 1 + tokenLen + rest.length := by
  simp
  omega

end fields

section outbound

variable {token newToken : List UInt8} (isToken : IsToken token) (isNew : IsToken newToken)

theorem getToken_first (kind : UInt8) {token : List UInt8} (isToken : IsToken token)
    (rest : List UInt8) :
    getToken ((kind :: (putToken token ++ rest)).drop 1) = putToken token :=
  getToken_putToken isToken rest

include isToken

theorem decodeOut_encodeAccepted (id : OrderId) (side : Side) (qty : UInt32) (price : Price) :
    decodeOut (encodeAccepted token id side qty price) =
      some (.accepted (putToken token) (UInt64.ofNat id) side qty (Int64.ofInt price)) := by
  have kind : byteAt (encodeAccepted token id side qty price) 0 = 'A'.toUInt8 := rfl
  have whole : ¬ (encodeAccepted token id side qty price).length < acceptedSize := by
    rw [encodeAccepted, length_putToken_append]
    exact Nat.lt_irrefl _
  have first : getToken ((encodeAccepted token id side qty price).drop 1) = putToken token :=
    getToken_first _ isToken _
  have number : be64 ((encodeAccepted token id side qty price).drop 15) = UInt64.ofNat id :=
    (congrArg be64 (drop_putToken _ _ _ 0)).trans (Mold.be64_put64 _ _)
  have sided : getSide (byteAt (encodeAccepted token id side qty price) 23) = side :=
    (congrArg getSide (byteAt_putToken _ _ _ 8)).trans (getSide_putSide side)
  have amount : be32 ((encodeAccepted token id side qty price).drop 24) = qty :=
    (congrArg be32 (drop_putToken _ _ _ 9)).trans (be32_put32 qty _)
  have priced : (be64 ((encodeAccepted token id side qty price).drop 28)).toInt64 =
      Int64.ofInt price :=
    (congrArg (fun bytes => (be64 bytes).toInt64) (drop_putToken _ _ _ 13)).trans
      (getPrice_putPrice price [])
  rw [decodeOut, if_neg (by simp [encodeAccepted]), kind, if_pos rfl, if_neg whole, first, number,
    sided,
    amount, priced]

theorem decodeOut_encodeExecuted (qty : UInt32) (price : Price) (number : UInt64) :
    decodeOut (encodeExecuted token qty price number) =
      some (.executed (putToken token) qty (Int64.ofInt price) number) := by
  have kind : byteAt (encodeExecuted token qty price number) 0 = 'E'.toUInt8 := rfl
  have whole : ¬ (encodeExecuted token qty price number).length < executedSize := by
    rw [encodeExecuted, length_putToken_append]
    exact Nat.lt_irrefl _
  have first : getToken ((encodeExecuted token qty price number).drop 1) = putToken token :=
    getToken_first _ isToken _
  have amount : be32 ((encodeExecuted token qty price number).drop 15) = qty :=
    (congrArg be32 (drop_putToken _ _ _ 0)).trans (be32_put32 qty _)
  have priced : (be64 ((encodeExecuted token qty price number).drop 19)).toInt64 =
      Int64.ofInt price :=
    (congrArg (fun bytes => (be64 bytes).toInt64) (drop_putToken _ _ _ 4)).trans
      (getPrice_putPrice price _)
  have numbered : be64 ((encodeExecuted token qty price number).drop 27) = number :=
    (congrArg be64 (drop_putToken _ _ _ 12)).trans (Mold.be64_put64 number [])
  rw [decodeOut, if_neg (by simp [encodeExecuted]), kind, if_neg (by decide), if_pos rfl,
    if_neg whole,
    first, amount, priced, numbered]

theorem decodeOut_encodeCanceled (reason : UInt8) :
    decodeOut (encodeCanceled token reason) = some (.canceled (putToken token) reason) := by
  have kind : byteAt (encodeCanceled token reason) 0 = 'C'.toUInt8 := rfl
  have whole : ¬ (encodeCanceled token reason).length < canceledSize := by
    rw [encodeCanceled, length_putToken_append]
    exact Nat.lt_irrefl _
  have first : getToken ((encodeCanceled token reason).drop 1) = putToken token :=
    getToken_first _ isToken _
  have reasoned : byteAt (encodeCanceled token reason) 15 = reason := byteAt_putToken _ _ _ 0
  rw [decodeOut, if_neg (by simp [encodeCanceled]), kind, if_neg (by decide), if_neg (by decide),
    if_pos rfl, if_neg whole, first, reasoned]

theorem decodeOut_encodeRejected (reason : UInt8) :
    decodeOut (encodeRejected token reason) = some (.rejected (putToken token) reason) := by
  have kind : byteAt (encodeRejected token reason) 0 = 'J'.toUInt8 := rfl
  have whole : ¬ (encodeRejected token reason).length < rejectedSize := by
    rw [encodeRejected, length_putToken_append]
    exact Nat.lt_irrefl _
  have first : getToken ((encodeRejected token reason).drop 1) = putToken token :=
    getToken_first _ isToken _
  have reasoned : byteAt (encodeRejected token reason) 15 = reason := byteAt_putToken _ _ _ 0
  rw [decodeOut, if_neg (by simp [encodeRejected]), kind, if_neg (by decide), if_neg (by decide),
    if_neg (by decide), if_neg (by decide), if_pos rfl, if_neg whole, first, reasoned]

include isNew

theorem decodeOut_encodeReplaced (id : OrderId) (qty : UInt32) (price : Price) :
    decodeOut (encodeReplaced token newToken id qty price) =
      some (.replaced (putToken token) (putToken newToken) (UInt64.ofNat id) qty
        (Int64.ofInt price)) := by
  have kind : byteAt (encodeReplaced token newToken id qty price) 0 = 'U'.toUInt8 := rfl
  have whole : ¬ (encodeReplaced token newToken id qty price).length < replacedSize := by
    rw [encodeReplaced, length_putToken_append, List.length_append, length_putToken]
    exact Nat.lt_irrefl _
  have first : getToken ((encodeReplaced token newToken id qty price).drop 1) = putToken token :=
    getToken_first _ isToken _
  have second : getToken ((encodeReplaced token newToken id qty price).drop (1 + tokenLen)) =
      putToken newToken :=
    (congrArg getToken (drop_putToken _ _ _ 0)).trans (getToken_putToken isNew _)
  have number : be64 ((encodeReplaced token newToken id qty price).drop (1 + 2 * tokenLen)) =
      UInt64.ofNat id :=
    (congrArg be64 (drop_putTokens _ _ _ _ 0)).trans (Mold.be64_put64 _ _)
  have amount : be32 ((encodeReplaced token newToken id qty price).drop (9 + 2 * tokenLen)) =
      qty :=
    (congrArg be32 (drop_putTokens _ _ _ _ 8)).trans (be32_put32 qty _)
  have priced : (be64 ((encodeReplaced token newToken id qty price).drop
      (13 + 2 * tokenLen))).toInt64 = Int64.ofInt price :=
    (congrArg (fun bytes => (be64 bytes).toInt64) (drop_putTokens _ _ _ _ 12)).trans
      (getPrice_putPrice price [])
  rw [decodeOut, if_neg (by simp [encodeReplaced]), kind, if_neg (by decide), if_neg (by decide),
    if_neg (by decide), if_pos rfl, if_neg whole, first, second, number, amount, priced]

end outbound

end Ouch

end Matchbook
