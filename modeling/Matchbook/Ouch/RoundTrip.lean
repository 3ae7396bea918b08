import Matchbook.Foundation.Framing
import Matchbook.Ouch.Codec

namespace Matchbook

/-! # Both directions of the OUCH codec -/

namespace Ouch

open Itch (byteAt be16 be32 be64)
open Mold (put16 put64)

/-! ## Messages as values -/

theorem toInt_ofInt {price : Price} (fits : FitsPrice price) : (Int64.ofInt price).toInt = price :=
  Int64.toInt_ofInt_of_le fits.1 fits.2

namespace InMsg

def encode : InMsg → List UInt8
  | .enter token side qty price tif display owner stp =>
      encodeEnter token side qty price tif display owner stp
  | .replace token newToken qty price => encodeReplace token newToken qty price
  | .cancel token => encodeCancel token

/-- The message with its tokens as they are on the wire. -/
def padded : InMsg → InMsg
  | .enter token side qty price tif display owner stp =>
      .enter (putToken token) side qty price tif display owner stp
  | .replace token newToken qty price => .replace (putToken token) (putToken newToken) qty price
  | .cancel token => .cancel (putToken token)

/-- The fields have values of their types. -/
def Fits : InMsg → Prop
  | .enter token _ _ price _ _ _ _ => IsToken token ∧ FitsPrice price
  | .replace token newToken _ price => IsToken token ∧ IsToken newToken ∧ FitsPrice price
  | .cancel token => IsToken token

def size : InMsg → Nat
  | .enter .. => enterSize
  | .replace .. => replaceSize
  | .cancel _ => cancelSize

end InMsg

namespace OutMsg

def encode : OutMsg → List UInt8
  | .accepted token id side qty price => encodeAccepted token id.toNat side qty price.toInt
  | .executed token qty price number => encodeExecuted token qty price.toInt number
  | .canceled token reason => encodeCanceled token reason
  | .replaced token newToken id qty price =>
      encodeReplaced token newToken id.toNat qty price.toInt
  | .rejected token reason => encodeRejected token reason

def padded : OutMsg → OutMsg
  | .accepted token id side qty price => .accepted (putToken token) id side qty price
  | .executed token qty price number => .executed (putToken token) qty price number
  | .canceled token reason => .canceled (putToken token) reason
  | .replaced token newToken id qty price =>
      .replaced (putToken token) (putToken newToken) id qty price
  | .rejected token reason => .rejected (putToken token) reason

def Fits : OutMsg → Prop
  | .replaced token newToken _ _ _ => IsToken token ∧ IsToken newToken
  | .accepted token .. | .executed token .. | .canceled token _ | .rejected token _ =>
      IsToken token

def size : OutMsg → Nat
  | .accepted .. => acceptedSize
  | .executed .. => executedSize
  | .canceled .. => canceledSize
  | .replaced .. => replacedSize
  | .rejected .. => rejectedSize

end OutMsg

/-! ## Sizes by type letter -/

def inSize (kind : UInt8) : Nat :=
  if kind = 'O'.toUInt8 then enterSize
  else if kind = 'U'.toUInt8 then replaceSize
  else if kind = 'X'.toUInt8 then cancelSize
  else 0

def outSize (kind : UInt8) : Nat :=
  if kind = 'A'.toUInt8 then acceptedSize
  else if kind = 'E'.toUInt8 then executedSize
  else if kind = 'C'.toUInt8 then canceledSize
  else if kind = 'U'.toUInt8 then replacedSize
  else if kind = 'J'.toUInt8 then rejectedSize
  else 0

theorem decodeIn_short {p : List UInt8} (short : p.length < inSize (byteAt p 0)) :
    decodeIn p = none := by
  unfold decodeIn
  unfold inSize at short
  grind

theorem decodeOut_short {p : List UInt8} (short : p.length < outSize (byteAt p 0)) :
    decodeOut p = none := by
  unfold decodeOut
  unfold outSize at short
  grind

/-! ## Inbound messages -/

section inbound

variable {token newToken : List UInt8} (isToken : IsToken token) (isNew : IsToken newToken)

theorem getPrice_fits {price : Price} (fits : FitsPrice price) (rest : List UInt8) :
    (be64 (putPrice price ++ rest)).toInt64.toInt = price := by
  rw [getPrice_putPrice, toInt_ofInt fits]

theorem tifOf_tifByte (tif : TimeInForce) : tifOf (tifByte tif) = some tif := by
  cases tif <;> rfl

theorem stpOf_stpByte (stp : StpPolicy) : stpOf (stpByte stp) = some stp := by
  cases stp <;> rfl

include isToken

theorem decodeIn_encodeEnter (side : Side) (qty : UInt32) {price : Price} (fits : FitsPrice price)
    (tif : TimeInForce) (display : UInt32) (owner : OwnerId) (stp : StpPolicy) :
    decodeIn (encodeEnter token side qty price tif display owner stp) =
      some (.enter (putToken token) side qty price tif display owner stp) := by
  let p := encodeEnter token side qty price tif display owner stp
  have kind : byteAt p 0 = 'O'.toUInt8 := rfl
  have whole : ¬ p.length < enterSize := by
    change ¬ (encodeEnter _ _ _ _ _ _ _ _).length < _
    rw [encodeEnter, length_putToken_append]
    exact Nat.lt_irrefl _
  have first : getToken (p.drop 1) = putToken token := getToken_first _ isToken _
  have sided : getSide (byteAt p 15) = side :=
    (congrArg getSide (byteAt_putToken _ _ _ 0)).trans (getSide_putSide side)
  have amount : be32 (p.drop 16) = qty :=
    (congrArg be32 (drop_putToken _ _ _ 1)).trans (be32_put32 qty _)
  have priced : (be64 (p.drop 20)).toInt64.toInt = price :=
    (congrArg (fun bytes => (be64 bytes).toInt64.toInt) (drop_putToken _ _ _ 5)).trans
      (getPrice_fits fits _)
  have timed : tifOf (byteAt p 28) = some tif :=
    (congrArg tifOf (byteAt_putToken _ _ _ 13)).trans (tifOf_tifByte tif)
  have shown : be32 (p.drop 29) = display :=
    (congrArg be32 (drop_putToken _ _ _ 14)).trans (be32_put32 display _)
  have owned : be16 (p.drop 33) = owner :=
    (congrArg be16 (drop_putToken _ _ _ 18)).trans (Mold.be16_put16 owner _)
  have policy : stpOf (byteAt p 35) = some stp :=
    (congrArg stpOf (byteAt_putToken _ _ _ 20)).trans (stpOf_stpByte stp)
  change decodeIn p = _
  rw [decodeIn, if_neg (by simp [p, encodeEnter]), kind, if_pos rfl, if_neg whole, timed, policy,
    first, sided, amount, priced, shown, owned]
  rfl

theorem decodeIn_encodeCancel :
    decodeIn (encodeCancel token) = some (.cancel (putToken token)) := by
  have kind : byteAt (encodeCancel token) 0 = 'X'.toUInt8 := rfl
  have whole : ¬ (encodeCancel token).length < cancelSize := by
    simp [encodeCancel, cancelSize, Nat.add_comm]
  have first : getToken ((encodeCancel token).drop 1) = putToken token := by
    have same := getToken_putToken isToken []
    rwa [List.append_nil] at same
  rw [decodeIn, if_neg (by simp [encodeCancel]), kind, if_neg (by decide), if_neg (by decide),
    if_pos rfl, if_neg whole, first]

include isNew

theorem decodeIn_encodeReplace (qty : UInt32) {price : Price} (fits : FitsPrice price) :
    decodeIn (encodeReplace token newToken qty price) =
      some (.replace (putToken token) (putToken newToken) qty price) := by
  let p := encodeReplace token newToken qty price
  have kind : byteAt p 0 = 'U'.toUInt8 := rfl
  have whole : ¬ p.length < replaceSize := by
    change ¬ (encodeReplace _ _ _ _).length < _
    rw [encodeReplace, length_putToken_append, List.length_append, length_putToken]
    exact Nat.lt_irrefl _
  have first : getToken (p.drop 1) = putToken token := getToken_first _ isToken _
  have second : getToken (p.drop (1 + tokenLen)) = putToken newToken :=
    (congrArg getToken (drop_putToken _ _ _ 0)).trans (getToken_putToken isNew _)
  have amount : be32 (p.drop (1 + 2 * tokenLen)) = qty :=
    (congrArg be32 (drop_putTokens _ _ _ _ 0)).trans (be32_put32 qty _)
  have priced : (be64 (p.drop (5 + 2 * tokenLen))).toInt64.toInt = price :=
    (congrArg (fun bytes => (be64 bytes).toInt64.toInt) (drop_putTokens _ _ _ _ 4)).trans
      (getPrice_fits fits [])
  change decodeIn p = _
  rw [decodeIn, if_neg (by simp [p, encodeReplace]), kind, if_neg (by decide), if_pos rfl,
    if_neg whole, first, second, amount, priced]

end inbound

/-! ## Messages of either direction -/

/-- A message comes back from its bytes, and from no part of them. -/
structure ReadsBack {Message : Type} (decode : List UInt8 → Option Message) (bytes : List UInt8)
    (size : Nat) (m : Message) : Prop where
  length : bytes.length = size
  whole : decode bytes = some m
  refused : ∀ p, p <+: bytes → p ≠ bytes → decode p = none

theorem InMsg.inSize_encode (m : InMsg) : inSize (byteAt m.encode 0) = m.size := by
  cases m <;> rfl

theorem OutMsg.outSize_encode (m : OutMsg) : outSize (byteAt m.encode 0) = m.size := by
  cases m <;> rfl

theorem InMsg.length_encode (m : InMsg) : m.encode.length = m.size := by
  cases m <;> simp [encode, size, encodeEnter, encodeReplace, encodeCancel, put32, put16, put64,
    putPrice, enterSize, replaceSize, cancelSize, tokenLen]

theorem OutMsg.length_encode (m : OutMsg) : m.encode.length = m.size := by
  cases m <;> simp [encode, size, encodeAccepted, encodeExecuted, encodeCanceled, encodeReplaced,
    encodeRejected, put32, put64, putPrice, acceptedSize, executedSize, canceledSize, replacedSize,
    rejectedSize, tokenLen]

theorem InMsg.readsBack {m : InMsg} (fits : m.Fits) :
    ReadsBack decodeIn m.encode m.size m.padded where
  length := m.length_encode
  whole := by
    cases m with
    | enter token side qty price tif display owner stp =>
        exact decodeIn_encodeEnter fits.1 side qty fits.2 tif display owner stp
    | replace token newToken qty price => exact decodeIn_encodeReplace fits.1 fits.2.1 qty fits.2.2
    | cancel token => exact decodeIn_encodeCancel fits
  refused p start strict := by
    have whole := m.length_encode.trans m.inSize_encode.symm
    cases m <;>
      exact Framing.refused_of_prefix (fun _ short => decodeIn_short short) rfl whole start strict

theorem OutMsg.readsBack {m : OutMsg} (fits : m.Fits) :
    ReadsBack decodeOut m.encode m.size m.padded where
  length := m.length_encode
  whole := by
    cases m with
    | accepted token id side qty price =>
        have read := decodeOut_encodeAccepted fits id.toNat side qty price.toInt
        rwa [UInt64.ofNat_toNat, Int64.ofInt_toInt] at read
    | executed token qty price number =>
        have read := decodeOut_encodeExecuted fits qty price.toInt number
        rwa [Int64.ofInt_toInt] at read
    | canceled token reason => exact decodeOut_encodeCanceled fits reason
    | replaced token newToken id qty price =>
        have read := decodeOut_encodeReplaced fits.1 fits.2 id.toNat qty price.toInt
        rwa [UInt64.ofNat_toNat, Int64.ofInt_toInt] at read
    | rejected token reason => exact decodeOut_encodeRejected fits reason
  refused p start strict := by
    have whole := m.length_encode.trans m.outSize_encode.symm
    cases m <;>
      exact Framing.refused_of_prefix (fun _ short => decodeOut_short short) rfl whole start strict

/-! ## Messages one after another -/

def nextMessage (size : UInt8 → Nat) (stream : List UInt8) :
    Option (List UInt8 × List UInt8) :=
  let n := size (byteAt stream 0)
  if n = 0 ∨ stream.length < n then none else some (stream.take n, stream.drop n)

/-- The messages of a stream, and what is left behind the last. -/
def splitMessages (size : UInt8 → Nat) (stream : List UInt8) : List (List UInt8) × List UInt8 :=
  Framing.readAll (nextMessage size) (stream.length + 1) stream

section split

variable {size : UInt8 → Nat}

theorem nextMessage_consumes : Framing.Consumes (nextMessage size) := by
  intro stream item rest read
  simp only [nextMessage] at read
  split at read
  case isTrue => cases read
  case isFalse inside =>
    cases read
    rw [List.length_drop]
    omega

theorem nextMessage_append {bytes : List UInt8} (some : bytes ≠ [])
    (whole : bytes.length = size (byteAt bytes 0)) (rest : List UInt8) :
    nextMessage size (bytes ++ rest) = .some (bytes, rest) := by
  have positive := List.length_pos_of_ne_nil some
  have same : byteAt (bytes ++ rest) 0 = byteAt bytes 0 := by
    cases bytes with
    | nil => exact absurd rfl some
    | cons kind bytes => rfl
  have inside : ¬ (bytes.length = 0 ∨ (bytes ++ rest).length < bytes.length) := by
    rw [List.length_append]
    omega
  rw [nextMessage, same, ← whole]
  simp only [if_neg inside, List.take_left' rfl, List.drop_left' rfl]

theorem splitMessages_encode {Message : Type} {encode : Message → List UInt8}
    (some : ∀ m, encode m ≠ [])
    (whole : ∀ m, (encode m).length = size (byteAt (encode m) 0)) (messages : List Message) :
    splitMessages size (messages.flatMap encode) = (messages.map encode, []) :=
  Framing.readAll_written nextMessage_consumes (by simp [nextMessage])
    (fun m _ rest => nextMessage_append (some m) (whole m) rest) (Nat.lt_succ_self _)

end split

/-- Each message of fitting values comes back from its bytes and from no part of them, and the
messages of a stream come apart again, in both directions. -/
theorem codec_readsBack :
    (∀ m : InMsg, m.Fits → ReadsBack decodeIn m.encode m.size m.padded) ∧
      (∀ m : OutMsg, m.Fits → ReadsBack decodeOut m.encode m.size m.padded) ∧
      (∀ messages : List InMsg, splitMessages inSize (messages.flatMap InMsg.encode) =
        (messages.map InMsg.encode, [])) ∧
      ∀ messages : List OutMsg, splitMessages outSize (messages.flatMap OutMsg.encode) =
        (messages.map OutMsg.encode, []) := by
  have insome (m : InMsg) : m.encode ≠ [] := by cases m <;> exact List.cons_ne_nil _ _
  have outsome (m : OutMsg) : m.encode ≠ [] := by cases m <;> exact List.cons_ne_nil _ _
  exact ⟨fun m => m.readsBack, fun m => m.readsBack,
    splitMessages_encode insome fun m => m.length_encode.trans m.inSize_encode.symm,
    splitMessages_encode outsome fun m => m.length_encode.trans m.outSize_encode.symm⟩

theorem codec_readsBack_cancel : ReadsBack decodeIn (InMsg.cancel ['A'.toUInt8]).encode cancelSize
    (.cancel (putToken ['A'.toUInt8])) :=
  codec_readsBack.1 (.cancel ['A'.toUInt8]) ⟨by decide, by decide⟩

end Ouch

end Matchbook
