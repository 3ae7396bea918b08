import Matchbook.Feed.MoldCodec
import Matchbook.Foundation.Framing

namespace Matchbook

/-! # The ITCH encoder

The messages that the parser reads, and two that it skips. A function that appends to a
buffer is the list of the bytes it appends. -/

namespace Itch

def enc16 (v : UInt16) : List UInt8 := [(v >>> 8).toUInt8, v.toUInt8]

def enc32 (v : UInt32) : List UInt8 :=
  [24, 16, 8, 0].map fun shift : UInt32 => (v >>> shift).toUInt8

def enc48 (v : UInt64) : List UInt8 :=
  [40, 32, 24, 16, 8, 0].map fun shift : UInt64 => (v >>> shift).toUInt8

def enc64 (v : UInt64) : List UInt8 :=
  [56, 48, 40, 32, 24, 16, 8, 0].map fun shift : UInt64 => (v >>> shift).toUInt8

structure Stock where
  bytes : List UInt8
  eight : bytes.length = 8

def encHead (type : UInt8) (ts : UInt64) : List UInt8 := type :: (enc16 1 ++ enc16 0 ++ enc48 ts)

def encodeAdd (ts ref : UInt64) (side : UInt8) (shares : UInt32) (stock : Stock)
    (price : UInt32) : List UInt8 :=
  encHead 'A'.toUInt8 ts ++ (enc64 ref ++ (side :: (enc32 shares ++ (stock.bytes ++ enc32 price))))

def encodeExecute (ts ref : UInt64) (shares : UInt32) (number : UInt64) : List UInt8 :=
  encHead 'E'.toUInt8 ts ++ (enc64 ref ++ (enc32 shares ++ enc64 number))

def encodeExecutePx (ts ref : UInt64) (shares : UInt32) (number : UInt64) (price : UInt32)
    (printable : Bool) : List UInt8 :=
  encHead 'C'.toUInt8 ts ++ (enc64 ref ++ (enc32 shares ++ (enc64 number ++
    ((if printable then 'Y'.toUInt8 else 'N'.toUInt8) :: enc32 price))))

def encodeCancel (ts ref : UInt64) (shares : UInt32) : List UInt8 :=
  encHead 'X'.toUInt8 ts ++ (enc64 ref ++ enc32 shares)

def encodeDelete (ts ref : UInt64) : List UInt8 := encHead 'D'.toUInt8 ts ++ enc64 ref

def encodeTrade (ts : UInt64) (side : UInt8) (shares : UInt32) (stock : Stock) (price : UInt32)
    (number : UInt64) : List UInt8 :=
  encHead 'P'.toUInt8 ts ++ (enc64 0 ++ (side :: (enc32 shares ++ (stock.bytes ++ (enc32 price ++
    enc64 number)))))

def encodeCross (ts shares : UInt64) (stock : Stock) (price : UInt32) (number : UInt64)
    (crossType : UInt8) : List UInt8 :=
  encHead 'Q'.toUInt8 ts ++ (enc64 shares ++ (stock.bytes ++ (enc32 price ++ (enc64 number ++
    [crossType]))))

def encodeAction (ts : UInt64) (stock : Stock) (state : UInt8) : List UInt8 :=
  encHead 'H'.toUInt8 ts ++ (stock.bytes ++ (state :: ' '.toUInt8 ::
    List.replicate 4 ' '.toUInt8))

def frame (body : List UInt8) : List UInt8 := enc16 (UInt16.ofNat body.length) ++ body

/-! ## Reading a file back -/

def readFrame (file : List UInt8) : Option (List UInt8 × List UInt8) :=
  if file.length < 2 then none
  else
    let len := (byteAt file 0).toNat <<< 8 ||| (byteAt file 1).toNat
    let rest := file.drop 2
    if rest.length < len then none else some (rest.take len, rest.drop len)

/-- The bodies that the feed thread takes off a file. -/
def readFrames (file : List UInt8) : List (List UInt8) :=
  (Framing.readAll readFrame (file.length + 1) file).1

theorem readFrame_consumes : Framing.Consumes readFrame := by
  intro file item rest read
  simp only [readFrame] at read
  split at read
  case isTrue => cases read
  case isFalse header =>
    split at read
    case isTrue => cases read
    case isFalse whole =>
      cases read
      simp only [List.length_drop]
      omega

theorem readFrame_frame {body : List UInt8} (short : body.length < 2 ^ 16) (rest : List UInt8) :
    readFrame (frame body ++ rest) = some (body, rest) := by
  have number : (be16 (frame body ++ rest)).toNat = body.length := by
    have read : be16 (frame body ++ rest) = UInt16.ofNat body.length := by
      rw [frame, List.append_assoc]
      exact Mold.be16_put16 _ _
    rw [read, UInt16.toNat_ofNat']
    exact Nat.mod_eq_of_lt short
  have len : (byteAt (frame body ++ rest) 0).toNat <<< 8 |||
      (byteAt (frame body ++ rest) 1).toNat = body.length := by
    have high := (byteAt (frame body ++ rest) 0).toNat_lt
    rw [← number, be16, UInt16.toNat_or, UInt16.toNat_shiftLeft, UInt8.toNat_toUInt16,
      UInt8.toNat_toUInt16]
    congr 1
    exact (Nat.mod_eq_of_lt (by rw [Nat.shiftLeft_eq]; change _ * 256 < 65536; omega)).symm
  have behind : (frame body ++ rest).drop 2 = body ++ rest := rfl
  have header : ¬ (frame body ++ rest).length < 2 := by
    simp [frame, enc16]
  have whole : ¬ (body ++ rest).length < body.length := by simp
  rw [readFrame, if_neg header]
  simp only [len, behind, if_neg whole, List.take_left' rfl, List.drop_left' rfl]

/-! ## The calls of the encoder -/

inductive Encoding
  | add (ts ref : UInt64) (side : UInt8) (shares : UInt32) (stock : Stock) (price : UInt32)
  | execute (ts ref : UInt64) (shares : UInt32) (number : UInt64)
  | executePx (ts ref : UInt64) (shares : UInt32) (number : UInt64) (price : UInt32)
      (printable : Bool)
  | cancel (ts ref : UInt64) (shares : UInt32)
  | delete (ts ref : UInt64)
  | action (ts : UInt64) (stock : Stock) (state : UInt8)
  | cross (ts shares : UInt64) (stock : Stock) (price : UInt32) (number : UInt64)
      (crossType : UInt8)
  | trade (ts : UInt64) (side : UInt8) (shares : UInt32) (stock : Stock) (price : UInt32)
      (number : UInt64)

namespace Encoding

def body : Encoding → List UInt8
  | add ts ref side shares stock price => encodeAdd ts ref side shares stock price
  | execute ts ref shares number => encodeExecute ts ref shares number
  | executePx ts ref shares number price printable =>
      encodeExecutePx ts ref shares number price printable
  | cancel ts ref shares => encodeCancel ts ref shares
  | delete ts ref => encodeDelete ts ref
  | action ts stock state => encodeAction ts stock state
  | cross ts shares stock price number crossType =>
      encodeCross ts shares stock price number crossType
  | trade ts side shares stock price number => encodeTrade ts side shares stock price number

def parsed (out : Message) : Encoding → Option Message
  | add _ ref side shares stock price =>
      some { out with
        type := .add
        ref
        side := if side = 'B'.toUInt8 then .buy else .sell
        qty := shares.toUInt64
        stock := stock.bytes
        price := price.toNat }
  | execute _ ref shares _ => some { out with type := .execute, ref, qty := shares.toUInt64 }
  | executePx _ ref shares _ price _ =>
      some { out with type := .execute, ref, qty := shares.toUInt64, price := price.toNat }
  | cancel _ ref shares => some { out with type := .cancel, ref, qty := shares.toUInt64 }
  | delete _ ref => some { out with type := .delete, ref }
  | action _ stock state => some { out with type := .action, stock := stock.bytes, state }
  | cross .. | trade .. => none

def size : Encoding → Nat
  | add .. => 36
  | execute .. => 31
  | executePx .. => 36
  | cancel .. => 23
  | delete .. => 19
  | action .. => 25
  | cross .. => 40
  | trade .. => 44

theorem length_body (encoding : Encoding) : encoding.body.length = encoding.size := by
  cases encoding <;> simp [body, size, encodeAdd, encodeExecute, encodeExecutePx, encodeCancel,
    encodeDelete, encodeAction, encodeCross, encodeTrade, encHead, enc16, enc32, enc48, enc64,
    Stock.eight]

end Encoding

end Itch

end Matchbook
