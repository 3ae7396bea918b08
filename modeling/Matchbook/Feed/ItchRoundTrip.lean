import Matchbook.Feed.ItchEncode

namespace Matchbook

/-! # Parsing what was encoded -/

namespace Itch

/-! ## Fields -/

theorem be32_enc32 (v : UInt32) (rest : List UInt8) : be32 (enc32 v ++ rest) = v := by
  have spelled := BigEndian.value_bytes 4 v.toNat
  have bytes : enc32 v = BigEndian.bytes 4 v.toNat := by
    have byte (shift : UInt32) (width : Nat) (bits : shift.toNat % 32 = 8 * width) :
        (v >>> shift).toUInt8 = UInt8.ofNat (v.toNat / 256 ^ width) :=
      BigEndian.byte_shifted32 v shift bits
    simp only [enc32, List.map_cons, List.map_nil, BigEndian.bytes]
    rw [byte 24 3 rfl, byte 16 2 rfl, byte 8 1 rfl, byte 0 0 rfl]
  have small : v.toNat < 256 ^ 4 := v.toNat_lt
  rw [← bytes, Nat.mod_eq_of_lt small] at spelled
  apply UInt32.toNat_inj.1
  exact (be32_toNat _ _ _ _ rest).trans spelled

theorem be64_enc64 (v : UInt64) (rest : List UInt8) : be64 (enc64 v ++ rest) = v :=
  Mold.be64_put64 v rest

theorem take_stock (stock : Stock) (rest : List UInt8) :
    (stock.bytes ++ rest).take 8 = stock.bytes := List.take_left' stock.eight

theorem drop_stock (stock : Stock) (rest : List UInt8) : (stock.bytes ++ rest).drop 8 = rest :=
  List.drop_left' stock.eight

/-! ## Bodies -/

def parseSize (kind : UInt8) : Nat :=
  if kind = 'A'.toUInt8 ∨ kind = 'F'.toUInt8 then 36
  else if kind = 'E'.toUInt8 then 31
  else if kind = 'C'.toUInt8 then 36
  else if kind = 'X'.toUInt8 then 23
  else if kind = 'D'.toUInt8 then 19
  else if kind = 'U'.toUInt8 then 35
  else if kind = 'H'.toUInt8 then 25
  else 0

theorem parse_short {body : List UInt8} (out : Message)
    (short : body.length < parseSize (byteAt body 0)) : parse body out = none := by
  unfold parse
  unfold parseSize at short
  grind

theorem parse_untracked {body : List UInt8} (out : Message)
    (other : byteAt body 0 = 'Q'.toUInt8 ∨ byteAt body 0 = 'P'.toUInt8) :
    parse body out = none := by
  unfold parse
  rcases other with kind | kind <;> simp +decide [kind]

section bodies

variable (out : Message) (ts ref : UInt64) (side : UInt8) (shares : UInt32) (stock : Stock)
  (price : UInt32) (number : UInt64)

theorem parse_encodeAdd : parse (encodeAdd ts ref side shares stock price) out =
    (Encoding.add ts ref side shares stock price).parsed out := by
  let body := encodeAdd ts ref side shares stock price
  have kind : byteAt body 0 = 'A'.toUInt8 := rfl
  have length : body.length = 36 := (Encoding.add ts ref side shares stock price).length_body
  have reference : be64 (body.drop 11) = ref := be64_enc64 ref _
  have sided : byteAt body 19 = side := rfl
  have amount : be32 (body.drop 20) = shares := be32_enc32 shares _
  have symbol : (body.drop 24).take 8 = stock.bytes := take_stock stock _
  have priced : be32 (body.drop 32) = price :=
    (congrArg be32 (drop_stock stock (enc32 price))).trans (be32_enc32 price [])
  change parse body out = _
  generalize body = p at *
  simp +decide [parse, Encoding.parsed, kind, length, reference, sided, amount, symbol, priced]

theorem parse_encodeExecute : parse (encodeExecute ts ref shares number) out =
    (Encoding.execute ts ref shares number).parsed out := by
  let body := encodeExecute ts ref shares number
  have kind : byteAt body 0 = 'E'.toUInt8 := rfl
  have length : body.length = 31 := (Encoding.execute ts ref shares number).length_body
  have reference : be64 (body.drop 11) = ref := be64_enc64 ref _
  have amount : be32 (body.drop 19) = shares := be32_enc32 shares _
  change parse body out = _
  generalize body = p at *
  simp +decide [parse, Encoding.parsed, kind, length, reference, amount]

theorem parse_encodeExecutePx (printable : Bool) :
    parse (encodeExecutePx ts ref shares number price printable) out =
      (Encoding.executePx ts ref shares number price printable).parsed out := by
  let body := encodeExecutePx ts ref shares number price printable
  have kind : byteAt body 0 = 'C'.toUInt8 := rfl
  have length : body.length = 36 :=
    (Encoding.executePx ts ref shares number price printable).length_body
  have reference : be64 (body.drop 11) = ref := be64_enc64 ref _
  have amount : be32 (body.drop 19) = shares := be32_enc32 shares _
  have priced : be32 (body.drop 32) = price := be32_enc32 price []
  change parse body out = _
  generalize body = p at *
  simp +decide [parse, Encoding.parsed, kind, length, reference, amount, priced]

theorem parse_encodeCancel :
    parse (encodeCancel ts ref shares) out = (Encoding.cancel ts ref shares).parsed out := by
  let body := encodeCancel ts ref shares
  have kind : byteAt body 0 = 'X'.toUInt8 := rfl
  have length : body.length = 23 := (Encoding.cancel ts ref shares).length_body
  have reference : be64 (body.drop 11) = ref := be64_enc64 ref _
  have amount : be32 (body.drop 19) = shares := be32_enc32 shares []
  change parse body out = _
  generalize body = p at *
  simp +decide [parse, Encoding.parsed, kind, length, reference, amount]

theorem parse_encodeDelete :
    parse (encodeDelete ts ref) out = (Encoding.delete ts ref).parsed out := by
  let body := encodeDelete ts ref
  have kind : byteAt body 0 = 'D'.toUInt8 := rfl
  have length : body.length = 19 := (Encoding.delete ts ref).length_body
  have reference : be64 (body.drop 11) = ref := be64_enc64 ref []
  change parse body out = _
  generalize body = p at *
  simp +decide [parse, Encoding.parsed, kind, length, reference]

theorem parse_encodeAction (state : UInt8) :
    parse (encodeAction ts stock state) out = (Encoding.action ts stock state).parsed out := by
  let body := encodeAction ts stock state
  let behind := state :: ' '.toUInt8 :: List.replicate 4 ' '.toUInt8
  have kind : byteAt body 0 = 'H'.toUInt8 := rfl
  have length : body.length = 25 := (Encoding.action ts stock state).length_body
  have symbol : (body.drop 11).take 8 = stock.bytes := take_stock stock _
  have rest : body.drop 19 = behind := drop_stock stock behind
  have told : byteAt body 19 = state := by
    have same : byteAt (body.drop 19) 0 = state := by
      rw [rest]
      rfl
    simpa [byteAt] using same
  change parse body out = _
  generalize body = p at *
  simp +decide [parse, Encoding.parsed, kind, length, symbol, told]

end bodies

/-! ## Files -/

/-- A body comes back from its bytes, if the parser tracks its type, and from no part of them. -/
structure ParsesBack (encoding : Encoding) (out : Message) : Prop where
  whole : parse encoding.body out = encoding.parsed out
  refused : ∀ p, p <+: encoding.body → p ≠ encoding.body → parse p out = none

theorem Encoding.parsesBack (encoding : Encoding) (out : Message) : ParsesBack encoding out where
  whole := by
    cases encoding with
    | add ts ref side shares stock price => exact parse_encodeAdd out ts ref side shares stock price
    | execute ts ref shares number => exact parse_encodeExecute out ts ref shares number
    | executePx ts ref shares number price printable =>
        exact parse_encodeExecutePx out ts ref shares price number printable
    | cancel ts ref shares => exact parse_encodeCancel out ts ref shares
    | delete ts ref => exact parse_encodeDelete out ts ref
    | action ts stock state => exact parse_encodeAction out ts stock state
    | cross => exact parse_untracked out (.inl rfl)
    | trade => exact parse_untracked out (.inr rfl)
  refused p start strict := by
    have refuse := @Framing.refused_of_prefix UInt8 Message (fun p => parse p out) parseSize
    have whole := encoding.length_body
    cases encoding with
    | cross | trade =>
        cases p with
        | nil => rfl
        | cons kind p =>
            rcases start with ⟨rest, joined⟩
            have same := (List.cons.inj joined).1
            subst same
            exact parse_untracked out (by first | exact .inl rfl | exact .inr rfl)
    | _ => exact refuse (fun _ less => parse_short out less) rfl whole start strict

theorem Encoding.short_body (encoding : Encoding) : encoding.body.length < 2 ^ 16 := by
  rw [encoding.length_body]
  unfold Encoding.size
  split <;> decide

/-- A file of framed bodies is read body by body, and each body parses to what was encoded. -/
theorem readFrames_parsesBack (encodings : List Encoding) :
    readFrames (encodings.flatMap fun encoding => frame encoding.body) =
        encodings.map Encoding.body ∧
      ∀ encoding ∈ encodings, ∀ out, ParsesBack encoding out := by
  have read := Framing.readAll_written readFrame_consumes rfl
    (fun (encoding : Encoding) (_ : encoding ∈ encodings) rest =>
      readFrame_frame encoding.short_body rest) (Nat.lt_succ_self _)
  exact ⟨congrArg Prod.fst read, fun encoding _ out => encoding.parsesBack out⟩

end Itch

end Matchbook
