import Mathlib.Data.List.TakeWhile
import Matchbook.Feed.MoldCodec
import Matchbook.Foundation.BoundedLoop

namespace Matchbook

open BoundedLoop

/-! # The grammar of a packet

A packet is a header and as many blocks as it counts, each behind its length. Those are
the buffers `decode` accepts, with anything behind the last block. -/

namespace Mold

open Itch (be16 be64)

/-! ## The loop of the source -/

/-- The counter of the loop, the offset it has reached, and what it has delivered. -/
structure Cursor where
  i : UInt16
  off : Nat
  blocks : List Block

/-- One round of the loop in `decode`, with the counter it is bounded by. -/
def decodeRound (pkt : List UInt8) (hdr : Header) (cursor : Cursor) :
    Option (Turn Cursor (List Block × Int)) :=
  if cursor.i < hdr.count then
    if cursor.off + 2 > pkt.length then some (.leave (cursor.blocks, -1))
    else
      let mlen := (be16 (pkt.drop cursor.off)).toNat
      let off := cursor.off + 2
      if off + mlen > pkt.length then some (.leave (cursor.blocks, -1))
      else
        some (.again
          { i := cursor.i + 1
            off := off + mlen
            blocks := cursor.blocks ++ [⟨hdr.seq + cursor.i.toUInt64, off, mlen⟩] })
  else some (.leave (cursor.blocks, hdr.count.toNat))

/-- The loop ends after as many rounds as blocks are counted, and one that finds none. -/
theorem loop_decodeRound (pkt : List UInt8) (hdr : Header) (left : Nat) (cursor : Cursor)
    (counts : cursor.i.toNat + left = hdr.count.toNat) :
    loop (decodeRound pkt hdr) (left + 1) cursor =
      some (cursor.blocks ++ (decodeBlocks pkt hdr.seq left cursor.i cursor.off).1,
        if (decodeBlocks pkt hdr.seq left cursor.i cursor.off).2 then (hdr.count.toNat : Int)
        else -1) := by
  have small := hdr.count.toNat_lt
  induction left generalizing cursor with
  | zero =>
      have ended : ¬ cursor.i < hdr.count := by
        rw [UInt16.lt_iff_toNat_lt]
        omega
      apply loop_leave
      simp [decodeRound, ended, decodeBlocks]
  | succ left induction =>
      have goesOn : cursor.i < hdr.count := by
        rw [UInt16.lt_iff_toNat_lt]
        omega
      have next : (cursor.i + 1).toNat = cursor.i.toNat + 1 := by
        rw [UInt16.toNat_add]
        exact Nat.mod_eq_of_lt (by change cursor.i.toNat + 1 < 2 ^ 16; omega)
      rw [decodeBlocks]
      by_cases truncated : cursor.off + 2 > pkt.length
      · rw [if_pos truncated]
        apply loop_leave
        simp [decodeRound, goesOn, truncated]
      · rw [if_neg truncated]
        dsimp only
        by_cases cut : cursor.off + 2 + (be16 (pkt.drop cursor.off)).toNat > pkt.length
        · rw [if_pos cut]
          apply loop_leave
          simp [decodeRound, goesOn, truncated, cut]
        · rw [if_neg cut]
          have round : decodeRound pkt hdr cursor = some (.again
              { i := cursor.i + 1
                off := cursor.off + 2 + (be16 (pkt.drop cursor.off)).toNat
                blocks := cursor.blocks ++ [⟨hdr.seq + cursor.i.toUInt64, cursor.off + 2,
                  (be16 (pkt.drop cursor.off)).toNat⟩] }) := by
            simp only [decodeRound, goesOn, truncated, cut, if_true, if_false]
          rw [loop_again round, induction _ (by dsimp only; omega)]
          simp only [List.append_assoc, List.singleton_append]

/-! ## Where the blocks lie -/

/-- The blocks follow one another from `off` on, each behind the two bytes of its length. -/
def Adjacent : Nat → List Block → Prop
  | _, [] => True
  | off, block :: blocks => block.off = off + 2 ∧ Adjacent (block.off + block.len) blocks

theorem decodeBlocks_adjacent (pkt : List UInt8) (seq : UInt64) (left : Nat) (i : UInt16)
    (off : Nat) : Adjacent off (decodeBlocks pkt seq left i off).1 := by
  induction left generalizing i off with
  | zero => trivial
  | succ left induction =>
      rw [decodeBlocks]
      split
      · trivial
      · dsimp only
        split
        · trivial
        · exact ⟨rfl, induction _ _⟩

theorem decodeBlocks_inside (pkt : List UInt8) (seq : UInt64) (left : Nat) (i : UInt16)
    (off : Nat) : ∀ block ∈ (decodeBlocks pkt seq left i off).1,
      off + 2 ≤ block.off ∧ block.off + block.len ≤ pkt.length := by
  induction left generalizing i off with
  | zero => exact fun block member => absurd member List.not_mem_nil
  | succ left induction =>
      rw [decodeBlocks]
      split
      · exact fun block member => absurd member List.not_mem_nil
      · dsimp only
        split
        · exact fun block member => absurd member List.not_mem_nil
        · rename_i whole
          intro block member
          rcases List.mem_cons.mp member with rfl | later
          · exact ⟨Nat.le_refl _, Nat.le_of_not_gt whole⟩
          · have behind := induction _ _ block later
            exact ⟨by omega, behind.2⟩

theorem Adjacent.above {off : Nat} {blocks : List Block} (adjacent : Adjacent off blocks) :
    ∀ block ∈ blocks, off + 2 ≤ block.off := by
  induction blocks generalizing off with
  | nil => exact fun block member => absurd member List.not_mem_nil
  | cons head blocks induction =>
      intro block member
      rcases List.mem_cons.mp member with rfl | later
      · exact Nat.le_of_eq adjacent.1.symm
      · have behind := induction adjacent.2 block later
        have first := adjacent.1
        omega

theorem Adjacent.disjoint {off : Nat} {blocks : List Block} (adjacent : Adjacent off blocks) :
    blocks.Pairwise fun block later => block.off + block.len ≤ later.off := by
  induction blocks generalizing off with
  | nil => exact .nil
  | cons head blocks induction =>
      refine .cons (fun later member => ?_) (induction adjacent.2)
      exact Nat.le_of_add_right_le (adjacent.2.above later member)

/-! ## What is accepted -/

/-- The buffer has `count` whole blocks from `off` on. -/
def Frames (pkt : List UInt8) (off count : Nat) : Prop :=
  ∃ msgs : List (List UInt8), msgs.length = count ∧ (∀ m ∈ msgs, m.length ≤ 65535) ∧
    putBlocks msgs <+: pkt.drop off

theorem putBlocks_cons (m : List UInt8) (msgs : List (List UInt8)) :
    putBlocks (m :: msgs) = put16 (UInt16.ofNat m.length) ++ (m ++ putBlocks msgs) := by
  rw [putBlocks, List.flatMap_cons, List.append_assoc]
  rfl

theorem toNat_length {m : List UInt8} (short : m.length ≤ 65535) :
    (UInt16.ofNat m.length).toNat = m.length := by
  rw [UInt16.toNat_ofNat']
  exact Nat.mod_eq_of_lt (by omega)

theorem put16_be16 {stream : List UInt8} (two : 2 ≤ stream.length) :
    put16 (be16 stream) = stream.take 2 := by
  match stream, two with
  | a :: b :: rest, _ =>
      rw [put16_eq, Itch.be16_toNat]
      exact BigEndian.bytes_value [a, b]

theorem be16_block {m rest stream : List UInt8} (short : m.length ≤ 65535)
    (begins : put16 (UInt16.ofNat m.length) ++ (m ++ rest) <+: stream) :
    (be16 stream).toNat = m.length := by
  rcases begins with ⟨more, rfl⟩
  rw [List.append_assoc, be16_put16, toNat_length short]

theorem frames_of_complete {pkt : List UInt8} {seq : UInt64} {left : Nat} {i : UInt16} {off : Nat}
    (complete : (decodeBlocks pkt seq left i off).2 = true) : Frames pkt off left := by
  induction left generalizing i off with
  | zero => exact ⟨[], rfl, fun m member => absurd member List.not_mem_nil, List.nil_prefix⟩
  | succ left induction =>
      rw [decodeBlocks] at complete
      split at complete
      · cases complete
      rename_i inside
      dsimp only at complete
      split at complete
      · cases complete
      rename_i whole
      rcases induction complete with ⟨msgs, number, short, begins⟩
      generalize size : (be16 (pkt.drop off)).toNat = len at whole begins
      let m := (pkt.drop (off + 2)).take len
      have length : m.length = len := by
        rw [List.length_take, List.length_drop]
        omega
      have small : m.length ≤ 65535 := by
        have below := (be16 (pkt.drop off)).toNat_lt
        omega
      refine ⟨m :: msgs, congrArg (· + 1) number, List.forall_mem_cons.mpr ⟨small, short⟩, ?_⟩
      have spelled : put16 (UInt16.ofNat m.length) = (pkt.drop off).take 2 := by
        rw [length, ← size, UInt16.ofNat_toNat]
        exact put16_be16 (by rw [List.length_drop]; omega)
      have first : pkt.drop off = (pkt.drop off).take 2 ++ pkt.drop (off + 2) := by
        rw [← List.drop_drop, List.take_append_drop]
      have second : pkt.drop (off + 2) = m ++ pkt.drop (off + 2 + len) := by
        have split := List.take_append_drop len (pkt.drop (off + 2))
        rw [List.drop_drop] at split
        exact split.symm
      generalize (pkt.drop off).take 2 = two at first spelled
      rw [putBlocks_cons, spelled, first, second]
      exact (List.prefix_append_right_inj _).mpr ((List.prefix_append_right_inj _).mpr begins)

theorem complete_of_frames {pkt : List UInt8} {left off : Nat} (frames : Frames pkt off left)
    (seq : UInt64) (i : UInt16) (within : off ≤ pkt.length) :
    (decodeBlocks pkt seq left i off).2 = true := by
  rcases frames with ⟨msgs, rfl, short, begins⟩
  induction msgs generalizing i off with
  | nil => rfl
  | cons m msgs induction =>
      rw [putBlocks_cons] at begins
      have shortM := short m List.mem_cons_self
      have size := be16_block shortM begins
      have room := begins.length_le
      simp only [List.length_append, length_put16, List.length_drop] at room
      have rest : putBlocks msgs <+: pkt.drop (off + 2 + m.length) := by
        rcases begins with ⟨more, whole⟩
        refine ⟨more, ?_⟩
        have front : (put16 (UInt16.ofNat m.length) ++ m).length = 2 + m.length := by simp
        rw [Nat.add_assoc, ← List.drop_drop, ← whole, ← front, ← List.append_assoc,
          List.append_assoc, List.drop_left]
      rw [List.length_cons, decodeBlocks, if_neg (by omega)]
      dsimp only
      rw [size, if_neg (by omega)]
      exact induction (i + 1) (by omega) (fun other member => short other (.tail m member)) rest

theorem complete_iff {pkt : List UInt8} {seq : UInt64} {left : Nat} {i : UInt16} {off : Nat}
    (within : off ≤ pkt.length) :
    (decodeBlocks pkt seq left i off).2 = true ↔ Frames pkt off left :=
  ⟨frames_of_complete, fun frames => complete_of_frames frames seq i within⟩

theorem putBlocks_prefix {msgs msgs' : List (List UInt8)} (number : msgs'.length = msgs.length)
    (short' : ∀ m ∈ msgs', m.length ≤ 65535) (short : ∀ m ∈ msgs, m.length ≤ 65535)
    (begins : putBlocks msgs' <+: putBlocks msgs) : msgs' = msgs := by
  induction msgs' generalizing msgs with
  | nil => exact (List.length_eq_zero_iff.mp number.symm).symm
  | cons m' msgs' induction =>
      cases msgs with
      | nil => cases number
      | cons m msgs =>
          rw [putBlocks_cons, putBlocks_cons] at begins
          have size := be16_block (short' m' List.mem_cons_self) begins
          rw [be16_put16, toNat_length (short m List.mem_cons_self)] at size
          rw [size, List.prefix_append_right_inj] at begins
          have first : m' = m := by
            have both := List.prefix_of_prefix_length_le ((List.prefix_append m' _).trans begins)
              (List.prefix_append m (putBlocks msgs)) (Nat.le_of_eq size.symm)
            exact both.eq_of_length size.symm
          subst first
          rw [List.prefix_append_right_inj] at begins
          rw [induction (Nat.succ.inj number) (fun other member => short' other (.tail m' member))
            (fun other member => short other (.tail m' member)) begins]

/-! ## Whole packets -/

theorem decode_counted {pkt : List UInt8} (header : headerSize ≤ pkt.length)
    (notEnd : be16 (pkt.drop 18) ≠ endOfSession) :
    decode pkt =
      { hdr := some ⟨pkt.take 10 ++ [0], be64 (pkt.drop 10), be16 (pkt.drop 18)⟩
        blocks := (decodeBlocks pkt (be64 (pkt.drop 10)) (be16 (pkt.drop 18)).toNat 0 headerSize).1
        result :=
          if (decodeBlocks pkt (be64 (pkt.drop 10)) (be16 (pkt.drop 18)).toNat 0 headerSize).2 then
            (be16 (pkt.drop 18)).toNat
          else -1 } := by
  rw [decode, if_neg (by omega)]
  dsimp only
  rw [if_neg notEnd]

theorem decode_truncated {pkt : List UInt8} (truncated : pkt.length < headerSize) :
    decode pkt = ⟨none, [], -1⟩ := by
  rw [decode, if_pos truncated]

theorem decode_blocks (pkt : List UInt8) : ∃ seq left i,
    (decode pkt).blocks = (decodeBlocks pkt seq left i headerSize).1 := by
  by_cases header : headerSize ≤ pkt.length
  · by_cases notEnd : be16 (pkt.drop 18) = endOfSession
    · refine ⟨0, 0, 0, ?_⟩
      rw [decode, if_neg (by omega)]
      dsimp only
      rw [if_pos notEnd]
      rfl
    · exact ⟨_, _, _, by rw [decode_counted header notEnd]⟩
  · exact ⟨0, 0, 0, by rw [decode_truncated (Nat.lt_of_not_le header)]; rfl⟩

theorem loop_decode {pkt : List UInt8} {hdr : Header} (read : (decode pkt).hdr = some hdr)
    (notEnd : hdr.count ≠ endOfSession) :
    loop (decodeRound pkt hdr) 65536 ⟨0, headerSize, []⟩ =
      some ((decode pkt).blocks, (decode pkt).result) := by
  have header : headerSize ≤ pkt.length := by
    by_contra truncated
    rw [decode_truncated (Nat.lt_of_not_le truncated)] at read
    cases read
  have count : be16 (pkt.drop 18) = hdr.count := by
    rw [decode, if_neg (by omega)] at read
    dsimp only at read
    split at read <;> cases read <;> rfl
  rw [decode_counted header (count ▸ notEnd)] at read ⊢
  cases read
  have ends := loop_decodeRound pkt
    ⟨pkt.take 10 ++ [0], be64 (pkt.drop 10), be16 (pkt.drop 18)⟩ (be16 (pkt.drop 18)).toNat
    ⟨0, headerSize, []⟩ (Nat.zero_add _)
  have few := (be16 (pkt.drop 18)).toNat_lt
  exact loop_mono (Nat.succ_le_of_lt few) ends

theorem result_iff {pkt : List UInt8} (notEnd : be16 (pkt.drop 18) ≠ endOfSession) (n : Nat) :
    (decode pkt).result = n ↔
      headerSize ≤ pkt.length ∧ n = (be16 (pkt.drop 18)).toNat ∧ Frames pkt headerSize n := by
  by_cases header : headerSize ≤ pkt.length
  · rw [decode_counted header notEnd, and_iff_right header]
    dsimp only
    split
    · rename_i complete
      rw [complete_iff header] at complete
      rw [Nat.cast_inj]
      constructor
      · rintro rfl
        exact ⟨rfl, complete⟩
      · exact fun same => same.1.symm
    · rename_i broken
      rw [complete_iff header] at broken
      constructor
      · intro refused
        omega
      · rintro ⟨rfl, frames⟩
        exact absurd frames broken
  · rw [decode_truncated (Nat.lt_of_not_le header)]
    constructor
    · intro refused
      dsimp only at refused
      omega
    · exact fun accepted => absurd accepted.1 header

section encoded

variable {session : List UInt8} (seq : UInt64) {msgs : List (List UInt8)}

theorem padSession_eq (nulFree : 0 ∉ session) :
    padSession session = (session ++ List.replicate 10 ' '.toUInt8).take 10 := by
  have whole : session.takeWhile (· ≠ 0) = session := by
    rw [List.takeWhile_eq_self_iff]
    intro byte member
    exact decide_eq_true fun zero => nulFree (zero ▸ member)
  rw [padSession, whole]

theorem hdr_encode (few : msgs.length < 65535) : (decode (encode session seq msgs)).hdr =
    some ⟨padSession session ++ [0], seq, UInt16.ofNat msgs.length⟩ := by
  have notEnd : be16 ((encode session seq msgs).drop 18) ≠ endOfSession := by
    rw [be16_encode]
    intro same
    have number : (UInt16.ofNat msgs.length).toNat = 65535 := congrArg UInt16.toNat same
    rw [UInt16.toNat_ofNat', Nat.mod_eq_of_lt (by omega)] at number
    omega
  have field : (encode session seq msgs).take 10 = padSession session := by
    rw [encode, List.append_assoc, List.append_assoc, ← length_padSession session, List.take_left]
  rw [decode_counted (by rw [length_encode]; omega) notEnd, field, be64_encode, be16_encode]

theorem decode_prefix (few : msgs.length < 65535) (short : ∀ m ∈ msgs, m.length ≤ 65535)
    {start : List UInt8} (begins : start <+: encode session seq msgs)
    (strict : start ≠ encode session seq msgs) : (decode start).result = -1 := by
  by_cases header : headerSize ≤ start.length
  · rcases begins with ⟨rest, whole⟩
    have fields : 20 ≤ start.length := header
    have count : be16 (start.drop 18) = UInt16.ofNat msgs.length := by
      rw [← be16_encode session seq msgs, ← whole, List.drop_append_of_le_length (by omega)]
      have two : 2 ≤ (start.drop 18).length := by
        rw [List.length_drop]
        omega
      match start.drop 18, two with
      | a :: b :: more, _ => rfl
    have number : (be16 (start.drop 18)).toNat = msgs.length := by
      rw [count, UInt16.toNat_ofNat']
      exact Nat.mod_eq_of_lt (by omega)
    have notEnd : be16 (start.drop 18) ≠ endOfSession := by
      intro same
      rw [same] at number
      change 65535 = msgs.length at number
      omega
    rw [decode_counted header notEnd]
    dsimp only
    rw [if_neg]
    rw [complete_iff header, number]
    rintro ⟨msgs', same, short', begins'⟩
    have front : (padSession session ++ put64 seq ++ put16 (UInt16.ofNat msgs.length)).length =
        headerSize := by simp [headerSize]
    have body : start.drop headerSize ++ rest = putBlocks msgs := by
      rw [← List.drop_append_of_le_length header, whole, encode, ← front, List.drop_left]
    have equal := putBlocks_prefix same short' short (begins'.trans ⟨rest, body⟩)
    -- the blocks of the messages are all there, so nothing is missing
    have full := begins'.length_le
    have lengths := congrArg List.length body
    rw [equal] at full
    rw [List.length_append] at lengths
    have none : rest = [] := List.length_eq_zero_iff.mp (by omega)
    rw [none, List.append_nil] at whole
    exact strict whole
  · rw [decode_truncated (Nat.lt_of_not_le header)]

end encoded

/-- What is encoded is decoded as it was, and refused if its end is missing. Of any buffer
the loop delivers blocks that lie behind one another in it, and it is accepted if and only
if it has the blocks that its header counts. -/
theorem packet_grammar :
    (∀ (session : List UInt8) (seq : UInt64) (msgs : List (List UInt8)), 0 ∉ session →
      msgs.length < 65535 → (∀ m ∈ msgs, m.length ≤ 65535) →
      let pkt := encode session seq msgs
      (decode pkt).hdr = some ⟨(session ++ List.replicate 10 ' '.toUInt8).take 10 ++ [0], seq,
        UInt16.ofNat msgs.length⟩ ∧
      (decode pkt).blocks.map (Block.seen pkt) = numbered seq msgs ∧
      (decode pkt).result = msgs.length ∧
      ∀ start, start <+: pkt → start ≠ pkt → (decode start).result = -1) ∧
    ∀ pkt : List UInt8,
      (∀ hdr, (decode pkt).hdr = some hdr → hdr.count ≠ endOfSession →
        loop (decodeRound pkt hdr) 65536 ⟨0, headerSize, []⟩ =
          some ((decode pkt).blocks, (decode pkt).result)) ∧
      (∀ block ∈ (decode pkt).blocks,
        headerSize ≤ block.off ∧ block.off + block.len ≤ pkt.length) ∧
      Adjacent headerSize (decode pkt).blocks ∧
      ((decode pkt).blocks.Pairwise fun block later => block.off + block.len ≤ later.off) ∧
      (be16 (pkt.drop 18) ≠ endOfSession → ∀ n : Nat, (decode pkt).result = n ↔
        headerSize ≤ pkt.length ∧ n = (be16 (pkt.drop 18)).toNat ∧ Frames pkt headerSize n) := by
  constructor
  · intro session seq msgs nulFree few short
    have roundTrip := decode_encode session seq few short
    refine ⟨?_, roundTrip.2, roundTrip.1, fun start => decode_prefix seq few short⟩
    rw [← padSession_eq nulFree]
    exact hdr_encode seq few
  · intro pkt
    rcases decode_blocks pkt with ⟨seq, left, i, blocks⟩
    have adjacent := decodeBlocks_adjacent pkt seq left i headerSize
    rw [← blocks] at adjacent
    refine ⟨fun hdr => loop_decode, ?_, adjacent, adjacent.disjoint, result_iff⟩
    intro block member
    rw [blocks] at member
    have inside := decodeBlocks_inside pkt seq left i headerSize block member
    exact ⟨Nat.le_of_add_right_le inside.1, inside.2⟩

/-- Three messages, the last of them empty. -/
theorem packet_grammar_sesh :
    let pkt := encode "SESH".toUTF8.toList 7 [[97, 98, 99], [100], []]
    (decode pkt).blocks.map (Block.seen pkt) = [(7, [97, 98, 99]), (8, [100]), (9, [])] ∧
      ∀ start, start <+: pkt → start ≠ pkt → (decode start).result = -1 := by
  have grammar := packet_grammar.1 "SESH".toUTF8.toList 7 [[97, 98, 99], [100], []]
    (by decide +kernel) (by decide) (by decide)
  exact ⟨grammar.2.1, grammar.2.2.2⟩

end Mold

end Matchbook
