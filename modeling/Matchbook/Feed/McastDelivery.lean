import Matchbook.Foundation.NumberedStream
import Matchbook.Feed.MoldCodec
import Matchbook.Feed.Mcast

namespace Matchbook

/-! # Delivery over a lossy transport -/

namespace Mold

namespace SequenceTracker

variable {tracker : SequenceTracker} {seq : UInt64} {count : UInt16}

/-! ## The three ways a packet can lie -/

theorem onPacket_ahead (ahead : tracker.expected < seq) :
    tracker.onPacket seq count =
      (0, { expected := seq + count.toUInt64
            gapMsgs := tracker.gapMsgs + (seq - tracker.expected) }) := by
  simp only [onPacket, if_pos (show seq > tracker.expected from ahead), UInt64.sub_self]
  split
  case isTrue none =>
      have isZero : count = 0 := by
        apply UInt16.toNat_inj.1
        have le := UInt64.le_iff_toNat_le.1 none
        rw [UInt16.toNat_toUInt64] at le
        exact Nat.le_zero.1 le
      subst isZero
      simp
  case isFalse => rfl

theorem onPacket_stale (notAhead : seq ≤ tracker.expected)
    (stale : count.toUInt64 ≤ tracker.expected - seq) :
    tracker.onPacket seq count = (count, tracker) := by
  simp only [onPacket, if_neg (UInt64.not_lt.2 notAhead)]
  exact if_pos stale

theorem onPacket_new (notAhead : seq ≤ tracker.expected)
    (new : tracker.expected - seq < count.toUInt64) :
    tracker.onPacket seq count =
      ((tracker.expected - seq).toUInt16,
        { tracker with expected := seq + count.toUInt64 }) := by
  simp only [onPacket, if_neg (UInt64.not_lt.2 notAhead)]
  exact if_neg (UInt64.not_le.2 new)

/-! ## The exact counts -/

structure Tracks (tracker : SequenceTracker) (reception : Reception) : Prop where
  expected : tracker.expected = UInt64.ofNat reception.expected
  gapMsgs : tracker.gapMsgs = UInt64.ofNat reception.missed

theorem tracks_start : Tracks {} .start := ⟨rfl, rfl⟩

variable {reception : Reception}

/-- As long as nothing wraps, a packet arrives at the tracker as it does at the
reception, and the tracker skips what the reception has. -/
theorem Tracks.onPacket (tracks : tracker.Tracks reception) (number size : Nat)
    (inside : reception.expected < 2 ^ 64) (fits : number + size < 2 ^ 64)
    (small : size < 2 ^ 16) :
    (tracker.onPacket (.ofNat number) (.ofNat size)).2.Tracks (reception.arrive number size) ∧
      (tracker.onPacket (.ofNat number) (.ofNat size)).1.toNat =
        min (reception.expected - number) size := by
  have isNumber : (UInt64.ofNat number).toNat = number :=
    UInt64.toNat_ofNat_of_lt' (by change number < 2 ^ 64; omega)
  have isExpected : (UInt64.ofNat reception.expected).toNat = reception.expected :=
    UInt64.toNat_ofNat_of_lt' inside
  have isSize : (UInt16.ofNat size).toNat = size := UInt16.toNat_ofNat_of_lt' small
  have wide : (UInt16.ofNat size).toUInt64 = UInt64.ofNat size := by
    apply UInt64.toNat_inj.1
    rw [UInt16.toNat_toUInt64, isSize]
    exact (UInt64.toNat_ofNat_of_lt' (by change size < 2 ^ 64; omega)).symm
  rcases Nat.lt_or_ge reception.expected number with ahead | behind
  · have aheadWord : tracker.expected < .ofNat number := by
      rw [tracks.expected, UInt64.lt_iff_toNat_lt, isNumber, isExpected]
      exact ahead
    rw [onPacket_ahead aheadWord]
    refine ⟨⟨?_, ?_⟩, ?_⟩
    · have further : reception.expected ≤ number + size := by omega
      rw [Reception.expected_arrive, wide, ← UInt64.ofNat_add, Nat.max_eq_right further]
    · rw [Reception.missed_arrive, tracks.gapMsgs, tracks.expected, ← UInt64.ofNat_sub ahead.le,
        ← UInt64.ofNat_add]
    · change 0 = _
      omega
  · have notAhead : .ofNat number ≤ tracker.expected := by
      rw [tracks.expected, UInt64.le_iff_toNat_le, isNumber, isExpected]
      exact behind
    have distance : tracker.expected - .ofNat number = .ofNat (reception.expected - number) := by
      rw [tracks.expected, UInt64.ofNat_sub behind]
    have isDistance : (UInt64.ofNat (reception.expected - number)).toNat =
        reception.expected - number :=
      UInt64.toNat_ofNat_of_lt' (by change reception.expected - number < 2 ^ 64; omega)
    have noGap : number - reception.expected = 0 := by omega
    rcases Nat.lt_or_ge (reception.expected - number) size with new | stale
    · have newWord : tracker.expected - .ofNat number < (UInt16.ofNat size).toUInt64 := by
        rw [distance, UInt64.lt_iff_toNat_lt, isDistance, UInt16.toNat_toUInt64, isSize]
        exact new
      rw [onPacket_new notAhead newWord]
      refine ⟨⟨?_, ?_⟩, ?_⟩
      · have further : reception.expected ≤ number + size := by omega
        rw [Reception.expected_arrive, wide, ← UInt64.ofNat_add, Nat.max_eq_right further]
      · rw [Reception.missed_arrive, noGap]
        exact tracks.gapMsgs
      · rw [distance, UInt64.toNat_toUInt16, isDistance]
        omega
    · have staleWord : (UInt16.ofNat size).toUInt64 ≤ tracker.expected - .ofNat number := by
        rw [distance, UInt64.le_iff_toNat_le, isDistance, UInt16.toNat_toUInt64, isSize]
        exact stale
      rw [onPacket_stale notAhead staleWord]
      refine ⟨⟨?_, ?_⟩, ?_⟩
      · have behindAll : number + size ≤ reception.expected := by omega
        rw [Reception.expected_arrive, tracks.expected, Nat.max_eq_left behindAll]
      · rw [Reception.missed_arrive, noGap]
        exact tracks.gapMsgs
      · rw [isSize]
        omega

end SequenceTracker

end Mold

namespace Mcast

open Mold
open Itch (be16 be64)

namespace Receiver

variable (padded pkt : List UInt8) (skip : UInt16) {receiver : Receiver}

@[simp] theorem applied_applyBlock (seq : UInt64) (body : List UInt8) :
    (receiver.applyBlock padded seq body).applied = receiver.applied ++ [(seq, body)] := by
  unfold applyBlock
  split
  · rfl
  · split <;> rfl

@[simp] theorem tracker_applyBlock (seq : UInt64) (body : List UInt8) :
    (receiver.applyBlock padded seq body).tracker = receiver.tracker := by
  unfold applyBlock
  split
  · rfl
  · split <;> rfl

@[simp] theorem eos_applyBlock (seq : UInt64) (body : List UInt8) :
    (receiver.applyBlock padded seq body).eos = receiver.eos := by
  unfold applyBlock
  split
  · rfl
  · split <;> rfl

/-- The callback applies what comes after the first `skip` blocks, and nothing else. -/
theorem foldl_onBlock (blocks : List Block) (block : UInt16)
    (fits : block.toNat + blocks.length < 2 ^ 16) (receiver : Receiver) :
    (blocks.foldl (onBlock padded pkt skip) (block, receiver)).2.applied =
        receiver.applied ++ (blocks.map (Block.seen pkt)).drop (skip.toNat - block.toNat) ∧
      (blocks.foldl (onBlock padded pkt skip) (block, receiver)).2.tracker = receiver.tracker ∧
      (blocks.foldl (onBlock padded pkt skip) (block, receiver)).2.eos = receiver.eos := by
  induction blocks generalizing block receiver with
  | nil => simp
  | cons first blocks induction =>
      have next : (block + 1).toNat = block.toNat + 1 := by
        simp only [List.length_cons] at fits
        rw [UInt16.toNat_add]
        exact Nat.mod_eq_of_lt (by change block.toNat + 1 < 2 ^ 16; omega)
      have rest := induction (block + 1) (by simp only [List.length_cons] at fits; omega)
      rw [List.foldl_cons, onBlock]
      split
      case isTrue seen =>
          have behind : block.toNat < skip.toNat := UInt16.lt_iff_toNat_lt.1 seen
          have dropped : skip.toNat - block.toNat = skip.toNat - (block.toNat + 1) + 1 := by omega
          rw [dropped, List.map_cons, List.drop_succ_cons, ← next]
          exact rest receiver
      case isFalse new =>
          have reached : ¬ block.toNat < skip.toNat := fun behind =>
            new (UInt16.lt_iff_toNat_lt.2 behind)
          have noneLeft : skip.toNat - block.toNat = 0 := by omega
          have noneLater : skip.toNat - (block.toNat + 1) = 0 := by omega
          have applied := rest (receiver.applyBlock padded first.seq (first.payload pkt))
          rw [next, noneLater] at applied
          rw [noneLeft, List.map_cons, List.drop_zero]
          simpa [Block.seen] using applied

/-- A data packet, whole or not, applies the blocks found that the tracker does not skip. -/
theorem onDatagram_blocks (header : headerSize ≤ pkt.length)
    (notEnd : be16 (pkt.drop 18) ≠ endOfSession) (notZero : be16 (pkt.drop 18) ≠ 0)
    (receiver : Receiver) :
    (receiver.onDatagram padded pkt).applied =
        receiver.applied ++ ((decode pkt).blocks.map (Block.seen pkt)).drop
          (receiver.tracker.onPacket (be64 (pkt.drop 10)) (be16 (pkt.drop 18))).1.toNat ∧
      (receiver.onDatagram padded pkt).tracker =
        (receiver.tracker.onPacket (be64 (pkt.drop 10)) (be16 (pkt.drop 18))).2 ∧
      (receiver.onDatagram padded pkt).eos = receiver.eos := by
  have few := length_blocks_lt pkt
  have folded := foldl_onBlock padded pkt
    (receiver.tracker.onPacket (be64 (pkt.drop 10)) (be16 (pkt.drop 18))).1
    (decode pkt).blocks 0 (by change 0 + (decode pkt).blocks.length < 2 ^ 16; omega)
    { receiver with
      tracker := (receiver.tracker.onPacket (be64 (pkt.drop 10)) (be16 (pkt.drop 18))).2 }
  rw [onDatagram, if_neg (by omega)]
  simp only
  rw [if_neg (by simp [notEnd, notZero])]
  split <;> exact folded

variable (session : List UInt8) (seq : UInt64) {msgs : List (List UInt8)}

theorem onDatagram_encode (nonempty : msgs ≠ []) (few : msgs.length < 65535)
    (short : ∀ m ∈ msgs, m.length ≤ 65535) (receiver : Receiver) :
    (receiver.onDatagram padded (encode session seq msgs)).applied =
        receiver.applied ++ (numbered seq msgs).drop
          (receiver.tracker.onPacket seq (UInt16.ofNat msgs.length)).1.toNat ∧
      (receiver.onDatagram padded (encode session seq msgs)).tracker =
        (receiver.tracker.onPacket seq (UInt16.ofNat msgs.length)).2 ∧
      (receiver.onDatagram padded (encode session seq msgs)).eos = receiver.eos := by
  have size := length_encode session seq msgs
  have decoded := decode_encode session seq few short
  have positive := List.length_pos_of_ne_nil nonempty
  have count : (UInt16.ofNat msgs.length).toNat = msgs.length :=
    UInt16.toNat_ofNat_of_lt' (by change msgs.length < 2 ^ 16; omega)
  have notEnd : UInt16.ofNat msgs.length ≠ endOfSession := by
    intro same
    rw [same] at count
    exact absurd count.symm (Nat.ne_of_lt few)
  have notZero : UInt16.ofNat msgs.length ≠ 0 := by
    intro same
    rw [same] at count
    exact absurd count (Nat.ne_of_lt positive)
  have stepped := onDatagram_blocks padded (encode session seq msgs) (by omega)
    (by rw [be16_encode]; exact notEnd) (by rw [be16_encode]; exact notZero) receiver
  rw [be64_encode, be16_encode, decoded.2] at stepped
  exact stepped

theorem onDatagram_encodeEnd (receiver : Receiver) :
    (receiver.onDatagram padded (encodeEnd session seq)).applied = receiver.applied ∧
      (receiver.onDatagram padded (encodeEnd session seq)).tracker =
        (receiver.tracker.onPacket seq 0).2 ∧
      (receiver.onDatagram padded (encodeEnd session seq)).eos = true := by
  have size := length_encodeEnd session seq
  rw [onDatagram, if_neg (by omega)]
  simp [be64_encodeEnd, be16_encodeEnd]

end Receiver

/-! ## What the sender puts on the wire -/

def entry (msgs : List (List UInt8)) (number : Nat) : UInt64 × List UInt8 :=
  (UInt64.ofNat number, msgs.getD (number - 1) [])

theorem numbered_eq (before batch after : List (List UInt8)) :
    numbered (UInt64.ofNat (before.length + 1)) batch =
      (List.range' (before.length + 1) batch.length).map (entry (before ++ batch ++ after)) := by
  induction batch generalizing before with
  | nil => rfl
  | cons m batch induction =>
      have later := induction (before ++ [m])
      have next : UInt64.ofNat (before.length + 1) + 1 = UInt64.ofNat (before.length + 1 + 1) :=
        (UInt64.ofNat_add _ 1).symm
      simp only [List.length_append, List.length_singleton, List.append_assoc,
        List.singleton_append] at later
      rw [numbered, List.length_cons, List.range'_succ, List.map_cons, next, later]
      simp [entry]

/-- A packet is a batch under the number of its first message, or ends the session. -/
theorem mem_packets (start : Nat) {batches : List (List (List UInt8))} {pkt : List UInt8}
    (member : pkt ∈ packets (UInt64.ofNat start) batches) :
    (∃ before batch after, batches = before ++ batch :: after ∧
        pkt = encode session (UInt64.ofNat (start + before.flatten.length)) batch) ∨
      pkt = encodeEnd session (UInt64.ofNat (start + batches.flatten.length)) := by
  induction batches generalizing start with
  | nil => exact .inr (List.mem_singleton.1 member)
  | cons batch batches induction =>
      rcases List.mem_cons.1 member with first | later
      · exact .inl ⟨[], batch, batches, rfl, first⟩
      · rw [← UInt64.ofNat_add] at later
        rcases induction _ later with ⟨before, found, after, rfl, isPacket⟩ | isEnd
        · refine .inl ⟨batch :: before, found, after, rfl, ?_⟩
          rw [isPacket, List.flatten_cons, List.length_append, Nat.add_assoc]
        · refine .inr ?_
          rw [isEnd, List.flatten_cons, List.length_append, Nat.add_assoc]

theorem mem_packets_of_split (start : Nat) (before : List (List (List UInt8)))
    (batch : List (List UInt8)) (after : List (List (List UInt8))) :
    encode session (UInt64.ofNat (start + before.flatten.length)) batch ∈
      packets (UInt64.ofNat start) (before ++ batch :: after) := by
  induction before generalizing start with
  | nil => exact List.mem_cons_self
  | cons first before induction =>
      have later := induction (start + first.length)
      rw [List.flatten_cons, List.length_append, ← Nat.add_assoc, List.cons_append, packets,
        ← UInt64.ofNat_add]
      exact List.mem_cons_of_mem _ later

def dataPackets (seq : UInt64) : List (List (List UInt8)) → List (List UInt8)
  | [] => []
  | batch :: batches =>
    encode session seq batch :: dataPackets (seq + UInt64.ofNat batch.length) batches

theorem packets_eq (seq : UInt64) (batches : List (List (List UInt8))) :
    packets seq batches = dataPackets seq batches ++
      [encodeEnd session (seq + UInt64.ofNat batches.flatten.length)] := by
  induction batches generalizing seq with
  | nil => simp [packets, dataPackets]
  | cons batch batches induction =>
      rw [packets, dataPackets, induction, List.flatten_cons, List.length_append,
        UInt64.ofNat_add, UInt64.add_assoc, List.cons_append]

theorem dataPackets_append (seq : UInt64) (batches : List (List (List UInt8)))
    (batch : List (List UInt8)) :
    dataPackets seq (batches ++ [batch]) = dataPackets seq batches ++
      [encode session (seq + UInt64.ofNat batches.flatten.length) batch] := by
  induction batches generalizing seq with
  | nil => simp [dataPackets]
  | cons first batches induction =>
      rw [List.cons_append, dataPackets, dataPackets, induction, List.flatten_cons,
        List.length_append, UInt64.ofNat_add, UInt64.add_assoc, List.cons_append]

structure Sender.Framed (sender : Sender) (batches : List (List (List UInt8)))
    (bodies : List (List UInt8)) : Prop where
  seq : sender.seq = 1 + UInt64.ofNat batches.flatten.length
  sent : sender.sent = dataPackets 1 batches
  all : batches.flatten ++ sender.batch = bodies
  sendable : Sendable batches
  bytes : 2 * sender.batch.length ≤ sender.batchBytes
  budget : sender.batch.length ≤ 1 ∨ sender.batchBytes ≤ mtuBudget - headerSize

variable {sender : Sender} {batches : List (List (List UInt8))} {bodies : List (List UInt8)}

theorem Sender.Framed.flush (framed : sender.Framed batches bodies)
    (short : ∀ body ∈ bodies, body.length ≤ 65535) :
    ∃ batches, sender.flush.Framed batches bodies ∧ sender.flush.batch = [] := by
  have all := framed.all
  have bytes := framed.bytes
  have budget := framed.budget
  simp only [mtuBudget, headerSize] at budget
  cases held : sender.batch with
  | nil =>
      have same : sender.flush = sender := by simp [Sender.flush, held]
      rw [same]
      exact ⟨batches, framed, held⟩
  | cons first rest =>
      have flushed : sender.flush =
          { seq := sender.seq + UInt64.ofNat sender.batch.length
            batch := []
            batchBytes := 0
            sent := sender.sent ++ [encode session sender.seq sender.batch] } := by
        simp [Sender.flush, held]
      rw [flushed]
      refine ⟨batches ++ [sender.batch], ⟨?_, ?_, ?_, ⟨?_, ?_, ?_⟩, Nat.le_refl _, .inl (by simp)⟩,
        rfl⟩
      · simp [framed.seq, UInt64.ofNat_add, UInt64.add_assoc]
      · rw [dataPackets_append, framed.sent, framed.seq]
      · simpa using all
      · intro batch member
        rcases List.mem_append.1 member with old | new
        · exact framed.sendable.nonempty batch old
        · simp [List.mem_singleton.1 new, held]
      · intro batch member
        rcases List.mem_append.1 member with old | new
        · exact framed.sendable.few batch old
        · rw [List.mem_singleton.1 new]
          omega
      · intro batch member m inside
        rcases List.mem_append.1 member with old | new
        · exact framed.sendable.short batch old m inside
        · rw [List.mem_singleton.1 new] at inside
          apply short
          rw [← all]
          exact List.mem_append_right _ inside

theorem Sender.Framed.push (framed : sender.Framed batches bodies) (body : List UInt8)
    (short : ∀ body ∈ bodies, body.length ≤ 65535) :
    ∃ batches, (sender.push body).Framed batches (bodies ++ [body]) := by
  have room : ∃ batches, ∃ sender' : Sender, sender'.Framed batches bodies ∧
      (sender'.batch = [] ∨
        sender'.batchBytes + (body.length + 2) ≤ mtuBudget - headerSize) ∧
      sender.push body =
        { sender' with
          batchBytes := sender'.batchBytes + (body.length + 2)
          batch := sender'.batch ++ [body] } := by
    by_cases over_ : sender.batchBytes + body.length + 2 > mtuBudget - headerSize
    · rcases framed.flush short with ⟨batches, flushed, emptied⟩
      exact ⟨batches, sender.flush, flushed, .inl emptied, by simp [Sender.push, over_]⟩
    · exact ⟨batches, sender, framed, .inr (by omega), by simp [Sender.push, over_]⟩
  rcases room with ⟨batches, sender', framed', fits, pushed⟩
  have bytes := framed'.bytes
  rw [pushed]
  refine ⟨batches, framed'.seq, framed'.sent, ?_, framed'.sendable, ?_, ?_⟩
  · rw [← framed'.all, List.append_assoc]
  · simp only [List.length_append, List.length_singleton]
    omega
  · rcases fits with emptied | small
    · exact .inl (by simp [emptied])
    · exact .inr small

theorem Sender.framed_foldl (bodies : List (List UInt8))
    (short : ∀ body ∈ bodies, body.length ≤ 65535) :
    ∃ batches, (bodies.foldl Sender.push {}).Framed batches bodies := by
  induction bodies using List.reverseRecOn with
  | nil => exact ⟨[], rfl, rfl, rfl, ⟨nofun, nofun, nofun⟩, Nat.le_refl _, .inl (Nat.zero_le _)⟩
  | append_singleton bodies body induction =>
      have shortBefore : ∀ body ∈ bodies, body.length ≤ 65535 :=
        fun body member => short body (List.mem_append_left _ member)
      rcases induction shortBefore with ⟨batches, framed⟩
      rw [List.foldl_append]
      exact framed.push body shortBefore

theorem runSend_eq (bodies : List (List UInt8)) (short : ∀ body ∈ bodies, body.length ≤ 65535) :
    ∃ batches, batches.flatten = bodies ∧ Sendable batches ∧
      ∀ pkt, pkt ∈ runSend bodies ↔ pkt ∈ packets 1 batches := by
  rcases Sender.framed_foldl bodies short with ⟨before, framed⟩
  rcases framed.flush short with ⟨batches, flushed, emptied⟩
  have all := flushed.all
  rw [emptied, List.append_nil] at all
  refine ⟨batches, all, flushed.sendable, ?_⟩
  intro pkt
  rw [runSend, packets_eq]
  simp [flushed.sent, flushed.seq]

/-! ## Lossy delivery -/

structure Receives (msgs : List (List UInt8)) (receiver : Receiver) (reception : Reception) :
    Prop where
  tracks : receiver.tracker.Tracks reception
  within : reception.expected ≤ msgs.length + 1
  applied : receiver.applied = reception.taken.map (entry msgs)
  ended : receiver.eos = true → reception.expected = msgs.length + 1

/-- What a receiver owes to the sender of `msgs`, whatever got lost. -/
structure Delivered (msgs : List (List UInt8)) (receiver : Receiver) : Prop where
  increasing : (receiver.applied.map Prod.fst).Pairwise (· < ·)
  faithful : ∀ number body, (number, body) ∈ receiver.applied →
    1 ≤ number.toNat ∧ msgs[number.toNat - 1]? = some body
  accounted : receiver.applied.length + receiver.tracker.gapMsgs.toNat + 1 =
    receiver.tracker.expected.toNat
  ended : receiver.eos = true →
    receiver.applied.length + receiver.tracker.gapMsgs.toNat = msgs.length

variable {msgs : List (List UInt8)} {receiver : Receiver} {reception : Reception} {pkt : List UInt8}

theorem receives_start (msgs : List (List UInt8)) : Receives msgs {} .start where
  tracks := SequenceTracker.tracks_start
  within := Nat.le_add_left 1 _
  applied := rfl
  ended := nofun

theorem Receives.data (padded : List UInt8) {before after : List (List (List UInt8))}
    {batch : List (List UInt8)} (sendable : Sendable (before ++ batch :: after))
    (fits : (before ++ batch :: after).flatten.length + 1 < 2 ^ 64)
    (receives : Receives (before ++ batch :: after).flatten receiver reception)
    (running : receiver.eos = false) :
    Receives (before ++ batch :: after).flatten
      (receiver.onDatagram padded
        (encode session (UInt64.ofNat (1 + before.flatten.length)) batch))
      (reception.arrive (1 + before.flatten.length) batch.length) := by
  have nonempty := sendable.nonempty batch (by simp)
  have few := sendable.few batch (by simp)
  have short := sendable.short batch (by simp)
  have split : (before ++ batch :: after).flatten =
      before.flatten ++ batch ++ after.flatten := by simp
  have size := congrArg List.length split
  simp only [List.length_append] at size
  have within := receives.within
  have arrived := receives.tracks.onPacket (1 + before.flatten.length) batch.length (by omega)
    (by omega) (by omega)
  have stepped := Receiver.onDatagram_encode padded session
    (UInt64.ofNat (1 + before.flatten.length)) nonempty few short receiver
  refine ⟨?_, ?_, ?_, ?_⟩
  · rw [stepped.2.1]
    exact arrived.1
  · rw [Reception.expected_arrive]
    omega
  · rw [stepped.1, arrived.2, Reception.taken_arrive, receives.applied, List.map_append, split,
      Nat.add_comm 1, numbered_eq _ _ after.flatten, ← List.map_drop]
    congr 2
    rcases Nat.le_total (reception.expected - (before.flatten.length + 1)) batch.length with
      less | more
    · rw [Nat.min_eq_left less]
    · rw [Nat.min_eq_right more, List.drop_eq_nil_of_le (by simp),
        List.drop_eq_nil_of_le (by simpa using more)]
  · intro ended
    rw [stepped.2.2, running] at ended
    exact absurd ended Bool.false_ne_true

theorem Receives.end (padded : List UInt8) (fits : msgs.length + 1 < 2 ^ 64)
    (receives : Receives msgs receiver reception) :
    Receives msgs
      (receiver.onDatagram padded (encodeEnd session (UInt64.ofNat (1 + msgs.length))))
      (reception.arrive (1 + msgs.length) 0) := by
  have within := receives.within
  have arrived := receives.tracks.onPacket (1 + msgs.length) 0 (by omega) (by omega) (by omega)
  have stepped := Receiver.onDatagram_encodeEnd padded session
    (UInt64.ofNat (1 + msgs.length)) receiver
  have expected := Reception.expected_arrive reception (1 + msgs.length) 0
  refine ⟨?_, by omega, ?_, fun _ => by omega⟩
  · rw [stepped.2.1]
    exact arrived.1
  · rw [stepped.1, Reception.taken_arrive, receives.applied]
    simp

theorem Receives.run (padded : List UInt8) (sendable : Sendable batches)
    (fits : batches.flatten.length + 1 < 2 ^ 64)
    (receives : Receives batches.flatten receiver reception) (deliveries : List (List UInt8))
    (drawn : ∀ pkt ∈ deliveries, pkt ∈ packets 1 batches) :
    ∃ reception, Receives batches.flatten (receiver.receive padded deliveries) reception := by
  induction deliveries generalizing receiver reception with
  | nil => exact ⟨reception, receives⟩
  | cons pkt deliveries induction =>
      have later : ∀ pkt ∈ deliveries, pkt ∈ packets 1 batches :=
        fun pkt member => drawn pkt (List.mem_cons_of_mem _ member)
      rw [Receiver.receive, List.foldl_cons]
      cases running : receiver.eos with
      | true => exact induction receives later
      | false =>
          rcases mem_packets 1 (drawn pkt List.mem_cons_self) with
            ⟨before, batch, after, rfl, rfl⟩ | rfl
          · exact induction (receives.data padded sendable fits running) later
          · exact induction (receives.end padded fits) later

theorem Receives.delivered (fits : msgs.length + 1 < 2 ^ 64)
    (receives : Receives msgs receiver reception) : Delivered msgs receiver := by
  have within := receives.within
  have balance := reception.balance
  have numbers : ∀ number ∈ reception.taken, (UInt64.ofNat number).toNat = number := by
    intro number member
    have past := reception.past number member
    exact UInt64.toNat_ofNat_of_lt' (by change number < 2 ^ 64; omega)
  have gaps : receiver.tracker.gapMsgs.toNat = reception.missed := by
    rw [receives.tracks.gapMsgs]
    exact UInt64.toNat_ofNat_of_lt' (by change reception.missed < 2 ^ 64; omega)
  have expected : receiver.tracker.expected.toNat = reception.expected := by
    rw [receives.tracks.expected]
    exact UInt64.toNat_ofNat_of_lt' (by change reception.expected < 2 ^ 64; omega)
  have count : receiver.applied.length = reception.taken.length := by
    rw [receives.applied, List.length_map]
  refine ⟨?_, ?_, by omega, ?_⟩
  · rw [receives.applied, List.map_map, List.pairwise_map]
    apply reception.sorted.imp_of_mem
    intro first second firstMember secondMember before
    change UInt64.ofNat first < UInt64.ofNat second
    rw [UInt64.lt_iff_toNat_lt, numbers first firstMember, numbers second secondMember]
    exact before
  · intro number body member
    rw [receives.applied] at member
    rcases List.mem_map.1 member with ⟨index, taken, isEntry⟩
    have past := reception.past index taken
    have isNumber : UInt64.ofNat index = number := congrArg Prod.fst isEntry
    have isBody : msgs.getD (index - 1) [] = body := congrArg Prod.snd isEntry
    have inside : index - 1 < msgs.length := by omega
    rw [← isNumber, numbers index taken, ← isBody]
    exact ⟨past.1, by simp [inside]⟩
  · intro ended
    have all := receives.ended ended
    omega

/-- Whatever is lost, repeated or reordered: no message is applied twice, each as
it was sent, and every one is either applied or counted as missing. -/
theorem receive_delivered (padded : List UInt8) (sendable : Sendable batches)
    (fits : batches.flatten.length + 1 < 2 ^ 64) (deliveries : List (List UInt8))
    (drawn : ∀ pkt ∈ deliveries, pkt ∈ packets 1 batches) :
    Delivered batches.flatten (Receiver.receive padded {} deliveries) := by
  rcases (receives_start batches.flatten).run padded sendable fits deliveries drawn with
    ⟨reception, receives⟩
  exact receives.delivered fits

/-- Three messages in two packets; the first packet comes second, and the end
twice. -/
theorem receive_delivered_reordered :
    Sendable [[[1], [2]], [[3]]] ∧
      Delivered [[1], [2], [3]]
        (Receiver.receive (padSymbol []) {}
          [encode session 3 [[3]], encode session 1 [[1], [2]], encodeEnd session 4,
            encodeEnd session 4]) := by
  have sendable : Sendable [[[1], [2]], [[3]]] := by
    constructor <;> decide
  refine ⟨sendable, ?_⟩
  apply receive_delivered (padSymbol []) sendable (by decide)
  decide +kernel

/-- The sequence field holds 64 bits: the message numbered 2^64 goes out as
number 0, after the one before it. -/
theorem not_delivered_wrapped :
    ¬ ∀ padded batches deliveries, Sendable batches →
      (∀ pkt ∈ deliveries, pkt ∈ packets 1 batches) →
      Delivered batches.flatten (Receiver.receive padded {} deliveries) := by
  intro always
  have sendable : ∀ total, Sendable (List.replicate total [[]]) := by
    intro total
    constructor
    · intro batch member
      simp [List.eq_of_mem_replicate member]
    · intro batch member
      simp [List.eq_of_mem_replicate member]
    · intro batch member
      simp [List.eq_of_mem_replicate member]
  have packet : ∀ before later, encode session (UInt64.ofNat (1 + before)) [[]] ∈
      packets 1 (List.replicate (before + (later + 1)) [[]]) := by
    intro before later
    have split := mem_packets_of_split 1 (List.replicate before [[]]) [[]]
      (List.replicate later [[]])
    rw [← List.replicate_succ, ← List.replicate_add] at split
    simpa using split
  have delivered := always (padSymbol []) (List.replicate (2 ^ 64) [[]])
    [encode session (UInt64.ofNat (1 + (2 ^ 64 - 2))) [[]],
      encode session (UInt64.ofNat (1 + (2 ^ 64 - 1))) [[]]]
    (sendable (2 ^ 64)) (by
      intro pkt member
      rcases List.mem_cons.1 member with first | member
      · rw [first]
        exact packet (2 ^ 64 - 2) 1
      · rw [List.mem_singleton.1 member]
        exact packet (2 ^ 64 - 1) 0)
  have numbers : (Receiver.receive (padSymbol []) {}
      [encode session (UInt64.ofNat (1 + (2 ^ 64 - 2))) [[]],
        encode session (UInt64.ofNat (1 + (2 ^ 64 - 1))) [[]]]).applied.map Prod.fst =
      [18446744073709551615, 0] := by
    decide +kernel
  have increasing := delivered.increasing
  rw [numbers] at increasing
  exact absurd increasing (by decide)

end Mcast

end Matchbook
