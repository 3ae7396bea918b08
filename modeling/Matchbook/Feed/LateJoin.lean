import Matchbook.Feed.McastDelivery
import Matchbook.Feed.MoldGrammar
import Matchbook.Feed.Snapshot

namespace Matchbook

/-! # Joining late

The snapshot stands for all messages so far. The number that comes with it splices the joiner
into the live stream, whose timestamps are its numbers. -/

namespace Mold

def wireFrom (session : List UInt8) (number : Nat) : List (List UInt8) → List (List UInt8)
  | [] => []
  | body :: rest =>
    encode session (UInt64.ofNat number) [body] :: wireFrom session (number + 1) rest

def listen (tracker : SequenceTracker) (pkt : List UInt8) :
    SequenceTracker × List (List UInt8) :=
  match (decode pkt).hdr with
  | none => (tracker, [])
  | some hdr =>
    (decode pkt).blocks.foldl (fun (tracker, through) block =>
      let (skip, tracker) := tracker.onPacket hdr.seq 1
      (tracker, if skip = 0 then through ++ [block.payload pkt] else through)) (tracker, [])

def listenAll (tracker : SequenceTracker) :
    List (List UInt8) → SequenceTracker × List (List UInt8)
  | [] => (tracker, [])
  | pkt :: wire =>
    let (tracker, now) := listen tracker pkt
    let (tracker, later) := listenAll tracker wire
    (tracker, now ++ later)

variable {session body : List UInt8} {bodies : List (List UInt8)} {tracker : SequenceTracker}
  {reception : Reception} {number : Nat}

theorem listen_encode (tracker : SequenceTracker) (seq : UInt64) (short : body.length ≤ 65535) :
    listen tracker (encode session seq [body]) =
      ((tracker.onPacket seq 1).2, if (tracker.onPacket seq 1).1 = 0 then [body] else []) := by
  have few : [body].length < 65535 := (by decide : 1 < 65535)
  have header := @hdr_encode session seq [body] few
  have blocks := (decode_encode session seq few (by simpa using short)).2
  rw [numbered, numbered, List.map_eq_singleton_iff] at blocks
  rcases blocks with ⟨block, only, seen⟩
  have payload : block.payload (encode session seq [body]) = body := congrArg Prod.snd seen
  rw [listen, header, only]
  simp only [List.foldl_cons, List.foldl_nil, payload, List.nil_append]

/-- Of the messages under consecutive numbers, those from the expected one on get through, and
none is missed. -/
theorem listenAll_wireFrom (tracks : tracker.Tracks reception)
    (behind : number ≤ reception.expected) (inside : reception.expected < 2 ^ 64)
    (fits : number + bodies.length < 2 ^ 64) (short : ∀ body ∈ bodies, body.length ≤ 65535) :
    ∃ reception', (listenAll tracker (wireFrom session number bodies)).1.Tracks reception' ∧
      reception'.expected = max reception.expected (number + bodies.length) ∧
      reception'.missed = reception.missed ∧
      (listenAll tracker (wireFrom session number bodies)).2 =
        bodies.drop (reception.expected - number) := by
  induction bodies generalizing tracker reception number with
  | nil => exact ⟨reception, tracks, (Nat.max_eq_left behind).symm, rfl, List.drop_nil.symm⟩
  | cons body bodies induction =>
      rw [List.length_cons] at fits
      rcases tracks.onPacket number 1 inside (by omega) (by decide) with ⟨tracks₁, skipped⟩
      have expected₁ := reception.expected_arrive number 1
      have missed₁ := reception.missed_arrive number 1
      have behind₁ : number + 1 ≤ (reception.arrive number 1).expected := by omega
      rcases induction tracks₁ behind₁ (by omega) (by omega)
          (fun later member => short later (List.mem_cons_of_mem body member)) with
        ⟨reception', tracks', expected', missed', rest⟩
      have heard := @listen_encode session body tracker (UInt64.ofNat number)
        (short body List.mem_cons_self)
      rw [wireFrom, listenAll, heard]
      refine ⟨reception', tracks', ?_, ?_, ?_⟩
      · rw [expected', expected₁, List.length_cons]
        omega
      · rw [missed', missed₁]
        omega
      · have later : (listenAll (tracker.onPacket (.ofNat number) 1).2
            (wireFrom session (number + 1) bodies)).2 = _ := rest
        show (if (tracker.onPacket (.ofNat number) 1).1 = 0 then [body] else []) ++ _ = _
        rw [later, expected₁]
        rcases Nat.lt_or_ge number reception.expected with old | next
        · -- A packet from before the snapshot is a duplicate.
          have seen : (tracker.onPacket (.ofNat number) 1).1 ≠ 0 := by
            intro zero
            have none : (tracker.onPacket (.ofNat number) 1).1.toNat = 0 :=
              congrArg UInt16.toNat zero
            have one := skipped.symm.trans none
            omega
          have position : reception.expected - number =
              max reception.expected (number + 1) - (number + 1) + 1 := by omega
          rw [if_neg seen, List.nil_append, position, List.drop_succ_cons]
        · have new : (tracker.onPacket (.ofNat number) 1).1 = 0 := by
            apply UInt16.toNat_inj.mp
            exact skipped.trans (by rw [Nat.sub_eq_zero_of_le next]; rfl)
          have first : reception.expected - number = 0 := Nat.sub_eq_zero_of_le next
          have second : max reception.expected (number + 1) - (number + 1) = 0 := by omega
          rw [if_pos new, first, second]
          rfl

end Mold

namespace Itch

open Mold

def timestamp (body : List UInt8) : Nat := BigEndian.value ((body.drop 5).take 6)

theorem value_enc48 (v : UInt64) : BigEndian.value (enc48 v) = v.toNat % 2 ^ 48 := by
  have spelled := BigEndian.value_bytes 6 v.toNat
  have byte (shift : UInt64) (width : Nat) (bits : shift.toNat % 64 = 8 * width) :
      (v >>> shift).toUInt8 = UInt8.ofNat (v.toNat / 256 ^ width) :=
    BigEndian.byte_shifted64 v shift bits
  have bytes : enc48 v = BigEndian.bytes 6 v.toNat := by
    simp only [enc48, List.map_cons, List.map_nil, BigEndian.bytes]
    rw [byte 40 5 rfl, byte 32 4 rfl, byte 24 3 rfl, byte 16 2 rfl, byte 8 1 rfl, byte 0 0 rfl]
  rw [bytes, spelled, ← Nat.pow_mul 2 8 6]

theorem timestamp_body (stock : Stock) (message : Publication) :
    timestamp (message.encoding stock).body = message.seq % 2 ^ 48 := by
  have field : ((message.encoding stock).body.drop 5).take 6 =
      enc48 (UInt64.ofNat message.seq) := by
    cases message <;> rfl
  rw [timestamp, field, value_enc48, UInt64.toNat_ofNat']
  exact Nat.mod_mod_of_dvd _ (by decide)

namespace Publisher

variable {p : Publisher} {earlier live : List Publication}

/-- The live stream to a joiner whose snapshot stands for the messages before: every message
carries its number, and of the whole wire the new messages get through, with nothing missed. -/
structure Splices (session : List UInt8) (stock : Stock) (before live : List Publication) :
    Prop where
  timestamps : (bodies stock (before ++ live)).map timestamp =
    (List.range' 1 (before ++ live).length).map (· % 2 ^ 48)
  through : (before ++ live).length + 1 < 2 ^ 64 →
    let heard := listenAll { expected := UInt64.ofNat (before.length + 1) }
      (wireFrom session 1 (bodies stock (before ++ live)))
    heard.2 = bodies stock live ∧ heard.1.gapMsgs = 0 ∧
      heard.1.expected = UInt64.ofNat ((before ++ live).length + 1)

theorem Streams.splices (session : List UInt8) (stock : Stock)
    (streams : p.Streams (earlier ++ live)) : Splices session stock earlier live where
  timestamps := by
    rw [bodies, List.map_map, ← streams.numbered, List.map_map, List.map_inj_left]
    exact fun message _ => timestamp_body stock message
  through := by
    intro fits heard
    have tracks : SequenceTracker.Tracks { expected := UInt64.ofNat (earlier.length + 1) }
        (Reception.start.take earlier.length) := by
      constructor
      · show UInt64.ofNat (earlier.length + 1) = UInt64.ofNat (1 + earlier.length)
        rw [Nat.add_comm]
      · rfl
    have count : (bodies stock (earlier ++ live)).length = (earlier ++ live).length :=
      List.length_map _
    have sum : (earlier ++ live).length = earlier.length + live.length := List.length_append
    have expected : (Reception.start.take earlier.length).expected = 1 + earlier.length := rfl
    have short (body : List UInt8) (member : body ∈ bodies stock (earlier ++ live)) :
        body.length ≤ 65535 := by
      rcases List.mem_map.mp member with ⟨message, -, rfl⟩
      exact Nat.le_of_lt_succ (message.encoding stock).short_body
    have first : 1 ≤ (Reception.start.take earlier.length).expected := by omega
    rcases listenAll_wireFrom tracks first (by omega) (by omega) short with
      ⟨reception', tracks', expected', missed', rest⟩
    refine ⟨?_, ?_, ?_⟩
    · have skipped : (Reception.start.take earlier.length).expected - 1 =
          (bodies stock earlier).length := by
        rw [expected, bodies, List.length_map, Nat.add_sub_cancel_left]
      have whole : bodies stock (earlier ++ live) = bodies stock earlier ++ bodies stock live :=
        List.map_append
      exact rest.trans (by rw [skipped, whole, List.drop_left])
    · rw [tracks'.gapMsgs, missed']
      rfl
    · rw [tracks'.expected, expected', expected, count, sum]
      congr 1
      omega

/-- A snapshot of any session whose book may stand leads a new engine to the displayed book,
without a trade. It comes with the number of the next message, from where the joiner gets
whatever a longer session publishes. -/
theorem run_snapshot (band : Band) (stock : List UInt8) (expectedOrders expectedOrders' : Nat)
    (session : List UInt8) (calls : List Call) (taken : List Publication)
    (narrow : 0 ≤ band.min ∧ band.max < 2 ^ 32)
    (admitted : ∀ op, .op op ∈ calls → op.Admitted (.below (2 ^ 32)))
    (ran : (new band stock expectedOrders).run calls = some (p, taken))
    (settled : p.engine.halted = true ∨ p.engine.Uncrossed) (wide : p.sink.nextRef ≤ 2 ^ 64) :
    ∃ messages, p.snapshot = some (messages, (taken ++ p.sink.out).length + 1) ∧
      (∃ b e, BookBuilder.readAll {} (.new band ([] : Tape) expectedOrders')
          (bodies (.ofBytes stock) messages) = some (b, e) ∧
        p.SameBook b e ∧ e.halted = p.engine.halted ∧ ∀ t, .trade t ∉ e.h) ∧
      ∀ more p' later, p.run more = some (p', later) → ∃ live,
        taken ++ later ++ p'.sink.out = taken ++ p.sink.out ++ live ∧
          Splices session (.ofBytes stock) (taken ++ p.sink.out) live := by
  rcases session_run (tracks_new band stock expectedOrders)
    (session_new band stock expectedOrders narrow) admitted ran with ⟨m, screen, tracks, known⟩
  rw [List.nil_append] at tracks known
  rcases tracks.snapshot known (.ofBytes stock) expectedOrders' settled wide with
    ⟨messages, taken', joined⟩
  rw [known.streams.next] at taken'
  refine ⟨messages, taken', joined, fun more p' later ran' => ?_⟩
  have streams := streams_run tracks known.streams ran'
  rcases tracks.run more with ⟨p₁, later₁, -, -, ran₁, -, grows, -⟩
  rw [ran'] at ran₁
  cases ran₁
  rcases grows with ⟨live, grown⟩
  have whole : taken ++ later ++ p'.sink.out = taken ++ p.sink.out ++ live := by
    rw [List.append_assoc, List.append_assoc, ← grown]
  refine ⟨live, whole, ?_⟩
  rw [whole] at streams
  exact streams.splices session (.ofBytes stock)

/-- A bid at 10 and an offer at 8 that hides two of four stand in a call phase. -/
theorem run_snapshot_halted :
    let band : Band := ⟨5, 15, by decide, by decide, by decide⟩
    let calls : List Call :=
      [.op .halt, .op (.submitLimit .buy 10 5 .gtc 1 .cancelTaker), .drain,
        .op (.submitIceberg .sell 8 4 2 .gtc 2 .cancelTaker)]
    ∃ p taken messages, (new band [] 16).run calls = some (p, taken) ∧
      p.snapshot = some (messages, (taken ++ p.sink.out).length + 1) ∧
      (∃ b e, BookBuilder.readAll {} (.new band ([] : Tape) 16)
          (bodies (.ofBytes []) messages) = some (b, e) ∧
        p.SameBook b e ∧ e.halted = true ∧ ∀ t, .trade t ∉ e.h) ∧
      ∀ more p' later, p.run more = some (p', later) → ∃ live,
        taken ++ later ++ p'.sink.out = taken ++ p.sink.out ++ live ∧
          Splices [] (.ofBytes []) (taken ++ p.sink.out) live := by
  intro band calls
  have admitted : ∀ op, .op op ∈ calls → op.Admitted (.below (2 ^ 32)) := by
    intro op member
    simp only [calls, List.mem_cons, Call.op.injEq, List.not_mem_nil, or_false, false_or,
      reduceCtorEq] at member
    rcases member with rfl | rfl | rfl
    · trivial
    · exact show (5 : Qty) < 2 ^ 32 by decide
    · exact show (4 : Qty) < 2 ^ 32 by decide
  have seen : ((new band [] 16).run calls).map (fun run =>
      (run.1.engine.halted, run.1.sink.nextRef)) = some (true, 3) := by
    decide +kernel
  rcases Option.map_eq_some_iff.mp seen with ⟨⟨p, taken⟩, ran, result⟩
  rw [Prod.mk.injEq] at result
  rcases run_snapshot band [] 16 16 [] calls taken (by decide) admitted ran (.inl result.1)
    (by rw [result.2]; decide) with ⟨messages, taken', joined, live⟩
  rw [result.1] at joined
  exact ⟨p, taken, messages, ran, taken', joined, live⟩

end Publisher

end Itch

end Matchbook
