import Matchbook.Feed.McastDelivery

namespace Matchbook

/-! # Malformed packets

The tracker is told the header of a packet before the packet is known to be
whole. What a rejected packet claimed and did not bring stays claimed. -/

namespace Mold

open Itch (be16 be64)

variable {pkt : List UInt8}

theorem count_of_rejected (header : headerSize ≤ pkt.length)
    (rejected : (decode pkt).result < 0) :
    be16 (pkt.drop 18) ≠ endOfSession ∧ be16 (pkt.drop 18) ≠ 0 := by
  rw [decode, if_neg (by omega)] at rejected
  simp only at rejected
  split at rejected
  case isTrue => exact absurd rejected (Int.lt_irrefl 0)
  case isFalse notEnd =>
      refine ⟨notEnd, ?_⟩
      intro zero
      rw [zero] at rejected
      exact absurd rejected (by simp [decodeBlocks])

theorem length_blocks_of_accepted (header : headerSize ≤ pkt.length)
    (accepted : 0 ≤ (decode pkt).result) (notEnd : be16 (pkt.drop 18) ≠ endOfSession) :
    (decode pkt).blocks.length = (be16 (pkt.drop 18)).toNat := by
  rw [decode, if_neg (by omega)] at accepted ⊢
  simp only at accepted ⊢
  rw [if_neg notEnd] at accepted ⊢
  simp only at accepted ⊢
  split at accepted
  case isTrue complete => exact length_decodeBlocks pkt _ _ _ _ complete
  case isFalse => exact absurd accepted (by decide)

namespace SequenceTracker

variable {tracker : SequenceTracker} {seq : UInt64} {count : UInt16}

theorem gapMsgs_onPacket : (tracker.onPacket seq count).2.gapMsgs =
    if tracker.expected < seq then tracker.gapMsgs + (seq - tracker.expected)
    else tracker.gapMsgs := by
  rcases UInt64.lt_or_le tracker.expected seq with ahead | notAhead
  · rw [onPacket_ahead ahead, if_pos ahead]
  · rw [if_neg (UInt64.not_lt.2 notAhead)]
    rcases UInt64.lt_or_le (tracker.expected - seq) count.toUInt64 with new | stale
    · rw [onPacket_new notAhead new]
    · rw [onPacket_stale notAhead stale]

theorem skip_eq_zero_iff (positive : count ≠ 0) :
    (tracker.onPacket seq count).1 = 0 ↔ tracker.expected ≤ seq := by
  rcases UInt64.lt_or_le tracker.expected seq with ahead | notAhead
  · rw [onPacket_ahead ahead]
    exact iff_of_true rfl (UInt64.le_of_lt ahead)
  · rcases UInt64.lt_or_le (tracker.expected - seq) count.toUInt64 with new | stale
    · have small := UInt64.lt_iff_toNat_lt.1 new
      have countSmall := count.toNat_lt
      rw [UInt16.toNat_toUInt64] at small
      have narrow : (tracker.expected - seq).toUInt16.toNat = (tracker.expected - seq).toNat := by
        rw [UInt64.toNat_toUInt16]
        exact Nat.mod_eq_of_lt (Nat.lt_trans small countSmall)
      have distance := UInt64.toNat_sub_of_le _ _ notAhead
      rw [onPacket_new notAhead new, ← UInt16.toNat_inj, narrow, distance,
        UInt64.le_iff_toNat_le]
      exact Nat.sub_eq_zero_iff_le
    · rw [onPacket_stale notAhead stale]
      refine iff_of_false positive ?_
      intro le
      have same : tracker.expected = seq := UInt64.le_antisymm le notAhead
      rw [same, UInt64.sub_self, UInt64.le_iff_toNat_le, UInt16.toNat_toUInt64] at stale
      exact positive (UInt16.toNat_inj.1 (Nat.le_zero.1 stale))

theorem expected_after (notAhead : seq ≤ tracker.expected) :
    (tracker.onPacket seq count).2.expected ≤ tracker.expected ↔
      seq.toNat + count.toNat ≤ tracker.expected.toNat ∨ 2 ^ 64 ≤ seq.toNat + count.toNat := by
  have behind := UInt64.le_iff_toNat_le.1 notAhead
  have distance := UInt64.toNat_sub_of_le _ _ notAhead
  have wide : count.toUInt64.toNat = count.toNat := UInt16.toNat_toUInt64 count
  have countSmall := count.toNat_lt
  have seqSmall := seq.toNat_lt
  have expectedSmall := tracker.expected.toNat_lt
  rcases UInt64.lt_or_le (tracker.expected - seq) count.toUInt64 with new | stale
  · have reached := UInt64.lt_iff_toNat_lt.1 new
    rw [distance, wide] at reached
    rw [onPacket_new notAhead new, UInt64.le_iff_toNat_le, UInt64.toNat_add, wide]
    omega
  · have notReached := UInt64.le_iff_toNat_le.1 stale
    rw [distance, wide] at notReached
    rw [onPacket_stale notAhead stale]
    exact iff_of_true (UInt64.le_refl _) (.inl (by omega))

theorem gapMsgs_both (positive : count ≠ 0) (next : UInt16) :
    ((tracker.onPacket seq count).2.onPacket tracker.expected next).2.gapMsgs =
        tracker.gapMsgs ↔
      seq ≤ tracker.expected ∧ seq.toNat + count.toNat < 2 ^ 64 := by
  have wide : count.toUInt64.toNat = count.toNat := UInt16.toNat_toUInt64 count
  have some : count.toNat ≠ 0 := fun zero => positive (UInt16.toNat_inj.1 zero)
  have countSmall := count.toNat_lt
  have seqSmall := seq.toNat_lt
  have expectedSmall := tracker.expected.toNat_lt
  have gapSmall := tracker.gapMsgs.toNat_lt
  rw [gapMsgs_onPacket]
  rcases UInt64.lt_or_le tracker.expected seq with ahead | notAhead
  · -- the gaps that both packets book sum up to less than 2 ^ 64, and are not zero
    have before := UInt64.lt_iff_toNat_lt.1 ahead
    have distance := UInt64.toNat_sub_of_le _ _ (UInt64.le_of_lt ahead)
    rw [onPacket_ahead ahead]
    refine iff_of_false ?_ (fun notAhead => absurd notAhead.1 (UInt64.not_le.2 ahead))
    intro same
    have sum := congrArg UInt64.toNat same
    split at sum
    case isTrue wrapped =>
        have back := UInt64.toNat_sub_of_le _ _ (UInt64.le_of_lt wrapped)
        have below := UInt64.lt_iff_toNat_lt.1 wrapped
        simp only [UInt64.toNat_add, back, distance, wide] at sum below
        omega
    case isFalse =>
        simp only [UInt64.toNat_add, distance] at sum
        omega
  · have behind := UInt64.le_iff_toNat_le.1 notAhead
    have distance := UInt64.toNat_sub_of_le _ _ notAhead
    rcases UInt64.lt_or_le (tracker.expected - seq) count.toUInt64 with new | stale
    · have reached := UInt64.lt_iff_toNat_lt.1 new
      rw [distance, wide] at reached
      rw [onPacket_new notAhead new]
      split
      case isTrue wrapped =>
          have back := UInt64.toNat_sub_of_le _ _ (UInt64.le_of_lt wrapped)
          have below := UInt64.lt_iff_toNat_lt.1 wrapped
          simp only [UInt64.toNat_add, wide] at back below
          refine iff_of_false ?_ (fun whole => by omega)
          intro same
          have sum := congrArg UInt64.toNat same
          simp only [UInt64.toNat_add] at sum
          omega
      case isFalse reached' =>
          have above := UInt64.le_iff_toNat_le.1 (UInt64.not_lt.1 reached')
          simp only [UInt64.toNat_add, wide] at above
          exact iff_of_true rfl ⟨notAhead, by omega⟩
    · have notReached := UInt64.le_iff_toNat_le.1 stale
      rw [distance, wide] at notReached
      rw [onPacket_stale notAhead stale, if_neg (UInt64.lt_irrefl _)]
      exact iff_of_true rfl ⟨notAhead, by omega⟩

end SequenceTracker

end Mold

namespace Mcast

open Mold
open Itch (be16 be64)

variable (padded : List UInt8) (receiver : Receiver) {bad good : List UInt8}

theorem applied_empty (header : headerSize ≤ good.length)
    (empty : be16 (good.drop 18) = 0 ∨ be16 (good.drop 18) = endOfSession) :
    (receiver.onDatagram padded good).applied = receiver.applied ∧ (decode good).blocks = [] := by
  constructor
  · rw [Receiver.onDatagram, if_neg (by omega)]
    simp only
    rw [if_pos empty.symm]
  · rw [decode, if_neg (by omega)]
    rcases empty with zero | ended
    · simp [zero, decodeBlocks, endOfSession]
    · simp [ended]

/-- A whole packet with blocks is applied in full exactly when none are skipped. -/
theorem applied_all_iff (header : headerSize ≤ good.length)
    (accepted : 0 ≤ (decode good).result) (notEnd : be16 (good.drop 18) ≠ endOfSession)
    (notZero : be16 (good.drop 18) ≠ 0) :
    (receiver.onDatagram padded good).applied =
        receiver.applied ++ (decode good).blocks.map (Block.seen good) ↔
      receiver.tracker.expected ≤ be64 (good.drop 10) := by
  have count := length_blocks_of_accepted header accepted notEnd
  have positive : (be16 (good.drop 18)).toNat ≠ 0 :=
    fun zero => notZero (UInt16.toNat_inj.1 zero)
  rw [(Receiver.onDatagram_blocks padded good header notEnd notZero receiver).1,
    ← SequenceTracker.skip_eq_zero_iff notZero, List.append_cancel_left_eq]
  constructor
  · intro whole
    have lengths := congrArg List.length whole
    rw [List.length_drop, List.length_map, count] at lengths
    exact UInt16.toNat_inj.1 (by change _ = 0; omega)
  · intro none
    rw [none]
    rfl

theorem gapMsgs_onDatagram (header : headerSize ≤ good.length) :
    ∃ count, (receiver.onDatagram padded good).tracker.gapMsgs =
      (receiver.tracker.onPacket (be64 (good.drop 10)) count).2.gapMsgs := by
  by_cases empty : be16 (good.drop 18) = endOfSession ∨ be16 (good.drop 18) = 0
  · refine ⟨0, ?_⟩
    rw [Receiver.onDatagram, if_neg (by omega)]
    simp only
    rw [if_pos empty]
  · refine ⟨be16 (good.drop 18), ?_⟩
    have notEnd : be16 (good.drop 18) ≠ endOfSession := fun ended => empty (.inl ended)
    have notZero : be16 (good.drop 18) ≠ 0 := fun zero => empty (.inr zero)
    rw [(Receiver.onDatagram_blocks padded good header notEnd notZero receiver).2.1]

/-- The next packet, from where the receiver stood before `bad`, is applied in
full, and after both no gap is booked. -/
def Unharmed (padded : List UInt8) (receiver : Receiver) (bad good : List UInt8) : Prop :=
  ((receiver.onDatagram padded bad).onDatagram padded good).applied =
      (receiver.onDatagram padded bad).applied ++ (decode good).blocks.map (Block.seen good) ∧
    ((receiver.onDatagram padded bad).onDatagram padded good).tracker.gapMsgs =
      receiver.tracker.gapMsgs

/-- A malformed packet does no harm exactly when its header does not begin ahead
or run past the last 64-bit number, and claims no number from the expected one
on if the next packet brings any block. -/
theorem unharmed_iff (padded : List UInt8) (receiver : Receiver) (bad good : List UInt8)
    (badHeader : headerSize ≤ bad.length) (rejected : (decode bad).result < 0)
    (goodHeader : headerSize ≤ good.length) (accepted : 0 ≤ (decode good).result)
    (next : be64 (good.drop 10) = receiver.tracker.expected) :
    Unharmed padded receiver bad good ↔
      be64 (bad.drop 10) ≤ receiver.tracker.expected ∧
        (be64 (bad.drop 10)).toNat + (be16 (bad.drop 18)).toNat < 2 ^ 64 ∧
          ((be64 (bad.drop 10)).toNat + (be16 (bad.drop 18)).toNat ≤
              receiver.tracker.expected.toNat ∨
            be16 (good.drop 18) = 0 ∨ be16 (good.drop 18) = endOfSession) := by
  have counted := count_of_rejected badHeader rejected
  have tracker := (Receiver.onDatagram_blocks padded bad badHeader counted.1 counted.2 receiver).2.1
  have gap : ((receiver.onDatagram padded bad).onDatagram padded good).tracker.gapMsgs =
        receiver.tracker.gapMsgs ↔
      be64 (bad.drop 10) ≤ receiver.tracker.expected ∧
        (be64 (bad.drop 10)).toNat + (be16 (bad.drop 18)).toNat < 2 ^ 64 := by
    rcases gapMsgs_onDatagram padded (receiver.onDatagram padded bad) goodHeader with
      ⟨count, booked⟩
    rw [booked, tracker, next]
    exact SequenceTracker.gapMsgs_both counted.2 count
  unfold Unharmed
  rw [gap, and_comm, and_assoc]
  apply and_congr_right
  intro notAhead
  apply and_congr_right
  intro noWrap
  by_cases empty : be16 (good.drop 18) = 0 ∨ be16 (good.drop 18) = endOfSession
  · have same := applied_empty padded (receiver.onDatagram padded bad) goodHeader empty
    refine iff_of_true ?_ (.inr empty)
    rw [same.1, same.2, List.map_nil, List.append_nil]
  · have notZero : be16 (good.drop 18) ≠ 0 := fun zero => empty (.inl zero)
    have notEnd : be16 (good.drop 18) ≠ endOfSession := fun ended => empty (.inr ended)
    rw [applied_all_iff padded _ goodHeader accepted notEnd notZero, tracker, next,
      SequenceTracker.expected_after notAhead, or_iff_left (Nat.not_le.2 noWrap),
      or_iff_left empty]

/-- A receiver at number 5 is not harmed by a broken packet about 1 to 3. -/
theorem unharmed_iff_behind :
    Unharmed (padSymbol []) { tracker := { expected := 5 } }
      ((encode session 1 [[1], [2], [3]]).take 22) (encode session 5 [[5], [6]]) := by
  apply (unharmed_iff (padSymbol []) _ _ _ (by decide +kernel) (by decide +kernel)
    (by decide +kernel) (by decide +kernel) (by decide +kernel)).2
  decide +kernel

/-- A fresh receiver loses the first message to a packet that claims it and is
cut short. -/
theorem not_unharmed :
    ¬ ∀ padded receiver bad good, headerSize ≤ bad.length → (decode bad).result < 0 →
      headerSize ≤ good.length → 0 ≤ (decode good).result →
      be64 (good.drop 10) = receiver.tracker.expected → Unharmed padded receiver bad good := by
  intro always
  have unharmed := always (padSymbol []) {} ((encode session 1 [[1]]).take 22)
    (encode session 1 [[1]]) (by decide +kernel) (by decide +kernel) (by decide +kernel)
    (by decide +kernel) (by decide +kernel)
  exact absurd unharmed.1 (by decide +kernel)

end Mcast

end Matchbook
