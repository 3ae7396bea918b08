import Mathlib.Data.List.Nodup
import Matchbook.Market.Origins

namespace Matchbook

open Transitions

/-! # What is open of an order

The quantity under an id, wherever the order is: displayed and hidden in the
book, parked as a stop, or on its way through the other side. -/

/-! ## Totals -/

namespace RO

variable {o : RO}

theorem total_consumed (o : RO) (f : Qty) : (o.consumed f).total = o.total - f := by
  simp only [consumed, total]
  grind

theorem total_replenished (out : o.qty = 0) : o.replenished.total = o.total := by
  simp only [replenished, total, out]
  grind

theorem total_reduced (o : RO) (delta : Qty) : (o.reduced delta).total = o.total - delta := by
  simp only [reduced, total]
  grind

@[simp] theorem fired_qty (o : RO) : o.fired.qty = o.qty := by
  unfold fired
  split <;> rfl

@[simp] theorem fired_discards (o : RO) :
    decide (o.fired.remainder = .discard) = o.stopMarket := by
  unfold fired
  cases o.stopMarket <;> rfl

end RO

theorem Taker.total_resting (t : Taker) (price : Price) (peak : Qty) :
    (t.resting price peak).total = t.qty := by
  unfold resting
  split
  · show peak + (t.qty - peak) = t.qty
    grind
  · exact UInt64.add_zero t.qty

namespace Market

/-! ## Queues -/

def Queued (id : OrderId) (q : Nat) (level : List RO) : Prop :=
  ∃ o ∈ level, o.id = id ∧ o.total.toNat = q

section queued

variable {id : OrderId} {q : Nat} {o : RO} {front rest back level : List RO}

@[simp] theorem queued_nil : Queued id q [] ↔ False := by
  simp [Queued]

@[simp] theorem queued_cons :
    Queued id q (o :: rest) ↔ (o.id = id ∧ o.total.toNat = q) ∨ Queued id q rest := by
  simp [Queued]

@[simp] theorem queued_append :
    Queued id q (front ++ back) ↔ Queued id q front ∨ Queued id q back := by
  simp [Queued, or_and_right, exists_or]

theorem not_queued (absent : id ∉ level.map RO.id) : ¬ Queued id q level := by
  rintro ⟨o, member, rfl, -⟩
  exact absent (List.mem_map_of_mem member)

theorem queued_consume_other (px : Price) (f : Qty) (other : o.id ≠ id) :
    Queued id q (consume px f (o :: rest)).1 ↔ Queued id q (o :: rest) := by
  rcases consume_cases px f o rest with ⟨-, equal⟩ | ⟨-, -, equal⟩ | ⟨-, -, equal⟩ <;>
    simp [equal, other]

theorem queued_consume_self (px : Price) {f : Qty} (shape : o.Shape) (within : f ≤ o.total)
    (absent : o.id ∉ rest.map RO.id) :
    Queued o.id q (consume px f (o :: rest)).1 ↔ q ≠ 0 ∧ q + f.toNat = o.total.toNat := by
  have behind := not_queued (q := q) absent
  have left : (o.total - f).toNat + f.toNat = o.total.toNat := by
    have := UInt64.le_iff_toNat_le.mp within
    rw [UInt64.toNat_sub_of_le _ _ within]
    omega
  rcases consume_cases px f o rest with ⟨some, equal⟩ | ⟨out, none, equal⟩ |
    ⟨out, hidden, equal⟩
  · have kept := shape.consumed within some
    have positive := kept.total_toNat
    have shown := UInt64.lt_iff_toNat_lt.mp kept.positive
    rw [RO.total_consumed] at positive
    simp only [equal, queued_cons, RO.consumed_id, RO.total_consumed, behind, or_false, true_and]
    rw [UInt64.toNat_zero] at shown
    omega
  · have gone : o.total - f = 0 := by
      rw [← RO.total_consumed, RO.total, out, none]
      rfl
    rw [gone, UInt64.toNat_zero] at left
    simp only [equal, behind, false_iff]
    omega
  · have shown := shape.replenished within hidden
    have positive := UInt64.lt_iff_toNat_lt.mp shown.positive
    have clip := shown.total_toNat
    have same := (RO.total_replenished out).trans (o.total_consumed f)
    rw [same] at clip
    rw [UInt64.toNat_zero] at positive
    simp only [equal, queued_append, queued_cons, queued_nil, RO.replenished_id, RO.consumed_id,
      same, behind, or_false, false_or, true_and]
    omega

end queued

/-! ## Markets -/

def Holds (m : Market) (id : OrderId) (q : Nat) (discards : Bool) : Prop :=
  (discards = false ∧ ∃ side px, Queued id q (m.levels side px)) ∨
    ∃ o ∈ m.stops, o.id = id ∧ o.qty.toNat = q ∧ o.stopMarket = discards

variable {m : Market} {id : OrderId} {q : Nat} {discards : Bool} {side : Side} {px : Price}
  {level : List RO}

theorem Holds.isOpen (holds : m.Holds id q discards) : m.IsOpen id := by
  rcases holds with ⟨-, side, px, o, member, rfl, -⟩ | ⟨o, member, rfl, -⟩
  · exact isOpen_of_mem member
  · exact isOpen_of_stop member

theorem holds_setLevel_same
    (same : ∀ q, Queued id q level ↔ Queued id q (m.levels side px)) :
    (m.setLevel side px level).Holds id q discards ↔ m.Holds id q discards := by
  have everywhere (s : Side) (p : Price) :
      Queued id q ((m.setLevel side px level).levels s p) ↔ Queued id q (m.levels s p) := by
    rw [setLevel_levels]
    split
    · rename_i place
      rw [place.1, place.2]
      exact same q
    · rfl
  simp only [Holds, everywhere, setLevel_stops]

section valid

variable (valid : m.Valid) {o : RO}
include valid

theorem Valid.holds_setLevel (member : o ∈ m.levels side px) :
    (m.setLevel side px level).Holds o.id q discards ↔ discards = false ∧ Queued o.id q level := by
  constructor
  · rintro (⟨resting, s, p, queued⟩ | ⟨stop, isStop, same, -⟩)
    · rw [setLevel_levels] at queued
      split at queued
      · exact ⟨resting, queued⟩
      · rename_i elsewhere
        rcases queued with ⟨other, found, same, -⟩
        exact absurd (valid.place _ _ _ _ other found o member same) elsewhere
    · exact absurd same.symm (valid.apart _ _ o member stop isStop)
  · rintro ⟨resting, queued⟩
    exact .inl ⟨resting, side, px, by simpa using queued⟩

theorem Valid.holds_of_mem (member : o ∈ m.levels side px) :
    m.Holds o.id q discards ↔ discards = false ∧ q = o.total.toNat := by
  have same : (m.setLevel side px (m.levels side px)).Holds o.id q discards ↔
      discards = false ∧ Queued o.id q (m.levels side px) := valid.holds_setLevel member
  rw [setLevel_eq_self] at same
  rw [same]
  constructor
  · rintro ⟨resting, other, found, sameId, rfl⟩
    rw [List.inj_on_of_nodup_map (valid.distinct side px) found member sameId]
    exact ⟨resting, rfl⟩
  · rintro ⟨resting, rfl⟩
    exact ⟨resting, o, member, rfl, rfl⟩

theorem Valid.holds_of_stop (member : o ∈ m.stops) :
    m.Holds o.id q discards ↔ q = o.qty.toNat ∧ discards = o.stopMarket := by
  constructor
  · rintro (⟨-, s, p, other, found, same, -⟩ | ⟨stop, isStop, same, rfl, rfl⟩)
    · exact absurd same (valid.apart _ _ other found o member)
    · rw [List.inj_on_of_nodup_map valid.stopDistinct isStop member same]
      exact ⟨rfl, rfl⟩
  · rintro ⟨rfl, rfl⟩
    exact .inr ⟨o, member, rfl, rfl, rfl⟩

/-- A fill off the head of a queue. -/
theorem Valid.holds_consume (announced : Price) {f : Qty} {rest : List RO}
    (head : m.levels side px = o :: rest) (within : f ≤ o.total) :
    (m.setLevel side px (consume announced f (o :: rest)).1).Holds id q discards ↔
      if id = o.id then discards = false ∧ q ≠ 0 ∧ q + f.toNat = o.total.toNat
      else m.Holds id q discards := by
  have member : o ∈ m.levels side px := by simp [head]
  split
  · rename_i same
    have distinct := valid.distinct side px
    rw [head, List.map_cons, List.nodup_cons] at distinct
    rw [same, valid.holds_setLevel member,
      queued_consume_self announced (valid.shape _ _ o member) within distinct.1]
  · rename_i other
    apply holds_setLevel_same
    intro q
    rw [head]
    exact queued_consume_other announced f (Ne.symm other)

theorem Valid.holds_remove {front back : List RO} (place : m.levels side px = front ++ o :: back) :
    (m.setLevel side px (front ++ back)).Holds id q discards ↔
      id ≠ o.id ∧ m.Holds id q discards := by
  by_cases same : id = o.id
  · subst same
    have closed := valid.not_isOpen_remove place
    simp only [ne_eq, not_true_eq_false, false_and, iff_false]
    exact fun holds => closed holds.isOpen
  · have others : ∀ q, Queued id q (front ++ back) ↔ Queued id q (m.levels side px) := by
      intro q
      simp [place, Ne.symm same]
    rw [holds_setLevel_same others]
    simp [same]

/-- Making an order smaller where it is. -/
theorem Valid.holds_amend {front back : List RO} {delta : Qty}
    (place : m.levels side px = front ++ o :: back) (less : delta < o.total) :
    (m.setLevel side px (front ++ o.reduced delta :: back)).Holds id q discards ↔
      if id = o.id then discards = false ∧ q + delta.toNat = o.total.toNat
      else m.Holds id q discards := by
  have member : o ∈ m.levels side px := by simp [place]
  split
  · rename_i same
    have distinct := valid.distinct side px
    rw [place, List.map_append, List.map_cons] at distinct
    have unique := List.nodup_cons.mp (List.perm_middle.nodup_iff.mp distinct)
    rw [List.mem_append, not_or] at unique
    have left : (o.total - delta).toNat = q ↔ q + delta.toNat = o.total.toNat := by
      have := UInt64.lt_iff_toNat_lt.mp less
      rw [UInt64.toNat_sub_of_le _ _ (UInt64.le_of_lt less)]
      omega
    rw [same, valid.holds_setLevel member]
    simp only [queued_append, queued_cons, RO.reduced_id, RO.total_reduced, not_queued unique.1.1,
      not_queued unique.1.2, false_or, or_false, true_and, left]
  · rename_i other
    apply holds_setLevel_same
    intro q
    simp [place, Ne.symm other]

omit valid in
theorem holds_append (fresh : ¬ m.IsOpen o.id) :
    (m.setLevel side px (m.levels side px ++ [o])).Holds id q discards ↔
      if id = o.id then discards = false ∧ q = o.total.toNat else m.Holds id q discards := by
  split
  · rename_i same
    subst same
    constructor
    · rintro (⟨resting, s, p, queued⟩ | ⟨stop, isStop, same, -⟩)
      · have old (s : Side) (p : Price) : ¬ Queued o.id q (m.levels s p) := by
          rintro ⟨other, member, same, -⟩
          exact fresh (same ▸ isOpen_of_mem member)
        rw [setLevel_levels] at queued
        split at queued
        · simp only [queued_append, queued_cons, queued_nil, old, true_and, false_or,
            or_false] at queued
          exact ⟨resting, queued.symm⟩
        · exact absurd queued (old s p)
      · exact absurd (isOpen_of_stop (m := m) isStop) (same ▸ fresh)
    · rintro ⟨resting, rfl⟩
      exact .inl ⟨resting, side, px, by simp⟩
  · rename_i other
    apply holds_setLevel_same
    intro q
    simp [Ne.symm other]

omit valid in
theorem holds_park (fresh : ¬ m.IsOpen o.id) :
    { m with stops := m.stops ++ [o] }.Holds id q discards ↔
      if id = o.id then q = o.qty.toNat ∧ discards = o.stopMarket else m.Holds id q discards := by
  split
  · rename_i same
    subst same
    constructor
    · rintro (⟨-, s, p, other, member, same, -⟩ | ⟨stop, isStop, same, rfl, rfl⟩)
      · exact absurd (isOpen_of_mem (m := m) member) (same ▸ fresh)
      · rcases List.mem_append.mp isStop with old | new
        · exact absurd (isOpen_of_stop old) (same ▸ fresh)
        · rw [List.mem_singleton.mp new]
          exact ⟨rfl, rfl⟩
    · rintro ⟨rfl, rfl⟩
      exact .inr ⟨o, by simp, rfl, rfl, rfl⟩
  · rename_i other
    simp [Holds, or_and_right, exists_or, Ne.symm other]

theorem Valid.holds_unpark {front back : List RO} (place : m.stops = front ++ o :: back) :
    { m with stops := front ++ back }.Holds id q discards ↔
      id ≠ o.id ∧ m.Holds id q discards := by
  by_cases same : id = o.id
  · subst same
    have closed := valid.not_isOpen_unpark place
    simp only [ne_eq, not_true_eq_false, false_and, iff_false]
    exact fun holds => closed holds.isOpen
  · simp [Holds, place, or_and_right, exists_or, same, Ne.symm same]

end valid

end Market

/-! ## Takers -/

def Open (state : Market × Phase) (id : OrderId) (q : Nat) (discards : Bool) : Prop :=
  state.1.Holds id q discards ∨
    ∃ t, (state.2 = .taking t ∨ state.2 = .stopped t) ∧ t.id = id ∧ t.qty.toNat = q ∧
      decide (t.remainder = .discard) = discards

section isOpen

variable {m : Market} {t : Taker} {id : OrderId} {q : Nat} {discards : Bool}

def Taker.Carries (t : Taker) (id : OrderId) (q : Nat) (discards : Bool) : Prop :=
  t.id = id ∧ t.qty.toNat = q ∧ decide (t.remainder = .discard) = discards

@[simp] theorem open_idle : Open (m, .idle) id q discards ↔ m.Holds id q discards := by
  simp [Open]

@[simp] theorem open_crossing {clearing : Price} :
    Open (m, .crossing clearing) id q discards ↔ m.Holds id q discards := by
  simp [Open]

@[simp] theorem open_taking :
    Open (m, .taking t) id q discards ↔ m.Holds id q discards ∨ t.Carries id q discards := by
  simp [Open, Taker.Carries]

@[simp] theorem open_stopped :
    Open (m, .stopped t) id q discards ↔ m.Holds id q discards ∨ t.Carries id q discards := by
  simp [Open, Taker.Carries]

end isOpen

end Matchbook
