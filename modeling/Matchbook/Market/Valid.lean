import Mathlib.Data.List.Perm.Subperm
import Matchbook.Market.Steps

namespace Matchbook

open Transitions

/-! # What every market keeps

`Valid` is the invariant of all later arguments: orders are where they say,
ids are open at most once, and no quantity is empty or wraps around. -/

/-! ## Orders -/

structure RO.Shape (o : RO) : Prop where
  positive : 0 < o.qty
  fits : o.qty.toNat + o.reserve.toNat < 2 ^ 64
  plain : o.peak = 0 → o.reserve = 0
  clipped : o.peak ≠ 0 → o.qty ≤ o.peak
  notMarket : o.stopMarket = false
  noLimit : o.stopLimit = 0

namespace RO

section fields

variable (o : RO) (f : Qty)

@[simp] theorem consumed_id : (o.consumed f).id = o.id := rfl
@[simp] theorem consumed_side : (o.consumed f).side = o.side := rfl
@[simp] theorem consumed_price : (o.consumed f).price = o.price := rfl
@[simp] theorem consumed_peak : (o.consumed f).peak = o.peak := rfl
@[simp] theorem consumed_owner : (o.consumed f).owner = o.owner := rfl
@[simp] theorem consumed_stp : (o.consumed f).stp = o.stp := rfl
@[simp] theorem consumed_stopMarket : (o.consumed f).stopMarket = o.stopMarket := rfl
@[simp] theorem consumed_stopLimit : (o.consumed f).stopLimit = o.stopLimit := rfl

@[simp] theorem replenished_id : o.replenished.id = o.id := rfl
@[simp] theorem replenished_side : o.replenished.side = o.side := rfl
@[simp] theorem replenished_price : o.replenished.price = o.price := rfl
@[simp] theorem replenished_qty : o.replenished.qty = o.clip := rfl
@[simp] theorem replenished_peak : o.replenished.peak = o.peak := rfl
@[simp] theorem replenished_owner : o.replenished.owner = o.owner := rfl
@[simp] theorem replenished_stp : o.replenished.stp = o.stp := rfl

@[simp] theorem reduced_id : (o.reduced f).id = o.id := rfl
@[simp] theorem reduced_side : (o.reduced f).side = o.side := rfl
@[simp] theorem reduced_price : (o.reduced f).price = o.price := rfl
@[simp] theorem reduced_peak : (o.reduced f).peak = o.peak := rfl
@[simp] theorem reduced_owner : (o.reduced f).owner = o.owner := rfl
@[simp] theorem reduced_stp : (o.reduced f).stp = o.stp := rfl

end fields

variable {o : RO} {f : Qty}

theorem Shape.total_toNat (shape : o.Shape) :
    o.total.toNat = o.qty.toNat + o.reserve.toNat := by
  rw [total, UInt64.toNat_add, Nat.mod_eq_of_lt shape.fits]

theorem consumed_of_le (le : f ≤ o.qty) : o.consumed f = { o with qty := o.qty - f } := by
  have amount : (if f < o.qty then f else o.qty) = f := by grind
  simp only [consumed, amount, UInt64.sub_self, UInt64.sub_zero]

theorem Shape.consumed_qty (shape : o.Shape) :
    (o.consumed f).qty.toNat = o.qty.toNat - f.toNat := by
  have := shape.positive
  simp only [consumed]
  split
  · rename_i less
    rw [UInt64.toNat_sub_of_le _ _ (UInt64.le_of_lt less)]
  · rename_i notLess
    have le := UInt64.le_iff_toNat_le.mp (UInt64.not_lt.mp notLess)
    simp
    omega

theorem Shape.consumed_reserve (shape : o.Shape) (within : f ≤ o.total) :
    (o.consumed f).reserve.toNat = o.reserve.toNat - (f.toNat - o.qty.toNat) := by
  have total := shape.total_toNat
  rw [UInt64.le_iff_toNat_le, total] at within
  simp only [consumed]
  split
  · rename_i less
    have := UInt64.lt_iff_toNat_lt.mp less
    simp only [UInt64.sub_self, UInt64.sub_zero]
    omega
  · rename_i notLess
    have le := UInt64.not_lt.mp notLess
    have difference := UInt64.toNat_sub_of_le _ _ le
    rw [UInt64.toNat_sub_of_le, difference]
    rw [UInt64.le_iff_toNat_le, difference]
    omega

theorem Shape.consumed (shape : o.Shape) (within : f ≤ o.total)
    (left : (o.consumed f).qty ≠ 0) : (o.consumed f).Shape := by
  have qty := shape.consumed_qty (f := f)
  have reserve := shape.consumed_reserve within
  have fits := shape.fits
  refine ⟨by grind, by omega, fun plain => ?_, fun clipped => ?_, shape.notMarket,
    shape.noLimit⟩
  · have none := shape.plain plain
    rw [← UInt64.toNat_inj] at none ⊢
    simp only [none, UInt64.toNat_zero] at reserve ⊢
    omega
  · have le := shape.clipped clipped
    rw [UInt64.le_iff_toNat_le] at le ⊢
    simp only [consumed_peak]
    omega

theorem clip_le_reserve : o.clip ≤ o.reserve := by
  unfold clip
  grind

theorem clip_le_peak : o.clip ≤ o.peak := by
  unfold clip
  grind

theorem clip_pos (peak : o.peak ≠ 0) (reserve : 0 < o.reserve) : 0 < o.clip := by
  unfold clip
  grind

theorem replenished_reserve :
    o.replenished.reserve.toNat = o.reserve.toNat - o.clip.toNat :=
  UInt64.toNat_sub_of_le _ _ clip_le_reserve

theorem Shape.replenished (shape : o.Shape) (within : f ≤ o.total)
    (left : 0 < (o.consumed f).reserve) : (o.consumed f).replenished.Shape := by
  have peak : o.peak ≠ 0 := by
    intro plain
    have reserve := shape.consumed_reserve within
    rw [shape.plain plain] at reserve
    rw [UInt64.lt_iff_toNat_lt] at left
    simp at reserve left
    omega
  have reserve := replenished_reserve (o := o.consumed f)
  have clip := UInt64.le_iff_toNat_le.mp (clip_le_reserve (o := o.consumed f))
  have bound := UInt64.toNat_lt (o.consumed f).reserve
  refine ⟨clip_pos peak left, ?_, fun plain => absurd plain peak, fun _ => clip_le_peak,
    shape.notMarket, shape.noLimit⟩
  rw [reserve, replenished_qty]
  omega

theorem Shape.reduced (shape : o.Shape) (less : f < o.total) : (o.reduced f).Shape := by
  have total := shape.total_toNat
  have fits := shape.fits
  rw [UInt64.lt_iff_toNat_lt, total] at less
  unfold RO.reduced
  by_cases inReserve : f < o.reserve
  · have := UInt64.toNat_sub_of_le _ _ (UInt64.le_of_lt inReserve)
    refine ⟨?_, ?_, fun plain => ?_, fun clipped => ?_, shape.notMarket, shape.noLimit⟩ <;>
      simp only [inReserve, if_true, UInt64.sub_self, UInt64.sub_zero]
    · exact shape.positive
    · omega
    · have := shape.plain plain
      grind
    · exact shape.clipped clipped
  · have le := UInt64.not_lt.mp inReserve
    have rest := UInt64.toNat_sub_of_le _ _ le
    have small : f - o.reserve ≤ o.qty := by
      rw [UInt64.le_iff_toNat_le]
      omega
    have left := UInt64.toNat_sub_of_le _ _ small
    refine ⟨?_, ?_, fun plain => ?_, fun clipped => ?_, shape.notMarket, shape.noLimit⟩ <;>
      simp only [inReserve, if_false, UInt64.sub_self]
    · rw [UInt64.lt_iff_toNat_lt, left, UInt64.toNat_zero]
      have := UInt64.le_iff_toNat_le.mp le
      omega
    · rw [left, UInt64.toNat_zero]
      omega
    · have le := shape.clipped clipped
      rw [UInt64.le_iff_toNat_le] at le ⊢
      omega

end RO

/-! ## The head of a queue -/

/-- The three things that can happen to the head of a queue. -/
theorem consume_cases (px : Price) (f : Qty) (o : RO) (rest : List RO) :
    ((o.consumed f).qty ≠ 0 ∧ consume px f (o :: rest) = (o.consumed f :: rest, [])) ∨
    ((o.consumed f).qty = 0 ∧ (o.consumed f).reserve = 0 ∧
      consume px f (o :: rest) = (rest, [])) ∨
    ((o.consumed f).qty = 0 ∧ 0 < (o.consumed f).reserve ∧
      consume px f (o :: rest) = (rest ++ [(o.consumed f).replenished],
        [.rest o.id o.side px (o.consumed f).clip])) := by
  by_cases out : (o.consumed f).qty = 0
  · by_cases hidden : 0 < (o.consumed f).reserve
    · exact .inr (.inr ⟨out, hidden, by simp [consume, out, hidden]⟩)
    · exact .inr (.inl ⟨out, by grind, by simp [consume, out, hidden]⟩)
  · exact .inl ⟨out, by simp [consume, out]⟩

/-- Where the orders left after `consume` come from. -/
theorem mem_consume {px : Price} {f : Qty} {o other : RO} {rest : List RO}
    (member : other ∈ (consume px f (o :: rest)).1) :
    other ∈ rest ∨
      ((o.consumed f).qty ≠ 0 ∧ other = o.consumed f) ∨
      (0 < (o.consumed f).reserve ∧ other = (o.consumed f).replenished) := by
  rcases consume_cases px f o rest with ⟨left, equal⟩ | ⟨-, -, equal⟩ | ⟨-, hidden, equal⟩
  all_goals
    simp only [equal, List.mem_cons, List.mem_append, List.not_mem_nil, or_false] at member
  · exact member.elim (fun same => .inr (.inl ⟨left, same⟩)) .inl
  · exact .inl member
  · exact member.elim .inl fun same => .inr (.inr ⟨hidden, same⟩)

theorem consume_ids (px : Price) (f : Qty) (o : RO) (rest : List RO) :
    ((consume px f (o :: rest)).1.map RO.id).Subperm ((o :: rest).map RO.id) := by
  rcases consume_cases px f o rest with ⟨-, equal⟩ | ⟨-, -, equal⟩ | ⟨-, -, equal⟩ <;>
    rw [equal]
  · exact List.Perm.subperm (by simp)
  · exact (List.sublist_cons_self _ _).subperm
  · exact List.Perm.subperm (by simp)

/-! ## Markets -/

structure Market.Valid (m : Market) : Prop where
  home : ∀ side px, ∀ o ∈ m.levels side px, o.side = side ∧ o.price = px
  inside : ∀ side px, m.levels side px ≠ [] → m.inBand px
  shape : ∀ side px, ∀ o ∈ m.levels side px, o.Shape
  distinct : ∀ side px, ((m.levels side px).map RO.id).Nodup
  place : ∀ side px side' px', ∀ o ∈ m.levels side px, ∀ o' ∈ m.levels side' px',
    o.id = o'.id → side = side' ∧ px = px'
  stopShape : ∀ o ∈ m.stops, 0 < o.qty ∧ o.reserve = 0 ∧ o.peak = 0
  stopInside : ∀ o ∈ m.stops, m.inBand o.price
  stopLimit : ∀ o ∈ m.stops,
    if o.stopMarket then o.stopLimit = 0 else m.inBand o.stopLimit
  stopDistinct : (m.stops.map RO.id).Nodup
  apart : ∀ side px, ∀ o ∈ m.levels side px, ∀ stop ∈ m.stops, o.id ≠ stop.id
  issued : ∀ id, m.IsOpen id → 0 < id ∧ id < m.nextId
  started : 0 < m.nextId

/-- A taker is on its way under an id that is not open. -/
structure Taker.Valid (t : Taker) (m : Market) : Prop where
  fresh : ¬ m.IsOpen t.id
  issued : 0 < t.id ∧ t.id < m.nextId
  rests : ∀ price peak, t.remainder = .rest price peak →
    m.inBand price ∧ t.limit = some price

def Phase.Valid (m : Market) : Phase → Prop
  | .taking t => t.Valid m
  | .stopped t => t.Valid m
  | _ => True

namespace Market

theorem isOpen_of_mem {m : Market} {side : Side} {px : Price} {o : RO}
    (member : o ∈ m.levels side px) : m.IsOpen o.id :=
  .inl ⟨side, px, o, member, rfl⟩

theorem isOpen_of_stop {m : Market} {o : RO} (member : o ∈ m.stops) : m.IsOpen o.id :=
  .inr ⟨o, member, rfl⟩

/-- Replacing one queue keeps a market valid if the new orders belong there and
their ids are those of the old ones or are not in use. -/
theorem Valid.setLevel {m : Market} (valid : m.Valid) {side : Side} {px : Price}
    {level : List RO} (home : ∀ o ∈ level, o.side = side ∧ o.price = px)
    (shape : ∀ o ∈ level, o.Shape) (inside : level ≠ [] → m.inBand px)
    (distinct : (level.map RO.id).Nodup)
    (ids : ∀ o ∈ level, (∃ old ∈ m.levels side px, old.id = o.id) ∨
      (¬ m.IsOpen o.id ∧ 0 < o.id ∧ o.id < m.nextId)) :
    (m.setLevel side px level).Valid := by
  have members : ∀ s p o, o ∈ (m.setLevel side px level).levels s p →
      (s = side ∧ p = px ∧ o ∈ level) ∨ (¬ (s = side ∧ p = px) ∧ o ∈ m.levels s p) := by
    intro s p o member
    rw [setLevel_levels] at member
    split at member <;> grind
  have elsewhere : ∀ s p, ¬ (s = side ∧ p = px) → ∀ o ∈ level, ∀ o' ∈ m.levels s p,
      o.id ≠ o'.id := by
    intro s p other o member o' member' equal
    rcases ids o member with ⟨old, oldMember, same⟩ | ⟨notOpen, -⟩
    · exact other (valid.place _ _ _ _ o' member' old oldMember (by rw [same, equal]))
    · exact notOpen (equal ▸ isOpen_of_mem member')
  constructor
  case home =>
      intro s p o member
      rcases members s p o member with ⟨rfl, rfl, inNew⟩ | ⟨-, inOld⟩
      · exact home o inNew
      · exact valid.home s p o inOld
  case shape =>
      intro s p o member
      rcases members s p o member with ⟨-, -, inNew⟩ | ⟨-, inOld⟩
      · exact shape o inNew
      · exact valid.shape s p o inOld
  case inside =>
      intro s p occupied
      rw [setLevel_levels] at occupied
      split at occupied
      · rename_i same
        exact same.2 ▸ inside occupied
      · exact valid.inside s p occupied
  case distinct =>
      intro s p
      rw [setLevel_levels]
      split
      · exact distinct
      · exact valid.distinct s p
  case place =>
      intro s p s' p' o member o' member' equal
      rcases members s p o member with ⟨rfl, rfl, inNew⟩ | ⟨other, inOld⟩ <;>
        rcases members s' p' o' member' with ⟨rfl, rfl, inNew'⟩ | ⟨other', inOld'⟩
      · exact ⟨rfl, rfl⟩
      · exact absurd equal (elsewhere s' p' other' o inNew o' inOld')
      · exact absurd equal.symm (elsewhere s p other o' inNew' o inOld)
      · exact valid.place _ _ _ _ o inOld o' inOld' equal
  case apart =>
      intro s p o member stop isStop
      rcases members s p o member with ⟨rfl, rfl, inNew⟩ | ⟨-, inOld⟩
      · rcases ids o inNew with ⟨old, oldMember, same⟩ | ⟨notOpen, -⟩
        · exact same ▸ valid.apart _ _ old oldMember stop isStop
        · exact fun equal => notOpen (equal ▸ isOpen_of_stop isStop)
      · exact valid.apart s p o inOld stop isStop
  case issued =>
      rintro id (⟨s, p, o, member, rfl⟩ | ⟨stop, isStop, rfl⟩)
      · rcases members s p o member with ⟨rfl, rfl, inNew⟩ | ⟨-, inOld⟩
        · rcases ids o inNew with ⟨old, oldMember, same⟩ | ⟨-, issued⟩
          · exact same ▸ valid.issued _ (isOpen_of_mem oldMember)
          · exact issued
        · exact valid.issued _ (isOpen_of_mem inOld)
      · exact valid.issued _ (isOpen_of_stop isStop)
  case stopShape => exact valid.stopShape
  case stopInside => exact valid.stopInside
  case stopLimit => exact valid.stopLimit
  case stopDistinct => exact valid.stopDistinct
  case started => exact valid.started

theorem isOpen_setLevel {m : Market} {side : Side} {px : Price} {level : List RO}
    {id : OrderId} (isOpen : (m.setLevel side px level).IsOpen id) :
    (∃ o ∈ level, o.id = id) ∨ m.IsOpen id := by
  rcases isOpen with ⟨s, p, o, member, rfl⟩ | ⟨stop, isStop, rfl⟩
  · rw [setLevel_levels] at member
    split at member
    · exact .inl ⟨o, member, rfl⟩
    · exact .inr (isOpen_of_mem member)
  · exact .inr (isOpen_of_stop (m := m) isStop)

variable {m : Market} (valid : m.Valid) {side : Side} {px : Price}
include valid

theorem Valid.setLast (last : Option Price) : { m with last }.Valid :=
  { valid with }

theorem Valid.setHalted (halted : Bool) : { m with halted }.Valid :=
  { valid with }

theorem Valid.issue : { m with nextId := m.nextId + 1 }.Valid :=
  { valid with
    issued := fun id isOpen =>
      have issued := valid.issued id isOpen
      ⟨issued.1, Nat.lt_succ_of_lt issued.2⟩
    started := Nat.succ_pos _ }

theorem Valid.fresh : ¬ m.IsOpen m.nextId := fun isOpen =>
  Nat.lt_irrefl _ (valid.issued _ isOpen).2

theorem Valid.fillHead (announced : Price) {f : Qty} {o : RO} {rest : List RO}
    (head : m.levels side px = o :: rest) (within : f ≤ o.total) :
    (m.setLevel side px (consume announced f (o :: rest)).1).Valid := by
  have atHead : o ∈ m.levels side px := head ▸ List.mem_cons_self
  have inRest : ∀ other ∈ rest, other ∈ m.levels side px := fun other member =>
    head ▸ List.mem_cons_of_mem o member
  have shape := valid.shape _ _ o atHead
  apply valid.setLevel
  · intro other member
    rcases mem_consume member with behind | ⟨-, rfl⟩ | ⟨-, rfl⟩
    · exact valid.home _ _ other (inRest other behind)
    · exact valid.home _ _ o atHead
    · exact valid.home _ _ o atHead
  · intro other member
    rcases mem_consume member with behind | ⟨left, rfl⟩ | ⟨hidden, rfl⟩
    · exact valid.shape _ _ other (inRest other behind)
    · exact shape.consumed within left
    · exact shape.replenished within hidden
  · exact fun _ => valid.inside side px (by simp [head])
  · have nodup := valid.distinct side px
    rw [head] at nodup
    rcases consume_ids announced f o rest with ⟨ids, perm, sub⟩
    exact perm.nodup_iff.mp (nodup.sublist sub)
  · intro other member
    have old : other.id ∈ (o :: rest).map RO.id :=
      (consume_ids announced f o rest).subset (List.mem_map_of_mem member)
    rcases List.mem_map.mp old with ⟨before, inOld, same⟩
    exact .inl ⟨before, head ▸ inOld, same⟩

omit valid in
theorem isOpen_consume {announced : Price} {f : Qty} {o : RO} {rest : List RO}
    (head : m.levels side px = o :: rest) {id : OrderId}
    (isOpen : (m.setLevel side px (consume announced f (o :: rest)).1).IsOpen id) :
    m.IsOpen id := by
  rcases isOpen_setLevel isOpen with ⟨other, member, rfl⟩ | before
  · have old : other.id ∈ (o :: rest).map RO.id :=
      (consume_ids announced f o rest).subset (List.mem_map_of_mem member)
    rcases List.mem_map.mp old with ⟨before, inOld, same⟩
    exact same ▸ isOpen_of_mem (head ▸ inOld)
  · exact before

section place

variable {front back : List RO} {o : RO} (place : m.levels side px = front ++ o :: back)
include place

theorem Valid.remove : (m.setLevel side px (front ++ back)).Valid := by
  have sub : (front ++ back).Sublist (m.levels side px) := by
    rw [place]
    exact List.Sublist.append_left (List.sublist_cons_self o back) front
  apply valid.setLevel
  · exact fun other member => valid.home _ _ other (sub.subset member)
  · exact fun other member => valid.shape _ _ other (sub.subset member)
  · exact fun _ => valid.inside side px (by simp [place])
  · exact (valid.distinct side px).sublist (sub.map RO.id)
  · exact fun other member => .inl ⟨other, sub.subset member, rfl⟩

theorem Valid.not_isOpen_remove : ¬ (m.setLevel side px (front ++ back)).IsOpen o.id := by
  have atPlace : o ∈ m.levels side px := by simp [place]
  have nodup := valid.distinct side px
  rw [place, List.map_append, List.map_cons] at nodup
  have unique := (List.perm_middle.nodup_iff.mp nodup)
  rw [List.nodup_cons, ← List.map_append] at unique
  rintro (⟨s, p, other, member, same⟩ | ⟨stop, isStop, same⟩)
  · rw [setLevel_levels] at member
    split at member
    · exact unique.1 (same ▸ List.mem_map_of_mem member)
    · rename_i other'
      exact other' (valid.place _ _ _ _ other member o atPlace same)
  · exact valid.apart _ _ o atPlace stop isStop same.symm

omit valid in
theorem isOpen_remove {id : OrderId}
    (isOpen : (m.setLevel side px (front ++ back)).IsOpen id) : m.IsOpen id := by
  rcases isOpen_setLevel isOpen with ⟨other, member, rfl⟩ | before
  · have : other ∈ m.levels side px := by
      rw [place]
      simp only [List.mem_append, List.mem_cons] at member ⊢
      grind
    exact isOpen_of_mem this
  · exact before

theorem Valid.amend {delta : Qty} (less : delta < o.total) :
    (m.setLevel side px (front ++ o.reduced delta :: back)).Valid := by
  have atPlace : o ∈ m.levels side px := by simp [place]
  have members : ∀ other ∈ front ++ o.reduced delta :: back,
      other = o.reduced delta ∨ other ∈ m.levels side px := by
    rw [place]
    simp only [List.mem_append, List.mem_cons]
    grind
  apply valid.setLevel
  · intro other member
    rcases members other member with rfl | old
    · exact valid.home _ _ o atPlace
    · exact valid.home _ _ other old
  · intro other member
    rcases members other member with rfl | old
    · exact (valid.shape _ _ o atPlace).reduced less
    · exact valid.shape _ _ other old
  · exact fun _ => valid.inside side px (by simp [place])
  · have nodup := valid.distinct side px
    rw [place] at nodup
    simpa using nodup
  · intro other member
    rcases members other member with rfl | old
    · exact .inl ⟨o, atPlace, rfl⟩
    · exact .inl ⟨other, old, rfl⟩

end place

theorem Valid.removeHead {rest : List RO} {o : RO} (head : m.levels side px = o :: rest) :
    (m.setLevel side px rest).Valid :=
  valid.remove (show m.levels side px = [] ++ o :: rest from head)

omit valid in
theorem isOpen_removeHead {rest : List RO} {o : RO} (head : m.levels side px = o :: rest)
    {id : OrderId} (isOpen : (m.setLevel side px rest).IsOpen id) : m.IsOpen id :=
  isOpen_remove (show m.levels side px = [] ++ o :: rest from head) isOpen

theorem Valid.append {o : RO} (home : o.side = side ∧ o.price = px) (shape : o.Shape)
    (inside : m.inBand px) (fresh : ¬ m.IsOpen o.id) (issued : 0 < o.id ∧ o.id < m.nextId) :
    (m.setLevel side px (m.levels side px ++ [o])).Valid := by
  apply valid.setLevel
  · intro other member
    rcases List.mem_append.mp member with old | new
    · exact valid.home _ _ other old
    · exact List.mem_singleton.mp new ▸ home
  · intro other member
    rcases List.mem_append.mp member with old | new
    · exact valid.shape _ _ other old
    · exact List.mem_singleton.mp new ▸ shape
  · exact fun _ => inside
  · rw [List.map_append, List.nodup_append]
    refine ⟨valid.distinct side px, by simp, ?_⟩
    rintro id old other new rfl
    rcases List.mem_map.mp old with ⟨before, member, same⟩
    have : id = o.id := by simpa using new
    exact fresh (this ▸ same ▸ isOpen_of_mem member)
  · intro other member
    rcases List.mem_append.mp member with old | new
    · exact .inl ⟨other, old, rfl⟩
    · exact .inr (List.mem_singleton.mp new ▸ ⟨fresh, issued⟩)

/-- Parking a new stop. -/
theorem Valid.park {o : RO} (shape : 0 < o.qty ∧ o.reserve = 0 ∧ o.peak = 0)
    (inside : m.inBand o.price)
    (limit : if o.stopMarket then o.stopLimit = 0 else m.inBand o.stopLimit)
    (fresh : ¬ m.IsOpen o.id) (issued : 0 < o.id ∧ o.id < m.nextId) :
    { m with stops := m.stops ++ [o] }.Valid := by
  have members : ∀ stop ∈ m.stops ++ [o], stop ∈ m.stops ∨ stop = o := by simp
  constructor
  case stopShape =>
      exact fun stop isStop =>
        (members stop isStop).elim (valid.stopShape stop) fun same => same ▸ shape
  case stopInside =>
      exact fun stop isStop =>
        (members stop isStop).elim (valid.stopInside stop) fun same => same ▸ inside
  case stopLimit =>
      exact fun stop isStop =>
        (members stop isStop).elim (valid.stopLimit stop) fun same => same ▸ limit
  case stopDistinct =>
      rw [List.map_append, List.nodup_append]
      refine ⟨valid.stopDistinct, by simp, ?_⟩
      rintro id old other new rfl
      rcases List.mem_map.mp old with ⟨before, member, same⟩
      have : id = o.id := by simpa using new
      exact fresh (this ▸ same ▸ isOpen_of_stop member)
  case apart =>
      intro s p other member stop isStop
      rcases members stop isStop with old | rfl
      · exact valid.apart s p other member stop old
      · exact fun equal => fresh (equal ▸ isOpen_of_mem member)
  case issued =>
      rintro id (resting | ⟨stop, isStop, rfl⟩)
      · exact valid.issued id (.inl resting)
      · rcases members stop isStop with old | rfl
        · exact valid.issued _ (isOpen_of_stop old)
        · exact issued
  case home => exact valid.home
  case inside => exact valid.inside
  case shape => exact valid.shape
  case distinct => exact valid.distinct
  case place => exact valid.place
  case started => exact valid.started

theorem Valid.unpark {front back : List RO} {o : RO} (place : m.stops = front ++ o :: back) :
    { m with stops := front ++ back }.Valid := by
  have sub : (front ++ back).Sublist m.stops := by
    rw [place]
    exact List.Sublist.append_left (List.sublist_cons_self o back) front
  exact
    { valid with
      stopShape := fun stop member => valid.stopShape stop (sub.subset member)
      stopInside := fun stop member => valid.stopInside stop (sub.subset member)
      stopLimit := fun stop member => valid.stopLimit stop (sub.subset member)
      stopDistinct := valid.stopDistinct.sublist (sub.map RO.id)
      apart := fun s p other member stop isStop =>
        valid.apart s p other member stop (sub.subset isStop)
      issued := fun id isOpen => valid.issued id (isOpen.imp (fun resting => resting)
        fun ⟨stop, isStop, same⟩ => ⟨stop, sub.subset isStop, same⟩) }

theorem Valid.not_isOpen_unpark {front back : List RO} {o : RO}
    (place : m.stops = front ++ o :: back) :
    ¬ { m with stops := front ++ back }.IsOpen o.id := by
  have nodup := valid.stopDistinct
  rw [place, List.map_append, List.map_cons] at nodup
  have unique := (List.perm_middle.nodup_iff.mp nodup)
  rw [List.nodup_cons, ← List.map_append] at unique
  rintro (⟨s, p, other, member, same⟩ | ⟨stop, isStop, same⟩)
  · exact valid.apart s p other member o (by simp [place]) same
  · exact unique.1 (same ▸ List.mem_map_of_mem isStop)

end Market

/-! ## Steps keep markets valid -/

namespace Taker

variable {t : Taker} {m m' : Market}

theorem Valid.mono (valid : t.Valid m) (closed : ∀ id, m'.IsOpen id → m.IsOpen id)
    (nextId : m'.nextId = m.nextId) (min : m'.min = m.min) (max : m'.max = m.max) :
    t.Valid m' where
  fresh isOpen := valid.fresh (closed _ isOpen)
  issued := by rw [nextId]; exact valid.issued
  rests price peak rests := by
    have inside := valid.rests price peak rests
    simpa only [Market.inBand, min, max] using inside

theorem resting_shape {price : Price} {peak : Qty} (left : t.qty ≠ 0) :
    (t.resting price peak).Shape := by
  unfold resting
  by_cases iceberg : peak ≠ 0 ∧ peak < t.qty
  · have hidden := UInt64.toNat_sub_of_le _ _ (UInt64.le_of_lt iceberg.2)
    have less := UInt64.lt_iff_toNat_lt.mp iceberg.2
    have bound := UInt64.toNat_lt t.qty
    simp only [iceberg, ne_eq, not_false_eq_true, and_self, if_true]
    exact ⟨by grind, by simp only [hidden]; omega, fun plain => absurd plain iceberg.1,
      fun _ => UInt64.le_refl peak, rfl, rfl⟩
  · rw [if_neg iceberg]
    exact ⟨by grind, by simpa using UInt64.toNat_lt t.qty, fun _ => rfl,
      fun clipped => absurd rfl clipped, rfl, rfl⟩

@[simp] theorem resting_id (price : Price) (peak : Qty) :
    (t.resting price peak).id = t.id := by
  unfold resting
  split <;> rfl

@[simp] theorem resting_side (price : Price) (peak : Qty) :
    (t.resting price peak).side = t.side := by
  unfold resting
  split <;> rfl

@[simp] theorem resting_price (price : Price) (peak : Qty) :
    (t.resting price peak).price = price := by
  unfold resting
  split <;> rfl

@[simp] theorem resting_owner (price : Price) (peak : Qty) :
    (t.resting price peak).owner = t.owner := by
  unfold resting
  split <;> rfl

theorem resting_qty_le (price : Price) (peak : Qty) :
    (t.resting price peak).qty ≤ t.qty := by
  unfold resting
  split
  · rename_i iceberg
    exact UInt64.le_of_lt iceberg.2
  · exact UInt64.le_refl _

theorem ofLimit_valid {m : Market} {id : OrderId} {side : Side} {price : Price}
    {qty : Qty} {tif : TimeInForce} {owner : OwnerId} {stp : StpPolicy} {peak : Qty}
    (fresh : ¬ m.IsOpen id) (issued : 0 < id ∧ id < m.nextId) (inside : m.inBand price) :
    (ofLimit id side price qty tif owner stp peak).Valid m where
  fresh := fresh
  issued := issued
  rests p k rests := by
    simp only [ofLimit] at rests ⊢
    split at rests <;> simp_all

theorem ofMarket_valid {m : Market} {id : OrderId} {side : Side} {qty : Qty}
    {owner : OwnerId} {stp : StpPolicy} (fresh : ¬ m.IsOpen id)
    (issued : 0 < id ∧ id < m.nextId) : (ofMarket id side qty owner stp).Valid m where
  fresh := fresh
  issued := issued
  rests p k rests := by simp [ofMarket] at rests

end Taker

theorem RO.fired_valid {m : Market} {o : RO} (fresh : ¬ m.IsOpen o.id)
    (issued : 0 < o.id ∧ o.id < m.nextId)
    (limit : o.stopMarket = false → m.inBand o.stopLimit) : o.fired.Valid m := by
  unfold RO.fired
  split
  · exact Taker.ofMarket_valid fresh issued
  · rename_i notMarket
    exact Taker.ofLimit_valid fresh issued (limit (by simpa using notMarket))

def ValidState (state : Market × Phase) : Prop := state.1.Valid ∧ state.2.Valid state.1

theorem le_total_of_min {f : Qty} {b a : RO}
    (amount : f = if b.total < a.total then b.total else a.total) :
    f ≤ b.total ∧ f ≤ a.total := by
  grind

theorem RO.Shape.qty_le_total {o : RO} (shape : o.Shape) : o.qty ≤ o.total := by
  rw [UInt64.le_iff_toNat_le, shape.total_toNat]
  omega

theorem Step.valid {state next : Market × Phase} {events : List Event}
    (valid : ValidState state) (step : Step state events next) : ValidState next := by
  cases step with
  | @fill m t px o rest fill meets other amount =>
      rcases valid with ⟨market, taker⟩
      have atHead : o ∈ m.levels t.maker px := by simp [meets.head]
      have shown := (market.shape _ _ o atHead).qty_le_total
      have within : fill ≤ o.total := by grind
      exact ⟨(market.fillHead px meets.head within).setLast _,
        ⟨fun isOpen => taker.fresh (Market.isOpen_consume meets.head isOpen), taker.issued,
          taker.rests⟩⟩
  | cancelMaker meets own policy =>
      rcases valid with ⟨market, taker⟩
      exact ⟨market.removeHead meets.head,
        taker.mono (fun id => Market.isOpen_removeHead meets.head) rfl rfl rfl⟩
  | cancelTaker meets own policy => exact valid
  | cancelBoth meets own policy =>
      rcases valid with ⟨market, taker⟩
      exact ⟨market.removeHead meets.head,
        taker.mono (fun id => Market.isOpen_removeHead meets.head) rfl rfl rfl⟩
  | killed announced => exact ⟨valid.1, trivial⟩
  | stoppedMarket silent => exact ⟨valid.1, trivial⟩
  | filled done => exact ⟨valid.1, trivial⟩
  | rest left blocked rests =>
      rcases valid with ⟨market, taker⟩
      refine ⟨market.append ?_ (Taker.resting_shape left) (taker.rests _ _ rests).1 ?_ ?_,
        trivial⟩
      · simp
      · simpa using taker.fresh
      · simpa using taker.issued
  | cancelRemainder left blocked cancels => exact ⟨valid.1, trivial⟩
  | discard left blocked discards => exact ⟨valid.1, trivial⟩
  | @fire m front o back next =>
      rcases valid with ⟨market, -⟩
      have isStop : o ∈ m.stops := by simp [next.parked]
      refine ⟨market.unpark next.parked, RO.fired_valid (market.not_isOpen_unpark next.parked)
        (market.issued _ (Market.isOpen_of_stop isStop)) fun notMarket => ?_⟩
      have limit := market.stopLimit o isStop
      simpa [notMarket, Market.inBand] using limit
  | @cross m clearing bpx apx b a bids asks f bestBid bestAsk bidHead askHead _ _ amount =>
      rcases valid with ⟨market, -⟩
      rcases le_total_of_min amount with ⟨bidWithin, askWithin⟩
      have bid := market.fillHead clearing bidHead bidWithin
      have askHead' : (m.setLevel .buy bpx (consume clearing f (b :: bids)).1).levels
          .sell apx = a :: asks := by
        rw [Market.setLevel_levels_side _ _ _ _ _ _ (by decide), askHead]
      exact ⟨(bid.fillHead clearing askHead' askWithin).setLast _, trivial⟩
  | crossed apart => exact ⟨valid.1, trivial⟩

theorem Op.Stop.id_eq {op : Op} {id : OrderId} {o : RO} (entry : op.Stop id o) :
    o.id = id := by
  cases entry <;> rfl

theorem Op.Stop.shape {op : Op} {id : OrderId} {o : RO} (entry : op.Stop id o) :
    o.reserve = 0 ∧ o.peak = 0 ∧ (o.stopMarket = true → o.stopLimit = 0) := by
  cases entry <;> simp

theorem Market.Begin.valid {m : Market} {op : Op} {events : List Event}
    {next : Market × Phase} {ret : Ret} (valid : m.Valid) (start : m.Begin op events next ret) :
    ValidState next := by
  cases start with
  | reject submit answer => exact ⟨valid, trivial⟩
  | refuse entry temporary => exact ⟨valid.issue, trivial⟩
  | enter entry nonzero inside resting =>
      exact ⟨valid.issue, Taker.ofLimit_valid valid.fresh
        ⟨valid.started, Nat.lt_succ_self _⟩ inside⟩
  | market running =>
      exact ⟨valid.issue, Taker.ofMarket_valid valid.fresh
        ⟨valid.started, Nat.lt_succ_self _⟩⟩
  | @trigger op o entry nonzero inside limit running armed =>
      refine ⟨valid.issue, RO.fired_valid ?_ ?_ limit⟩ <;> rw [entry.id_eq]
      · exact valid.fresh
      · exact ⟨valid.started, Nat.lt_succ_self _⟩
  | @park op o entry nonzero inside limit waits =>
      rcases entry.shape with ⟨reserve, peak, noLimit⟩
      refine ⟨valid.issue.park ⟨by grind, reserve, peak⟩ inside ?_ ?_ ?_, trivial⟩
      · cases isMarket : o.stopMarket
        · exact limit isMarket
        · exact noLimit isMarket
      · rw [entry.id_eq]
        exact valid.fresh
      · rw [entry.id_eq]
        exact ⟨valid.started, Nat.lt_succ_self _⟩
  | decline target cancel => exact ⟨valid, trivial⟩
  | cancel cancels place => exact ⟨valid.remove place, trivial⟩
  | cancelStop cancels place => exact ⟨valid.unpark place, trivial⟩
  | erase reduces place all => exact ⟨valid.remove place, trivial⟩
  | reduce reduces place some => exact ⟨valid.amend place some, trivial⟩
  | @replace side px front o back newPrice newQty place nonzero inside moved =>
      have atPlace : o ∈ m.levels side px := by simp [place]
      exact ⟨valid.remove place, Taker.ofLimit_valid (valid.not_isOpen_remove place)
        (valid.issued _ (Market.isOpen_of_mem atPlace)) inside⟩
  | halt => exact ⟨valid.setHalted _, trivial⟩
  | resume => exact ⟨valid.setHalted _, trivial⟩
  | flat => exact ⟨valid, trivial⟩
  | uncross bestBid bestAsk low high => exact ⟨valid, trivial⟩

theorem Run.valid {state next : Market × Phase} {events : List Event}
    (run : Run Step state events next) (valid : ValidState state) : ValidState next :=
  run.invariant (fun _ _ _ valid step => step.valid valid) valid

theorem Run.last_isSome {state next : Market × Phase} {events : List Event}
    (run : Run Step state events next) (printed : state.1.last.isSome) :
    next.1.last.isSome := by
  have kept : ∀ state events next, state.1.last.isSome = true → Step state events next →
      next.1.last.isSome = true := by
    intro state events next printed step
    cases step <;> first | exact printed | rfl
  exact run.invariant kept printed

theorem Market.Performs.valid {m m' : Market} {op : Op} {events : List Event} {ret : Ret}
    (valid : m.Valid) (performs : m.Performs op events m' ret) : m'.Valid := by
  rcases performs with ⟨start, steps, -⟩
  exact (Run.valid steps (start.valid valid)).1

end Matchbook
