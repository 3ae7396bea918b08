import Matchbook.Market.Valid

namespace Matchbook

open BoundedLoop OrderedMap Transitions

/-! # The reference engine performs the market's steps

Every loop of the reference engine takes one step of the market a round, and
its bounds are never reached. -/

namespace ReferenceEngine

variable {H : Type}

def market (r : ReferenceEngine H) : Market where
  min := r.min
  max := r.max
  levels := r.level
  stops := r.stops
  nextId := r.nextId
  last := if r.hasLast then some r.last else none
  halted := r.halted

def Keyed (r : ReferenceEngine H) : Prop :=
  ∀ side px, px ∈ r.book side ↔ r.level side px ≠ []

/-! ## Updates -/

section updates

variable (r : ReferenceEngine H) (side s : Side) (px p : Price) (level : List RO)

theorem level_setLevel : (r.setLevel side px level).level s p =
    if s = side ∧ p = px then level else r.level s p := by
  by_cases sameSide : s = side
  · subst sameSide
    simp [setLevel, setBook, ReferenceEngine.level, getD_insert]
  · simp [setLevel, setBook, ReferenceEngine.level, sameSide]

theorem mem_setLevel : p ∈ (r.setLevel side px level).book s ↔
    (s = side ∧ p = px) ∨ p ∈ r.book s := by
  by_cases sameSide : s = side
  · subst sameSide
    simp only [setLevel, setBook, Function.update_self, mem_insert, true_and]
  · simp [setLevel, setBook, sameSide]

@[simp] theorem setLevel_market :
    (r.setLevel side px level).market = r.market.setLevel side px level := by
  have levels : (r.setLevel side px level).level =
      (r.market.setLevel side px level).levels := by
    funext s p
    rw [level_setLevel, Market.setLevel_levels]
    rfl
  simp only [market, Market.setLevel] at levels ⊢
  rw [levels]
  rfl

theorem setLevel_setLevel (level' : List RO) :
    (r.setLevel side px level).setLevel side px level' = r.setLevel side px level' := by
  simp [setLevel, setBook, insert_insert]

@[simp] theorem setLevel_h : (r.setLevel side px level).h = r.h := rfl

theorem level_eraseIfEmpty : (r.eraseIfEmpty side px).level s p = r.level s p := by
  unfold eraseIfEmpty
  split
  · rename_i empty
    by_cases sameSide : s = side
    · subst sameSide
      simp only [setBook, ReferenceEngine.level, Function.update_self, getD_erase] at empty ⊢
      split
      · rename_i samePrice
        rw [samePrice, empty]
      · rfl
    · simp [setBook, ReferenceEngine.level, sameSide]
  · rfl

theorem mem_eraseIfEmpty : p ∈ (r.eraseIfEmpty side px).book s ↔
    p ∈ r.book s ∧ ¬ (s = side ∧ p = px ∧ r.level side px = []) := by
  unfold eraseIfEmpty
  split
  · rename_i empty
    by_cases sameSide : s = side
    · subst sameSide
      simp only [setBook, Function.update_self, mem_erase, empty, and_true, true_and]
      exact and_comm
    · simp [setBook, sameSide]
  · rename_i occupied
    simp [occupied]

@[simp] theorem eraseIfEmpty_market : (r.eraseIfEmpty side px).market = r.market := by
  have levels : (r.eraseIfEmpty side px).level = r.level := by
    funext s p
    exact r.level_eraseIfEmpty side s px p
  simp only [market, levels]
  unfold eraseIfEmpty
  split <;> rfl

@[simp] theorem eraseIfEmpty_h : (r.eraseIfEmpty side px).h = r.h := by
  unfold eraseIfEmpty
  split <;> rfl

theorem keyed_eraseIfEmpty (present : px ∈ r.book side)
    (others : ∀ s p, ¬ (s = side ∧ p = px) → (p ∈ r.book s ↔ r.level s p ≠ [])) :
    (r.eraseIfEmpty side px).Keyed := by
  intro s p
  rw [mem_eraseIfEmpty, level_eraseIfEmpty]
  by_cases same : s = side ∧ p = px
  · rcases same with ⟨rfl, rfl⟩
    simp [present]
  · rw [others s p same]
    grind

end updates

section setLast

variable (r : ReferenceEngine H) (px : Price)

@[simp] theorem setLast_market :
    (r.setLast px).market = { r.market with last := some px } := rfl

@[simp] theorem setLast_h : (r.setLast px).h = r.h := rfl

@[simp] theorem setLast_book : (r.setLast px).book = r.book := rfl

@[simp] theorem setLast_level : (r.setLast px).level = r.level := rfl

end setLast

section emit

variable [Handler H] (r : ReferenceEngine H) (event : Event)

@[simp] theorem emit_market : (r.emit event).market = r.market := rfl

@[simp] theorem emit_h : (r.emit event).h = Handler.on r.h event := rfl

@[simp] theorem emit_book : (r.emit event).book = r.book := rfl

@[simp] theorem emit_level : (r.emit event).level = r.level := rfl

end emit

/-! ## Best prices -/

theorem best_eq_some {r : ReferenceEngine H} (keyed : r.Keyed) {side : Side} {px : Price} :
    r.best side = some px ↔ r.market.Best side px := by
  have bounds : (∀ p ∈ r.book side, side.Reaches px p) ↔
      ∀ p, r.market.levels side p ≠ [] → side.Reaches px p := by
    simp only [keyed side]
    rfl
  have occupied : px ∈ r.book side ↔ r.market.levels side px ≠ [] := keyed side px
  cases side with
  | buy =>
      rw [best, bestBid, last?_eq_some]
      exact ⟨fun ⟨member, bound⟩ => ⟨occupied.mp member, bounds.mp bound⟩,
        fun isBest => ⟨occupied.mpr isBest.occupied, bounds.mpr isBest.least⟩⟩
  | sell =>
      rw [best, bestAsk, first?_eq_some]
      exact ⟨fun ⟨member, bound⟩ => ⟨occupied.mp member, bounds.mp bound⟩,
        fun isBest => ⟨occupied.mpr isBest.occupied, bounds.mpr isBest.least⟩⟩

theorem best_eq_none {r : ReferenceEngine H} (keyed : r.Keyed) {side : Side} :
    r.best side = none ↔ ∀ px, r.market.levels side px = [] := by
  have empty : (∀ px, px ∉ r.book side) ↔ ∀ px, r.market.levels side px = [] :=
    forall_congr' fun px => by rw [keyed side px, not_not]; rfl
  cases side with
  | buy => rw [best, bestBid, last?_eq_none, empty]
  | sell => rw [best, bestAsk, first?_eq_none, empty]

end ReferenceEngine

end Matchbook
