import Mathlib.Data.List.Basic
import Mathlib.Tactic.Common

open Std

/-! # First and last key of an ordered map

`ExtTreeMap` is the ordered map; these are its two ends in iteration order, and
lookups after an update with the key test as an equation. -/

namespace OrderedMap

section Order

variable [Ord Key] [LE Key] [LawfulOrderOrd Key]

private theorem le_of_lt {left right : Key} (lt : compare left right = .lt) :
    left ≤ right :=
  (LawfulOrderOrd.isLE_compare left right).mp (by rw [lt]; rfl)

private theorem le_self [ReflOrd Key] (key : Key) : key ≤ key :=
  (LawfulOrderOrd.isLE_compare key key).mp (by rw [ReflOrd.compare_self]; rfl)

private theorem eq_of_le_of_le [LawfulEqOrd Key] {left right : Key} (le : left ≤ right)
    (ge : right ≤ left) : left = right := by
  have isLE := (LawfulOrderOrd.isLE_compare left right).mpr le
  have isGE := (LawfulOrderOrd.isGE_compare left right).mpr ge
  apply LawfulEqOrd.eq_of_compare
  cases order : compare left right <;> simp_all

end Order

variable [Ord Key] [TransOrd Key]

def first? (map : ExtTreeMap Key Value compare) : Option Key := map.keys.head?

def last? (map : ExtTreeMap Key Value compare) : Option Key := map.keys.getLast?

variable {map : ExtTreeMap Key Value compare} {key : Key}

theorem keys_eq_nil : map.keys = [] ↔ ∀ other : Key, other ∉ map := by
  rw [ExtTreeMap.keys_eq_nil_iff]
  constructor
  · rintro rfl other
    exact ExtTreeMap.not_mem_empty
  · exact fun empty => ExtTreeMap.eq_empty_iff_forall_not_mem.mpr empty

theorem first?_eq_none : first? map = none ↔ ∀ other : Key, other ∉ map := by
  rw [first?, List.head?_eq_none_iff, keys_eq_nil]

theorem last?_eq_none : last? map = none ↔ ∀ other : Key, other ∉ map := by
  rw [last?, List.getLast?_eq_none_iff, keys_eq_nil]

variable [LawfulEqOrd Key] (other : Key) (value fallback : Value)

theorem getD_insert [DecidableEq Key] : (map.insert key value).getD other fallback =
    if other = key then value else map.getD other fallback := by
  rw [ExtTreeMap.getD_insert]
  simp only [Std.compare_eq_iff_eq, @eq_comm _ key]

theorem getD_erase [DecidableEq Key] : (map.erase key).getD other fallback =
    if other = key then fallback else map.getD other fallback := by
  rw [ExtTreeMap.getD_erase]
  simp only [Std.compare_eq_iff_eq, @eq_comm _ key]

theorem insert_insert (value' : Value) :
    (map.insert key value).insert key value' = map.insert key value' := by
  refine ExtTreeMap.ext_getElem? fun other => ?_
  simp only [ExtTreeMap.getElem?_insert]
  split <;> rfl

theorem mem_insert : other ∈ map.insert key value ↔ other = key ∨ other ∈ map := by
  rw [ExtTreeMap.mem_insert, Std.compare_eq_iff_eq, eq_comm]

theorem mem_erase : other ∈ map.erase key ↔ other ≠ key ∧ other ∈ map := by
  rw [ExtTreeMap.mem_erase, ne_eq, Std.compare_eq_iff_eq, eq_comm]

theorem size_congr {Value' : Type v} {other : ExtTreeMap Key Value' compare}
    (same : ∀ key : Key, key ∈ map ↔ key ∈ other) : map.size = other.size := by
  have perm : map.keys.Perm other.keys :=
    (List.perm_ext_iff_of_nodup ExtTreeMap.nodup_keys ExtTreeMap.nodup_keys).mpr fun key => by
      rw [ExtTreeMap.mem_keys, ExtTreeMap.mem_keys, same key]
  simpa using perm.length_eq

variable [LE Key] [LawfulOrderOrd Key]

theorem first?_eq_some : first? map = some key ↔ key ∈ map ∧ ∀ other ∈ map, key ≤ other := by
  simp only [← ExtTreeMap.mem_keys, first?]
  have ordered := map.ordered_keys
  cases keys : map.keys with
  | nil => simp
  | cons head tail =>
      rw [keys] at ordered
      have least := (List.pairwise_cons.mp ordered).1
      constructor
      · rintro ⟨⟩
        refine ⟨List.mem_cons_self, fun other member => ?_⟩
        rcases List.mem_cons.mp member with rfl | member
        · exact le_self other
        · exact le_of_lt (least other member)
      · rintro ⟨member, bound⟩
        rcases List.mem_cons.mp member with rfl | member
        · rfl
        · have equal := eq_of_le_of_le (bound head List.mem_cons_self)
            (le_of_lt (least key member))
          rw [equal, List.head?_cons]

theorem last?_eq_some : last? map = some key ↔ key ∈ map ∧ ∀ other ∈ map, other ≤ key := by
  simp only [← ExtTreeMap.mem_keys, last?]
  have ordered := map.ordered_keys
  rcases List.eq_nil_or_concat' map.keys with keys | ⟨front, final, keys⟩
  · simp [keys]
  · rw [keys] at ordered ⊢
    have greatest : ∀ other ∈ front, compare other final = .lt := fun other member =>
      (List.pairwise_append.mp ordered).2.2 other member final List.mem_cons_self
    constructor
    · intro equal
      obtain rfl : final = key := by simpa using equal
      refine ⟨by simp, fun other member => ?_⟩
      rcases List.mem_append.mp member with member | member
      · exact le_of_lt (greatest other member)
      · rw [List.mem_singleton.mp member]
        exact le_self final
    · rintro ⟨member, bound⟩
      rcases List.mem_append.mp member with member | member
      · have equal := eq_of_le_of_le (le_of_lt (greatest key member))
          (bound final (by simp))
        rw [equal, List.getLast?_concat]
      · rw [List.mem_singleton.mp member, List.getLast?_concat]

section ends

variable {Value' : Type v} {map' : ExtTreeMap Key Value' compare}

theorem first?_congr (same : ∀ key : Key, key ∈ map ↔ key ∈ map') :
    first? map = first? map' := by
  refine Option.ext fun key => ?_
  simp only [first?_eq_some, same]

theorem last?_congr (same : ∀ key : Key, key ∈ map ↔ key ∈ map') :
    last? map = last? map' := by
  refine Option.ext fun key => ?_
  simp only [last?_eq_some, same]

end ends

end OrderedMap
