import Matchbook.Engine.Heap

namespace Matchbook

open IntrusiveList

/-! # Moving, removing and inserting orders in memory -/

namespace Memory

/-! ## Relinking a level -/

section relinking

variable {mem mem₁ : Memory} {cells : Cells} {book : BookName} {i : Nat} {ptr : Ptr} {o : RO}
  {front back level : List (Ptr × RO)}

/-- Rewriting the links of one level leaves the other lists alone. -/
theorem Filed.relink (filed : mem.Filed cells) (mem₁ : Memory) {links : Links Ptr}
    (list : IsList links (mem₁.levels book i).toEnds (level.map Prod.fst))
    (frame : ∀ other, other ∉ (cells book i).map Prod.fst → cells.Live other →
      links.prev other = mem.links.prev other ∧ links.next other = mem.links.next other)
    (levels : ∀ b j, ¬ (b = book ∧ j = i) → (mem₁.levels b j).toEnds = (mem.levels b j).toEnds)
    (b : BookName) (j : Nat) :
    IsList links (mem₁.levels b j).toEnds (((cells.set book i level) b j).map Prod.fst) := by
  rw [Cells.set_apply]
  split
  · rename_i here
    rw [here.1, here.2]
    exact list
  · rename_i elsewhere
    rw [levels b j elsewhere]
    have outside : ∀ other ∈ (cells b j).map Prod.fst,
        other ∉ (cells book i).map Prod.fst ∧ cells.Live other := by
      intro other member
      rcases List.mem_map.mp member with ⟨⟨ptr, x⟩, inside, rfl⟩
      refine ⟨filed.outside inside ?_, Cells.live_of_mem inside⟩
      rintro ⟨rfl, rfl⟩
      exact elsewhere ⟨rfl, rfl⟩
    exact (filed.linked b j).congr
      (fun other member => (frame other (outside other member).1 (outside other member).2).1)
      (fun other member => (frame other (outside other member).1 (outside other member).2).2)

theorem Heap.requeue (heap : mem.Heap cells) {rest : List (Ptr × RO)}
    (place : cells book i = (ptr, o) :: rest) :
    (mem.requeue book i ptr).Heap (cells.set book i (rest ++ [(ptr, o)])) := by
  have filed := heap.filed
  have linked := filed.linked book i
  have perm : (rest ++ [(ptr, o)]).Perm (cells book i) := by
    rw [place]
    exact List.perm_append_singleton _ _
  have member (b : BookName) (j : Nat) (other : Ptr) (x : RO) :
      (other, x) ∈ cells.set book i (rest ++ [(ptr, o)]) b j ↔ (other, x) ∈ cells b j := by
    rw [Cells.set_apply]
    split
    · rename_i here
      rw [here.1, here.2, perm.mem_iff]
    · rfl
  rw [place, List.map_cons] at linked
  have sums (qty : RO → Qty) (b : BookName) (j : Nat) :
      sumOf qty (cells.set book i (rest ++ [(ptr, o)]) b j) = sumOf qty (cells b j) := by
    rw [Cells.set_apply]
    split
    · rename_i here
      rw [here.1, here.2, place]
      simp [UInt64.add_comm]
    · rfl
  have level (b : BookName) (j : Nat) :
      ((mem.requeue book i ptr).levels b j).total = (mem.levels b j).total ∧
      ((mem.requeue book i ptr).levels b j).hidden = (mem.levels b j).hidden ∧
      ((mem.requeue book i ptr).levels b j).count = (mem.levels b j).count := by
    rw [Memory.requeue, setEnds_levels]
    split
    · rename_i here
      simp [here]
    · simp
  refine ⟨⟨?_, ?_, fun b j => ?_, fun b j => ?_, fun b j => ?_, ?_, ?_⟩, ?_⟩
  · refine filed.relink (mem.requeue book i ptr) ?_ ?_ ?_
    · simpa [Memory.requeue] using linked.rotate
    · intro other outside _
      rw [place] at outside
      exact rotate_frame linked outside
    · intro b j elsewhere
      rw [Memory.requeue, setEnds_levels, if_neg elsewhere]
  · intro b j other x inside
    exact (filed.holds b j other x ((member b j other x).mp inside)).congr rfl rfl
  · rw [(level b j).1, filed.total, sums]
  · rw [(level b j).2.1, filed.hidden, sums]
  · rw [(level b j).2.2, filed.count, Cells.set_apply]
    split
    · rename_i here
      rw [here.1, here.2, perm.length_eq]
    · rfl
  · intro b j b' j' other x x' inside inside'
    exact filed.apart b j b' j' other x x' ((member ..).mp inside) ((member ..).mp inside')
  · intro id other
    refine (filed.table id other).trans ?_
    simp only [member]
  · have live : (cells.set book i (rest ++ [(ptr, o)])).Live = cells.Live := by
      funext other
      refine propext (exists_congr fun b => exists_congr fun j => ?_)
      simp [member]
    rw [live]
    rcases heap.stocked with ⟨pool, free, distinct, used, apart⟩
    exact ⟨pool, free, distinct, used, apart⟩

end relinking

/-! ## Taking an order out

Both ways out of a level, from its head and from its middle, are `cut` with
their own rewrite of the links, then `forget` and `release`. -/

def cut (mem : Memory) (book : BookName) (i : Nat) (ptr : Ptr)
    (linked : Links Ptr × Ends Ptr) : Memory :=
  let mem := mem.setEnds book i linked
  let level := mem.levels book i
  mem.setLevel book i { level with
    total := level.total - (mem.nodes ptr).qty
    hidden := level.hidden - mem.reserve ptr
    count := level.count - 1 }

theorem unlinkOrder_eq_cut (mem : Memory) (book : BookName) (i : Nat) (ptr : Ptr) :
    mem.unlinkOrder book i ptr =
      mem.cut book i ptr (unlink mem.links (mem.levels book i).toEnds ptr) := rfl

theorem dropHead_eq_cut (mem : Memory) (book : BookName) (i : Nat) (ptr : Ptr) :
    (mem.setLevel book i { mem.levels book i with
      total := (mem.levels book i).total - (mem.nodes ptr).qty
      hidden := (mem.levels book i).hidden - mem.reserve ptr }).dropHead book i ptr =
    ((mem.cut book i ptr (popFront mem.links (mem.levels book i).toEnds ptr)).forget
      (mem.nodes ptr).id).release ptr := by
  unfold dropHead release forget cut
  cases place : (mem.nodes ptr).ext <;>
    simp [setEnds, setLevel, place, Memory.reserve, Memory.extra]

section removing

variable {mem : Memory} {cells : Cells} {book : BookName} {i : Nat} {ptr : Ptr} {o : RO}
  {front back : List (Ptr × RO)}

section release

variable (mem : Memory) (ptr : Ptr) (id key : OrderId)

@[simp] theorem release_levels : (mem.release ptr).levels = mem.levels := by
  unfold release
  split <;> rfl

@[simp] theorem release_nodes : (mem.release ptr).nodes = mem.nodes := by
  unfold release
  split <;> rfl

@[simp] theorem release_links : (mem.release ptr).links = mem.links := by
  unfold release
  split <;> rfl

@[simp] theorem release_orders : (mem.release ptr).orders = mem.orders := by
  unfold release
  split <;> rfl

@[simp] theorem release_pool : (mem.release ptr).pool = mem.pool.release ptr := by
  unfold release
  split <;> rfl

theorem lookup_forget :
    (mem.forget id).lookup key = if key = id then none else mem.lookup key := by
  simp only [lookup, forget, Array.getElem?_setIfInBounds]
  grind

end release

theorem Stocked.release {live : Ptr → Prop} (stocked : mem.Stocked live) (isLive : live ptr) :
    (mem.release ptr).Stocked fun other => other ≠ ptr ∧ live other := by
  have pool : ∃ nodes, (mem.release ptr).pool.Accounts nodes ∧
      ∀ other, other ∈ nodes ↔ other ≠ ptr ∧ live other := by
    rcases stocked.pool with ⟨nodes, accounts, member⟩
    have nodup := (List.nodup_append.mp accounts.nodup).1
    refine ⟨nodes.erase ptr, ?_, fun other => ?_⟩
    · rw [release_pool]
      exact (accounts.perm (List.perm_cons_erase ((member ptr).mpr isLive))).release
    · rw [nodup.mem_erase_iff, member]
  have nodes := release_nodes mem ptr
  unfold Memory.release at pool nodes ⊢
  cases place : (mem.nodes ptr).ext with
  | none =>
      simp only [place] at pool nodes ⊢
      exact ⟨pool, stocked.free, stocked.distinct,
        fun other ext isLive' => stocked.used other ext isLive'.2,
        fun other other' ext isLive' isLive'' => stocked.apart other other' ext isLive'.2
          isLive''.2⟩
  | some slot =>
      simp only [place] at pool nodes ⊢
      have ⟨inside, outside⟩ := stocked.used ptr slot isLive place
      refine ⟨pool, ?_, List.nodup_cons.mpr ⟨outside, stocked.distinct⟩, ?_, ?_⟩
      · intro ext member
        rcases List.mem_cons.mp member with rfl | member
        · simp [inside]
        · have ne : slot ≠ ext := fun same => outside (same ▸ member)
          rw [Array.getElem?_setIfInBounds_ne ne]
          exact stocked.free ext member
      · intro other ext isLive' used
        have ⟨bound, unused⟩ := stocked.used other ext isLive'.2 used
        refine ⟨by simpa using bound, fun member => ?_⟩
        rcases List.mem_cons.mp member with rfl | member
        · exact isLive'.1 (stocked.apart other ptr ext isLive'.2 isLive used place)
        · exact unused member
      · exact fun other other' ext isLive' isLive'' => stocked.apart other other' ext isLive'.2
          isLive''.2

theorem Stocked.release_extra {live : Ptr → Prop} (stocked : mem.Stocked live)
    (isLive : live ptr) {other : Ptr} (isLive' : live other) (ne : other ≠ ptr) :
    (mem.release ptr).extra other = mem.extra other := by
  unfold Memory.extra
  rw [release_nodes]
  cases used : (mem.nodes other).ext with
  | none => rfl
  | some ext =>
      unfold Memory.release
      cases place : (mem.nodes ptr).ext with
      | none => rfl
      | some slot =>
          have apart : slot ≠ ext := fun same =>
            ne (stocked.apart other ptr ext isLive' isLive used (same ▸ place))
          simp only [Array.getD_eq_getD_getElem?, Array.getElem?_setIfInBounds_ne apart]

theorem Heap.remove (heap : mem.Heap cells)
    (place : cells book i = front ++ (ptr, o) :: back) {linked : Links Ptr × Ends Ptr}
    (list : IsList linked.1 linked.2 ((front ++ back).map Prod.fst))
    (frame : ∀ other, other ∉ (cells book i).map Prod.fst →
      linked.1.prev other = mem.links.prev other ∧
        linked.1.next other = mem.links.next other) :
    (((mem.cut book i ptr linked).forget o.id).release ptr).Heap
      (cells.set book i (front ++ back)) := by
  have filed := heap.filed
  have member : (ptr, o) ∈ cells book i := by simp [place]
  have holds := filed.holds book i ptr o member
  have isLive : cells.Live ptr := Cells.live_of_mem member
  have stocked : ((mem.cut book i ptr linked).forget o.id).Stocked cells.Live := by
    rcases heap.stocked with ⟨pool, free, distinct, used, apart⟩
    exact ⟨pool, free, distinct, used, apart⟩
  have drops (b : BookName) (j : Nat) (other : Ptr) (x : RO) :
      (other, x) ∈ cells.set book i (front ++ back) b j ↔
        other ≠ ptr ∧ (other, x) ∈ cells b j := by
    have ne := filed.split_ne place other x
    rw [Cells.set_apply]
    split
    · rename_i here
      rw [here.1, here.2, place]
      grind
    · rename_i elsewhere
      refine ⟨fun inside => ⟨?_, inside⟩, And.right⟩
      rintro rfl
      exact filed.outside member elsewhere (List.mem_map.mpr ⟨_, inside, rfl⟩)
  have live : (cells.set book i (front ++ back)).Live =
      fun other => other ≠ ptr ∧ cells.Live other := by
    funext other
    apply propext
    constructor
    · intro isLive'
      rcases isLive'.mem with ⟨b, j, x, inside⟩
      have ⟨ne, inside⟩ := (drops b j other x).mp inside
      exact ⟨ne, Cells.live_of_mem inside⟩
    · rintro ⟨ne, isLive'⟩
      rcases isLive'.mem with ⟨b, j, x, inside⟩
      exact Cells.live_of_mem ((drops b j other x).mpr ⟨ne, inside⟩)
  have levels (b : BookName) (j : Nat) :
      (((mem.cut book i ptr linked).forget o.id).release ptr).levels b j =
        (mem.cut book i ptr linked).levels b j := by simp [forget]
  have sums (qty : RO → Qty) (b : BookName) (j : Nat) :
      sumOf qty (cells.set book i (front ++ back) b j) =
        if b = book ∧ j = i then sumOf qty (cells book i) - qty o else sumOf qty (cells b j) := by
    rw [Cells.set_apply]
    split
    · simp only [place, sumOf_append, sumOf_cons]
      grind
    · rfl
  refine ⟨⟨?_, ?_, fun b j => ?_, fun b j => ?_, fun b j => ?_, ?_, ?_⟩, ?_⟩
  · refine fun b j => ?_
    rw [release_links]
    refine filed.relink _ ?_ (fun other outside _ => frame other outside) ?_ b j
    · rw [levels]
      simpa [cut] using list
    · intro b j elsewhere
      rw [levels]
      simp [cut, setLevel_levels, setEnds_levels, elsewhere]
  · intro b j other x inside
    have ⟨ne, inside⟩ := (drops b j other x).mp inside
    refine (filed.holds b j other x inside).congr (by simp [forget, cut]) ?_
    exact stocked.release_extra isLive (Cells.live_of_mem inside) ne
  · rw [levels, sums, ← filed.total, ← filed.total, cut, setLevel_levels]
    split
    · simp only [setEnds_levels_self, setEnds_nodes]
      rw [holds.node]
      rfl
    · rename_i elsewhere
      rw [setEnds_levels, if_neg elsewhere]
  · rw [levels, sums, ← filed.hidden, ← filed.hidden, cut, setLevel_levels]
    split
    · simp only [setEnds_levels_self, setEnds_reserve, holds.reserve]
    · rename_i elsewhere
      rw [setEnds_levels, if_neg elsewhere]
  · rw [levels, cut, setLevel_levels, Cells.set_apply]
    split
    · simp only [setEnds_levels_self, filed.count, place]
      simp [← Nat.add_assoc]
    · rename_i elsewhere
      rw [setEnds_levels, if_neg elsewhere, filed.count]
  · intro b j b' j' other x x' inside inside'
    exact filed.apart b j b' j' other x x' ((drops ..).mp inside).2 ((drops ..).mp inside').2
  · intro key other
    have table : (((mem.cut book i ptr linked).forget o.id).release ptr).lookup key =
        if key = o.id then none else mem.lookup key :=
      (congrArg (fun orders : Array (Option Ptr) => (orders[key]?).join)
        (release_orders _ _)).trans (lookup_forget _ _ _)
    rw [table]
    simp only [drops]
    by_cases same : key = o.id
    · simp only [same, if_true, reduceCtorEq, false_iff]
      rintro ⟨b, j, x, ⟨ne, inside⟩, sameId⟩
      exact ne (filed.of_id member inside sameId)
    · rw [if_neg same, filed.table]
      refine exists_congr fun b => exists_congr fun j => exists_congr fun x => ?_
      refine and_congr_left fun sameId => (and_iff_right_of_imp fun inside => ?_).symm
      rintro rfl
      have equal := filed.apart _ _ _ _ _ _ _ inside member
      exact same (sameId.symm.trans (congrArg RO.id equal.2.2))
  · rw [live]
    exact stocked.release isLive

theorem Heap.unlinkOrder (heap : mem.Heap cells)
    (place : cells book i = front ++ (ptr, o) :: back) :
    (((mem.unlinkOrder book i ptr).forget o.id).release ptr).Heap
      (cells.set book i (front ++ back)) := by
  have linked := heap.filed.linked book i
  rw [place, List.map_append, List.map_cons] at linked
  rw [unlinkOrder_eq_cut]
  refine heap.remove place (by simpa using linked.unlink) fun other outside => ?_
  rw [place] at outside
  exact unlink_frame linked fun inside => outside (by grind)

theorem Heap.dropHead (heap : mem.Heap cells) (place : cells book i = (ptr, o) :: back) :
    ((mem.setLevel book i { mem.levels book i with
      total := (mem.levels book i).total - o.qty
      hidden := (mem.levels book i).hidden - o.reserve }).dropHead book i ptr).Heap
      (cells.set book i back) := by
  have linked := heap.filed.linked book i
  have holds := heap.filed.holds book i ptr o (by simp [place])
  rw [place, List.map_cons] at linked
  have dropped := dropHead_eq_cut mem book i ptr
  rw [holds.reserve, holds.node] at dropped
  rw [show o.qty = (nodeOf book o (mem.nodes ptr).ext).qty from rfl, dropped]
  refine heap.remove (show cells book i = [] ++ (ptr, o) :: back from place)
    linked.popFront fun other outside => ?_
  rw [place] at outside
  exact popFront_frame linked fun inside => outside (List.mem_cons_of_mem _ inside)

end removing

/-! ## Putting an order in

A new node comes from the pool, with a place in the side table if the order
needs one, and is appended to its level. -/

section inserting

variable {mem mem₁ : Memory} {cells : Cells} {book : BookName} {i : Nat} {ptr : Ptr} {o : RO}

/-- What is written to nodes that hold no order does not matter. -/
theorem Filed.congr (filed : mem.Filed cells) (levels : mem₁.levels = mem.levels)
    (links : mem₁.links = mem.links) (orders : mem₁.orders = mem.orders)
    (nodes : ∀ other, cells.Live other → mem₁.nodes other = mem.nodes other)
    (extra : ∀ other, cells.Live other → mem₁.extra other = mem.extra other) :
    mem₁.Filed cells where
  linked := by
    rw [levels, links]
    exact filed.linked
  holds b j other x inside :=
    have isLive := Cells.live_of_mem inside
    (filed.holds b j other x inside).congr (nodes other isLive) (extra other isLive)
  total := by
    rw [levels]
    exact filed.total
  hidden := by
    rw [levels]
    exact filed.hidden
  count := by
    rw [levels]
    exact filed.count
  apart := filed.apart
  table := by
    simp only [lookup, orders]
    exact filed.table

theorem Filed.append (filed : mem.Filed cells) (holds : mem.Holds book ptr o)
    (fresh : ¬ cells.Live ptr) (unused : mem.lookup o.id = none)
    (issued : o.id < mem.orders.size) :
    ((mem.setLevel book i { mem.levels book i with
      hidden := (mem.levels book i).hidden + o.reserve }).append book i ptr).Filed
      (cells.set book i (cells book i ++ [(ptr, o)])) := by
  have outside (b : BookName) (j : Nat) : ptr ∉ (cells b j).map Prod.fst :=
    fun inside => fresh ⟨b, j, inside⟩
  have puts : cells.Puts book i ptr o (cells.set book i (cells book i ++ [(ptr, o)])) := by
    intro b j other x
    have ne : (other, x) ∈ cells b j → other ≠ ptr := fun inside same =>
      outside b j (List.mem_map.mpr ⟨_, same ▸ inside, rfl⟩)
    rw [Cells.set_apply]
    split
    · rename_i here
      rcases here with ⟨rfl, rfl⟩
      grind
    · grind
  have list := (filed.linked book i).pushBack (outside book i)
  have qty : (mem.nodes ptr).qty = o.qty := by rw [holds.node]; rfl
  have id : (mem.nodes ptr).id = o.id := by rw [holds.node]; rfl
  have level (b : BookName) (j : Nat) : ((mem.setLevel book i { mem.levels book i with
      hidden := (mem.levels book i).hidden + o.reserve }).append book i ptr).levels b j =
      if b = book ∧ j = i then
        { toEnds := (pushBack mem.links (mem.levels book i).toEnds ptr).2
          total := (mem.levels book i).total + o.qty
          hidden := (mem.levels book i).hidden + o.reserve
          count := (mem.levels book i).count + 1 }
      else mem.levels b j := by
    simp only [Memory.append, setLevel_levels, setEnds_levels]
    split
    · simp [qty]
    · rfl
  refine ⟨?_, ?_, fun b j => ?_, fun b j => ?_, fun b j => ?_, apart_of_puts filed puts, ?_⟩
  · refine filed.relink _ ?_ (fun other away isLive => ?_) fun b j elsewhere => ?_
    · rw [level]
      simpa [Memory.append] using list
    · have ne : other ≠ ptr := fun same => fresh (same ▸ isLive)
      simpa [Memory.append] using pushBack_frame (filed.linked book i) away ne
    · rw [level, if_neg elsewhere]
  · intro b j other x inside
    rcases (puts _ _ _ _).mp inside with ⟨rfl, rfl, rfl, rfl⟩ | ⟨-, inside⟩
    · exact holds.congr rfl rfl
    · exact (filed.holds b j other x inside).congr rfl rfl
  · rw [level, Cells.set_apply]
    split
    · simp [filed.total]
    · exact filed.total b j
  · rw [level, Cells.set_apply]
    split
    · simp [filed.hidden]
    · exact filed.hidden b j
  · rw [level, Cells.set_apply]
    split
    · simp [filed.count]
    · exact filed.count b j
  · intro key other
    have table : ((mem.setLevel book i { mem.levels book i with
        hidden := (mem.levels book i).hidden + o.reserve }).append book i ptr).lookup key =
        if key = o.id then some ptr else mem.lookup key := by
      simp only [Memory.append, lookup, setLevel_orders, setEnds_orders, setLevel_nodes,
        setEnds_nodes, id, Array.getElem?_setIfInBounds]
      by_cases same : key = o.id
      · simp [same, issued]
      · simp [same, Ne.symm same]
    rw [table]
    simp only [puts _ _ _ _]
    by_cases same : key = o.id
    · rw [if_pos same]
      constructor
      · rintro ⟨rfl⟩
        exact ⟨book, i, o, .inl ⟨rfl, rfl, rfl, rfl⟩, same.symm⟩
      · rintro ⟨b, j, x, ⟨rfl, -⟩ | ⟨-, inside⟩, sameId⟩
        · rfl
        · have found := (filed.table key other).mpr ⟨b, j, x, inside, sameId⟩
          rw [same, unused] at found
          contradiction
    · rw [if_neg same, filed.table]
      constructor
      · rintro ⟨b, j, x, inside, sameId⟩
        refine ⟨b, j, x, .inr ⟨fun isNew => ?_, inside⟩, sameId⟩
        exact fresh (isNew ▸ Cells.live_of_mem inside)
      · rintro ⟨b, j, x, ⟨-, rfl, -⟩ | ⟨-, inside⟩, sameId⟩
        · exact absurd sameId.symm same
        · exact ⟨b, j, x, inside, sameId⟩

theorem live_append (ptr : Ptr) (o : RO) :
    (cells.set book i (cells book i ++ [(ptr, o)])).Live =
      fun other => other = ptr ∨ cells.Live other := by
  funext other
  apply propext
  constructor
  · rintro ⟨b, j, member⟩
    rw [Cells.set_apply] at member
    split at member
    · simp only [List.map_append, List.map_cons, List.map_nil, List.mem_append,
        List.mem_singleton] at member
      rcases member with inside | same
      · exact .inr ⟨book, i, inside⟩
      · exact .inl same
    · exact .inr ⟨b, j, member⟩
  · rintro (rfl | ⟨b, j, member⟩)
    · exact ⟨book, i, by simp⟩
    · refine ⟨b, j, ?_⟩
      rw [Cells.set_apply]
      split
      · rename_i here
        rw [here.1, here.2] at member
        simp only [List.map_append, List.mem_append, member, true_or]
      · exact member

variable {live : Ptr → Prop}

theorem Stocked.fresh (stocked : mem.Stocked live) : ¬ live mem.pool.alloc.1 := by
  rcases stocked.pool with ⟨nodes, accounts, member⟩
  exact fun isLive => accounts.fresh ((member _).mpr isLive)

theorem Stocked.alloc (stocked : mem.Stocked live) : ∃ nodes,
    mem.pool.alloc.2.Accounts nodes ∧ ∀ ptr, ptr ∈ nodes ↔ ptr = mem.pool.alloc.1 ∨ live ptr := by
  rcases stocked.pool with ⟨nodes, accounts, member⟩
  refine ⟨_, accounts.alloc, fun ptr => ?_⟩
  rw [List.mem_cons, member]

theorem Stocked.plain (stocked : mem.Stocked live) {node : Order} (bare : node.ext = none) :
    ({ mem with pool := mem.pool.alloc.2 }.setNode mem.pool.alloc.1 node).Stocked
      fun other => other = mem.pool.alloc.1 ∨ live other := by
  have fresh := stocked.fresh
  have ext (other : Ptr) (ext : Nat) (isLive : other = mem.pool.alloc.1 ∨ live other)
      (used : (({ mem with pool := mem.pool.alloc.2 }.setNode mem.pool.alloc.1 node).nodes
        other).ext = some ext) : live other ∧ (mem.nodes other).ext = some ext := by
    rw [setNode_nodes] at used
    grind
  refine ⟨stocked.alloc, stocked.free, stocked.distinct, ?_, ?_⟩
  · intro other slot isLive used
    have ⟨isLive, used⟩ := ext other slot isLive used
    exact stocked.used other slot isLive used
  · intro other other' slot isLive isLive' used used'
    have ⟨isLive, used⟩ := ext other slot isLive used
    have ⟨isLive', used'⟩ := ext other' slot isLive' used'
    exact stocked.apart other other' slot isLive isLive' used used'

/-- The slot `allocExtra` hands out is blank, nobody's, and leaves the others
as they are. -/
theorem Stocked.allocExtra (stocked : mem.Stocked live) :
    mem.allocExtra.2.Stocked live ∧
      mem.allocExtra.2.extras[mem.allocExtra.1]? = some {} ∧
      mem.allocExtra.1 ∉ mem.allocExtra.2.extraFree ∧
      (∀ ptr, live ptr → (mem.nodes ptr).ext ≠ some mem.allocExtra.1) ∧
      (∀ ext, ext < mem.extras.size → mem.allocExtra.2.extras[ext]? = mem.extras[ext]?) ∧
      mem.allocExtra.2 =
        { mem with
          extras := mem.allocExtra.2.extras, extraFree := mem.allocExtra.2.extraFree } := by
  rcases stocked with ⟨pool, free, distinct, used, apart⟩
  cases slots : mem.extraFree with
  | cons slot rest =>
      rw [slots] at free distinct used
      simp only [Memory.allocExtra, slots]
      rcases List.nodup_cons.mp distinct with ⟨new, distinct⟩
      refine ⟨⟨pool, ?_, distinct, ?_, apart⟩, ?_, new, ?_, fun _ _ => trivial, trivial⟩
      · exact fun ext member => free ext (List.mem_cons_of_mem slot member)
      · intro ptr ext isLive place
        have ⟨inside, unused⟩ := used ptr ext isLive place
        exact ⟨inside, fun member => unused (List.mem_cons_of_mem slot member)⟩
      · exact free slot List.mem_cons_self
      · exact fun ptr isLive place => (used ptr slot isLive place).2 List.mem_cons_self
  | nil =>
      rw [slots] at used
      simp only [Memory.allocExtra, slots]
      refine ⟨⟨pool, ?_, ?_, ?_, apart⟩, by simp, by simp, ?_, ?_, ?_⟩
      · simp
      · simp
      · intro ptr ext isLive place
        have ⟨inside, _⟩ := used ptr ext isLive place
        simp only [Array.size_push]
        exact ⟨by omega, by simp⟩
      · intro ptr isLive place
        have ⟨inside, _⟩ := used ptr _ isLive place
        exact Nat.lt_irrefl _ inside
      · intro ext inside
        rw [Array.getElem?_push]
        simp [Nat.ne_of_lt inside]
      · trivial

theorem Stocked.shaped (stocked : mem.Stocked live) {node : Order} (extra : Extra)
    (placed : node.ext = some mem.allocExtra.1) :
    (({ mem.allocExtra.2 with pool := mem.pool.alloc.2 }.setNode mem.pool.alloc.1 node).setExtra
      mem.pool.alloc.1 extra).Stocked fun other => other = mem.pool.alloc.1 ∨ live other := by
  rcases stocked.allocExtra with ⟨stocked', blank, new, others, old, same⟩
  have fresh := stocked.fresh
  generalize mem.allocExtra.1 = slot at placed blank new others
  have inside : slot < mem.allocExtra.2.extras.size := (Array.getElem?_eq_some_iff.mp blank).1
  have nodes : mem.allocExtra.2.nodes = mem.nodes := by rw [same]
  have extras : (({ mem.allocExtra.2 with pool := mem.pool.alloc.2 }.setNode mem.pool.alloc.1
      node).setExtra mem.pool.alloc.1 extra).extras =
        mem.allocExtra.2.extras.setIfInBounds slot extra := by
    rw [setExtra_extras, setNode_nodes_self, placed]
    rfl
  have ext (other : Ptr) : ((({ mem.allocExtra.2 with pool := mem.pool.alloc.2 }.setNode
      mem.pool.alloc.1 node).setExtra mem.pool.alloc.1 extra).nodes other).ext =
        if other = mem.pool.alloc.1 then some slot else (mem.nodes other).ext := by
    rw [setExtra_nodes, setNode_nodes, ← placed, nodes]
    split <;> rfl
  refine ⟨?_, ?_, ?_, ?_, ?_⟩
  · rw [setExtra_pool]
    exact stocked.alloc
  · intro free member
    rw [setExtra_extraFree] at member
    have apart : slot ≠ free := fun same => new (same ▸ member)
    rw [extras, Array.getElem?_setIfInBounds_ne apart]
    exact stocked'.free free member
  · rw [setExtra_extraFree]
    exact stocked'.distinct
  · intro other used isLive place
    rw [ext] at place
    rw [extras, setExtra_extraFree, Array.size_setIfInBounds]
    split at place
    · cases place
      exact ⟨inside, new⟩
    · rename_i old
      exact stocked'.used other used (isLive.resolve_left old) (nodes ▸ place)
  · intro other other' used isLive isLive' place place'
    rw [ext] at place place'
    by_cases isNew : other = mem.pool.alloc.1 <;> by_cases isNew' : other' = mem.pool.alloc.1
    · exact isNew.trans isNew'.symm
    · rw [if_pos isNew] at place
      rw [if_neg isNew', ← place] at place'
      exact absurd place' (others other' (isLive'.resolve_left isNew'))
    · rw [if_pos isNew'] at place'
      rw [if_neg isNew, ← place'] at place
      exact absurd place (others other (isLive.resolve_left isNew))
    · rw [if_neg isNew] at place
      rw [if_neg isNew'] at place'
      exact stocked.apart other other' used (isLive.resolve_left isNew)
        (isLive'.resolve_left isNew') place place'

theorem allocExtra_pool (mem : Memory) (pool : Pool) : { mem with pool }.allocExtra =
    (mem.allocExtra.1, { mem.allocExtra.2 with pool }) := by
  unfold allocExtra
  cases mem.extraFree <;> rfl

@[simp] theorem allocExtra_levels (mem : Memory) : mem.allocExtra.2.levels = mem.levels := by
  unfold allocExtra
  split <;> rfl

@[simp] theorem allocExtra_orders (mem : Memory) : mem.allocExtra.2.orders = mem.orders := by
  unfold allocExtra
  split <;> rfl

def insertPlain (mem : Memory) (book : BookName) (i : Nat) (o : RO) : Memory :=
  let ptr := mem.pool.alloc.1
  let mem := { mem with pool := mem.pool.alloc.2 }
  (mem.setNode ptr (nodeOf book o none)).append book i ptr

def insertShaped (mem : Memory) (book : BookName) (i : Nat) (o : RO) : Memory :=
  let ptr := mem.pool.alloc.1
  let mem := { mem with pool := mem.pool.alloc.2 }
  let (ext, mem) := mem.allocExtra
  let mem := (mem.setNode ptr (nodeOf book o (some ext))).setExtra ptr o.extra
  let level := mem.levels book i
  (mem.setLevel book i { level with hidden := level.hidden + o.reserve }).append book i ptr

@[simp] theorem insertPlain_orders (mem : Memory) (book : BookName) (i : Nat) (o : RO) :
    (mem.insertPlain book i o).orders.size = mem.orders.size := by
  simp [Memory.insertPlain, append]

@[simp] theorem insertShaped_orders (mem : Memory) (book : BookName) (i : Nat) (o : RO) :
    (mem.insertShaped book i o).orders.size = mem.orders.size := by
  simp [Memory.insertShaped, append]

theorem Heap.insertPlain (heap : mem.Heap cells) (unused : mem.lookup o.id = none)
    (issued : o.id < mem.orders.size) (plain : o.peak = 0) (bare : o.extra = {}) :
    (mem.insertPlain book i o).Heap
      (cells.set book i (cells book i ++ [(mem.pool.alloc.1, o)])) := by
  have fresh := heap.stocked.fresh
  have reserve : o.reserve = 0 := congrArg Extra.reserve bare
  have stocked := heap.stocked.plain (show (nodeOf book o none).ext = none from rfl)
  simp only [Memory.insertPlain]
  generalize made : { mem with pool := mem.pool.alloc.2 }.setNode mem.pool.alloc.1
    (nodeOf book o none) = mem₁ at stocked
  have filed : mem₁.Filed cells := by
    have nodes (other : Ptr) (isLive : cells.Live other) : mem₁.nodes other = mem.nodes other := by
      have ne : other ≠ mem.pool.alloc.1 := fun same => fresh (same ▸ isLive)
      rw [← made, setNode_nodes, if_neg ne]
    refine heap.filed.congr (by rw [← made]; rfl) (by rw [← made]; rfl) (by rw [← made]; rfl)
      nodes fun other isLive => ?_
    unfold Memory.extra
    rw [nodes other isLive, ← made]
    rfl
  have holds : mem₁.Holds book mem.pool.alloc.1 o := by
    have node : mem₁.nodes mem.pool.alloc.1 = nodeOf book o none := by
      rw [← made, setNode_nodes_self]
    refine ⟨by rw [node]; rfl, ?_, fun iceberg => absurd plain iceberg, fun _ => reserve⟩
    unfold Memory.extra
    rw [node, bare]
    rfl
  have lookups : mem₁.lookup o.id = none := by rw [← made]; exact unused
  have size : o.id < mem₁.orders.size := by rw [← made]; exact issued
  have appended := filed.append (i := i) holds fresh lookups size
  rw [reserve, UInt64.add_zero, setLevel_eq_self _ _ _ _ rfl] at appended
  refine ⟨appended, ?_⟩
  rw [live_append]
  rcases stocked with ⟨pool, free, distinct, used, apart⟩
  exact ⟨pool, free, distinct, used, apart⟩

theorem insertShaped_blank (stocked : mem.Stocked live) (node : Order)
    (placed : node.ext = some { mem with pool := mem.pool.alloc.2 }.allocExtra.1) :
    ({ mem with pool := mem.pool.alloc.2 }.allocExtra.2.setNode mem.pool.alloc.1 node).extra
      mem.pool.alloc.1 = {} := by
  rcases stocked.allocExtra with ⟨-, blank, -⟩
  unfold Memory.extra
  rw [setNode_nodes_self, placed, allocExtra_pool]
  simp [blank]

theorem Heap.insertShaped (heap : mem.Heap cells) (unused : mem.lookup o.id = none)
    (issued : o.id < mem.orders.size) (plain : o.peak = 0 → o.reserve = 0) :
    (mem.insertShaped book i o).Heap
      (cells.set book i (cells book i ++ [(mem.pool.alloc.1, o)])) := by
  rcases heap.stocked.allocExtra with ⟨-, blank, -, others, old, same⟩
  have fresh := heap.stocked.fresh
  have inside : mem.allocExtra.1 < mem.allocExtra.2.extras.size :=
    (Array.getElem?_eq_some_iff.mp blank).1
  have stocked := heap.stocked.shaped o.extra
    (show (nodeOf book o (some mem.allocExtra.1)).ext = some mem.allocExtra.1 from rfl)
  simp only [Memory.insertShaped, allocExtra_pool]
  generalize made : { mem.allocExtra.2 with pool := mem.pool.alloc.2 }.setNode mem.pool.alloc.1
    (nodeOf book o (some mem.allocExtra.1)) = mem₁ at stocked
  have node : mem₁.nodes mem.pool.alloc.1 = nodeOf book o (some mem.allocExtra.1) := by
    rw [← made, setNode_nodes_self]
  have extras : mem₁.extras = mem.allocExtra.2.extras := by rw [← made]; rfl
  have filed : (mem₁.setExtra mem.pool.alloc.1 o.extra).Filed cells := by
    have nodes (other : Ptr) (isLive : cells.Live other) : mem₁.nodes other = mem.nodes other := by
      have ne : other ≠ mem.pool.alloc.1 := fun same => fresh (same ▸ isLive)
      rw [← made, setNode_nodes, if_neg ne, same]
    have copied : mem₁.levels = mem.levels ∧ mem₁.links = mem.links ∧ mem₁.orders = mem.orders := by
      rw [← made, same]
      exact ⟨rfl, rfl, rfl⟩
    refine heap.filed.congr (by simp [copied]) (by simp [copied]) (by simp [copied])
      (fun other isLive => by rw [setExtra_nodes, nodes other isLive]) fun other isLive => ?_
    unfold Memory.extra
    rw [setExtra_nodes, nodes other isLive]
    cases used : (mem.nodes other).ext with
    | none => rfl
    | some ext =>
        have apart : mem.allocExtra.1 ≠ ext := fun same => others other isLive (same ▸ used)
        have bound := (heap.stocked.used other ext isLive used).1
        simp only [Array.getD_eq_getD_getElem?]
        rw [setExtra_extras, node]
        simp only [nodeOf, Array.getElem?_setIfInBounds_ne apart, extras, old ext bound]
  have holds : (mem₁.setExtra mem.pool.alloc.1 o.extra).Holds book mem.pool.alloc.1 o := by
    refine ⟨?_, ?_, fun _ => ?_, plain⟩
    · rw [setExtra_nodes, node]
      rfl
    · exact setExtra_extra mem₁ _ _ (by rw [node]; rfl) (by rw [extras]; exact inside)
    · rw [setExtra_nodes, node]
      simp [nodeOf]
  have orders : (mem₁.setExtra mem.pool.alloc.1 o.extra).orders = mem.orders := by
    rw [setExtra_orders, ← made, same]
    rfl
  have appended := filed.append (i := i) holds fresh (by rw [lookup, orders]; exact unused)
    (by rw [orders]; exact issued)
  refine ⟨appended, ?_⟩
  rw [live_append]
  rcases stocked with ⟨pool, free, distinct, used, apart⟩
  exact ⟨pool, free, distinct, used, apart⟩

end inserting

end Memory

end Matchbook
