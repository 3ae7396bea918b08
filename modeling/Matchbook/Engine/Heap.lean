import Matchbook.Engine.State
import Matchbook.ReferenceEngine

namespace Matchbook

open IntrusiveList

/-! # What the memory holds

`Cells` is the content of the four books in plain lists: at each level the
nodes, front to back, each with the order it stands for. `Filed` says that the
links, the node fields, the level sums and the id table spell those cells,
`Stocked` that pool and side table account for the nodes in use. Each piece of
code that rewrites the memory has one theorem about the cells it leaves; those
for amending an order in place are here. -/

namespace BookName

def holdsStops : BookName → Bool
  | .bids | .asks => false
  | .stopBids | .stopAsks => true

end BookName

abbrev Cells := BookName → Nat → List (Ptr × RO)

namespace Cells

def set (cells : Cells) (book : BookName) (i : Nat) (level : List (Ptr × RO)) : Cells :=
  Function.update cells book (Function.update (cells book) i level)

theorem set_apply (cells : Cells) (book b : BookName) (i j : Nat) (level : List (Ptr × RO)) :
    cells.set book i level b j = if b = book ∧ j = i then level else cells b j := by
  by_cases sameBook : b = book
  · subst sameBook
    simp [set, Function.update_apply]
  · simp [set, sameBook]

@[simp] theorem set_self (cells : Cells) (book : BookName) (i : Nat)
    (level : List (Ptr × RO)) : cells.set book i level book i = level := by
  simp [set_apply]

@[simp] theorem set_set (cells : Cells) (book : BookName) (i : Nat)
    (level level' : List (Ptr × RO)) :
    (cells.set book i level).set book i level' = cells.set book i level' := by
  simp [set]

def Live (cells : Cells) (ptr : Ptr) : Prop := ∃ book i, ptr ∈ (cells book i).map Prod.fst

theorem live_of_mem {cells : Cells} {book : BookName} {i : Nat} {ptr : Ptr} {o : RO}
    (member : (ptr, o) ∈ cells book i) : cells.Live ptr :=
  ⟨book, i, List.mem_map.mpr ⟨_, member, rfl⟩⟩

theorem Live.mem {cells : Cells} {ptr : Ptr} (live : cells.Live ptr) :
    ∃ book i o, (ptr, o) ∈ cells book i := by
  rcases live with ⟨book, i, member⟩
  rcases List.mem_map.mp member with ⟨⟨ptr, o⟩, inside, rfl⟩
  exact ⟨book, i, o, inside⟩

def Puts (cells : Cells) (book : BookName) (i : Nat) (ptr : Ptr) (o : RO) (cells' : Cells) :
    Prop :=
  ∀ b j other x, (other, x) ∈ cells' b j ↔
    (other = ptr ∧ x = o ∧ b = book ∧ j = i) ∨ (other ≠ ptr ∧ (other, x) ∈ cells b j)

end Cells

def sumOf (qty : RO → Qty) (level : List (Ptr × RO)) : Qty :=
  (level.map fun cell => qty cell.2).sum

section sumOf

variable (qty : RO → Qty) (front back : List (Ptr × RO)) (cell : Ptr × RO)

@[simp] theorem sumOf_nil : sumOf qty [] = 0 := rfl

@[simp] theorem sumOf_cons : sumOf qty (cell :: back) = qty cell.2 + sumOf qty back := by
  simp [sumOf]

@[simp] theorem sumOf_append : sumOf qty (front ++ back) = sumOf qty front + sumOf qty back := by
  simp [sumOf]

end sumOf

def RO.extra (o : RO) : Extra := { reserve := o.reserve, peak := o.peak, limit := o.stopLimit }

namespace Memory

/-! ## Projections -/

section projections

variable (mem : Memory) (book b : BookName) (i j : Nat) (level : Level) (o other : Ptr)
  (node : Order) (extra : Extra) (linked : Links Ptr × Ends Ptr) (id : OrderId)

theorem setLevel_levels : (mem.setLevel book i level).levels b j =
    if b = book ∧ j = i then level else mem.levels b j := by
  by_cases sameBook : b = book
  · subst sameBook
    simp [setLevel, Function.update_apply]
  · simp [setLevel, sameBook]

@[simp] theorem setLevel_levels_self : (mem.setLevel book i level).levels book i = level := by
  simp [setLevel_levels]

@[simp] theorem setLevel_setLevel (level' : Level) :
    (mem.setLevel book i level).setLevel book i level' = mem.setLevel book i level' := by
  simp [setLevel]

theorem setLevel_eq_self (same : mem.levels book i = level) :
    mem.setLevel book i level = mem := by
  simp [setLevel, ← same]

@[simp] theorem setLevel_nodes : (mem.setLevel book i level).nodes = mem.nodes := rfl
@[simp] theorem setLevel_links : (mem.setLevel book i level).links = mem.links := rfl
@[simp] theorem setLevel_pool : (mem.setLevel book i level).pool = mem.pool := rfl
@[simp] theorem setLevel_orders : (mem.setLevel book i level).orders = mem.orders := rfl
@[simp] theorem setLevel_extras : (mem.setLevel book i level).extras = mem.extras := rfl
@[simp] theorem setLevel_extraFree : (mem.setLevel book i level).extraFree = mem.extraFree := rfl
@[simp] theorem setLevel_extra : (mem.setLevel book i level).extra = mem.extra := rfl
@[simp] theorem setLevel_reserve : (mem.setLevel book i level).reserve = mem.reserve := rfl

theorem setNode_nodes : (mem.setNode o node).nodes other =
    if other = o then node else mem.nodes other := by
  simp [setNode, Function.update_apply]

@[simp] theorem setNode_nodes_self : (mem.setNode o node).nodes o = node := by
  simp [setNode]

@[simp] theorem setNode_levels : (mem.setNode o node).levels = mem.levels := rfl
@[simp] theorem setNode_links : (mem.setNode o node).links = mem.links := rfl
@[simp] theorem setNode_pool : (mem.setNode o node).pool = mem.pool := rfl
@[simp] theorem setNode_orders : (mem.setNode o node).orders = mem.orders := rfl
@[simp] theorem setNode_extras : (mem.setNode o node).extras = mem.extras := rfl
@[simp] theorem setNode_extraFree : (mem.setNode o node).extraFree = mem.extraFree := rfl

@[simp] theorem setEnds_links : (mem.setEnds book i linked).links = linked.1 := rfl
@[simp] theorem setEnds_nodes : (mem.setEnds book i linked).nodes = mem.nodes := rfl
@[simp] theorem setEnds_pool : (mem.setEnds book i linked).pool = mem.pool := rfl
@[simp] theorem setEnds_orders : (mem.setEnds book i linked).orders = mem.orders := rfl
@[simp] theorem setEnds_extras : (mem.setEnds book i linked).extras = mem.extras := rfl
@[simp] theorem setEnds_extraFree : (mem.setEnds book i linked).extraFree = mem.extraFree := rfl
@[simp] theorem setEnds_extra : (mem.setEnds book i linked).extra = mem.extra := rfl
@[simp] theorem setEnds_reserve : (mem.setEnds book i linked).reserve = mem.reserve := rfl

theorem setEnds_levels : (mem.setEnds book i linked).levels b j =
    if b = book ∧ j = i then { mem.levels book i with toEnds := linked.2 }
    else mem.levels b j :=
  setLevel_levels { mem with links := linked.1 } book b i j _

@[simp] theorem setEnds_levels_self : (mem.setEnds book i linked).levels book i =
    { mem.levels book i with toEnds := linked.2 } := by
  simp [setEnds_levels]

@[simp] theorem setExtra_levels : (mem.setExtra o extra).levels = mem.levels := by
  unfold setExtra
  split <;> rfl

@[simp] theorem setExtra_nodes : (mem.setExtra o extra).nodes = mem.nodes := by
  unfold setExtra
  split <;> rfl

@[simp] theorem setExtra_links : (mem.setExtra o extra).links = mem.links := by
  unfold setExtra
  split <;> rfl

@[simp] theorem setExtra_pool : (mem.setExtra o extra).pool = mem.pool := by
  unfold setExtra
  split <;> rfl

@[simp] theorem setExtra_orders : (mem.setExtra o extra).orders = mem.orders := by
  unfold setExtra
  split <;> rfl

@[simp] theorem setExtra_extraFree : (mem.setExtra o extra).extraFree = mem.extraFree := by
  unfold setExtra
  split <;> rfl

theorem setExtra_extras : (mem.setExtra o extra).extras =
    match (mem.nodes o).ext with
    | some ext => mem.extras.setIfInBounds ext extra
    | none => mem.extras := by
  unfold setExtra
  cases (mem.nodes o).ext <;> rfl

end projections

/-! ## The invariant -/

def nodeOf (book : BookName) (o : RO) (ext : Option Nat) : Order where
  id := o.id
  price := o.price
  qty := o.qty
  ext := ext
  owner := o.owner
  side := o.side
  stp := o.stp
  iceberg := decide (o.peak ≠ 0)
  stopPending := book.holdsStops
  stopMarket := o.stopMarket

structure Holds (mem : Memory) (book : BookName) (ptr : Ptr) (o : RO) : Prop where
  node : mem.nodes ptr = nodeOf book o (mem.nodes ptr).ext
  extra : mem.extra ptr = o.extra
  shaped : o.peak ≠ 0 → (mem.nodes ptr).ext ≠ none
  plain : o.peak = 0 → o.reserve = 0

structure Filed (mem : Memory) (cells : Cells) : Prop where
  linked : ∀ book i, IsList mem.links (mem.levels book i).toEnds ((cells book i).map Prod.fst)
  holds : ∀ book i ptr o, (ptr, o) ∈ cells book i → mem.Holds book ptr o
  total : ∀ book i, (mem.levels book i).total = sumOf RO.qty (cells book i)
  hidden : ∀ book i, (mem.levels book i).hidden = sumOf RO.reserve (cells book i)
  count : ∀ book i, (mem.levels book i).count = UInt32.ofNat (cells book i).length
  apart : ∀ book i book' i' ptr o o', (ptr, o) ∈ cells book i → (ptr, o') ∈ cells book' i' →
    book = book' ∧ i = i' ∧ o = o'
  table : ∀ id ptr, mem.lookup id = some ptr ↔
    ∃ book i o, (ptr, o) ∈ cells book i ∧ o.id = id

structure Stocked (mem : Memory) (live : Ptr → Prop) : Prop where
  pool : ∃ nodes, mem.pool.Accounts nodes ∧ ∀ ptr, ptr ∈ nodes ↔ live ptr
  free : ∀ ext ∈ mem.extraFree, mem.extras[ext]? = some {}
  distinct : mem.extraFree.Nodup
  used : ∀ ptr ext, live ptr → (mem.nodes ptr).ext = some ext →
    ext < mem.extras.size ∧ ext ∉ mem.extraFree
  apart : ∀ ptr ptr' ext, live ptr → live ptr' → (mem.nodes ptr).ext = some ext →
    (mem.nodes ptr').ext = some ext → ptr = ptr'

structure Heap (mem : Memory) (cells : Cells) : Prop where
  filed : mem.Filed cells
  stocked : mem.Stocked cells.Live

section reading

variable {mem : Memory} {cells : Cells} {book : BookName} {i : Nat} {ptr : Ptr} {o : RO}

theorem Holds.reserve (holds : mem.Holds book ptr o) : mem.reserve ptr = o.reserve := by
  have plain := holds.plain
  rw [Memory.reserve, holds.extra, holds.node]
  by_cases peak : o.peak = 0 <;> simp [nodeOf, RO.extra, peak, plain]

theorem Holds.clip (holds : mem.Holds book ptr o) : mem.clip ptr = o.clip := by
  rw [Memory.clip, holds.extra]
  rfl

theorem Filed.head (filed : mem.Filed cells) :
    (mem.levels book i).head = ((cells book i).map Prod.fst).head? :=
  (filed.linked book i).head

theorem Filed.head_cons (filed : mem.Filed cells) {rest : List (Ptr × RO)}
    (place : cells book i = (ptr, o) :: rest) : (mem.levels book i).head = some ptr := by
  rw [filed.head, place]
  rfl

theorem Filed.next_of_head (filed : mem.Filed cells) {rest : List (Ptr × RO)}
    (place : cells book i = (ptr, o) :: rest) :
    mem.links.next ptr = (rest.map Prod.fst).head? := by
  have linked := filed.linked book i
  rw [place] at linked
  exact linked.next_of_head

theorem Filed.empty_iff (filed : mem.Filed cells) :
    (mem.levels book i).head = none ↔ cells book i = [] := by
  rw [(filed.linked book i).empty_iff, List.map_eq_nil_iff]

theorem Filed.tail_none_iff (filed : mem.Filed cells) :
    (mem.levels book i).tail = none ↔ cells book i = [] := by
  rw [(filed.linked book i).tail_none_iff, List.map_eq_nil_iff]

theorem Filed.outside (filed : mem.Filed cells) (member : (ptr, o) ∈ cells book i)
    {b : BookName} {j : Nat} (elsewhere : ¬ (b = book ∧ j = i)) :
    ptr ∉ (cells b j).map Prod.fst := by
  intro inside
  rcases List.mem_map.mp inside with ⟨⟨same, o'⟩, member', rfl⟩
  have equal := filed.apart _ _ _ _ _ _ _ member' member
  exact elsewhere ⟨equal.1, equal.2.1⟩

theorem Filed.of_id (filed : mem.Filed cells) {b : BookName} {j : Nat} {ptr' : Ptr} {o' : RO}
    (member : (ptr, o) ∈ cells book i) (member' : (ptr', o') ∈ cells b j)
    (same : o'.id = o.id) : ptr' = ptr := by
  have left := (filed.table o.id ptr).mpr ⟨book, i, o, member, rfl⟩
  have right := (filed.table o.id ptr').mpr ⟨b, j, o', member', same⟩
  exact Option.some.inj (right.symm.trans left)

end reading

/-! ## Amending an order

`Touches` bounds what a rewrite of one order may change: its node, its place in
the side table, and the sums of its level. -/

structure Touches (mem : Memory) (book : BookName) (i : Nat) (ptr : Ptr) (mem' : Memory) :
    Prop where
  links : mem'.links = mem.links
  pool : mem'.pool = mem.pool
  orders : mem'.orders = mem.orders
  extraFree : mem'.extraFree = mem.extraFree
  size : mem'.extras.size = mem.extras.size
  ext : (mem'.nodes ptr).ext = (mem.nodes ptr).ext
  nodes : ∀ other, other ≠ ptr → mem'.nodes other = mem.nodes other
  extras : ∀ ext, (mem.nodes ptr).ext ≠ some ext → mem'.extras[ext]? = mem.extras[ext]?
  levels : ∀ b j, ¬ (b = book ∧ j = i) → mem'.levels b j = mem.levels b j
  ends : (mem'.levels book i).toEnds = (mem.levels book i).toEnds
  count : (mem'.levels book i).count = (mem.levels book i).count

section amending

variable {mem mem₁ mem₂ : Memory} {cells : Cells} {book : BookName} {i : Nat} {ptr : Ptr}
  {o o' : RO} {front back : List (Ptr × RO)}

theorem Touches.extra (touches : mem.Touches book i ptr mem₁) {other : Ptr} (ne : other ≠ ptr)
    (apart : ∀ ext, (mem.nodes other).ext = some ext → (mem.nodes ptr).ext ≠ some ext) :
    mem₁.extra other = mem.extra other := by
  unfold Memory.extra
  rw [touches.nodes other ne]
  cases place : (mem.nodes other).ext with
  | none => rfl
  | some ext =>
      simp only [Array.getD_eq_getD_getElem?, touches.extras ext (apart ext place)]

theorem Stocked.touches {live : Ptr → Prop} (stocked : mem.Stocked live)
    (touches : mem.Touches book i ptr mem₁) (isLive : live ptr) : mem₁.Stocked live := by
  have ext (other : Ptr) : (mem₁.nodes other).ext = (mem.nodes other).ext := by
    by_cases same : other = ptr
    · rw [same, touches.ext]
    · rw [touches.nodes other same]
  refine ⟨?_, ?_, ?_, ?_, ?_⟩
  · rw [touches.pool]
    exact stocked.pool
  · intro free member
    rw [touches.extraFree] at member
    rw [touches.extras free fun used => (stocked.used ptr free isLive used).2 member]
    exact stocked.free free member
  · rw [touches.extraFree]
    exact stocked.distinct
  · intro other slot isLive' used
    rw [touches.size, touches.extraFree]
    exact stocked.used other slot isLive' (ext other ▸ used)
  · intro other other' slot isLive' isLive'' used used'
    exact stocked.apart other other' slot isLive' isLive'' (ext other ▸ used) (ext other' ▸ used')

theorem Holds.congr {other : Ptr} (holds : mem.Holds book other o)
    (node : mem₁.nodes other = mem.nodes other) (extra : mem₁.extra other = mem.extra other) :
    mem₁.Holds book other o where
  node := node ▸ holds.node
  extra := extra.trans holds.extra
  shaped := node ▸ holds.shaped
  plain := holds.plain

theorem Filed.split_ne (filed : mem.Filed cells)
    (place : cells book i = front ++ (ptr, o) :: back) :
    ∀ other x, (other, x) ∈ front ++ back → other ≠ ptr := by
  have nodup := (filed.linked book i).nodup
  rw [place, (List.perm_middle.map Prod.fst).nodup_iff, List.map_cons, List.nodup_cons] at nodup
  rintro other x member rfl
  exact nodup.1 (List.mem_map.mpr ⟨_, member, rfl⟩)

theorem Filed.puts (filed : mem.Filed cells)
    (place : cells book i = front ++ (ptr, o) :: back) (o' : RO) :
    cells.Puts book i ptr o' (cells.set book i (front ++ (ptr, o') :: back)) := by
  intro b j other x
  have ne := filed.split_ne place other x
  rw [Cells.set_apply]
  split
  · rename_i here
    rcases here with ⟨rfl, rfl⟩
    rw [place]
    grind
  · rename_i elsewhere
    have outside := filed.outside (show (ptr, o) ∈ cells book i by simp [place]) elsewhere
    have ne : (other, x) ∈ cells b j → other ≠ ptr := fun member same =>
      outside (List.mem_map.mpr ⟨_, same ▸ member, rfl⟩)
    grind

theorem apart_of_puts {cells' : Cells} (filed : mem.Filed cells)
    (puts : cells.Puts book i ptr o' cells') (b : BookName) (j : Nat) (b' : BookName) (j' : Nat)
    (other : Ptr) (x x' : RO) (member : (other, x) ∈ cells' b j)
    (member' : (other, x') ∈ cells' b' j') : b = b' ∧ j = j' ∧ x = x' := by
  rcases (puts _ _ _ _).mp member with ⟨same, rfl, rfl, rfl⟩ | ⟨ne, member⟩ <;>
    rcases (puts _ _ _ _).mp member' with ⟨same', rfl, rfl, rfl⟩ | ⟨ne', member'⟩
  · exact ⟨rfl, rfl, rfl⟩
  · exact absurd same ne'
  · exact absurd same' ne
  · exact filed.apart _ _ _ _ _ _ _ member member'

theorem Heap.amend (heap : mem.Heap cells) (place : cells book i = front ++ (ptr, o) :: back)
    (touches : mem.Touches book i ptr mem₁) (holds : mem₁.Holds book ptr o') (id : o'.id = o.id)
    (total : (mem₁.levels book i).total = (mem.levels book i).total - o.qty + o'.qty)
    (hidden : (mem₁.levels book i).hidden = (mem.levels book i).hidden - o.reserve + o'.reserve) :
    mem₁.Heap (cells.set book i (front ++ (ptr, o') :: back)) := by
  have filed := heap.filed
  have member : (ptr, o) ∈ cells book i := by simp [place]
  have puts := filed.puts place o'
  have isLive : cells.Live ptr := Cells.live_of_mem member
  have live : (cells.set book i (front ++ (ptr, o') :: back)).Live = cells.Live := by
    funext other
    refine propext (exists_congr fun b => exists_congr fun j => ?_)
    rw [Cells.set_apply]
    split
    · rename_i here
      rw [here.1, here.2, place]
      simp
    · rfl
  refine ⟨⟨fun b j => ?_, ?_, fun b j => ?_, fun b j => ?_, fun b j => ?_,
    apart_of_puts filed puts, ?_⟩, ?_⟩
  · have linked := filed.linked b j
    rw [touches.links, Cells.set_apply]
    split
    · rename_i here
      rw [here.1, here.2, place] at linked
      rw [here.1, here.2, touches.ends]
      simpa using linked
    · rename_i elsewhere
      rwa [touches.levels b j elsewhere]
  · intro b j other x inside
    rcases (puts _ _ _ _).mp inside with ⟨rfl, rfl, rfl, rfl⟩ | ⟨ne, inside⟩
    · exact holds
    · refine (filed.holds b j other x inside).congr (touches.nodes other ne)
        (touches.extra ne fun ext used used' => ne ?_)
      exact heap.stocked.apart other ptr ext (Cells.live_of_mem inside) isLive used used'
  · rw [Cells.set_apply]
    split
    · rename_i here
      rw [here.1, here.2, total, filed.total, place]
      simp only [sumOf_append, sumOf_cons]
      grind
    · rename_i elsewhere
      rw [touches.levels b j elsewhere, filed.total]
  · rw [Cells.set_apply]
    split
    · rename_i here
      rw [here.1, here.2, hidden, filed.hidden, place]
      simp only [sumOf_append, sumOf_cons]
      grind
    · rename_i elsewhere
      rw [touches.levels b j elsewhere, filed.hidden]
  · rw [Cells.set_apply]
    split
    · rename_i here
      rw [here.1, here.2, touches.count, filed.count, place]
      simp
    · rename_i elsewhere
      rw [touches.levels b j elsewhere, filed.count]
  · intro key other
    rw [lookup, touches.orders]
    refine (filed.table key other).trans ?_
    simp only [puts _ _ _ _]
    constructor
    · rintro ⟨b, j, x, inside, same⟩
      by_cases ne : other = ptr
      · subst ne
        rcases filed.apart _ _ _ _ _ _ _ inside member with ⟨rfl, rfl, rfl⟩
        exact ⟨b, j, o', .inl ⟨rfl, rfl, rfl, rfl⟩, id.trans same⟩
      · exact ⟨b, j, x, .inr ⟨ne, inside⟩, same⟩
    · rintro ⟨b, j, x, ⟨rfl, rfl, rfl, rfl⟩ | ⟨-, inside⟩, same⟩
      · exact ⟨b, j, o, member, id.symm.trans same⟩
      · exact ⟨b, j, x, inside, same⟩
  · rw [live]
    exact heap.stocked.touches touches isLive

theorem touches_takeDisplayed (mem : Memory) (book : BookName) (i : Nat) (ptr : Ptr)
    (amount : Qty) : mem.Touches book i ptr (mem.takeDisplayed book i ptr amount) where
  links := rfl
  pool := rfl
  orders := rfl
  extraFree := rfl
  size := rfl
  ext := by simp [takeDisplayed]
  nodes other ne := by simp [takeDisplayed, setNode_nodes, ne]
  extras _ _ := rfl
  levels b j elsewhere := by simp [takeDisplayed, setLevel_levels, elsewhere]
  ends := by simp [takeDisplayed]
  count := by simp [takeDisplayed]

theorem setNode_qty_extra (mem : Memory) (ptr other : Ptr) (qty : Qty) :
    (mem.setNode ptr { mem.nodes ptr with qty }).extra other = mem.extra other := by
  unfold Memory.extra
  rw [setNode_nodes]
  by_cases same : other = ptr
  · rw [if_pos same, same]
    rfl
  · rw [if_neg same]
    rfl

theorem Heap.takeDisplayed (heap : mem.Heap cells)
    (place : cells book i = front ++ (ptr, o) :: back) (amount : Qty) :
    (mem.takeDisplayed book i ptr amount).Heap
      (cells.set book i (front ++ (ptr, { o with qty := o.qty - amount }) :: back)) := by
  have holds := heap.filed.holds book i ptr o (by simp [place])
  refine heap.amend place (touches_takeDisplayed mem book i ptr amount) ⟨?_, ?_, ?_, ?_⟩ rfl ?_ ?_
  · simp only [Memory.takeDisplayed, setLevel_nodes, setNode_nodes_self]
    rw [holds.node]
    rfl
  · exact (setNode_qty_extra mem ptr ptr _).trans holds.extra
  · simpa [Memory.takeDisplayed] using holds.shaped
  · exact holds.plain
  · simp only [Memory.takeDisplayed, setLevel_levels_self]
    grind
  · simp only [Memory.takeDisplayed, setLevel_levels_self]
    grind

theorem touches_takeReserve (mem : Memory) (book : BookName) (i : Nat) (ptr : Ptr)
    (amount : Qty) : mem.Touches book i ptr (mem.takeReserve book i ptr amount) where
  links := by simp [takeReserve]
  pool := by simp [takeReserve]
  orders := by simp [takeReserve]
  extraFree := by simp [takeReserve]
  size := by
    simp only [takeReserve, setLevel_extras, setExtra_extras]
    split <;> simp
  ext := by simp [takeReserve]
  nodes other _ := by simp [takeReserve]
  extras ext ne := by
    simp only [takeReserve, setLevel_extras, setExtra_extras]
    split
    · rename_i used place
      have apart : used ≠ ext := fun same => ne (same ▸ place)
      exact Array.getElem?_setIfInBounds_ne apart
    · rfl
  levels b j elsewhere := by simp [takeReserve, setLevel_levels, elsewhere]
  ends := by simp [takeReserve]
  count := by simp [takeReserve]

theorem setExtra_extra (mem : Memory) (ptr : Ptr) {ext : Nat} (extra : Extra)
    (place : (mem.nodes ptr).ext = some ext) (inside : ext < mem.extras.size) :
    (mem.setExtra ptr extra).extra ptr = extra := by
  unfold Memory.extra
  rw [setExtra_nodes, setExtra_extras, place]
  simp [inside]

theorem Heap.takeReserve (heap : mem.Heap cells)
    (place : cells book i = front ++ (ptr, o) :: back) (iceberg : o.peak ≠ 0) (amount : Qty) :
    (mem.takeReserve book i ptr amount).Heap
      (cells.set book i (front ++ (ptr, { o with reserve := o.reserve - amount }) :: back)) := by
  have member : (ptr, o) ∈ cells book i := by simp [place]
  have holds := heap.filed.holds book i ptr o member
  rcases Option.ne_none_iff_exists'.mp (holds.shaped iceberg) with ⟨ext, used⟩
  have inside := (heap.stocked.used ptr ext (Cells.live_of_mem member) used).1
  refine heap.amend place (touches_takeReserve mem book i ptr amount) ⟨?_, ?_, ?_, ?_⟩ rfl ?_ ?_
  · simp only [Memory.takeReserve, setLevel_nodes, setExtra_nodes]
    rw [holds.node]
    rfl
  · simp only [Memory.takeReserve, setLevel_extra]
    rw [setExtra_extra mem ptr _ used inside, holds.extra]
    rfl
  · simpa [Memory.takeReserve] using holds.shaped
  · exact fun plain => absurd plain iceberg
  · simp only [Memory.takeReserve, setLevel_levels_self]
    grind
  · simp only [Memory.takeReserve, setLevel_levels_self]
    grind

theorem Heap.replenish (heap : mem.Heap cells)
    (place : cells book i = front ++ (ptr, o) :: back) (iceberg : o.peak ≠ 0)
    (out : o.qty = 0) :
    (mem.replenish book i ptr).Heap
      (cells.set book i (front ++ (ptr, o.replenished) :: back)) := by
  have holds := heap.filed.holds book i ptr o (by simp [place])
  have taken := heap.takeReserve place iceberg o.clip
  have place' : cells.set book i (front ++ (ptr, { o with reserve := o.reserve - o.clip }) :: back)
      book i = front ++ (ptr, { o with reserve := o.reserve - o.clip }) :: back :=
    Cells.set_self _ _ _ _
  have holds' := taken.filed.holds book i ptr { o with reserve := o.reserve - o.clip }
    (by simp)
  have same : mem.clip ptr = o.clip := holds.clip
  generalize mem₁ : mem.takeReserve book i ptr o.clip = memory at taken holds'
  have replenished : mem.replenish book i ptr =
      (memory.setNode ptr { memory.nodes ptr with qty := o.clip }).setLevel book i
        { memory.levels book i with total := (memory.levels book i).total + o.clip } := by
    rw [← mem₁, Memory.replenish, same]
  rw [replenished, ← Cells.set_set cells book i
    (front ++ (ptr, { o with reserve := o.reserve - o.clip }) :: back)]
  refine taken.amend place' ?_ ⟨?_, ?_, ?_, ?_⟩ rfl ?_ ?_
  · exact ⟨rfl, rfl, rfl, rfl, rfl, by simp, fun other ne => by simp [setNode_nodes, ne],
      fun _ _ => rfl, fun b j elsewhere => by simp [setLevel_levels, elsewhere], by simp, by simp⟩
  · simp only [setLevel_nodes, setNode_nodes_self]
    rw [holds'.node]
    rfl
  · exact (setNode_qty_extra memory ptr ptr _).trans holds'.extra
  · exact fun _ => by simpa using holds'.shaped iceberg
  · exact fun plain => absurd plain iceberg
  · simp only [setLevel_levels_self, RO.replenished, out]
    grind
  · simp only [setLevel_levels_self, RO.replenished]
    grind

end amending

end Memory

end Matchbook
