import Matchbook.Foundation.BoundedLoop
import Matchbook.Foundation.IntrusiveList
import Matchbook.LevelBitmap
import Matchbook.Pool

namespace Matchbook

open IntrusiveList

/-! # State of the matching engine

`Memory` is what order nodes live in: the pool, the level arrays, the id table
and the side table. `MatchingEngine` adds the occupancy bitmaps, the cached
best levels and the flags. A node's `prev` and `next` are kept apart from its
other fields, in `Memory.links`, and the bits of `flags` are fields. -/

structure Order where
  id : OrderId
  price : Price
  /-- Remaining quantity; for an iceberg the displayed remainder. -/
  qty : Qty
  /-- Index into the side table, none for the -1 of the source. It has 32 bits there: see
  `SideTable`. -/
  ext : Option Nat
  owner : OwnerId
  side : Side
  stp : StpPolicy
  iceberg : Bool
  stopPending : Bool
  stopMarket : Bool
deriving DecidableEq

def Order.zero : Order where
  id := 0
  price := 0
  qty := 0
  ext := none
  owner := 0
  side := .buy
  stp := .cancelTaker
  iceberg := false
  stopPending := false
  stopMarket := false

structure Level extends Ends Ptr where
  total : Qty := 0
  hidden : Qty := 0
  count : UInt32 := 0

structure Extra where
  reserve : Qty := 0
  peak : Qty := 0
  limit : Price := 0
deriving DecidableEq

instance : Inhabited Extra := ⟨{}⟩

/-- The four level arrays. -/
inductive BookName
  | bids
  | asks
  | stopBids
  | stopAsks
deriving DecidableEq

namespace Side

def book : Side → BookName
  | buy => .bids
  | sell => .asks

def stopBook : Side → BookName
  | buy => .stopBids
  | sell => .stopAsks

end Side

/-! ## Memory -/

structure Memory where
  levels : BookName → Nat → Level
  nodes : Ptr → Order
  links : Links Ptr
  pool : Pool
  /-- Node of each id, if it is open; entry 0 is the invalid id's. -/
  orders : Array (Option Ptr)
  extras : Array Extra
  extraFree : List Nat

namespace Memory

def setLevel (mem : Memory) (book : BookName) (i : Nat) (level : Level) : Memory :=
  let changed := Function.update (mem.levels book) i level
  { mem with levels := Function.update mem.levels book changed }

def setNode (mem : Memory) (o : Ptr) (node : Order) : Memory :=
  { mem with nodes := Function.update mem.nodes o node }

def setEnds (mem : Memory) (book : BookName) (i : Nat) (linked : Links Ptr × Ends Ptr) :
    Memory :=
  let mem := { mem with links := linked.1 }
  mem.setLevel book i { mem.levels book i with toEnds := linked.2 }

/-- The side-table entry of an order, all zero for one without. -/
def extra (mem : Memory) (o : Ptr) : Extra :=
  match (mem.nodes o).ext with
  | some ext => mem.extras.getD ext {}
  | none => {}

def setExtra (mem : Memory) (o : Ptr) (extra : Extra) : Memory :=
  match (mem.nodes o).ext with
  | some ext => { mem with extras := mem.extras.setIfInBounds ext extra }
  | none => mem

def reserve (mem : Memory) (o : Ptr) : Qty :=
  if (mem.nodes o).iceberg then (mem.extra o).reserve else 0

def lookup (mem : Memory) (id : OrderId) : Option Ptr :=
  (mem.orders[id]?).join

def forget (mem : Memory) (id : OrderId) : Memory :=
  { mem with orders := mem.orders.setIfInBounds id none }

/-- A free slot of the side table, or a new one at its end. The source casts the index to
`int32_t`, as `SideTable.alloc` does. -/
def allocExtra (mem : Memory) : Nat × Memory :=
  match mem.extraFree with
  | ext :: rest => (ext, { mem with extraFree := rest })
  | [] => (mem.extras.size, { mem with extras := mem.extras.push {} })

/-- Return a node, and its side-table entry if it has one, to the pools. -/
def release (mem : Memory) (o : Ptr) : Memory :=
  match (mem.nodes o).ext with
  | some ext =>
      { mem with
        extras := mem.extras.setIfInBounds ext {}
        extraFree := ext :: mem.extraFree
        pool := mem.pool.release o }
  | none => { mem with pool := mem.pool.release o }

/-! The next definitions are the pieces of code that recur in several
operations of the source. -/

/-- Put a new node with its side-table entry at the back of a level. -/
def append (mem : Memory) (book : BookName) (i : Nat) (o : Ptr) : Memory :=
  let level := mem.levels book i
  let mem := mem.setEnds book i (pushBack mem.links level.toEnds o)
  let level := mem.levels book i
  let mem := mem.setLevel book i
    { level with total := level.total + (mem.nodes o).qty, count := level.count + 1 }
  { mem with orders := mem.orders.setIfInBounds (mem.nodes o).id (some o) }

/-- `o->qty -= amount; lvl.total -= amount`. -/
def takeDisplayed (mem : Memory) (book : BookName) (i : Nat) (o : Ptr) (amount : Qty) :
    Memory :=
  let node := mem.nodes o
  let level := mem.levels book i
  (mem.setNode o { node with qty := node.qty - amount }).setLevel book i
    { level with total := level.total - amount }

/-- `x.reserve -= amount; lvl.hidden -= amount`. -/
def takeReserve (mem : Memory) (book : BookName) (i : Nat) (o : Ptr) (amount : Qty) :
    Memory :=
  let extra := mem.extra o
  let level := mem.levels book i
  (mem.setExtra o { extra with reserve := extra.reserve - amount }).setLevel book i
    { level with hidden := level.hidden - amount }

def clip (mem : Memory) (o : Ptr) : Qty :=
  let extra := mem.extra o
  if extra.peak < extra.reserve then extra.peak else extra.reserve

/-- Show the next clip of an iceberg whose displayed quantity is used up. -/
def replenish (mem : Memory) (book : BookName) (i : Nat) (o : Ptr) : Memory :=
  let clip := mem.clip o
  let mem := mem.takeReserve book i o clip
  let level := mem.levels book i
  (mem.setNode o { mem.nodes o with qty := clip }).setLevel book i
    { level with total := level.total + clip }

/-- Move the head of a level behind the others. -/
def requeue (mem : Memory) (book : BookName) (i : Nat) (o : Ptr) : Memory :=
  mem.setEnds book i (rotate mem.links (mem.levels book i).toEnds o)

/-- Unlink and free the head of a level whose quantities are already off the
level's sums. -/
def dropHead (mem : Memory) (book : BookName) (i : Nat) (o : Ptr) : Memory :=
  let mem := (mem.forget (mem.nodes o).id).release o
  let level := mem.levels book i
  let mem := mem.setLevel book i { level with count := level.count - 1 }
  mem.setEnds book i (popFront mem.links (mem.levels book i).toEnds o)

/-- Unlink an order from anywhere in its level and take it off the level's
sums. Neither frees the node nor touches the id table. -/
def unlinkOrder (mem : Memory) (book : BookName) (i : Nat) (o : Ptr) : Memory :=
  let mem := mem.setEnds book i (unlink mem.links (mem.levels book i).toEnds o)
  let level := mem.levels book i
  mem.setLevel book i { level with
    total := level.total - (mem.nodes o).qty
    hidden := level.hidden - mem.reserve o
    count := level.count - 1 }

end Memory

/-! ## Engine -/

structure MatchingEngine (H : Type) where
  min : Price
  nLevels : Nat
  mem : Memory
  maps : BookName → LevelBitmap
  /-- Cached best level index of each side, -1 for an empty side. -/
  best : Side → Int
  /-- The stop books are allocated on the first stop. -/
  stopBooks : Bool
  pendingStops : Nat
  lastPx : Price
  hasLast : Bool
  pumping : Bool
  halted : Bool
  stpHalt : Bool
  h : H

namespace MatchingEngine

variable {H : Type}

def new (band : Band) (h : H) (expectedOrders : Nat) : MatchingEngine H where
  min := band.min
  nLevels := (band.max - band.min + 1).toNat
  mem :=
    { levels := fun _ _ => {}
      nodes := fun _ => Order.zero
      links := { prev := fun _ => none, next := fun _ => none }
      pool := Pool.reserve expectedOrders
      orders := #[none]
      extras := #[]
      extraFree := [] }
  maps
    | .bids => LevelBitmap.new (band.max - band.min + 1).toNat
    | .asks => LevelBitmap.new (band.max - band.min + 1).toNat
    | .stopBids => LevelBitmap.new 0
    | .stopAsks => LevelBitmap.new 0
  best _ := -1
  stopBooks := false
  pendingStops := 0
  lastPx := 0
  hasLast := false
  pumping := false
  halted := false
  stpHalt := false
  h := h

def setMap (s : MatchingEngine H) (book : BookName) (map : LevelBitmap) : MatchingEngine H :=
  { s with maps := Function.update s.maps book map }

def setBest (s : MatchingEngine H) (side : Side) (i : Int) : MatchingEngine H :=
  { s with best := Function.update s.best side i }

def inBand (s : MatchingEngine H) (p : Price) : Prop :=
  s.min ≤ p ∧ p < s.min + s.nLevels

instance (s : MatchingEngine H) (p : Price) : Decidable (s.inBand p) := by
  unfold inBand
  exact inferInstance

def idx (s : MatchingEngine H) (p : Price) : Nat := (p - s.min).toNat

def lookup (s : MatchingEngine H) (id : OrderId) : Option Ptr := s.mem.lookup id

def nextId (s : MatchingEngine H) : OrderId × MatchingEngine H :=
  (s.mem.orders.size, { s with mem := { s.mem with orders := s.mem.orders.push none } })

def emit [Handler H] (s : MatchingEngine H) (event : Event) : MatchingEngine H :=
  { s with h := Handler.on s.h event }

/-! ## Reading the book -/

def hasBest (s : MatchingEngine H) (side : Side) : Prop := 0 ≤ s.best side

instance (s : MatchingEngine H) (side : Side) : Decidable (s.hasBest side) := by
  unfold hasBest
  exact inferInstance

def hasBid (s : MatchingEngine H) : Prop := s.hasBest .buy

def hasAsk (s : MatchingEngine H) : Prop := s.hasBest .sell

def bestPrice (s : MatchingEngine H) (side : Side) : Price := s.min + s.best side

def bestBid (s : MatchingEngine H) : Price := s.bestPrice .buy

def bestAsk (s : MatchingEngine H) : Price := s.bestPrice .sell

def orderQty (s : MatchingEngine H) (id : OrderId) : Qty :=
  match s.lookup id with
  | some o => if (s.mem.nodes o).stopPending then 0 else (s.mem.nodes o).qty
  | none => 0

def depthAt (s : MatchingEngine H) (side : Side) (price : Price) : Qty :=
  if s.inBand price then (s.mem.levels side.book (s.idx price)).total else 0

def hiddenAt (s : MatchingEngine H) (side : Side) (price : Price) : Qty :=
  if s.inBand price then (s.mem.levels side.book (s.idx price)).hidden else 0

def orderCountAt (s : MatchingEngine H) (side : Side) (price : Price) : UInt32 :=
  if s.inBand price then (s.mem.levels side.book (s.idx price)).count else 0

def openOrders (s : MatchingEngine H) : Nat := s.mem.pool.inUse

def nextLevel (s : MatchingEngine H) (side : Side) (i : Int) : Int :=
  match side with
  | .buy => (s.maps side.book).findLe (i - 1)
  | .sell => (s.maps side.book).findGe (i + 1)

open BoundedLoop

def levelOrders (s : MatchingEngine H) (book : BookName) (i : Nat) : Option (List Ptr) :=
  loop (fun (cursor, seen) => some <|
      match cursor with
      | some o => .again (s.mem.links.next o, seen ++ [o])
      | none => .leave seen)
    (s.mem.orders.size + 1) ((s.mem.levels book i).head, [])

/-- The resting orders of a side in book priority, as
`(id, side, price, displayed quantity)`. -/
def visitOrders (s : MatchingEngine H) (side : Side) :
    Option (List (OrderId × Side × Price × Qty)) :=
  loop (fun (i, seen) =>
      if 0 ≤ i then do
        let level ← s.levelOrders side.book i.toNat
        let views := level.map fun o =>
          let node := s.mem.nodes o
          (node.id, node.side, node.price, node.qty)
        some (.again (s.nextLevel side i, seen ++ views))
      else some (.leave seen))
    (s.nLevels + 1) (s.best side, [])

def visitStopBook (s : MatchingEngine H) (book : BookName) (next : Int → Int) (start : Int) :
    Option (List OrderId) :=
  loop (fun (i, seen) =>
      if 0 ≤ i then do
        let level ← s.levelOrders book i.toNat
        some (.again (next i, seen ++ level.map fun o => (s.mem.nodes o).id))
      else some (.leave seen))
    (s.nLevels + 1) (start, [])

def visitStops (s : MatchingEngine H) : Option (List OrderId) :=
  if s.stopBooks then do
    let bids := s.maps .stopBids
    let asks := s.maps .stopAsks
    let up ← s.visitStopBook .stopBids (fun i => bids.findGe (i + 1)) (bids.findGe 0)
    let down ← s.visitStopBook .stopAsks (fun i => asks.findLe (i - 1))
      (asks.findLe (s.nLevels - 1))
    some (up ++ down)
  else some []

end MatchingEngine

end Matchbook
