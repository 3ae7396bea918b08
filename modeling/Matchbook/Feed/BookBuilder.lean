import Matchbook.Engine.Calls
import Matchbook.Feed.Mcast

namespace Matchbook

/-! # Building books from a feed -/

namespace Itch

abbrev RefMap (α : Type) := UInt64 → Option α

namespace RefMap

variable {α : Type}

def empty : RefMap α := fun _ => none

def insert (refmap : RefMap α) (ref : UInt64) (value : α) : RefMap α :=
  Function.update refmap ref (some value)

def erase (refmap : RefMap α) (ref : UInt64) : RefMap α :=
  Function.update refmap ref none

end RefMap

/-! ## One book -/

structure BookBuilder where
  refmap : RefMap OrderId := .empty

namespace BookBuilder

variable {H : Type} [Handler H]

def apply (b : BookBuilder) (e : MatchingEngine H) (m : Message) :
    Option (BookBuilder × MatchingEngine H) :=
  match m.type with
  | .add => do
      let (e, id) ← e.submitLimit m.side m.price m.qty .gtc 0 .cancelTaker
      some (if id ≠ invalidOrderId then { b with refmap := b.refmap.insert m.ref id } else b, e)
  | .execute | .cancel =>
      match b.refmap m.ref with
      | none => some (b, e)
      | some id => do
          let (e, known) ← e.reduce id m.qty
          some (if known then b else { b with refmap := b.refmap.erase m.ref }, e)
  | .delete =>
      match b.refmap m.ref with
      | none => some (b, e)
      | some id => do
          let (e, _) ← e.cancel id
          some ({ b with refmap := b.refmap.erase m.ref }, e)
  | .replace =>
      match b.refmap m.ref with
      | none => some (b, e)
      | some id => do
          -- A rejected replace leaves the order under its old reference.
          let (e, moved) ← e.modify id m.price m.qty
          some (if moved then
              { b with refmap := (b.refmap.erase m.ref).insert m.newRef id } else b, e)
  | .action =>
      if m.state = 'H'.toUInt8 then do
        let e ← e.halt
        some (b, e)
      else if m.state = 'T'.toUInt8 then do
        let e ← e.resume
        some (b, e)
      else some (b, e)
  | .other => some (b, e)

def applyAll (b : BookBuilder) (e : MatchingEngine H) :
    List Message → Option (BookBuilder × MatchingEngine H)
  | [] => some (b, e)
  | m :: feed => do
      let (b, e) ← b.apply e m
      b.applyAll e feed

end BookBuilder

end Itch

/-! ## A venue of books -/

/-- Symbol ids are handed out one by one, and `none` stands for the invalid one. -/
abbrev SymbolId := Nat

structure Venue (H : Type) where
  byName : List UInt8 → Option SymbolId
  engines : Array (MatchingEngine H)

namespace Venue

variable {H : Type} [Inhabited H]

def empty : Venue H where
  byName _ := none
  engines := #[]

def pad (name : List UInt8) : List UInt8 :=
  (name.takeWhile (· ≠ 0) ++ List.replicate 8 ' '.toUInt8).take 8

def find (v : Venue H) (name : List UInt8) : Option SymbolId := v.byName (pad name)

def addSymbol (v : Venue H) (name : List UInt8) (band : Band) (expectedOrders : Nat) :
    SymbolId × Venue H :=
  match v.find name with
  | some s => (s, v)
  | none =>
      (v.engines.size,
        { byName := Function.update v.byName (pad name) (some v.engines.size)
          engines := v.engines.push (.new band default expectedOrders) })

def setEngine (v : Venue H) (s : SymbolId) (e : MatchingEngine H) : Venue H :=
  { v with engines := v.engines.setIfInBounds s e }

def addSymbols (v : Venue H) : List (List UInt8 × Band × Nat) → Venue H
  | [] => v
  | (name, band, expectedOrders) :: symbols =>
    (v.addSymbol name band expectedOrders).2.addSymbols symbols

end Venue

namespace Itch

structure Loc where
  sym : SymbolId
  id : OrderId
deriving DecidableEq, Repr

structure VenueBookBuilder where
  refmap : RefMap Loc := .empty
  autoBand : Price
  dropped : UInt64 := 0

namespace VenueBookBuilder

variable {H : Type} [Handler H] [Inhabited H]

def expectedOrders : Nat := 2 ^ 16

/-- The band of a symbol that is registered on its first add. A band that does not
fit 64 bits, or is empty, has no meaning in the source. -/
def firstBand (autoBand price : Price) : Option Band :=
  let lo := if price > autoBand then price - autoBand else 1
  let hi := price + autoBand
  if legal : lo ≤ hi ∧ -(2 ^ 63) ≤ lo ∧ hi < 2 ^ 63 - 1 then
    some ⟨lo, hi, legal.1, legal.2.1, legal.2.2⟩
  else none

def enter (b : VenueBookBuilder) (v : Venue H) (m : Message) (s : SymbolId) :
    Option (VenueBookBuilder × Venue H) := do
  let e ← v.engines[s]?
  let (e, id) ← e.submitLimit m.side m.price m.qty .gtc 0 .cancelTaker
  some (if id ≠ invalidOrderId then { b with refmap := b.refmap.insert m.ref ⟨s, id⟩ }
    else { b with dropped := b.dropped + 1 }, v.setEngine s e)

def apply (b : VenueBookBuilder) (v : Venue H) (m : Message) :
    Option (VenueBookBuilder × Venue H) :=
  match m.type with
  | .add =>
      match v.find m.stock with
      | some s => b.enter v m s
      | none =>
          if b.autoBand = 0 then some ({ b with dropped := b.dropped + 1 }, v)
          else do
            let band ← firstBand b.autoBand m.price
            let (s, v) := v.addSymbol m.stock band expectedOrders
            b.enter v m s
  | .execute | .cancel =>
      match b.refmap m.ref with
      | none => some (b, v)
      | some loc => do
          let e ← v.engines[loc.sym]?
          let (e, known) ← e.reduce loc.id m.qty
          some (if known then b else { b with refmap := b.refmap.erase m.ref },
            v.setEngine loc.sym e)
  | .delete =>
      match b.refmap m.ref with
      | none => some (b, v)
      | some loc => do
          let e ← v.engines[loc.sym]?
          let (e, _) ← e.cancel loc.id
          some ({ b with refmap := b.refmap.erase m.ref }, v.setEngine loc.sym e)
  | .replace =>
      match b.refmap m.ref with
      | none => some (b, v)
      | some loc => do
          let e ← v.engines[loc.sym]?
          let (e, moved) ← e.modify loc.id m.price m.qty
          some (if moved then
              { b with refmap := (b.refmap.erase m.ref).insert m.newRef loc } else b,
            v.setEngine loc.sym e)
  | .action =>
      match v.find m.stock with
      | none => some (b, v)
      | some s => do
          let e ← v.engines[s]?
          if m.state = 'H'.toUInt8 then do
            let e ← e.halt
            some (b, v.setEngine s e)
          else if m.state = 'T'.toUInt8 then do
            let e ← e.resume
            some (b, v.setEngine s e)
          else some (b, v)
  | .other => some (b, v)

def applyAll (b : VenueBookBuilder) (v : Venue H) :
    List Message → Option (VenueBookBuilder × Venue H)
  | [] => some (b, v)
  | m :: feed => do
      let (b, v) ← b.apply v m
      b.applyAll v feed

end VenueBookBuilder

/-! ## Which messages are about a symbol -/

def introduced (m : Message) : List UInt64 :=
  match m.type with
  | .add => [m.ref]
  | .replace => [m.newRef]
  | _ => []

def UniqueRefs (feed : List Message) : Prop := (feed.flatMap introduced).Nodup

instance (feed : List Message) : Decidable (UniqueRefs feed) :=
  inferInstanceAs (Decidable (List.Nodup _))

/-- A message is about a symbol if it names the symbol, or refers to an order
that a message about the symbol introduced. -/
def concerns (names : List UInt8 → Bool) (mine : UInt64 → Bool) (m : Message) : Bool :=
  match m.type with
  | .add | .action => names m.stock
  | .execute | .cancel | .delete | .replace => mine m.ref
  | .other => false

def mineAfter (names : List UInt8 → Bool) (mine : UInt64 → Bool) (m : Message) : UInt64 → Bool :=
  fun ref => mine ref || (concerns names mine m && (introduced m).contains ref)

def about (names : List UInt8 → Bool) (mine : UInt64 → Bool) : List Message → List Message
  | [] => []
  | m :: feed =>
    if concerns names mine m then m :: about names (mineAfter names mine m) feed
    else about names (mineAfter names mine m) feed

end Itch

end Matchbook
