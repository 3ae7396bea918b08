import Matchbook.Feed.Lawful
import Matchbook.Feed.Replay

namespace Matchbook

/-! # The generated file

A file of made-up flow in one symbol. The orders come and go by dice, but every message of the file
is about an order that is there. -/

open Itch NumberedAccounts

structure XorShift where
  s : UInt64

namespace XorShift

def next (rng : XorShift) : UInt64 × XorShift :=
  let s := rng.s ^^^ rng.s <<< 13
  let s := s ^^^ s >>> 7
  let s := s ^^^ s <<< 17
  (s, ⟨s⟩)

def nextBelow (rng : XorShift) (n : UInt64) : UInt64 × XorShift := (rng.next.1 % n, rng.next.2)

end XorShift

structure Live where
  ref : UInt64
  shares : UInt32

structure ItchGen where
  rng : XorShift
  nextRef : UInt64
  ts : UInt64
  live : List Live

namespace ItchGen

/-! ## Bytes -/

def put16 (v : UInt16) : List UInt8 := [(v >>> 8).toUInt8, (v &&& 0xFF).toUInt8]

def put32 (v : UInt32) : List UInt8 :=
  [3, 2, 1, 0].map fun i : UInt32 => (v >>> (8 * i) &&& 0xFF).toUInt8

def put48 (v : UInt64) : List UInt8 :=
  [5, 4, 3, 2, 1, 0].map fun i : UInt64 => (v >>> (8 * i) &&& 0xFF).toUInt8

def put64 (v : UInt64) : List UInt8 :=
  [7, 6, 5, 4, 3, 2, 1, 0].map fun i : UInt64 => (v >>> (8 * i) &&& 0xFF).toUInt8

def stock : List UInt8 := ['M', 'B', 'T', 'E', 'S', 'T', ' ', ' '].map Char.toUInt8

def putHead (type : Char) (ts : UInt64) : List UInt8 :=
  type.toUInt8 :: (put16 1 ++ put16 0 ++ put48 ts)

def writeMsg (body : List UInt8) : List UInt8 :=
  let size := UInt64.ofNat body.length
  [(size >>> 8).toUInt8, (size &&& 0xFF).toUInt8] ++ body

/-! ## Messages

The prices come from floating-point arithmetic; a message has the word that it ends in. -/

def swapOut (live : List Live) (k : Nat) : List Live :=
  (live.set k (live.getLastD ⟨0, 0⟩)).dropLast

def take (live : List Live) (k : Nat) (l : Live) (shares : UInt32) : List Live :=
  if l.shares - shares = 0 then swapOut live k
  else live.set k { l with shares := l.shares - shares }

def lot (l : Live) : UInt32 := if 100 ≥ l.shares then l.shares else 100

variable (g : ItchGen)

def pick : Nat × Live × XorShift :=
  let (k, rng) := g.rng.nextBelow (UInt64.ofNat g.live.length)
  (k.toNat, g.live.getD k.toNat ⟨0, 0⟩, rng)

def addOrder (price : UInt32) : ItchGen × List UInt8 :=
  let ref := g.nextRef
  let (sided, rng) := g.rng.nextBelow 2
  let (_, rng) := rng.nextBelow 30
  let (lots, rng) := rng.nextBelow 10
  let side := if sided = 0 then 'B' else 'S'
  let shares := ((1 + lots) * 100).toUInt32
  ({ g with rng, nextRef := ref + 1, live := g.live ++ [⟨ref, shares⟩] },
    putHead 'A' g.ts ++ (put64 ref ++ (side.toUInt8 :: (put32 shares ++ (stock ++ put32 price)))))

def orderDelete : ItchGen × List UInt8 :=
  let (k, l, rng) := g.pick
  ({ g with rng, live := swapOut g.live k }, putHead 'D' g.ts ++ put64 l.ref)

def orderExecuted (i : UInt64) : ItchGen × List UInt8 :=
  let (k, l, rng) := g.pick
  ({ g with rng, live := take g.live k l (lot l) },
    putHead 'E' g.ts ++ (put64 l.ref ++ (put32 (lot l) ++ put64 i)))

def orderCancel : ItchGen × List UInt8 :=
  let (k, l, rng) := g.pick
  ({ g with rng, live := take g.live k l (lot l) },
    putHead 'X' g.ts ++ (put64 l.ref ++ put32 (lot l)))

def orderReplace (price : UInt32) : ItchGen × List UInt8 :=
  let (k, l, rng) := g.pick
  let newRef := g.nextRef
  let (_, rng) := rng.nextBelow 30
  let (_, rng) := rng.nextBelow 2
  let (lots, rng) := rng.nextBelow 10
  let shares := ((1 + lots) * 100).toUInt32
  ({ g with rng, nextRef := newRef + 1, live := g.live.set k ⟨newRef, shares⟩ },
    putHead 'U' g.ts ++ (put64 l.ref ++ (put64 newRef ++ (put32 shares ++ put32 price))))

def turn (price : UInt32) (i : UInt64) : ItchGen × List UInt8 :=
  let (step, rng) := g.rng.nextBelow 5000
  let (_, rng) := rng.nextBelow 200
  let (roll, rng) := rng.nextBelow 100
  let g := { g with rng, ts := g.ts + (1000 + step) }
  if roll < 55 ∨ g.live = [] then g.addOrder price
  else if roll < 75 then g.orderDelete
  else if roll < 88 then g.orderExecuted i
  else if roll < 95 then g.orderCancel
  else g.orderReplace price

/-- The bodies of the messages from the one numbered `i` on. -/
def bodies (price : Nat → UInt32) (g : ItchGen) (i : Nat) : Nat → ItchGen × List (List UInt8)
  | 0 => (g, [])
  | n + 1 =>
      let (g, body) := g.turn (price i) (UInt64.ofNat i)
      let (g, rest) := bodies price g (i + 1) n
      (g, body :: rest)

def start (seed : UInt64) : ItchGen := ⟨⟨seed⟩, 1, 0, []⟩

def file (seed : UInt64) (price : Nat → UInt32) (nMsgs : UInt64) : List UInt8 :=
  ((start seed).bodies price 0 nMsgs.toNat).2.flatMap writeMsg

/-! ## The layouts are those of the encoder -/

theorem byte16 (v : UInt16) : (v &&& 0xFF).toUInt8 = v.toUInt8 := by
  apply UInt8.toNat_inj.mp
  rw [UInt16.toNat_toUInt8, UInt16.toNat_toUInt8, UInt16.toNat_and]
  exact (congrArg (· % 2 ^ 8) (Nat.and_two_pow_sub_one_eq_mod v.toNat 8)).trans (Nat.mod_mod _ _)

theorem byte32 (v : UInt32) : (v &&& 0xFF).toUInt8 = v.toUInt8 := by
  apply UInt8.toNat_inj.mp
  rw [UInt32.toNat_toUInt8, UInt32.toNat_toUInt8, UInt32.toNat_and]
  exact (congrArg (· % 2 ^ 8) (Nat.and_two_pow_sub_one_eq_mod v.toNat 8)).trans (Nat.mod_mod _ _)

theorem byte64 (v : UInt64) : (v &&& 0xFF).toUInt8 = v.toUInt8 := by
  apply UInt8.toNat_inj.mp
  rw [UInt64.toNat_toUInt8, UInt64.toNat_toUInt8, UInt64.toNat_and]
  exact (congrArg (· % 2 ^ 8) (Nat.and_two_pow_sub_one_eq_mod v.toNat 8)).trans (Nat.mod_mod _ _)

theorem put16_eq (v : UInt16) : put16 v = enc16 v := by rw [put16, enc16, byte16]

theorem put32_eq (v : UInt32) : put32 v = enc32 v := by
  simp only [put32, enc32, byte32, List.map_cons, List.map_nil]
  rfl

theorem put48_eq (v : UInt64) : put48 v = enc48 v := by
  simp only [put48, enc48, byte64, List.map_cons, List.map_nil]
  rfl

theorem put64_eq (v : UInt64) : put64 v = enc64 v := by
  simp only [put64, enc64, byte64, List.map_cons, List.map_nil]
  rfl

theorem putHead_eq (type : Char) (ts : UInt64) : putHead type ts = encHead type.toUInt8 ts := by
  rw [putHead, encHead, put16_eq, put16_eq, put48_eq]

theorem writeMsg_eq {body : List UInt8} (short : body.length < 2 ^ 16) :
    writeMsg body = frame body := by
  have wide : body.length % 2 ^ 64 = body.length := Nat.mod_eq_of_lt (by omega)
  have narrow : body.length % 2 ^ 16 = body.length := Nat.mod_eq_of_lt short
  have high : (UInt64.ofNat body.length >>> 8).toUInt8 =
      (UInt16.ofNat body.length >>> 8).toUInt8 := by
    apply UInt8.toNat_inj.mp
    rw [UInt64.toNat_toUInt8, UInt16.toNat_toUInt8, UInt64.toNat_shiftRight,
      UInt16.toNat_shiftRight, UInt64.toNat_ofNat', UInt16.toNat_ofNat', wide, narrow]
    rfl
  have low : (UInt64.ofNat body.length).toUInt8 = (UInt16.ofNat body.length).toUInt8 := by
    apply UInt8.toNat_inj.mp
    rw [UInt64.toNat_toUInt8, UInt16.toNat_toUInt8, UInt64.toNat_ofNat', UInt16.toNat_ofNat', wide,
      narrow]
  rw [writeMsg, frame, enc16, byte64, high, low]

/-! ## The orders that are there -/

section orders

variable {live front back : List Live} {l : Live} {held : UInt64 → Option (Nat × Nat)}

def Lists (live : List Live) (held : UInt64 → Option (Nat × Nat)) : Prop :=
  (live.map Live.ref).Nodup ∧ ∀ ref account, held ref = some account ↔
    ∃ shares, ⟨ref, shares⟩ ∈ live ∧ account = (ref.toNat, shares.toNat)

theorem Lists.perm {live' : List Live} (lists : Lists live held) (perm : live'.Perm live) :
    Lists live' held := by
  refine ⟨(perm.map Live.ref).nodup_iff.mpr lists.1, fun ref account => ?_⟩
  rw [lists.2]
  simp only [perm.mem_iff]

theorem swapOut_perm (front : List Live) (l : Live) (back : List Live) :
    (swapOut (front ++ l :: back) front.length).Perm (front ++ back) := by
  rcases List.eq_nil_or_concat back with rfl | ⟨back, last, rfl⟩
  · simp [swapOut]
  · have moved : swapOut (front ++ l :: back.concat last) front.length = front ++ last :: back := by
      have last' : (front ++ l :: back.concat last).getLastD ⟨0, 0⟩ = last := by
        rw [List.concat_eq_append, ← List.cons_append, ← List.append_assoc]
        exact List.getLastD_concat ..
      rw [swapOut, last', List.set_append_right _ _ (Nat.le_refl _), Nat.sub_self,
        List.set_cons_zero,
        List.concat_eq_append, ← List.cons_append, ← List.append_assoc, List.dropLast_concat]
    rw [moved, List.concat_eq_append]
    exact (List.perm_append_singleton last back).symm.append_left front

theorem Lists.cons (lists : Lists live held) (fresh : ∀ other ∈ live, other.ref ≠ l.ref) :
    Lists (l :: live) (Function.update held l.ref (some (l.ref.toNat, l.shares.toNat))) := by
  constructor
  · rw [List.map_cons, List.nodup_cons]
    refine ⟨fun member => ?_, lists.1⟩
    rcases List.mem_map.mp member with ⟨other, listed, same⟩
    exact fresh other listed same
  · intro ref account
    by_cases same : ref = l.ref
    · subst same
      rw [Function.update_self]
      constructor
      · intro held
        exact ⟨l.shares, List.mem_cons_self, (Option.some.inj held).symm⟩
      · rintro ⟨shares, member, rfl⟩
        rcases List.mem_cons.mp member with same | listed
        · rw [← same]
        · exact (fresh _ listed rfl).elim
    · have other (shares : UInt32) : ⟨ref, shares⟩ ∈ l :: live ↔ ⟨ref, shares⟩ ∈ live := by
        rw [List.mem_cons, or_iff_right]
        rintro rfl
        exact same rfl
      rw [Function.update_of_ne same, lists.2]
      simp only [other]

theorem Lists.tail (lists : Lists (l :: live) held) :
    held l.ref = some (l.ref.toNat, l.shares.toNat) ∧ (∀ other ∈ live, other.ref ≠ l.ref) ∧
      Lists live (Function.update held l.ref none) := by
  rcases lists with ⟨distinct, lists⟩
  rw [List.map_cons, List.nodup_cons] at distinct
  have fresh : ∀ other ∈ live, other.ref ≠ l.ref := fun other listed same =>
    distinct.1 (List.mem_map.mpr ⟨other, listed, same⟩)
  refine ⟨(lists _ _).mpr ⟨l.shares, List.mem_cons_self, rfl⟩, fresh, distinct.2, ?_⟩
  intro ref account
  by_cases same : ref = l.ref
  · subst same
    rw [Function.update_self]
    constructor
    · exact nofun
    · rintro ⟨shares, listed, -⟩
      exact (fresh _ listed rfl).elim
  · have other (shares : UInt32) : ⟨ref, shares⟩ ∈ l :: live ↔ ⟨ref, shares⟩ ∈ live := by
      rw [List.mem_cons, or_iff_right]
      rintro rfl
      exact same rfl
    rw [Function.update_of_ne same, lists]
    simp only [other]

/-! ## The ledger of the orders -/

variable {nextRef : UInt64} {ledger : Ledger} {rest : List Live} {shares : UInt32}

structure Carries (live : List Live) (nextRef : UInt64) (ledger : Ledger) : Prop where
  counter : nextRef = UInt64.ofNat ledger.next
  fewer : live.length < ledger.next
  listed : ∃ held, ledger.Books ledger.next held ∧ Lists live held

theorem Carries.perm {live' : List Live} (carries : Carries live nextRef ledger)
    (perm : live'.Perm live) : Carries live' nextRef ledger where
  counter := carries.counter
  fewer := perm.length_eq ▸ carries.fewer
  listed := by
    rcases carries.listed with ⟨held, books, lists⟩
    exact ⟨held, books, lists.perm perm⟩

theorem Carries.number (carries : Carries live nextRef ledger) (room : ledger.next < 2 ^ 64) :
    nextRef.toNat = ledger.next := by
  rw [carries.counter, UInt64.toNat_ofNat', Nat.mod_eq_of_lt room]

theorem Carries.adds (carries : Carries live nextRef ledger) (room : ledger.next < 2 ^ 64)
    (some : shares ≠ 0) : ∃ ledger', ledger'.next = ledger.next + 1 ∧
      ledger.post (.opened nextRef.toNat shares.toNat) = .some ledger' ∧
      Carries (⟨nextRef, shares⟩ :: live) (nextRef + 1) ledger' := by
  have number := carries.number room
  rcases carries with ⟨counter, fewer, held, books, lists⟩
  have fresh : ∀ other ∈ live, other.ref ≠ nextRef := by
    rintro other listed rfl
    have holds := (lists.2 other.ref _).mpr ⟨other.shares, listed, rfl⟩
    exact Nat.ne_of_lt (books.balance _ _ _ holds).2.2 number
  have free : held nextRef = none := by
    apply Option.eq_none_iff_forall_ne_some.mpr
    intro account holds
    rcases (lists.2 nextRef account).mp holds with ⟨shares, listed, -⟩
    exact fresh _ listed rfl
  have something : shares.toNat ≠ 0 := fun zero => some (UInt32.toNat_inj.mp zero)
  rcases books.opens free something with ⟨ledger', posted, books'⟩
  have next := books'.counter
  refine ⟨ledger', next, by rw [number]; exact posted, ?_, ?_, _, next ▸ books', ?_⟩
  · rw [next, counter]
    exact (UInt64.ofNat_add _ _).symm
  · rw [next, List.length_cons]
    exact Nat.succ_lt_succ fewer
  · have lists' := lists.cons (l := ⟨nextRef, shares⟩) fresh
    rwa [number] at lists'

theorem Carries.nonzero (carries : Carries (l :: rest) nextRef ledger) : l.shares ≠ 0 := by
  rcases carries with ⟨counter, fewer, held, books, lists⟩
  intro none
  exact (books.balance _ _ _ lists.tail.1).1 (by rw [none]; rfl)

theorem Carries.leaves (carries : Carries (l :: rest) nextRef ledger) :
    ∃ ledger', ledger'.next = ledger.next ∧ ledger.post (.closed l.ref.toNat) = some ledger' ∧
      Carries rest nextRef ledger' := by
  rcases carries with ⟨counter, fewer, held, books, lists⟩
  rcases lists.tail with ⟨holds, fresh, lists'⟩
  rcases books.closes holds with ⟨ledger', posted, books'⟩
  have next := books'.counter
  exact ⟨ledger', next, posted, next ▸ counter, by rw [next]; exact Nat.lt_of_succ_lt fewer, _,
    next ▸ books', lists'⟩

/-- Shares come off the first order. -/
theorem Carries.drawn (carries : Carries (l :: rest) nextRef ledger) (some : shares ≠ 0)
    (within : shares ≤ l.shares) : ∃ ledger', ledger'.next = ledger.next ∧
      ledger.post (.drawn l.ref.toNat shares.toNat) = .some ledger' ∧
      Carries (if l.shares - shares = 0 then rest
        else { l with shares := l.shares - shares } :: rest) nextRef ledger' := by
  rcases carries with ⟨counter, fewer, held, books, lists⟩
  rcases lists.tail with ⟨holds, fresh, lists'⟩
  have something : shares.toNat ≠ 0 := fun zero => some (UInt32.toNat_inj.mp zero)
  have left : (l.shares - shares).toNat = l.shares.toNat - shares.toNat :=
    UInt32.toNat_sub_of_le _ _ within
  rcases books.draws holds something (UInt32.le_iff_toNat_le.mp within) with
    ⟨ledger', posted, books'⟩
  have next := books'.counter
  rw [← left] at books'
  refine ⟨ledger', next, posted, next ▸ counter, ?_, _, next ▸ books', ?_⟩
  · rw [next]
    split
    · exact Nat.lt_of_succ_lt fewer
    · exact fewer
  · by_cases none : l.shares - shares = 0
    · rw [if_pos none, if_pos (by rw [none]; rfl)]
      exact lists'
    · have nonzero : (l.shares - shares).toNat ≠ 0 := fun zero => none (UInt32.toNat_inj.mp zero)
      have changed := lists'.cons (l := { l with shares := l.shares - shares }) fresh
      rw [Function.update_idem] at changed
      rwa [if_neg none, if_neg nonzero]

end orders

/-! ## One message -/

variable {g : ItchGen} {ledger : Ledger}

structure Writes (ledger : Ledger) (next : ItchGen × List UInt8) (m : Message) (ledger' : Ledger) :
    Prop where
  short : next.2.length < 2 ^ 16
  parsed : parse next.2 {} = some m
  symbol : m.type = .add → m.stock = stock
  inBook : m.type ≠ .action
  posted : ledger.postAll m.postings = some ledger'
  numbered : ∃ k ≤ 1, ledger'.next = ledger.next + k ∧
    (introduced m).map UInt64.toNat = List.range' ledger.next k
  carries : Carries next.1.live next.1.nextRef ledger'

theorem pick_spec (some : g.live ≠ []) (room : g.live.length < 2 ^ 64) :
    ∃ front l back rng, g.pick = (front.length, l, rng) ∧ g.live = front ++ l :: back := by
  let k := (g.rng.nextBelow (UInt64.ofNat g.live.length)).1.toNat
  have inside : k < g.live.length := by
    show (g.rng.next.1 % UInt64.ofNat g.live.length).toNat < g.live.length
    rw [UInt64.toNat_mod, UInt64.toNat_ofNat', Nat.mod_eq_of_lt room]
    exact Nat.mod_lt _ (List.length_pos_iff.mpr some)
  have length : (g.live.take k).length = k := List.length_take_of_le (Nat.le_of_lt inside)
  refine ⟨g.live.take k, g.live[k], g.live.drop (k + 1), g.rng.next.2, ?_, ?_⟩
  · rw [length, pick]
    simp only [List.getD_eq_getElem?_getD]
    show (k, g.live[k]?.getD _, _) = _
    rw [List.getElem?_eq_getElem inside]
    rfl
  · rw [← List.drop_eq_getElem_cons inside, List.take_append_drop]

theorem lots_some (rng : XorShift) : ((1 + (rng.nextBelow 10).1) * 100).toUInt32 ≠ 0 := by
  have small : (rng.nextBelow 10).1.toNat < 10 := by
    show (rng.next.1 % 10).toNat < 10
    rw [UInt64.toNat_mod]
    exact Nat.mod_lt _ (by decide)
  have all : ∀ lots < 10, ((1 + UInt64.ofNat lots) * 100).toUInt32 ≠ 0 := by decide
  have some := all _ small
  rwa [UInt64.ofNat_toNat] at some

theorem lot_spec {l : Live} (some : l.shares ≠ 0) : lot l ≠ 0 ∧ lot l ≤ l.shares := by
  unfold lot
  split
  · exact ⟨some, UInt32.le_refl _⟩
  · rename_i more
    exact ⟨by decide, UInt32.le_of_lt (UInt32.not_le.mp more)⟩

/-- A message of the encoder. -/
theorem writes_encoding {next : ItchGen × List UInt8} {m : Message} {ledger' : Ledger}
    (encoding : Encoding) (body : next.2 = encoding.body) (read : encoding.parsed {} = some m)
    (symbol : m.type = .add → m.stock = stock) (inBook : m.type ≠ .action)
    (posted : ledger.postAll m.postings = some ledger')
    (numbered : ∃ k ≤ 1, ledger'.next = ledger.next + k ∧
      (introduced m).map UInt64.toNat = List.range' ledger.next k)
    (carries : Carries next.1.live next.1.nextRef ledger') : Writes ledger next m ledger' where
  short := body ▸ encoding.short_body
  parsed := by rw [body, (encoding.parsesBack {}).whole, read]
  symbol := symbol
  inBook := inBook
  posted := posted
  numbered := numbered
  carries := carries

theorem post_one {posting : Posting} {ledger' : Ledger}
    (posted : ledger.post posting = some ledger') :
    ledger.postAll [posting] = some ledger' := by
  rw [Ledger.postAll, posted]
  rfl

theorem writes_addOrder (carries : Carries g.live g.nextRef ledger)
    (room : ledger.next < 2 ^ 64) (price : UInt32) :
    ∃ m ledger', Writes ledger (g.addOrder price) m ledger' := by
  let rng := (g.rng.nextBelow 2).2.nextBelow 30
  let side := if (g.rng.nextBelow 2).1 = 0 then 'B' else 'S'
  let shares := ((1 + (rng.2.nextBelow 10).1) * 100).toUInt32
  rcases carries.adds room (lots_some rng.2) with ⟨ledger', next, posted, carries'⟩
  refine ⟨_, ledger', writes_encoding
    (.add g.ts g.nextRef side.toUInt8 shares ⟨stock, rfl⟩ price) ?_ rfl (fun _ => rfl) nofun
    (post_one posted) ⟨1, Nat.le_refl 1, next, congrArg ([·]) (carries.number room)⟩
    (carries'.perm (List.perm_append_singleton _ _))⟩
  simp only [addOrder, putHead_eq, put64_eq, put32_eq]
  rfl

section picked

variable {front back : List Live} {l : Live} {rng : XorShift}

theorem writes_orderDelete (carries : Carries g.live g.nextRef ledger)
    (picked : g.pick = (front.length, l, rng)) (here : g.live = front ++ l :: back) :
    ∃ m ledger', Writes ledger g.orderDelete m ledger' := by
  rcases (carries.perm (here ▸ List.perm_middle).symm).leaves with ⟨ledger', next, posted, carries'⟩
  refine ⟨_, ledger', writes_encoding (.delete g.ts l.ref) ?_ rfl nofun nofun (post_one posted)
    ⟨0, Nat.zero_le 1, next, rfl⟩ ?_⟩
  · simp only [orderDelete, picked, putHead_eq, put64_eq]
    rfl
  · simp only [orderDelete, picked]
    rw [here]
    exact carries'.perm (swapOut_perm front l back)

/-- Shares come off the order that was picked. -/
theorem Carries.takes (carries : Carries g.live g.nextRef ledger)
    (here : g.live = front ++ l :: back) :
    ∃ ledger', ledger'.next = ledger.next ∧
      ledger.post (.drawn l.ref.toNat (lot l).toNat) = some ledger' ∧
      Carries (take g.live front.length l (lot l)) g.nextRef ledger' := by
  have first := carries.perm (here ▸ List.perm_middle).symm
  rcases lot_spec first.nonzero with ⟨something, within⟩
  rcases first.drawn something within with ⟨ledger', next, posted, carries'⟩
  refine ⟨ledger', next, posted, ?_⟩
  rw [take, here]
  by_cases none : l.shares - lot l = 0
  · rw [if_pos none] at carries' ⊢
    exact carries'.perm (swapOut_perm front l back)
  · rw [if_neg none] at carries' ⊢
    rw [List.set_append_right _ _ (Nat.le_refl _), Nat.sub_self, List.set_cons_zero]
    exact carries'.perm List.perm_middle

theorem writes_orderExecuted (carries : Carries g.live g.nextRef ledger)
    (picked : g.pick = (front.length, l, rng)) (here : g.live = front ++ l :: back) (i : UInt64) :
    ∃ m ledger', Writes ledger (g.orderExecuted i) m ledger' := by
  rcases carries.takes here with ⟨ledger', next, posted, carries'⟩
  refine ⟨_, ledger', writes_encoding (.execute g.ts l.ref (lot l) i) ?_ rfl nofun nofun
    (post_one posted) ⟨0, Nat.zero_le 1, next, rfl⟩ ?_⟩
  · simp only [orderExecuted, picked, putHead_eq, put64_eq, put32_eq]
    rfl
  · simp only [orderExecuted, picked]
    exact carries'

theorem writes_orderCancel (carries : Carries g.live g.nextRef ledger)
    (picked : g.pick = (front.length, l, rng)) (here : g.live = front ++ l :: back) :
    ∃ m ledger', Writes ledger g.orderCancel m ledger' := by
  rcases carries.takes here with ⟨ledger', next, posted, carries'⟩
  refine ⟨_, ledger', writes_encoding (.cancel g.ts l.ref (lot l)) ?_ rfl nofun nofun
    (post_one posted) ⟨0, Nat.zero_le 1, next, rfl⟩ ?_⟩
  · simp only [orderCancel, picked, putHead_eq, put64_eq, put32_eq]
    rfl
  · simp only [orderCancel, picked]
    exact carries'

theorem parse_replace (ts ref newRef : UInt64) (shares price : UInt32) :
    parse (encHead 'U'.toUInt8 ts ++ (enc64 ref ++ (enc64 newRef ++ (enc32 shares ++ enc32 price))))
        {} =
      some { type := .replace, ref, newRef, qty := shares.toUInt64, price := price.toNat } := by
  let body := encHead 'U'.toUInt8 ts ++
      (enc64 ref ++ (enc64 newRef ++ (enc32 shares ++ enc32 price)))
  have kind : byteAt body 0 = 'U'.toUInt8 := rfl
  have length : body.length = 35 := rfl
  have reference : be64 (body.drop 11) = ref := be64_enc64 ref _
  have reference' : be64 (body.drop 19) = newRef := be64_enc64 newRef _
  have amount : be32 (body.drop 27) = shares := be32_enc32 shares _
  have priced : be32 (body.drop 31) = price := be32_enc32 price []
  change parse body {} = _
  generalize body = p at *
  simp +decide [parse, kind, length, reference, reference', amount, priced]

theorem writes_orderReplace (carries : Carries g.live g.nextRef ledger)
    (room : ledger.next < 2 ^ 64) (picked : g.pick = (front.length, l, rng))
    (here : g.live = front ++ l :: back) (price : UInt32) :
    ∃ m ledger', Writes ledger (g.orderReplace price) m ledger' := by
  have first := carries.perm (here ▸ List.perm_middle).symm
  let dice := (rng.nextBelow 30).2.nextBelow 2
  let shares := ((1 + (dice.2.nextBelow 10).1) * 100).toUInt32
  rcases first.leaves with ⟨ledger₁, next, closed, carries₁⟩
  rcases carries₁.adds (next ▸ room) (lots_some dice.2) with ⟨ledger', next', posted, carries'⟩
  have body : (g.orderReplace price).2 = encHead 'U'.toUInt8 g.ts ++ (enc64 l.ref ++
      (enc64 g.nextRef ++ (enc32 shares ++ enc32 price))) := by
    simp only [orderReplace, picked, putHead_eq, put64_eq, put32_eq]
    rfl
  let m : Message :=
    { type := .replace, ref := l.ref, newRef := g.nextRef, qty := shares.toUInt64
      price := price.toNat }
  refine ⟨m, ledger', ?_⟩
  constructor
  case short =>
    rw [body]
    exact (by decide : 35 < 2 ^ 16)
  case parsed =>
    rw [body]
    exact parse_replace g.ts l.ref g.nextRef shares price
  case symbol => nofun
  case inBook => nofun
  case posted =>
    show (ledger.post (.closed l.ref.toNat)).bind _ = _
    rw [closed]
    exact post_one posted
  case numbered =>
    exact ⟨1, Nat.le_refl 1, next'.trans (congrArg (· + 1) next),
      congrArg ([·]) (carries.number room)⟩
  case carries =>
    simp only [orderReplace, picked]
    rw [here, List.set_append_right _ _ (Nat.le_refl _), Nat.sub_self, List.set_cons_zero]
    exact carries'.perm List.perm_middle

end picked

theorem writes_turn (carries : Carries g.live g.nextRef ledger) (room : ledger.next < 2 ^ 64)
    (price : UInt32) (i : UInt64) : ∃ m ledger', Writes ledger (g.turn price i) m ledger' := by
  let dice := ((g.rng.nextBelow 5000).2.nextBelow 200).2.nextBelow 100
  let g' : ItchGen := { g with rng := dice.2, ts := g.ts + (1000 + (g.rng.nextBelow 5000).1) }
  have carries' : Carries g'.live g'.nextRef ledger := carries
  have turned : g.turn price i =
      if dice.1 < 55 ∨ g'.live = [] then g'.addOrder price
      else if dice.1 < 75 then g'.orderDelete
      else if dice.1 < 88 then g'.orderExecuted i
      else if dice.1 < 95 then g'.orderCancel
      else g'.orderReplace price := rfl
  rw [turned]
  clear_value g' dice
  split
  case isTrue => exact writes_addOrder carries' room price
  case isFalse old =>
    rw [not_or] at old
    rcases pick_spec old.2 (carries'.fewer.trans room) with ⟨front, l, back, rng, picked, here⟩
    split
    case isTrue => exact writes_orderDelete carries' picked here
    case isFalse =>
      split
      case isTrue => exact writes_orderExecuted carries' picked here i
      case isFalse =>
        split
        case isTrue => exact writes_orderCancel carries' picked here
        case isFalse => exact writes_orderReplace carries' room picked here price

/-! ## The whole file -/

variable {messages : List (List UInt8)}

/-- The messages of the bodies are lawful entries of the ledger, which then has the orders that are
there. -/
theorem bodies_lawful (price : Nat → UInt32) (carries : Carries g.live g.nextRef ledger)
    (i n : Nat) (room : ledger.next + n ≤ 2 ^ 64) :
    ∃ feed ledger', (∀ body ∈ (g.bodies price i n).2, body.length < 2 ^ 16) ∧
      ((g.bodies price i n).2.filterMap fun body => parse body {}) = feed ∧ feed.length = n ∧
      (∀ m ∈ feed, (m.type = .add → m.stock = stock) ∧ m.type ≠ .action) ∧
      ledger.postAll (feed.flatMap Message.postings) = some ledger' ∧
      (∃ k, (feed.flatMap introduced).map UInt64.toNat = List.range' ledger.next k) ∧
      Carries (g.bodies price i n).1.live (g.bodies price i n).1.nextRef ledger' := by
  induction n generalizing g ledger i with
  | zero => exact ⟨[], ledger, nofun, rfl, rfl, nofun, rfl, ⟨0, rfl⟩, carries⟩
  | succ n induction =>
      rcases writes_turn carries (by omega) (price i) (UInt64.ofNat i) with ⟨m, ledger₁, writes⟩
      rcases writes.numbered with ⟨k, atMostOne, next, first⟩
      rcases induction writes.carries (i + 1) (by omega) with
        ⟨feed, ledger', short, parsed, length, about, posted, ⟨later, refs⟩, carries'⟩
      refine ⟨m :: feed, ledger', ?_, ?_, ?_, ?_, ?_, ⟨k + later, ?_⟩, carries'⟩
      · intro body member
        rcases List.mem_cons.mp member with rfl | later
        · exact writes.short
        · exact short body later
      · rw [bodies, List.filterMap_cons, writes.parsed]
        exact congrArg _ parsed
      · rw [List.length_cons, length]
      · intro other member
        rcases List.mem_cons.mp member with rfl | later
        · exact ⟨writes.symbol, writes.inBook⟩
        · exact about other later
      · rw [List.flatMap_cons, Ledger.postAll_append, writes.posted]
        exact posted
      · rw [List.flatMap_cons, List.map_append, first, refs, next, List.range'_append_1]

theorem carries_start (seed : UInt64) : Carries (start seed).live (start seed).nextRef .fresh where
  counter := rfl
  fewer := Nat.one_pos
  listed := ⟨fun _ => none, Ledger.books_fresh, .nil, fun _ _ => ⟨nofun, nofun⟩⟩

theorem readFrames_written (short : ∀ body ∈ messages, body.length < 2 ^ 16) :
    readFrames (messages.flatMap writeMsg) = messages := by
  have reads : ∀ body ∈ messages, ∀ rest,
      readFrame (writeMsg body ++ rest) = some (body, rest) := by
    intro body member rest
    rw [writeMsg_eq (short body member)]
    exact readFrame_frame (short body member) rest
  have read := Framing.readAll_written readFrame_consumes rfl reads (Nat.lt_succ_self _)
  rw [readFrames, read, List.map_id']

/-- Whatever the seed and the prices, the replay reads the file back message by message and passes
every message on; they are lawful, and leave open the orders that the generator had in the end. -/
theorem file_lawful (seed : UInt64) (price : Nat → UInt32) (nMsgs : UInt64) :
    ∃ feed ledger, Replay.feedThread (Replay.symbolsOf []) (file seed price nMsgs) = feed ∧
      Replay.parsed (file seed price nMsgs) = feed ∧ feed.length = nMsgs.toNat ∧
      Leaves feed ledger ∧ UniqueRefs feed ∧
      (∃ k, (feed.flatMap introduced).map UInt64.toNat = List.range' 1 k) ∧
      ∀ ref left, left ≠ 0 → (ledger.left ref = left ↔
        ∃ l ∈ ((start seed).bodies price 0 nMsgs.toNat).1.live,
          l.ref.toNat = ref ∧ l.shares.toNat = left) := by
  have few := nMsgs.toNat_lt
  rcases bodies_lawful price (carries_start seed) 0 nMsgs.toNat
    (show 1 + nMsgs.toNat ≤ 2 ^ 64 by omega) with
    ⟨feed, ledger, short, parsed, length, about, posted, refs, carries⟩
  have read : Replay.parsed (file seed price nMsgs) = feed := by
    rw [Replay.parsed, file, readFrames_written short, parsed]
  refine ⟨feed, ledger, ?_, read, length, posted, Leaves.uniqueRefs posted, refs, ?_⟩
  · rw [Replay.feedThread, read, List.filter_eq_self]
    intro m member
    rcases about m member with ⟨symbol, inBook⟩
    have asked : stock ∈ Replay.symbolsOf [] := by decide
    simp only [Replay.passes, decide_eq_true_eq]
    rintro ⟨isAdd | isAction, missing⟩
    · exact missing (symbol isAdd ▸ asked)
    · exact inBook isAction
  · rcases carries.listed with ⟨held, books, lists⟩
    intro ref left nonzero
    constructor
    · intro same
      rcases books.owned ref (same ▸ nonzero) with ⟨key, left', holds⟩
      rcases (lists.2 key _).mp holds with ⟨shares, listed, account⟩
      cases account
      exact ⟨_, listed, rfl, (books.balance _ _ _ holds).2.1.symm.trans same⟩
    · rintro ⟨l, listed, rfl, rfl⟩
      have holds := (lists.2 l.ref _).mpr ⟨l.shares, listed, rfl⟩
      exact (books.balance _ _ _ holds).2.1

end ItchGen

end Matchbook
