import Mathlib.Data.List.Forall2
import Matchbook.Feed.Follower
import Matchbook.Feed.Shadow

namespace Matchbook

open Transitions

/-! # The rebuilt book

Every message of the publisher makes one change to the displayed book, and the consumer
makes the same change to its own: an order comes in at the back of its queue, gets smaller
where it is, or goes. -/

theorem forall₂_place {R : α → β → Prop} {front back : List α} {a : α} {queue : List β}
    (matched : List.Forall₂ R (front ++ a :: back) queue) :
    ∃ front' b back', queue = front' ++ b :: back' ∧ List.Forall₂ R front front' ∧ R a b ∧
      List.Forall₂ R back back' := by
  induction front generalizing queue with
  | nil =>
      cases matched with
      | cons here behind => exact ⟨[], _, _, rfl, .nil, here, behind⟩
  | cons first front induction =>
      cases matched with
      | cons here behind =>
          rcases induction behind with ⟨front', b, back', rfl, before, now, after⟩
          exact ⟨_ :: front', b, back', rfl, .cons here before, now, after⟩

theorem forall₂_imp_of_mem {R S : α → β → Prop} {queue : List α} {queue' : List β}
    (matched : List.Forall₂ R queue queue') (weaker : ∀ a ∈ queue, ∀ b, R a b → S a b) :
    List.Forall₂ S queue queue' := by
  induction matched with
  | nil => exact .nil
  | cons here behind induction =>
      exact .cons (weaker _ List.mem_cons_self _ here)
        (induction fun a member => weaker a (List.mem_cons_of_mem _ member))

namespace Itch

structure Copied (sink : Sink) (b : BookBuilder) (o o' : RO) : Prop where
  known : b.refmap (UInt64.ofNat (sink.refAt o.id).ref) = some o'.id
  qty : o'.qty = o.qty

structure Copies (sink : Sink) (m : Market) (b : BookBuilder) (e : MatchingEngine Tape)
    (copy : Market) : Prop where
  holds : e.Holds copy
  plain : copy.Plain
  levels : ∀ side px, List.Forall₂ (Copied sink b) (m.levels side px) (copy.levels side px)
  band : copy.min = m.min ∧ copy.max = m.max
  halted : copy.halted = m.halted

structure Rebuilds (sink : Sink) (m : Market) (b : BookBuilder) (e : MatchingEngine Tape)
    (copy : Market) : Prop extends Copies sink m b e copy where
  tells : ∃ earlier screen, sink.Tells earlier screen ∧ m.OnScreen screen

def Silent (e e' : MatchingEngine Tape) : Prop := ∀ t, .trade t ∈ e'.h → .trade t ∈ e.h

theorem Silent.trans {e e' e'' : MatchingEngine Tape} (first : Silent e e')
    (second : Silent e' e'') : Silent e e'' := fun t traded => first t (second t traded)

theorem silent_of_eq {e e' : MatchingEngine Tape} (same : e'.h = e.h) : Silent e e' :=
  fun _ traded => same ▸ traded

theorem silent_of_told {e e' : MatchingEngine Tape} {events : List Event}
    (told : e'.h = Handler.onAll e.h events) (untraded : ∀ t, .trade t ∉ events) : Silent e e' := by
  intro t traded
  rw [told, Handler.onAll_tape] at traded
  exact (List.mem_append.mp traded).resolve_right (untraded t)

section copies

variable {sink sink' : Sink} {m m' : Market} {b b' : BookBuilder} {e e' : MatchingEngine Tape}
  {copy copy' : Market} {side : Side} {px : Price} {front back : List RO} {o other : RO}
  {stock : Stock} {message : Publication} {ref seq : Nat}

theorem ofNat_inj {ref ref' : Nat} (small : ref < 2 ^ 64) (small' : ref' < 2 ^ 64)
    (same : UInt64.ofNat ref = UInt64.ofNat ref') : ref = ref' := by
  have numbers := congrArg UInt64.toNat same
  rwa [UInt64.toNat_ofNat_of_lt' small, UInt64.toNat_ofNat_of_lt' small'] at numbers

theorem Copied.keep {o' : RO} (copied : Copied sink b o o')
    (refs : sink'.refAt o.id = sink.refAt o.id)
    (known : b'.refmap (UInt64.ofNat (sink.refAt o.id).ref) =
      b.refmap (UInt64.ofNat (sink.refAt o.id).ref)) : Copied sink' b' o o' :=
  ⟨by rw [refs, known, copied.known], copied.qty⟩

section copies

variable (copies : Copies sink m b e copy)
include copies

theorem Copies.place (place : m.levels side px = front ++ o :: back) :
    ∃ front' o' back', copy.levels side px = front' ++ o' :: back' ∧
      List.Forall₂ (Copied sink b) front front' ∧ Copied sink b o o' ∧
      List.Forall₂ (Copied sink b) back back' := by
  have matched := copies.levels side px
  rw [place] at matched
  exact forall₂_place matched

theorem Copies.occupied_iff : copy.levels side px ≠ [] ↔ m.levels side px ≠ [] := by
  have matched := copies.levels side px
  rw [not_iff_not]
  constructor
  · intro empty
    rwa [empty, List.forall₂_nil_right_iff] at matched
  · intro empty
    rwa [empty, List.forall₂_nil_left_iff] at matched

theorem Copies.wouldCross_iff {price : Price} :
    copy.WouldCross side price ↔ m.WouldCross side price := by
  simp only [Market.WouldCross, copies.occupied_iff]

theorem Copies.inBand_iff {price : Price} : copy.inBand price ↔ m.inBand price := by
  rw [Market.inBand, Market.inBand, copies.band.1, copies.band.2]

/-- A change of one queue on both sides. -/
theorem Copies.setLevel {level queue : List RO}
    (matched : List.Forall₂ (Copied sink' b') level queue)
    (others : ∀ s p, ¬ (s = side ∧ p = px) → ∀ other ∈ m.levels s p,
      sink'.refAt other.id = sink.refAt other.id ∧
        b'.refmap (UInt64.ofNat (sink.refAt other.id).ref) =
          b.refmap (UInt64.ofNat (sink.refAt other.id).ref)) (s : Side) (p : Price) :
    List.Forall₂ (Copied sink' b') ((m.setLevel side px level).levels s p)
      ((copy.setLevel side px queue).levels s p) := by
  rw [Market.setLevel_levels, Market.setLevel_levels]
  split
  case isTrue => exact matched
  case isFalse elsewhere =>
    apply forall₂_imp_of_mem (copies.levels s p)
    intro other member o' copied
    rcases others s p elsewhere other member with ⟨refs, known⟩
    exact copied.keep refs known

/-- The others keep their places when one entry of a queue is replaced by `left`. -/
theorem Copies.replace (left left' : Option RO) {front' back' : List RO}
    (valid : m.Valid) (place : m.levels side px = front ++ o :: back)
    (before : List.Forall₂ (Copied sink b) front front')
    (after : List.Forall₂ (Copied sink b) back back')
    (here : List.Forall₂ (Copied sink' b') left.toList left'.toList)
    (refs : ∀ id, id ≠ o.id → sink'.refAt id = sink.refAt id)
    (known : ∀ s p, ∀ other ∈ m.levels s p, other.id ≠ o.id →
      b'.refmap (UInt64.ofNat (sink.refAt other.id).ref) =
        b.refmap (UInt64.ofNat (sink.refAt other.id).ref)) (s : Side) (p : Price) :
    List.Forall₂ (Copied sink' b')
      ((m.setLevel side px (front ++ left.toList ++ back)).levels s p)
      ((copy.setLevel side px (front' ++ left'.toList ++ back')).levels s p) := by
  have apart := valid.apart_of_place place
  have inFront (other : RO) (member : other ∈ front) : other ∈ m.levels side px := by
    simp [place, member]
  have inBack (other : RO) (member : other ∈ back) : other ∈ m.levels side px := by
    simp [place, member]
  apply copies.setLevel
  · apply List.rel_append (List.rel_append ?_ here)
    · apply forall₂_imp_of_mem after
      intro other member o' copied
      have differ := apart other (List.mem_append_right _ member)
      exact copied.keep (refs _ differ) (known side px other (inBack other member) differ)
    · apply forall₂_imp_of_mem before
      intro other member o' copied
      have differ := apart other (List.mem_append_left _ member)
      exact copied.keep (refs _ differ) (known side px other (inFront other member) differ)
  · intro s p elsewhere other member
    have differ : other.id ≠ o.id := by
      intro same
      have here : o ∈ m.levels side px := by simp [place]
      exact elsewhere (valid.place s p side px other member o here same)
    exact ⟨refs _ differ, known s p other member differ⟩

/-- An order comes in at the back under a reference that no other order has. -/
theorem Copies.enter (nonzero : o.qty ≠ 0) (small : o.qty < 2 ^ 32) (inside : m.inBand px)
    (fits : 0 ≤ px ∧ px < 2 ^ 32) (clear : m.halted = true ∨ ¬ m.WouldCross side px)
    (named : (sink'.refAt o.id).ref = ref)
    (kept : ∀ s p, ∀ other ∈ m.levels s p, sink'.refAt other.id = sink.refAt other.id ∧
      UInt64.ofNat (sink.refAt other.id).ref ≠ UInt64.ofNat ref) (seq : Nat) :
    ∃ b' e' copy', b.read e ((Publication.add seq ref side o.qty px).encoding stock).body =
        some (b', e') ∧ Silent e e' ∧
      Copies sink' (m.setLevel side px (m.levels side px ++ [o])) b' e' copy' := by
  have clear' : copy.halted = true ∨ ¬ copy.WouldCross side px := by
    rw [copies.halted, copies.wouldCross_iff]
    exact clear
  rcases copies.holds.adds copies.plain (copies.inBand_iff.mpr inside) nonzero clear' with
    ⟨e', called, holds', told⟩
  have issued : copy.nextId ≠ invalidOrderId := Nat.ne_of_gt copies.holds.valid.started
  let b' : BookBuilder := { b with refmap := b.refmap.insert (UInt64.ofNat ref) copy.nextId }
  have read : b.read e ((Publication.add seq ref side o.qty px).encoding stock).body =
      some (b', e') := by
    rw [BookBuilder.read_add small fits, called]
    exact congrArg (fun b => some (b, e')) (if_pos issued)
  have others (s : Side) (p : Price) (other : RO) (member : other ∈ m.levels s p) :
      sink'.refAt other.id = sink.refAt other.id ∧
        b'.refmap (UInt64.ofNat (sink.refAt other.id).ref) =
          b.refmap (UInt64.ofNat (sink.refAt other.id).ref) :=
    ⟨(kept s p other member).1, Function.update_of_ne (kept s p other member).2 _ _⟩
  have new : Copied sink' b' o (copy.adding side px o.qty) := by
    constructor
    · rw [named]
      exact Function.update_self ..
    · rfl
  refine ⟨b', e', copy.add side px o.qty, read, silent_of_told told (by simp), ?_⟩
  constructor
  case holds => exact holds'
  case plain => exact copies.plain.add
  case levels =>
      apply copies.setLevel
      · apply List.rel_append
        · apply forall₂_imp_of_mem (copies.levels side px)
          intro other member o' copied
          rcases others side px other member with ⟨refs, known⟩
          exact copied.keep refs known
        · exact .cons new .nil
      · exact fun s p _ => others s p
  case band => exact copies.band
  case halted => exact copies.halted

theorem Copies.act (state : UInt8) (halted : Bool)
    (action : state = if halted then 'H'.toUInt8 else 'T'.toUInt8) (seq : Nat) :
    ∃ e' copy', b.read e ((Publication.action seq state).encoding stock).body = some (b, e') ∧
      Silent e e' ∧ Copies sink { m with halted } b e' copy' := by
  have acted : ∃ e', b.read e ((Publication.action seq state).encoding stock).body = some (b, e') ∧
      e'.Holds { copy with halted } ∧ e'.h = e.h := by
    rw [BookBuilder.read_action, action]
    cases halted with
    | true =>
        rcases copies.holds.halts copies.plain with ⟨e', called, holds', told⟩
        exact ⟨e', by rw [if_pos rfl, if_pos rfl, called]; rfl, holds', told⟩
    | false =>
        rcases copies.holds.resumes copies.plain with ⟨e', called, holds', told⟩
        refine ⟨e', ?_, holds', told⟩
        rw [if_neg Bool.false_ne_true, if_neg (by decide), if_pos rfl, called]
        rfl
  rcases acted with ⟨e', read, holds', told⟩
  refine ⟨e', { copy with halted }, read, silent_of_eq told, ?_⟩
  constructor
  case holds => exact holds'
  case plain => exact ⟨copies.plain.shown, copies.plain.unparked⟩
  case levels => exact copies.levels
  case band => exact copies.band
  case halted => rfl

end copies

section tells

variable {earlier : List Publication} {screen : Screen} (tells : sink.Tells earlier screen)
  (onScreen : m.OnScreen screen)
include tells onScreen

theorem shown_of_tells (member : o ∈ m.levels side px) :
    (sink.refAt o.id).ref ≠ 0 ∧ (sink.refAt o.id).displayed = o.qty ∧
      (sink.refAt o.id).ref < sink.nextRef := by
  have seen := onScreen.shows member
  rcases tells.shown _ _ seen with ⟨live, displayed, -⟩
  exact ⟨live, displayed, tells.kept.issued _ _ _ (tells.held_some seen)⟩

theorem apart_of_tells {side' : Side} {px' : Price} (wide : sink.nextRef ≤ 2 ^ 64)
    (member : o ∈ m.levels side px) (member' : other ∈ m.levels side' px')
    (same : UInt64.ofNat (sink.refAt o.id).ref = UInt64.ofNat (sink.refAt other.id).ref) :
    o.id = other.id := by
  have small := Nat.lt_of_lt_of_le (shown_of_tells tells onScreen member).2.2 wide
  have small' := Nat.lt_of_lt_of_le (shown_of_tells tells onScreen member').2.2 wide
  have held := tells.held_some (onScreen.shows member)
  have held' := tells.held_some (onScreen.shows member')
  rw [ofNat_inj small small' same] at held
  exact tells.kept.apart _ _ _ _ _ held held'

end tells

section rebuilt

variable (rebuilds : Rebuilds sink m b e copy)
include rebuilds

theorem Rebuilds.shown (member : o ∈ m.levels side px) :
    (sink.refAt o.id).ref ≠ 0 ∧ (sink.refAt o.id).displayed = o.qty ∧
      (sink.refAt o.id).ref < sink.nextRef := by
  rcases rebuilds.tells with ⟨earlier, screen, tells, onScreen⟩
  exact shown_of_tells tells onScreen member

theorem Rebuilds.apart {side' : Side} {px' : Price} (wide : sink.nextRef ≤ 2 ^ 64)
    (member : o ∈ m.levels side px) (member' : other ∈ m.levels side' px')
    (same : UInt64.ofNat (sink.refAt o.id).ref = UInt64.ofNat (sink.refAt other.id).ref) :
    o.id = other.id := by
  rcases rebuilds.tells with ⟨earlier, screen, tells, onScreen⟩
  exact apart_of_tells tells onScreen wide member member' same

/-! ## An order comes in -/

theorem Rebuilds.add (fresh : ¬ m.IsOpen o.id) (nonzero : o.qty ≠ 0) (small : o.qty < 2 ^ 32)
    (inside : m.inBand px) (fits : 0 ≤ px ∧ px < 2 ^ 32)
    (clear : m.halted = true ∨ ¬ m.WouldCross side px) (wide : sink.nextRef < 2 ^ 64) (seq : Nat) :
    ∃ b' e' copy', b.read e ((Publication.add seq sink.nextRef side o.qty px).encoding stock).body =
        some (b', e') ∧ Silent e e' ∧
      Rebuilds (sink.evRest o.id side px o.qty) (m.setLevel side px (m.levels side px ++ [o])) b' e'
        copy' := by
  have named : ((sink.evRest o.id side px o.qty).refAt o.id).ref = sink.nextRef := by
    rw [Sink.refAt_evRest, Function.update_self]
  have kept (s : Side) (p : Price) (other : RO) (member : other ∈ m.levels s p) :
      (sink.evRest o.id side px o.qty).refAt other.id = sink.refAt other.id ∧
        UInt64.ofNat (sink.refAt other.id).ref ≠ UInt64.ofNat sink.nextRef := by
    have differ : other.id ≠ o.id := fun same => fresh (same ▸ Market.isOpen_of_mem member)
    have older := (rebuilds.shown member).2.2
    constructor
    · rw [Sink.refAt_evRest, Function.update_of_ne differ]
    · intro same
      exact Nat.ne_of_lt older (ofNat_inj (Nat.lt_trans older wide) wide same)
  rcases rebuilds.enter nonzero small inside fits clear named kept seq with
    ⟨b', e', copy', read, silent, copies'⟩
  rcases rebuilds.tells with ⟨earlier, screen, tells, onScreen⟩
  have unseen := onScreen.hides fun rests => fresh rests.isOpen
  exact ⟨b', e', copy', read, silent, copies', earlier, _, tells.add unseen nonzero side px,
    onScreen.append fresh⟩

/-! ## An order gets smaller, or goes -/

/-- Shares are taken off an order, which is gone when none are left. -/
theorem Rebuilds.draw (valid : m.Valid) (place : m.levels side px = front ++ o :: back)
    {part : Qty} (within : part ≤ o.qty) (small : part < 2 ^ 32) {left : Option RO}
    (sameId : ∀ o' ∈ left, o'.id = o.id)
    (amount : left.map RO.qty = if o.qty - part = 0 then none else some (o.qty - part))
    (refs : sink'.refAt = sink.refAt) (nextRef : sink'.nextRef = sink.nextRef)
    (out : sink'.out = sink.out ++ [message])
    (posting : message.posting = some (.drawn (sink.refAt o.id).ref part.toNat)) :
    ∃ e' copy', b.read e (message.encoding stock).body = some (b, e') ∧ Silent e e' ∧
      Rebuilds (sink'.setRef o.id ((sink.refAt o.id).less part))
        (m.setLevel side px (front ++ left.toList ++ back)) b e' copy' := by
  have member : o ∈ m.levels side px := by simp [place]
  rcases rebuilds.shown member with ⟨live, displayed, -⟩
  rcases rebuilds.place place with ⟨front', o', back', place', before, copied, after⟩
  have refs' : (sink'.setRef o.id ((sink.refAt o.id).less part)).refAt =
      Function.update sink.refAt o.id ((sink.refAt o.id).less part) := by
    rw [Sink.refAt_setRef (by rwa [refs]), refs]
  have kept (id : OrderId) (differ : id ≠ o.id) :
      (sink'.setRef o.id ((sink.refAt o.id).less part)).refAt id = sink.refAt id := by
    rw [refs', Function.update_of_ne differ]
  have tells : ∃ earlier screen,
      (sink'.setRef o.id ((sink.refAt o.id).less part)).Tells earlier screen ∧
      (m.setLevel side px (front ++ left.toList ++ back)).OnScreen screen := by
    rcases rebuilds.tells with ⟨earlier, screen, tells, onScreen⟩
    have drawn := tells.draw (onScreen.shows member) within refs nextRef out posting
    rw [← amount] at drawn
    refine ⟨earlier, _, drawn, valid.onScreen_replace onScreen place left sameId ?_⟩
    intro other
    simp only [List.mem_append, Option.mem_toList, Option.mem_def]
    tauto
  have call : b.read e (message.encoding stock).body = _ :=
    BookBuilder.read_drawn posting small copied.known
  by_cases all : o.qty - part = 0
  · rw [if_pos all, Option.map_eq_none_iff] at amount
    subst amount
    have whole : o'.qty ≤ part := by
      rw [copied.qty]
      have less := UInt64.toNat_sub_of_le _ _ within
      rw [all] at less
      rw [UInt64.le_iff_toNat_le]
      have zero : (0 : Qty).toNat = 0 := rfl
      omega
    rcases rebuilds.holds.erases rebuilds.plain place' whole with ⟨e', called, holds', told⟩
    refine ⟨e', copy.setLevel side px (front' ++ back'), ?_, silent_of_eq told, ?_, tells⟩
    · rw [call, called]
      rfl
    · constructor
      case holds => exact holds'
      case plain => exact rebuilds.plain.remove place'
      case levels =>
          have matched := rebuilds.replace none none valid place before after .nil kept
            fun _ _ _ _ _ => rfl
          simpa using matched
      case band => exact rebuilds.band
      case halted => exact rebuilds.halted
  · rw [if_neg all] at amount
    rcases Option.map_eq_some_iff.mp amount with ⟨small', rfl, qty⟩
    have less : part < o'.qty := by
      rw [copied.qty]
      rcases UInt64.lt_or_eq_of_le within with less | same
      · exact less
      · exact absurd (by rw [same, UInt64.sub_self]) all
    rcases rebuilds.holds.shrinks rebuilds.plain place' less with ⟨e', called, holds', told⟩
    refine ⟨e', copy.setLevel side px (front' ++ { o' with qty := o'.qty - part } :: back'), ?_,
      silent_of_eq told, ?_, tells⟩
    · rw [call, called]
      rfl
    · have same : (sink.refAt o.id).less part =
          { (sink.refAt o.id) with displayed := o.qty - part } := by
        rw [Ref.less, displayed]
        simp only [if_neg all]
      have here : Copied (sink'.setRef o.id ((sink.refAt o.id).less part)) b small'
          { o' with qty := o'.qty - part } := by
        constructor
        · rw [sameId small' rfl, refs', Function.update_self, same]
          exact copied.known
        · rw [qty, ← copied.qty]
      constructor
      case holds => exact holds'
      case plain =>
          have member' : o' ∈ copy.levels side px := by simp [place']
          exact rebuilds.plain.replace place' (rebuilds.plain.shown side px o' member')
      case levels =>
          have matched := rebuilds.replace (some small') (some { o' with qty := o'.qty - part })
            valid place before after (.cons here .nil) kept fun _ _ _ _ _ => rfl
          simpa using matched
      case band => exact rebuilds.band
      case halted => exact rebuilds.halted

/-- An order is taken out of its queue. -/
theorem Rebuilds.delete (valid : m.Valid) (place : m.levels side px = front ++ o :: back)
    (wide : sink.nextRef ≤ 2 ^ 64) (refs : sink'.refAt = sink.refAt)
    (nextRef : sink'.nextRef = sink.nextRef) (out : sink'.out = sink.out ++ [message])
    (posting : message.posting = some (.closed (sink.refAt o.id).ref)) :
    ∃ b' e' copy', b.read e (message.encoding stock).body = some (b', e') ∧ Silent e e' ∧
      Rebuilds (sink'.setRef o.id {}) (m.setLevel side px (front ++ back)) b' e' copy' := by
  have member : o ∈ m.levels side px := by simp [place]
  rcases rebuilds.shown member with ⟨live, displayed, -⟩
  rcases rebuilds.place place with ⟨front', o', back', place', before, copied, after⟩
  rcases rebuilds.holds.withdraws rebuilds.plain place' with ⟨e', called, holds', told⟩
  let b' : BookBuilder := { b with refmap := b.refmap.erase (UInt64.ofNat (sink.refAt o.id).ref) }
  have kept (id : OrderId) (differ : id ≠ o.id) :
      (sink'.setRef o.id {}).refAt id = sink.refAt id := by
    rw [Sink.refAt_setRef (by rwa [refs]), refs, Function.update_of_ne differ]
  have known (s : Side) (p : Price) (other : RO) (present : other ∈ m.levels s p)
      (differ : other.id ≠ o.id) : b'.refmap (UInt64.ofNat (sink.refAt other.id).ref) =
        b.refmap (UInt64.ofNat (sink.refAt other.id).ref) :=
    Function.update_of_ne (fun same => differ (rebuilds.apart wide present member same)) _ _
  refine ⟨b', e', copy.setLevel side px (front' ++ back'), ?_,
    silent_of_told told (by simp), ?_⟩
  · rw [BookBuilder.read_closed posting copied.known, called]
    rfl
  constructor
  case tells =>
      rcases rebuilds.tells with ⟨earlier, screen, tells, onScreen⟩
      have deleted := tells.delete (onScreen.shows member) refs nextRef out posting
      exact ⟨earlier, _, deleted, valid.onScreen_remove onScreen place⟩
  constructor
  case holds => exact holds'
  case plain => exact rebuilds.plain.remove place'
  case levels =>
      have matched := rebuilds.replace none none valid place before after .nil kept known
      simpa using matched
  case band => exact rebuilds.band
  case halted => exact rebuilds.halted

/-! ## Nothing displayed changes -/

theorem Rebuilds.congr (levels : m'.levels = m.levels) (min : m'.min = m.min) (max : m'.max = m.max)
    (halted : m'.halted = m.halted) : Rebuilds sink m' b e copy where
  tells := by
    rcases rebuilds.tells with ⟨earlier, screen, tells, onScreen⟩
    exact ⟨earlier, screen, tells, onScreen.of_levels levels⟩
  holds := rebuilds.holds
  plain := rebuilds.plain
  levels := by
    rw [levels]
    exact rebuilds.levels
  band := by
    rw [min, max]
    exact rebuilds.band
  halted := rebuilds.halted.trans halted.symm

theorem Rebuilds.setSink (refs : sink'.refAt = sink.refAt)
    (tells : ∀ earlier screen, sink.Tells earlier screen →
      ∃ earlier', sink'.Tells earlier' screen) : Rebuilds sink' m b e copy where
  tells := by
    rcases rebuilds.tells with ⟨earlier, screen, before, onScreen⟩
    rcases tells earlier screen before with ⟨earlier', after⟩
    exact ⟨earlier', screen, after, onScreen⟩
  holds := rebuilds.holds
  plain := rebuilds.plain
  levels side px := (rebuilds.levels side px).imp fun o o' copied =>
    ⟨by rw [refs]; exact copied.known, copied.qty⟩
  band := rebuilds.band
  halted := rebuilds.halted

theorem Rebuilds.hide (valid : m.Valid) (place : m.levels side px = front ++ o :: back)
    {o' : RO} (sameId : o'.id = o.id) (same : o'.qty = o.qty) :
    Rebuilds sink (m.setLevel side px (front ++ o' :: back)) b e copy := by
  rcases rebuilds.place place with ⟨front', entry, back', place', before, copied, after⟩
  have here : Copied sink b o' entry := by
    constructor
    · rw [sameId]
      exact copied.known
    · rw [same]
      exact copied.qty
  have member : o ∈ m.levels side px := by simp [place]
  constructor
  case tells =>
      rcases rebuilds.tells with ⟨earlier, screen, tells, onScreen⟩
      have replaced : (m.setLevel side px (front ++ o' :: back)).OnScreen
          (Function.update screen o.id ((some o').map RO.qty)) := by
        apply valid.onScreen_replace onScreen place (some o') (by simpa using sameId)
        intro other
        simp only [List.mem_append, List.mem_cons, Option.mem_some_iff]
        tauto
      rw [Option.map_some, same, ← onScreen.shows member, Function.update_eq_self] at replaced
      exact ⟨earlier, screen, tells, replaced⟩
  constructor
  case holds => exact rebuilds.holds
  case plain => exact rebuilds.plain
  case levels =>
      intro s p
      have matched := rebuilds.replace (some o') (some entry) valid place before after
        (.cons here .nil) (fun _ _ => rfl) (fun _ _ _ _ _ => rfl) s p
      rw [Option.toList_some, Option.toList_some, List.append_assoc, List.append_assoc,
        List.singleton_append, List.singleton_append, ← place', Market.setLevel_eq_self] at matched
      exact matched
  case band => exact rebuilds.band
  case halted => exact rebuilds.halted

end rebuilt

end copies

end Itch

end Matchbook
