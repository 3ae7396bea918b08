import Matchbook.Engine.Handlers
import Matchbook.Engine.OpenOrders
import Matchbook.Feed.Publisher
import Matchbook.Foundation.NumberedAccounts
import Matchbook.Market.Screen

namespace Matchbook

open NumberedAccounts

/-! # The shadow of the displayed book

What the publisher remembers of every order is what the order displays, and what it
publishes about a reference adds up. -/

namespace Itch

def Publication.posting : Publication → Option Posting
  | .add _ ref _ displayed _ => some (.opened ref displayed.toNat)
  | .execute _ ref qty _ => some (.drawn ref qty.toNat)
  | .executePx _ ref part _ _ => some (.drawn ref part.toNat)
  | .cancel _ ref qty => some (.drawn ref qty.toNat)
  | .delete _ ref => some (.closed ref)
  | .cross .. => none
  | .action .. => none

/-- The accounts of the references. -/
def postings (published : List Publication) : List Posting :=
  published.filterMap Publication.posting

theorem postings_concat (earlier out : List Publication) (message : Publication) :
    postings (earlier ++ (out ++ [message])) =
      postings (earlier ++ out) ++ message.posting.toList := by
  rw [← List.append_assoc, postings, List.filterMap_append, postings]
  cases posting : message.posting <;> simp [posting]

namespace Sink

variable {sink sink' : Sink} {earlier : List Publication} {screen screen' : Screen} {id : OrderId}
  {r : Ref} {message : Publication}

/-! ## References -/

@[simp] theorem refAt_publish (message : Nat → Publication) :
    (sink.publish message).refAt = sink.refAt := rfl

@[simp] theorem refAt_print (message : Nat → Nat → Publication) :
    (sink.print message).refAt = sink.refAt := rfl

theorem refAt_setRef (displayed : (sink.refAt id).ref ≠ 0) (r : Ref) :
    (sink.setRef id r).refAt = Function.update sink.refAt id r := by
  funext other
  have inside : id < sink.refs.size := by
    by_contra beyond
    exact displayed (by simp [refAt, Array.getD, beyond])
  by_cases same : other = id
  · subst same
    simp [refAt, setRef, inside]
  · rw [Function.update_of_ne same]
    simp [refAt, setRef, Ne.symm same]

theorem refAt_evRest (side : Side) (price : Price) (displayed : Qty) :
    (sink.evRest id side price displayed).refAt =
      Function.update sink.refAt id ⟨sink.nextRef, displayed⟩ := by
  funext other
  by_cases same : other = id
  · subst same
    have inside : other < sink.refs.size + (other + 1 - sink.refs.size) := by lia
    simp [refAt, evRest, publish, inside]
  · rw [Function.update_of_ne same]
    simp only [refAt, evRest, publish, Array.getD_eq_getD_getElem?,
      Array.getElem?_setIfInBounds_ne (Ne.symm same)]
    by_cases inside : other < sink.refs.size
    · rw [Array.getElem?_append_left inside]
    · rw [Array.getElem?_append_right (Nat.le_of_not_lt inside),
        Array.getElem?_eq_none (Nat.le_of_not_lt inside), Array.getElem?_replicate]
      split <;> rfl

/-! ## What the publications tell -/

def held (sink : Sink) (id : OrderId) : Option (Nat × Nat) :=
  (sink.slot id).map fun r => (r.ref, r.displayed.toNat)

structure Tells (sink : Sink) (earlier : List Publication) (screen : Screen) : Prop where
  hidden : ∀ id, screen id = none → sink.refAt id = {}
  shown : ∀ id q, screen id = some q →
    (sink.refAt id).ref ≠ 0 ∧ (sink.refAt id).displayed = q ∧ q ≠ 0
  kept : Kept (postings (earlier ++ sink.out)) sink.nextRef sink.held
  started : 0 < sink.nextRef

section telling

variable (tells : sink.Tells earlier screen)
include tells

theorem Tells.slot_none (unseen : screen id = none) : sink.slot id = none := by
  rw [slot, tells.hidden id unseen]
  rfl

theorem Tells.slot_some {q : Qty} (seen : screen id = some q) :
    sink.slot id = some (sink.refAt id) := if_pos (tells.shown id q seen).1

theorem Tells.held_some {q : Qty} (seen : screen id = some q) :
    sink.held id = some ((sink.refAt id).ref, q.toNat) := by
  rw [held, tells.slot_some seen, Option.map_some, (tells.shown id q seen).2.1]

/-- One reference changes, and the screen with it. -/
theorem Tells.update {new : Option Qty} (refs : sink'.refAt = Function.update sink.refAt id r)
    (hidden : new = none → r = {})
    (shown : ∀ q, new = some q → r.ref ≠ 0 ∧ r.displayed = q ∧ q ≠ 0)
    (kept : Kept (postings (earlier ++ sink'.out)) sink'.nextRef
      (Function.update sink.held id (new.map fun q => (r.ref, q.toNat))))
    (started : 0 < sink'.nextRef) : sink'.Tells earlier (Function.update screen id new) := by
  have holds : sink'.held = Function.update sink.held id (new.map fun q => (r.ref, q.toNat)) := by
    funext other
    by_cases same : other = id
    · subst same
      rw [Function.update_self, held, slot, refs, Function.update_self]
      cases new with
      | none => rw [hidden rfl]; rfl
      | some q =>
          rcases shown q rfl with ⟨live, displayed, -⟩
          rw [if_pos live, Option.map_some, Option.map_some, displayed]
    · rw [Function.update_of_ne same, held, held, slot, slot, refs, Function.update_of_ne same]
  constructor
  case hidden =>
      intro other unseen
      rw [refs]
      by_cases same : other = id
      · rw [same, Function.update_self] at unseen
        rw [same, Function.update_self]
        exact hidden unseen
      · rw [Function.update_of_ne same] at unseen
        rw [Function.update_of_ne same]
        exact tells.hidden other unseen
  case shown =>
      intro other q seen
      rw [refs]
      by_cases same : other = id
      · rw [same, Function.update_self] at seen
        rw [same, Function.update_self]
        exact shown q seen
      · rw [Function.update_of_ne same] at seen
        rw [Function.update_of_ne same]
        exact tells.shown other q seen
  case kept =>
      rw [holds]
      exact kept
  case started => exact started

theorem Tells.add (unseen : screen id = none) {displayed : Qty} (some : displayed ≠ 0)
    (side : Side) (price : Price) :
    (sink.evRest id side price displayed).Tells earlier
      (Function.update screen id (.some displayed)) := by
  have free : sink.held id = none := by rw [held, tells.slot_none unseen]; rfl
  apply tells.update (refAt_evRest side price displayed)
  · exact nofun
  · intro q same
    cases same
    exact ⟨Nat.ne_of_gt tells.started, rfl, some⟩
  · have opened := tells.kept.opens free displayed.toNat
    rw [evRest, publish, postings_concat]
    exact opened
  · exact Nat.succ_pos _

/-- A message that takes shares off a reference. -/
theorem Tells.draw {shown part : Qty} (seen : screen id = some shown) (within : part ≤ shown)
    (refs : sink'.refAt = sink.refAt) (nextRef : sink'.nextRef = sink.nextRef)
    (out : sink'.out = sink.out ++ [message])
    (posting : message.posting = some (.drawn (sink.refAt id).ref part.toNat)) :
    (sink'.setRef id ((sink.refAt id).less part)).Tells earlier
      (Function.update screen id (if shown - part = 0 then none else some (shown - part))) := by
  rcases tells.shown id shown seen with ⟨live, displayed, -⟩
  have left := UInt64.toNat_sub_of_le _ _ within
  have refs' : (sink'.setRef id ((sink.refAt id).less part)).refAt =
      Function.update sink.refAt id ((sink.refAt id).less part) := by
    rw [refAt_setRef (by rwa [refs]), refs]
  have zero : shown - part = 0 ↔ shown.toNat - part.toNat = 0 := by
    rw [← left, ← UInt64.toNat_inj]
    rfl
  apply tells.update refs'
  · intro gone
    split at gone
    · rename_i nothing
      simp only [Ref.less, displayed, nothing, if_true]
    · cases gone
  · intro q same
    split at same
    · cases same
    · rename_i something
      cases same
      simp [Ref.less, displayed, something, live]
  · have drawn := tells.kept.draws (tells.held_some seen) (UInt64.le_iff_toNat_le.mp within)
    have same : (if shown - part = 0 then none else some (shown - part)).map
        (fun q => (((sink.refAt id).less part).ref, q.toNat)) =
          if shown.toNat - part.toNat = 0 then none
          else some ((sink.refAt id).ref, shown.toNat - part.toNat) := by
      by_cases nothing : shown - part = 0
      · rw [if_pos nothing, if_pos (zero.mp nothing)]
        rfl
      · rw [if_neg nothing, if_neg (mt zero.mpr nothing), Option.map_some, left]
        simp only [Ref.less, displayed, nothing, if_false]
    have log : postings (earlier ++ (sink'.setRef id ((sink.refAt id).less part)).out) =
        postings (earlier ++ sink.out) ++ [.drawn (sink.refAt id).ref part.toNat] := by
      rw [setRef, out, postings_concat, posting]
      rfl
    rw [same, log]
    exact (show (sink'.setRef id _).nextRef = sink.nextRef from nextRef) ▸ drawn
  · exact (show (sink'.setRef id _).nextRef = sink.nextRef from nextRef) ▸ tells.started

/-- A delete. -/
theorem Tells.delete {shown : Qty} (seen : screen id = some shown)
    (refs : sink'.refAt = sink.refAt) (nextRef : sink'.nextRef = sink.nextRef)
    (out : sink'.out = sink.out ++ [message])
    (posting : message.posting = some (.closed (sink.refAt id).ref)) :
    (sink'.setRef id {}).Tells earlier (Function.update screen id none) := by
  rcases tells.shown id shown seen with ⟨live, -, -⟩
  have refs' : (sink'.setRef id {}).refAt = Function.update sink.refAt id {} := by
    rw [refAt_setRef (by rwa [refs]), refs]
  apply tells.update refs'
  · exact fun _ => rfl
  · exact nofun
  · have closed := tells.kept.closes (tells.held_some seen)
    have log : postings (earlier ++ (sink'.setRef id {}).out) =
        postings (earlier ++ sink.out) ++ [.closed (sink.refAt id).ref] := by
      rw [setRef, out, postings_concat, posting]
      rfl
    rw [log]
    exact (show (sink'.setRef id _).nextRef = sink.nextRef from nextRef) ▸ closed
  · exact (show (sink'.setRef id _).nextRef = sink.nextRef from nextRef) ▸ tells.started

theorem Tells.publish (message : Nat → Publication)
    (silent : (message sink.seq).posting = none) : (sink.publish message).Tells earlier screen where
  hidden := tells.hidden
  shown := tells.shown
  kept := by
    rw [Sink.publish, postings_concat, silent, Option.toList_none, List.append_nil]
    exact tells.kept
  started := tells.started

theorem Tells.flags (number : Nat) (cross saw : Bool) :
    ({ sink with matchNumber := number, inCross := cross, sawBookEvent := saw } : Sink).Tells
      earlier screen :=
  ⟨tells.hidden, tells.shown, tells.kept, tells.started⟩

end telling

/-! ## Events -/

section events

variable (tells : sink.Tells earlier screen)
include tells

theorem Tells.execCross (id : OrderId) (fill : Qty) (px : Price) :
    (sink.execCross id fill px).Tells earlier (screen.take id fill) := by
  cases seen : screen id with
  | none =>
      rw [Sink.execCross, tells.slot_none seen, Screen.take_none seen]
      exact tells
  | some shown =>
      have displayed := (tells.shown id shown seen).2.1
      have within : (if fill < shown then fill else shown) ≤ shown := by
        split
        · rename_i less
          exact UInt64.le_of_lt less
        · exact UInt64.le_refl shown
      rw [Sink.execCross, tells.slot_some seen, Screen.take, seen]
      simp only [displayed]
      generalize (if fill < shown then fill else shown) = part at within ⊢
      by_cases none : part = 0
      · have same : shown - part ≠ 0 := by
          rw [none, UInt64.sub_zero]
          exact (tells.shown id shown seen).2.2
        rw [if_pos none, if_neg same, none, UInt64.sub_zero, ← seen, Function.update_eq_self]
        exact tells
      · rw [if_neg none]
        exact tells.draw seen within rfl rfl rfl rfl

theorem Tells.evTrade {t : Trade} (proper : screen.Proper (!sink.inCross) (.trade t)) :
    (sink.evTrade t).Tells earlier (screen.after (.trade t)) := by
  rw [Sink.evTrade, Screen.after]
  split
  case isTrue cross => exact (tells.execCross _ _ _).execCross _ _ _
  case isFalse continuous =>
      rcases proper (by simpa using continuous) with ⟨unseen, shown, seen, within⟩
      have displayed := (tells.shown _ shown seen).2.1
      have part : (if t.qty < shown then t.qty else shown) = t.qty := by grind
      rw [Screen.take_none unseen, tells.slot_some seen, Screen.take, seen]
      simp only [displayed, part]
      exact tells.draw seen within rfl rfl rfl rfl

theorem Tells.evCancel (id : OrderId) :
    (sink.evCancel id).Tells earlier (Function.update screen id none) := by
  have same := tells.flags sink.matchNumber sink.inCross true
  cases seen : screen id with
  | none =>
      rw [Sink.evCancel, same.slot_none seen, ← seen, Function.update_eq_self]
      exact same
  | some shown =>
      rw [Sink.evCancel, same.slot_some seen]
      exact same.delete seen rfl rfl rfl rfl

theorem Tells.on {event : Event} (proper : screen.Proper (!sink.inCross) event) :
    (Handler.on sink event).Tells earlier (screen.after event) := by
  cases event with
  | accept => exact tells
  | reject => exact tells
  | trade t => exact tells.evTrade proper
  | cancel id => exact tells.evCancel id
  | rest id side price displayed => exact tells.add proper.1 proper.2 side price

omit tells in
theorem execCross_inCross (id : OrderId) (fill : Qty) (px : Price) :
    (sink.execCross id fill px).inCross = sink.inCross := by
  rw [Sink.execCross]
  cases sink.slot id with
  | none => rfl
  | some r =>
      dsimp only
      generalize (if fill < r.displayed then fill else r.displayed) = part
      split <;> rfl

omit tells in
@[simp] theorem on_inCross (event : Event) : (Handler.on sink event).inCross = sink.inCross := by
  cases event with
  | accept => rfl
  | reject => rfl
  | trade t =>
      show (sink.evTrade t).inCross = sink.inCross
      rw [Sink.evTrade]
      split
      · rw [execCross_inCross, execCross_inCross]
      · cases sink.slot t.maker <;> rfl
  | cancel id =>
      show (sink.evCancel id).inCross = sink.inCross
      rw [Sink.evCancel]
      split <;> rfl
  | rest => rfl

theorem Tells.onAll {events : List Event}
    (plays : Screen.Plays (!sink.inCross) screen events screen') :
    (Handler.onAll sink events).Tells earlier screen' ∧
      (Handler.onAll sink events).inCross = sink.inCross := by
  generalize continuous : (!sink.inCross) = mode at plays
  induction plays generalizing sink with
  | nil => exact ⟨tells, rfl⟩
  | @cons screen event events screen' proper later induction =>
      rw [← continuous] at proper
      have next := tells.on proper
      rcases induction next (by rw [on_inCross, continuous]) with ⟨final, cross⟩
      exact ⟨final, cross.trans (on_inCross event)⟩

end events

/-! ## Cancels are seen -/

theorem execCross_sawBookEvent (id : OrderId) (fill : Qty) (px : Price) :
    (sink.execCross id fill px).sawBookEvent = sink.sawBookEvent := by
  rw [execCross]
  cases sink.slot id with
  | none => rfl
  | some r =>
      dsimp only
      generalize (if fill < r.displayed then fill else r.displayed) = part
      split <;> rfl

theorem on_sawBookEvent (id : OrderId) {event : Event}
    (saw : sink.sawBookEvent = true ∨ event = .cancel id) :
    (Handler.on sink event).sawBookEvent = true := by
  cases event with
  | accept => exact saw.resolve_right Event.noConfusion
  | reject => exact saw.resolve_right Event.noConfusion
  | trade t =>
      have before := saw.resolve_right Event.noConfusion
      show (sink.evTrade t).sawBookEvent = true
      rw [evTrade]
      split
      · rw [execCross_sawBookEvent, execCross_sawBookEvent, before]
      · cases sink.slot t.maker <;> exact before
  | cancel id =>
      show (sink.evCancel id).sawBookEvent = true
      rw [evCancel]
      split <;> rfl
  | rest => rfl

theorem onAll_sawBookEvent (sink : Sink) {events : List Event}
    (saw : sink.sawBookEvent = true ∨ .cancel id ∈ events) :
    (Handler.onAll sink events).sawBookEvent = true := by
  induction events generalizing sink with
  | nil => exact saw.resolve_right List.not_mem_nil
  | cons event events induction =>
      apply induction
      rcases saw with before | member
      · exact .inl (on_sawBookEvent id (.inl before))
      · rcases List.mem_cons.mp member with rfl | later
        · exact .inl (on_sawBookEvent id (.inr rfl))
        · exact .inr later

/-! ## What is published stays -/

def Grows (Small : Nat → Prop) (out out' : List Publication) : Prop :=
  ∃ more, out' = out ++ more ∧ ∀ ref amount, .opened ref amount ∈ postings more → Small amount

section grows

variable {Small : Nat → Prop} {out out' out'' : List Publication}

theorem Grows.refl (out : List Publication) : Grows Small out out :=
  ⟨[], (List.append_nil out).symm, nofun⟩

theorem Grows.trans (first : Grows Small out out') (second : Grows Small out' out'') :
    Grows Small out out'' := by
  rcases first with ⟨more, rfl, small⟩
  rcases second with ⟨later, rfl, small'⟩
  refine ⟨more ++ later, List.append_assoc .., ?_⟩
  intro ref amount member
  rw [postings, List.filterMap_append] at member
  rcases List.mem_append.mp member with now | then'
  · exact small ref amount now
  · exact small' ref amount then'

theorem grows_concat
    (small : ∀ ref amount, message.posting = some (.opened ref amount) → Small amount) :
    Grows Small out (out ++ [message]) := by
  refine ⟨[message], rfl, ?_⟩
  intro ref amount member
  have told : message.posting = some (.opened ref amount) := by simpa [postings] using member
  exact small ref amount told

theorem grows_execCross (id : OrderId) (fill : Qty) (px : Price) :
    Grows Small sink.out (sink.execCross id fill px).out := by
  rw [execCross]
  cases sink.slot id with
  | none => exact .refl _
  | some r =>
      dsimp only
      generalize (if fill < r.displayed then fill else r.displayed) = part
      split
      · exact .refl _
      · exact grows_concat nofun

theorem grows_on {event : Event}
    (small : ∀ id side px displayed, event = .rest id side px displayed → Small displayed.toNat) :
    Grows Small sink.out (Handler.on sink event).out := by
  cases event with
  | accept => exact .refl _
  | reject => exact .refl _
  | trade t =>
      show Grows _ _ (sink.evTrade t).out
      rw [evTrade]
      split
      · exact (grows_execCross ..).trans (grows_execCross ..)
      · cases sink.slot t.maker with
        | none => exact .refl _
        | some r => exact grows_concat nofun
  | cancel id =>
      show Grows _ _ (sink.evCancel id).out
      rw [evCancel]
      split
      · exact .refl _
      · exact grows_concat nofun
  | rest id side price displayed =>
      apply grows_concat
      intro ref amount same
      cases same
      exact small id side price displayed rfl

theorem grows_onAll {events : List Event}
    (small : ∀ id side px displayed, .rest id side px displayed ∈ events → Small displayed.toNat) :
    Grows Small sink.out (Handler.onAll sink events).out := by
  induction events generalizing sink with
  | nil => exact .refl _
  | cons event events induction =>
      have first : Grows Small sink.out (Handler.on sink event).out := by
        apply grows_on
        rintro id side px displayed rfl
        exact small id side px displayed List.mem_cons_self
      apply first.trans
      apply induction
      exact fun id side px displayed member =>
        small id side px displayed (List.mem_cons_of_mem event member)

end grows

end Sink

end Itch

end Matchbook
