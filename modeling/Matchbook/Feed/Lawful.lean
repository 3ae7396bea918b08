import Matchbook.Feed.BookRoundTrip
import Matchbook.Feed.ExactShadow
import Matchbook.Foundation.NumberedLedger
import Matchbook.Market.Reports

namespace Matchbook

open NumberedAccounts Transitions

/-! # What is published is lawful, message by message

Every add is under a new reference, every execution and every partial cancel finds the shares that
it takes, and every delete finds an order. -/

/-! ## Fills are of something -/

section steps

variable {m m' : Market} {state next : Market × Phase} {events : List Event} {t : Trade}

theorem Step.trade_some (step : Step state events next) (valid : ValidState state)
    (traded : .trade t ∈ events) : t.qty ≠ 0 := by
  have hungry : state.2.Hungry := by
    cases step with
    | fill | cross => trivial
    | _ => simp at traded
  have none {events : List Event} (rests : OnlyRests events) (member : .trade t ∈ events) :
      False := by
    rcases rests _ member with ⟨_, _, _, _, same⟩
    cases same
  cases step.reports valid hungry with
  | nothing rests => exact (none rests traded).elim
  | cancel => simp at traded
  | trade rests apart some =>
      rcases List.mem_cons.mp traded with same | later
      · cases same
        intro zero
        rw [zero] at some
        exact absurd some (Nat.lt_irrefl 0)
      · exact (none rests later).elim

theorem Step.run_trade_some (run : Run Step state events next) (valid : ValidState state)
    (traded : .trade t ∈ events) : t.qty ≠ 0 := by
  induction run with
  | refl => cases traded
  | snoc run last induction =>
      rcases List.mem_append.mp traded with before | now
      · exact induction before
      · exact Step.trade_some last (Run.valid run valid) now

theorem Market.Performs.trade_some {op : Op} {ret : Ret} (performs : m.Performs op events m' ret)
    (valid : m.Valid) (traded : .trade t ∈ events) : t.qty ≠ 0 := by
  cases performs with
  | intro start steps settled answers =>
      rcases List.mem_append.mp traded with first | later
      · exact absurd first start.not_trade
      · exact Step.run_trade_some steps (start.valid valid) later

end steps

namespace Itch

/-! ## Messages -/

def Message.postings (m : Message) : List Posting :=
  match m.type with
  | .add => [.opened m.ref.toNat m.qty.toNat]
  | .execute | .cancel => [.drawn m.ref.toNat m.qty.toNat]
  | .delete => [.closed m.ref.toNat]
  | .replace => [.closed m.ref.toNat, .opened m.newRef.toNat m.qty.toNat]
  | .action | .other => []

/-- The messages are lawful, one after another, and that is left open when they are through. -/
def Leaves (feed : List Message) (ledger : Ledger) : Prop :=
  Ledger.fresh.postAll (feed.flatMap Message.postings) = some ledger

theorem postings_heard (stock : Stock) {published : List Publication}
    (fits : ∀ posting ∈ postings published, posting.number < 2 ^ 64 ∧ posting.amount < 2 ^ 32) :
    ((bodies stock published).filterMap fun body => parse body {}).flatMap Message.postings =
      postings published := by
  induction published with
  | nil => rfl
  | cons message published induction =>
      have shares {q : Qty} (small : q.toNat < 2 ^ 32) : q.toUInt32.toUInt64 = q :=
        BookBuilder.toUInt64_toUInt32 (UInt64.lt_iff_toNat_lt.mpr small)
      have now : ∀ posting, message.posting = some posting →
          posting.number < 2 ^ 64 ∧ posting.amount < 2 ^ 32 :=
        fun posting told => fits posting
          (List.mem_filterMap.mpr ⟨message, List.mem_cons_self, told⟩)
      have first : ((message.encoding stock).parsed {}).toList.flatMap Message.postings =
          message.posting.toList := by
        cases message with
        | action | cross => rfl
        | delete seq ref =>
            have number := (now _ rfl).1
            simpa [Publication.encoding, Encoding.parsed, Message.postings, Publication.posting,
              Posting.number] using number
        | _ =>
            rcases now _ rfl with ⟨number, amount⟩
            simpa [Publication.encoding, Encoding.parsed, Message.postings, Publication.posting,
              Posting.number, shares amount] using number
      have rest := induction fun posting member => fits posting <| by
        rw [postings, List.filterMap_cons]
        split
        · exact member
        · exact List.mem_cons_of_mem _ member
      rw [bodies, List.map_cons, List.filterMap_cons, (Encoding.parsesBack _ _).whole]
      rw [postings, List.filterMap_cons]
      cases heard : (message.encoding stock).parsed {} <;> cases told : message.posting <;>
        simp_all [bodies, postings]

theorem Leaves.uniqueRefs {feed : List Message} {ledger : Ledger} (leaves : Leaves feed ledger) :
    UniqueRefs feed := by
  have ascend := (Ledger.numbers_ascend leaves).1
  have same : numbers (feed.flatMap Message.postings) =
      (feed.flatMap introduced).map UInt64.toNat := by
    rw [numbers, List.filterMap_flatMap, List.map_flatMap]
    congr 1
    funext m
    rw [Message.postings, introduced]
    cases m.type <;> rfl
  rw [same] at ascend
  exact List.Nodup.of_map _ (ascend.imp Nat.ne_of_lt)

/-! ## The sink -/

namespace Sink

variable {sink sink' sink'' : Sink} {earlier : List Publication} {screen screen' : Screen}
  {id : OrderId} {r : Ref} {message : Publication}

def Posts (sink sink' : Sink) : Prop :=
  ∀ ledger : Ledger, ledger.Books sink.nextRef sink.held → ∃ more ledger',
    sink'.out = sink.out ++ more ∧ ledger.postAll (postings more) = some ledger' ∧
      ledger'.Books sink'.nextRef sink'.held

theorem Posts.refl (sink : Sink) : Posts sink sink := fun ledger books =>
  ⟨[], ledger, (List.append_nil _).symm, rfl, books⟩

theorem Posts.trans (first : Posts sink sink') (second : Posts sink' sink'') :
    Posts sink sink'' := by
  intro ledger books
  rcases first ledger books with ⟨more, ledger', out, posted, books'⟩
  rcases second ledger' books' with ⟨later, ledger'', out', posted', books''⟩
  refine ⟨more ++ later, ledger'', ?_, ?_, books''⟩
  · rw [out', out, List.append_assoc]
  · rw [postings, List.filterMap_append, Ledger.postAll_append, ← postings, posted]
    exact posted'

theorem posts_silent (out : sink'.out = sink.out ++ [message]) (silent : message.posting = none)
    (nextRef : sink'.nextRef = sink.nextRef) (refs : sink'.refAt = sink.refAt) :
    Posts sink sink' := by
  intro ledger books
  have held : sink'.held = sink.held := by
    funext id
    rw [held, held, slot, slot, refs]
  refine ⟨[message], ledger, out, ?_, by rwa [nextRef, held]⟩
  simp [postings, silent, Ledger.postAll]

theorem posts_flags (number : Nat) (cross saw : Bool) :
    Posts sink { sink with matchNumber := number, inCross := cross, sawBookEvent := saw } :=
  Posts.refl sink

theorem held_of_slot (found : sink.slot id = some r) :
    sink.held id = some (r.ref, r.displayed.toNat) := by
  rw [held, found, Option.map_some]

theorem held_setRef (displayed : (sink.refAt id).ref ≠ 0) (r : Ref) :
    (sink.setRef id r).held = Function.update sink.held id
      (if r.ref ≠ 0 then some (r.ref, r.displayed.toNat) else none) := by
  funext other
  rw [held, slot, refAt_setRef displayed]
  by_cases same : other = id
  · rw [same, Function.update_self, Function.update_self]
    split <;> rfl
  · rw [Function.update_of_ne same, Function.update_of_ne same, held, slot]

theorem slot_live (found : sink.slot id = some r) :
    (sink.refAt id).ref ≠ 0 ∧ sink.refAt id = r := by
  rw [slot] at found
  split at found
  · rename_i live
    exact ⟨live, Option.some.inj found⟩
  · cases found

/-- One message with a posting of an order on display. -/
theorem posts_one (sink' : Sink) {posting : Posting} (out : sink'.out = sink.out ++ [message])
    (told : message.posting = some posting)
    (entered : ∀ ledger : Ledger, ledger.Books sink.nextRef sink.held →
      ∃ ledger', ledger.post posting = some ledger' ∧ ledger'.Books sink'.nextRef sink'.held) :
    Posts sink sink' := by
  intro ledger books
  rcases entered ledger books with ⟨ledger', posted, books'⟩
  refine ⟨[message], ledger', out, ?_, books'⟩
  simp [postings, told, Ledger.postAll, posted]

/-- A message that takes shares off an order. -/
theorem posts_draw {part : Qty} (found : sink.slot id = some r) (some : part ≠ 0)
    (within : part ≤ r.displayed) (refs : sink'.refAt = sink.refAt)
    (nextRef : sink'.nextRef = sink.nextRef) (out : sink'.out = sink.out ++ [message])
    (told : message.posting = .some (.drawn r.ref part.toNat)) :
    Posts sink (sink'.setRef id (r.less part)) := by
  rcases slot_live found with ⟨live, rfl⟩
  have left := UInt64.toNat_sub_of_le _ _ within
  have zero : (sink.refAt id).displayed - part = 0 ↔
      (sink.refAt id).displayed.toNat - part.toNat = 0 := by
    rw [← left, ← UInt64.toNat_inj]
    rfl
  have still : sink'.held = sink.held := by
    funext other
    rw [held, held, slot, slot, refs]
  apply posts_one (sink'.setRef id ((sink.refAt id).less part)) out told
  intro ledger books
  have something : part.toNat ≠ 0 := fun zero => some (UInt64.toNat_inj.mp zero)
  rcases books.draws (held_of_slot found) something (UInt64.le_iff_toNat_le.mp within) with
    ⟨ledger', posted, books'⟩
  refine ⟨ledger', posted, ?_⟩
  rw [held_setRef (by rwa [refs]), still]
  have same : (if ((sink.refAt id).less part).ref ≠ 0 then
      Option.some (((sink.refAt id).less part).ref, ((sink.refAt id).less part).displayed.toNat)
      else none) = if (sink.refAt id).displayed.toNat - part.toNat = 0 then none
        else .some ((sink.refAt id).ref, (sink.refAt id).displayed.toNat - part.toNat) := by
    by_cases nothing : (sink.refAt id).displayed - part = 0
    · simp [Ref.less, nothing, zero.mp nothing]
    · simp [Ref.less, nothing, mt zero.mpr nothing, live, left]
  rw [same]
  exact (show (sink'.setRef id _).nextRef = sink.nextRef from nextRef) ▸ books'

theorem posts_delete (found : sink.slot id = some r) (refs : sink'.refAt = sink.refAt)
    (nextRef : sink'.nextRef = sink.nextRef) (out : sink'.out = sink.out ++ [message])
    (told : message.posting = some (.closed r.ref)) : Posts sink (sink'.setRef id {}) := by
  rcases slot_live found with ⟨live, rfl⟩
  have still : sink'.held = sink.held := by
    funext other
    rw [held, held, slot, slot, refs]
  apply posts_one (sink'.setRef id {}) out told
  intro ledger books
  rcases books.closes (held_of_slot found) with ⟨ledger', posted, books'⟩
  refine ⟨ledger', posted, ?_⟩
  rw [held_setRef (by rwa [refs]), still]
  exact (show (sink'.setRef id _).nextRef = sink.nextRef from nextRef) ▸ books'

/-! ## Events -/

theorem posts_execCross (id : OrderId) (fill : Qty) (px : Price) :
    Posts sink (sink.execCross id fill px) := by
  rw [execCross]
  cases found : sink.slot id with
  | none => exact .refl sink
  | some r =>
      have within : (if fill < r.displayed then fill else r.displayed) ≤ r.displayed := by
        split
        · rename_i less
          exact UInt64.le_of_lt less
        · exact UInt64.le_refl _
      dsimp only
      generalize (if fill < r.displayed then fill else r.displayed) = part at within ⊢
      split
      case isTrue => exact .refl sink
      case isFalse some => exact posts_draw found some within rfl rfl rfl rfl

theorem posts_evTrade {t : Trade} (tells : sink.Tells earlier screen)
    (proper : screen.Proper (!sink.inCross) (.trade t)) (some : t.qty ≠ 0) :
    Posts sink (sink.evTrade t) := by
  rw [evTrade]
  split
  case isTrue =>
    exact (posts_execCross t.taker t.qty t.price).trans (posts_execCross t.maker t.qty t.price)
  case isFalse continuous =>
    rcases proper (by simpa using continuous) with ⟨-, shown, seen, within⟩
    have found := tells.slot_some seen
    have displayed := (tells.shown _ shown seen).2.1
    have part : (if t.qty < shown then t.qty else shown) = t.qty := by grind
    rw [found]
    simp only [displayed, part]
    exact posts_draw found some (by rwa [displayed]) rfl rfl rfl rfl

theorem posts_evCancel (id : OrderId) : Posts sink (sink.evCancel id) := by
  apply (posts_flags sink.matchNumber sink.inCross true).trans
  rw [evCancel]
  split
  case h_1 => exact .refl _
  case h_2 r found => exact posts_delete found rfl rfl rfl rfl

theorem posts_evRest (tells : sink.Tells earlier screen) (unseen : screen id = none)
    {displayed : Qty} (some : displayed ≠ 0) (side : Side) (price : Price) :
    Posts sink (sink.evRest id side price displayed) := by
  have free : sink.held id = none := by rw [held, tells.slot_none unseen]; rfl
  have positive := tells.started
  apply posts_one _ rfl rfl
  intro ledger books
  have something : displayed.toNat ≠ 0 := fun zero => some (UInt64.toNat_inj.mp zero)
  rcases books.opens free something with ⟨ledger', posted, books'⟩
  refine ⟨ledger', posted, ?_⟩
  have held' : (sink.evRest id side price displayed).held =
      Function.update sink.held id (.some (sink.nextRef, displayed.toNat)) := by
    funext other
    rw [held, slot, refAt_evRest side price displayed]
    by_cases same : other = id
    · rw [same, Function.update_self, Function.update_self, if_pos (Nat.ne_of_gt positive)]
      rfl
    · rw [Function.update_of_ne same, Function.update_of_ne same, held, slot]
  rw [held']
  exact books'

theorem posts_on {event : Event} (tells : sink.Tells earlier screen)
    (proper : screen.Proper (!sink.inCross) event) (some : ∀ t, event = .trade t → t.qty ≠ 0) :
    Posts sink (Handler.on sink event) := by
  cases event with
  | accept => exact .refl sink
  | reject => exact .refl sink
  | trade t => exact posts_evTrade tells proper (some t rfl)
  | cancel id => exact posts_evCancel id
  | rest id side price displayed => exact posts_evRest tells proper.1 proper.2 side price

theorem posts_onAll {events : List Event} (tells : sink.Tells earlier screen)
    (plays : Screen.Plays (!sink.inCross) screen events screen')
    (some : ∀ t, .trade t ∈ events → t.qty ≠ 0) : Posts sink (Handler.onAll sink events) := by
  generalize continuous : (!sink.inCross) = mode at plays
  induction plays generalizing sink with
  | nil => exact .refl sink
  | @cons screen event events screen' proper later induction =>
      rw [← continuous] at proper
      have now : ∀ t, event = .trade t → t.qty ≠ 0 := by
        rintro t rfl
        exact some t List.mem_cons_self
      apply (posts_on tells proper now).trans
      apply induction (tells.on proper) (fun t member => some t (List.mem_cons_of_mem event member))
      rw [on_inCross, continuous]

end Sink

/-! ## Operations -/

namespace Publisher

variable {p : Publisher} {earlier : List Publication} {m m' : Market} {screen : Screen}
  {id : OrderId} {op : Op} {events : List Event} {ret : Ret} {engine : MatchingEngine Sink}

theorem posts_opened (p : Publisher) (op : Op) : Sink.Posts p.sink (p.opened op).sink := by
  cases op with
  | halt => exact Sink.posts_silent rfl rfl rfl rfl
  | resume => exact Sink.posts_silent rfl rfl rfl rfl
  | _ => exact .refl _

theorem posts_publishShrink {before : Qty} (tells : p.sink.Tells earlier screen)
    (seen : screen id = some before) : Sink.Posts p.sink (p.publishShrink id before).sink := by
  have found := tells.slot_some seen
  have displayed := (tells.shown id before seen).2.1
  rw [publishShrink, found]
  dsimp only
  split
  case isTrue => exact Sink.posts_delete found rfl rfl rfl rfl
  case isFalse nonzero =>
    split
    case isFalse => exact .refl _
    case isTrue less =>
      have within : before - p.engine.orderQty id ≤ before := RO.sub_le_of_le (UInt64.le_of_lt less)
      have left : before - (before - p.engine.orderQty id) = p.engine.orderQty id :=
        sub_sub_cancel before _
      have some : before - p.engine.orderQty id ≠ 0 := by
        intro zero
        rw [sub_eq_zero.mp zero] at less
        exact UInt64.lt_irrefl _ less
      have shadow : (p.sink.refAt id).less (before - p.engine.orderQty id) =
          { p.sink.refAt id with displayed := p.engine.orderQty id } := by
        rw [Ref.less, displayed, left]
        simp only [nonzero, if_false]
      rw [← shadow]
      exact Sink.posts_draw found some (by rwa [displayed]) rfl rfl rfl rfl

theorem Tracks.posts_closed (tracks : p.Tracks earlier m screen)
    (did : (p.opened op).engine.Did m op engine m' ret events) :
    Sink.Posts p.sink (p.closed engine op ret).sink := by
  rcases tracks.opened op with ⟨holds, tells, cross⟩
  have told : engine.h = Handler.onAll (p.opened op).sink events := did.told
  apply (posts_opened p op).trans
  rcases did.performs.plays holds.valid holds.settled tracks.onScreen with
    ⟨screen', plays, -, announces⟩ | ⟨rfl, rfl, o, delta, shown, reduces, seen, -⟩
  · have mode : decide (op ≠ .uncross) = !(p.opened op).sink.inCross := by rw [cross, decide_not]
    rw [mode] at plays
    have posts := Sink.posts_onAll tells plays fun t member =>
      did.performs.trade_some holds.valid member
    rw [← told] at posts
    apply posts.trans
    by_cases auction : op = .uncross
    · subst auction
      rcases did.performs.uncross_answer with ⟨total, rfl⟩
      rw [Publisher.closed]
      split
      · exact Sink.posts_silent rfl rfl rfl rfl
      · exact .refl _
    · rw [closed_told holds did announces auction]
      exact .refl _
  · have shown : p.engine.orderQty o.id = o.qty := by
      rw [tracks.holds.orderQty_eq tracks.onScreen, seen]
      rfl
    have still : engine.h = (p.opened op).sink := told
    rw [← still]
    have tells' : engine.h.Tells earlier screen := still ▸ tells
    cases reduces with
    | reduce =>
        rw [Publisher.closed, shown]
        split
        · exact posts_publishShrink (p := { engine }) tells' seen
        · exact .refl _
    | modify nonzero within =>
        rw [Publisher.closed, shown]
        split
        · exact posts_publishShrink (p := { engine }) tells' seen
        · exact .refl _

/-! ## Sessions -/

def Lawful (p : Publisher) (earlier : List Publication) : Prop :=
  ∃ ledger, Ledger.fresh.postAll (postings (earlier ++ p.sink.out)) = some ledger ∧
    ledger.Books p.sink.nextRef p.sink.held

theorem lawful_new (band : Band) (stock : List UInt8) (expectedOrders : Nat) :
    (new band stock expectedOrders).Lawful [] := by
  have held : (new band stock expectedOrders).sink.held = fun _ => none := by
    funext id
    have unseen : (new band stock expectedOrders).sink.refAt id = {} := by
      show #[({} : Ref)].getD id {} = {}
      cases id <;> rfl
    rw [Sink.held, Sink.slot, unseen]
    rfl
  exact ⟨.fresh, rfl, held ▸ Ledger.books_fresh⟩

theorem Lawful.posts {p' : Publisher} (lawful : p.Lawful earlier)
    (posts : Sink.Posts p.sink p'.sink) : p'.Lawful earlier := by
  rcases lawful with ⟨ledger, posted, books⟩
  rcases posts ledger books with ⟨more, ledger', out, posted', books'⟩
  refine ⟨ledger', ?_, books'⟩
  rw [out, ← List.append_assoc, postings, List.filterMap_append, Ledger.postAll_append, ← postings,
    posted]
  exact posted'

theorem Lawful.run {p' : Publisher} {taken : List Publication} {calls : List Call}
    (lawful : p.Lawful earlier) (tracks : p.Tracks earlier m screen)
    (ran : p.run calls = some (p', taken)) :
    p'.Lawful (earlier ++ taken) ∧
      ∃ m' screen', p'.Tracks (earlier ++ taken) m' screen' := by
  induction calls generalizing p earlier m screen taken with
  | nil =>
      cases ran
      rw [List.append_nil]
      exact ⟨lawful, m, screen, tracks⟩
  | cons call calls induction =>
      rcases Option.bind_eq_some_iff.mp ran with ⟨⟨p₁, first⟩, called, runs⟩
      rcases Option.bind_eq_some_iff.mp runs with ⟨⟨p₂, rest⟩, later, same⟩
      cases same
      rw [← List.append_assoc]
      cases call with
      | op op =>
          rcases tracks.step op with ⟨engine, ret, m₁, events, screen₁, stepped, did, tracks₁⟩
          rw [Publisher.call, stepped] at called
          cases called
          rw [List.append_nil]
          exact induction (lawful.posts (tracks.posts_closed did)) tracks₁ later
      | drain =>
          cases called
          refine induction ?_ tracks.drained later
          rcases lawful with ⟨ledger, posted, books⟩
          refine ⟨ledger, ?_, books⟩
          show Ledger.fresh.postAll (postings (earlier ++ p.sink.out ++ [])) = some ledger
          rw [List.append_nil]
          exact posted

/-- What is left open under the references is what the engine displays of its orders. -/
structure Owes (p : Publisher) (ledger : Ledger) : Prop where
  next : ledger.next = p.sink.nextRef
  displayed : ∀ id, p.engine.Rests id →
    ledger.left (p.sink.refAt id).ref = (p.engine.orderQty id).toNat
  resting : ∀ number, ledger.left number ≠ 0 →
    ∃ id, p.engine.Rests id ∧ (p.sink.refAt id).ref = number

theorem Tracks.owes {ledger : Ledger} (tracks : p.Tracks earlier m screen)
    (books : ledger.Books p.sink.nextRef p.sink.held) : p.Owes ledger := by
  have exact' := tracks.exact
  constructor
  case next => exact books.counter
  case displayed =>
      intro id rests
      have live := (exact'.live id).mpr rests
      have held := Sink.held_of_slot (if_pos live : p.sink.slot id = some (p.sink.refAt id))
      rw [(books.balance _ _ _ held).2.1, exact'.displayed id]
  case resting =>
      intro number nonzero
      rcases books.owned number nonzero with ⟨id, left, held⟩
      rcases Option.map_eq_some_iff.mp held with ⟨r, slot, same⟩
      rcases Sink.slot_live slot with ⟨live, rfl⟩
      cases same
      exact ⟨id, (exact'.live id).mp live, rfl⟩

/-- What a session publishes that uses fewer than `2 ^ 64` references is lawful, message by
message, and leaves open what the engine displays. -/
theorem run_lawful (band : Band) (stock : List UInt8) (expectedOrders : Nat) (calls : List Call) :
    ∃ p taken ledger, (new band stock expectedOrders).run calls = some (p, taken) ∧
      (p.sink.nextRef ≤ 2 ^ 64 →
        Ledger.fresh.postAll (postings (taken ++ p.sink.out)) = some ledger ∧ p.Owes ledger ∧
        ((∀ op, .op op ∈ calls → op.Admitted (.below (2 ^ 32))) →
          Leaves
            ((bodies (.ofBytes stock) (taken ++ p.sink.out)).filterMap fun body => parse body {})
            ledger)) := by
  have new := tracks_new band stock expectedOrders
  rcases new.run calls with ⟨p, taken, m, screen, ran, tracks, -, bounded⟩
  rcases (lawful_new band stock expectedOrders).run new ran with
    ⟨⟨ledger, posted, books⟩, -⟩
  refine ⟨p, taken, ledger, ran, fun wide => ⟨posted, tracks.owes books, fun admitted => ?_⟩⟩
  have small := bounded _ (bounded_new band stock expectedOrders _) admitted
  have within := (Ledger.within_fresh (2 ^ 32) (by decide)).postAll posted small.adds
  rw [Leaves, postings_heard]
  · exact posted
  · intro posting member
    rcases within.2 posting member with ⟨given, less⟩
    rw [books.counter] at given
    exact ⟨Nat.lt_of_lt_of_le given wide, less⟩

/-- An iceberg of which two clips trade, an amend and a cancel. -/
theorem run_lawful_iceberg :
    let band : Band := ⟨95, 105, by decide, by decide, by decide⟩
    let calls : List Call :=
      [.op (.submitIceberg .sell 100 10 2 .gtc 1 .cancelTaker), .drain,
        .op (.submitLimit .buy 100 3 .ioc 2 .cancelTaker),
        .op (.submitLimit .buy 99 7 .gtc 2 .cancelTaker), .op (.reduce 3 2), .op (.cancel 1)]
    ∃ p taken ledger, (new band [] 16).run calls = some (p, taken) ∧ p.Owes ledger ∧
      Leaves ((bodies (.ofBytes []) (taken ++ p.sink.out)).filterMap fun body => parse body {})
        ledger := by
  intro band calls
  have admitted : ∀ op, .op op ∈ calls → op.Admitted (.below (2 ^ 32)) := by
    intro op member
    simp only [calls, List.mem_cons, Call.op.injEq, List.not_mem_nil, or_false, false_or,
      reduceCtorEq] at member
    rcases member with rfl | rfl | rfl | rfl | rfl
    · exact show (10 : Qty) < 2 ^ 32 by decide
    · exact show (3 : Qty) < 2 ^ 32 by decide
    · exact show (7 : Qty) < 2 ^ 32 by decide
    · trivial
    · trivial
  have seen : ((new band [] 16).run calls).map (fun run => run.1.sink.nextRef) = some 4 := by
    decide +kernel
  rcases run_lawful band [] 16 calls with ⟨p, taken, ledger, ran, lawful⟩
  rw [ran, Option.map_some, Option.some.injEq] at seen
  rcases lawful (by rw [seen]; decide) with ⟨-, owes, leaves⟩
  exact ⟨p, taken, ledger, ran, owes, leaves admitted⟩

end Publisher

end Itch

end Matchbook
