import Matchbook.Feed.BookBuilder

namespace Matchbook

/-! # One symbol out of a feed

A receiver for one symbol filters adds by their symbol and everything else by
reference. Trading actions have no reference. -/

namespace Itch

variable {H : Type} [Handler H] {names : List UInt8 → Bool} {mine : UInt64 → Bool}
  {b b' : BookBuilder} {e e' : MatchingEngine H} {m : Message} {feed : List Message}

def haltedAfter (halted : Bool) (m : Message) : Bool :=
  if m.type = .action then
    if m.state = 'H'.toUInt8 then true else if m.state = 'T'.toUInt8 then false else halted
  else halted

namespace BookBuilder

def Bound (b : BookBuilder) (mine : UInt64 → Bool) : Prop :=
  ∀ ref id, b.refmap ref = some id → mine ref = true

theorem bound_empty : Bound {} mine := nofun

theorem Bound.mono (bound : b.Bound mine) (m : Message) : b.Bound (mineAfter names mine m) := by
  intro ref id known
  simp [mineAfter, bound ref id known]

theorem Bound.erase (bound : b.Bound mine) (ref : UInt64) :
    Bound { b with refmap := b.refmap.erase ref } mine := by
  intro other id known
  by_cases same : other = ref
  · subst same
    simp [RefMap.erase] at known
  · simp only [RefMap.erase, Function.update_of_ne same] at known
    exact bound other id known

theorem Bound.insert (bound : b.Bound mine) {ref : UInt64} (own : mine ref = true) (id : OrderId) :
    Bound { b with refmap := b.refmap.insert ref id } mine := by
  intro other id' known
  by_cases same : other = ref
  · rw [same]
    exact own
  · simp only [RefMap.insert, Function.update_of_ne same] at known
    exact bound other id' known

theorem apply_own (live : e.Live) (bound : b.Bound mine) (own : concerns names mine m = true) :
    ∃ b' e', b.apply e m = some (b', e') ∧ e'.Live ∧ e'.halted = haltedAfter e.halted m ∧
      b'.Bound (mineAfter names mine m) := by
  have later : b.Bound (mineAfter names mine m) := bound.mono m
  unfold apply haltedAfter
  cases kind : m.type with
  | add =>
      rcases live.submitLimit m.side m.price m.qty .gtc 0 .cancelTaker with
        ⟨e', id, called, live', halted⟩
      have introduces : mineAfter names mine m m.ref = true := by
        simp [mineAfter, own, introduced, kind]
      refine ⟨_, e', by rw [called]; rfl, live', by simpa using halted, ?_⟩
      split
      · exact later.insert introduces id
      · exact later
  | execute =>
      cases known : b.refmap m.ref with
      | none => exact ⟨b, e, by simp, live, by simp, later⟩
      | some id =>
          rcases live.reduce id m.qty with ⟨e', ok, called, live', halted⟩
          refine ⟨_, e', by simp only [called]; rfl, live', by simpa using halted, ?_⟩
          split
          · exact later
          · exact later.erase m.ref
  | cancel =>
      cases known : b.refmap m.ref with
      | none => exact ⟨b, e, by simp, live, by simp, later⟩
      | some id =>
          rcases live.reduce id m.qty with ⟨e', ok, called, live', halted⟩
          refine ⟨_, e', by simp only [called]; rfl, live', by simpa using halted, ?_⟩
          split
          · exact later
          · exact later.erase m.ref
  | delete =>
      cases known : b.refmap m.ref with
      | none => exact ⟨b, e, by simp, live, by simp, later⟩
      | some id =>
          rcases live.cancel id with ⟨e', ok, called, live', halted⟩
          exact ⟨_, e', by simp only [called]; rfl, live', by simpa using halted,
            later.erase m.ref⟩
  | replace =>
      cases known : b.refmap m.ref with
      | none => exact ⟨b, e, by simp, live, by simp, later⟩
      | some id =>
          have introduces : mineAfter names mine m m.newRef = true := by
            simp [mineAfter, own, introduced, kind]
          rcases live.modify id m.price m.qty with ⟨e', ok, called, live', halted⟩
          refine ⟨_, e', by simp only [called]; rfl, live', by simpa using halted, ?_⟩
          split
          · exact (later.erase m.ref).insert introduces id
          · exact later
  | action =>
      by_cases halts : m.state = 'H'.toUInt8
      · rcases live.halt with ⟨e', called, live', halted⟩
        exact ⟨b, e', by simp [halts, called], live', by simp [halts, halted], later⟩
      by_cases trades : m.state = 'T'.toUInt8
      · have differ : 'T'.toUInt8 ≠ 'H'.toUInt8 := by decide
        rcases live.resume with ⟨e', called, live', halted⟩
        exact ⟨b, e', by simp [trades, differ, called], live', by simp [trades, differ, halted],
          later⟩
      · exact ⟨b, e, by simp [halts, trades], live, by simp [halts, trades], later⟩
  | other => exact ⟨b, e, rfl, live, by simp, later⟩

theorem mineAfter_foreign (foreign : concerns names mine m = false) :
    mineAfter names mine m = mine := by
  funext ref
  simp [mineAfter, foreign]

theorem apply_foreign (live : e.Live) (bound : b.Bound mine) (noAdd : m.type ≠ .add)
    (foreign : concerns names mine m = false) :
    ∃ e', b.apply e m = some (b, e') ∧ e'.halted = haltedAfter e.halted m ∧
      (haltedAfter e.halted m = e.halted → e' = e) := by
  have unknown (same : concerns names mine m = mine m.ref) : b.refmap m.ref = none := by
    cases known : b.refmap m.ref with
    | none => rfl
    | some id =>
        rw [same, bound m.ref id known] at foreign
        contradiction
  unfold apply haltedAfter
  cases kind : m.type with
  | add => exact absurd kind noAdd
  | execute | cancel | delete | replace =>
      have nothing := unknown (by simp [concerns, kind])
      exact ⟨e, by simp [nothing], by simp, fun _ => rfl⟩
  | action =>
      by_cases halts : m.state = 'H'.toUInt8
      · rcases live.halt with ⟨e', called, live', halted⟩
        refine ⟨e', by simp [halts, called], by simp [halts, halted], ?_⟩
        intro again
        have already : e.halted = true := by simpa [halts] using again.symm
        exact (Option.some.inj ((live.halt_again already).symm.trans called)).symm
      by_cases trades : m.state = 'T'.toUInt8
      · have differ : 'T'.toUInt8 ≠ 'H'.toUInt8 := by decide
        rcases live.resume with ⟨e', called, live', halted⟩
        refine ⟨e', by simp [trades, differ, called], by simp [trades, differ, halted], ?_⟩
        intro again
        have already : e.halted = false := by simpa [trades, differ] using again.symm
        exact (Option.some.inj ((live.resume_again already).symm.trans called)).symm
      · exact ⟨e, by simp [halts, trades], by simp [halts, trades], fun _ => rfl⟩
  | other => exact ⟨e, rfl, rfl, fun _ => rfl⟩

end BookBuilder

/-! ## Filters in front of the book -/

structure Filters (wanted : Message → Bool) (names : List UInt8 → Bool) : Prop where
  own : ∀ m, m.type = .add ∨ m.type = .action → names m.stock = true → wanted m = true
  lifecycle : ∀ m, m.type ≠ .add → m.type ≠ .action → wanted m = true
  adds : ∀ m, m.type = .add → wanted m = true → names m.stock = true

/-- Each trading action that names another symbol says what the trading actions before
it have said already. -/
def Restates (names : List UInt8 → Bool) : Bool → List Message → Prop
  | _, [] => True
  | halted, m :: feed =>
    (m.type = .action → names m.stock = false → haltedAfter halted m = halted) ∧
      Restates names (haltedAfter halted m) feed

theorem Restates.take {halted : Bool} (restates : Restates names halted feed) (n : Nat) :
    Restates names halted (feed.take n) := by
  induction feed generalizing halted n with
  | nil => simp [Restates]
  | cons m feed induction =>
      cases n with
      | zero => trivial
      | succ n => exact ⟨restates.1, induction restates.2 n⟩

variable {wanted : Message → Bool}

theorem Filters.wanted_of_concerns (filters : Filters wanted names)
    (own : concerns names mine m = true) : wanted m = true := by
  unfold concerns at own
  cases kind : m.type with
  | add => exact filters.own m (.inl kind) (by simpa [kind] using own)
  | action => exact filters.own m (.inr kind) (by simpa [kind] using own)
  | execute | cancel | delete | replace =>
      exact filters.lifecycle m (by simp [kind]) (by simp [kind])
  | other => simp [kind] at own

theorem Filters.not_add (filters : Filters wanted names) (passes : wanted m = true)
    (foreign : concerns names mine m = false) : m.type ≠ .add := by
  intro kind
  have own := filters.adds m kind passes
  simp [concerns, kind, own] at foreign

theorem Filters.filter_about (filters : Filters wanted names) (mine : UInt64 → Bool)
    (feed : List Message) : (about names mine feed).filter wanted = about names mine feed := by
  induction feed generalizing mine with
  | nil => rfl
  | cons m feed induction =>
      cases own : concerns names mine m with
      | true => simp [about, own, filters.wanted_of_concerns own, induction]
      | false => simp [about, own, induction]

theorem BookBuilder.applyAll_filter (filters : Filters wanted names) (live : e.Live)
    (bound : b.Bound mine) (restates : Restates names e.halted (feed.filter wanted)) :
    ∃ state, b.applyAll e (feed.filter wanted) = some state ∧
      b.applyAll e (about names mine feed) = some state := by
  induction feed generalizing b e mine with
  | nil => exact ⟨(b, e), rfl, rfl⟩
  | cons m feed induction =>
      cases own : concerns names mine m with
      | true =>
          have passes := filters.wanted_of_concerns own
          rw [List.filter_cons_of_pos passes] at restates ⊢
          rcases apply_own live bound own with ⟨b', e', applied, live', halted, bound'⟩
          rw [about, if_pos own, applyAll, applyAll, applied]
          exact induction live' bound' (by rw [halted]; exact restates.2)
      | false =>
          rw [about, if_neg (by simp [own]), mineAfter_foreign own]
          cases passes : wanted m with
          | false =>
              rw [List.filter_cons_of_neg (by simp [passes])] at restates ⊢
              exact induction live bound restates
          | true =>
              rw [List.filter_cons_of_pos passes] at restates ⊢
              rcases apply_foreign live bound (filters.not_add passes own) own with
                ⟨e', applied, halted, unchanged⟩
              have same : haltedAfter e.halted m = e.halted := by
                cases kind : m.type with
                | action => exact restates.1 kind (by simpa [concerns, kind] using own)
                | _ => simp [haltedAfter, kind]
              rw [unchanged same] at applied
              rw [applyAll, applied]
              have rest := restates.2
              rw [same] at rest
              exact induction live bound rest

/-- An action of another symbol that says something new changes the book. -/
theorem BookBuilder.restates_of_isolated (filters : Filters wanted names) (live : e.Live)
    (bound : b.Bound mine)
    (isolated : ∀ n, (b.applyAll e ((feed.take n).filter wanted)).map Prod.snd =
      (b.applyAll e (about names mine (feed.take n))).map Prod.snd) :
    Restates names e.halted (feed.filter wanted) := by
  induction feed generalizing b e mine with
  | nil => trivial
  | cons m feed induction =>
      have tail n := isolated (n + 1)
      simp only [List.take_succ_cons] at tail
      cases own : concerns names mine m with
      | true =>
          have passes := filters.wanted_of_concerns own
          rcases apply_own live bound own with ⟨b', e', applied, live', halted, bound'⟩
          simp only [List.filter_cons_of_pos passes, about, own, if_true, applyAll, applied] at tail
          rw [List.filter_cons_of_pos passes]
          constructor
          · intro kind foreign
            simp [concerns, kind, foreign] at own
          · rw [← halted]
            exact induction live' bound' tail
      | false =>
          simp only [about, own, mineAfter_foreign own] at tail
          cases passes : wanted m with
          | false =>
              simp only [List.filter_cons_of_neg (by simp [passes] : ¬ wanted m = true)] at tail ⊢
              exact induction live bound tail
          | true =>
              rcases apply_foreign live bound (filters.not_add passes own) own with
                ⟨e', applied, halted, unchanged⟩
              simp only [List.filter_cons_of_pos passes, applyAll, applied] at tail
              have first := tail 0
              have same : e' = e := Option.some.inj first
              subst same
              rw [List.filter_cons_of_pos passes]
              constructor
              · intro kind foreign
                exact halted.symm
              · rw [← halted]
                exact induction live bound tail

end Itch

/-! ## The multicast receiver -/

namespace Mcast

open Itch

variable {H : Type} [Handler H]

/-- The symbol of the receiver. -/
def isSymbol (padded stock : List UInt8) : Bool := stock == padded

def recvBook (padded : List UInt8) (e : MatchingEngine H) (feed : List Message) :
    Option (MatchingEngine H) :=
  (BookBuilder.applyAll {} e (feed.filter (wanted padded))).map Prod.snd

def Receiver.Filtered (padded : List UInt8) (receiver : Receiver) : Prop :=
  receiver.pushed =
    (receiver.applied.filterMap fun block => parse block.2 {}).filter (wanted padded)

namespace Receiver

variable {padded pkt : List UInt8} {receiver : Receiver}

theorem Filtered.applyBlock (filtered : receiver.Filtered padded) (seq : UInt64)
    (body : List UInt8) : (receiver.applyBlock padded seq body).Filtered padded := by
  unfold Filtered at filtered ⊢
  unfold Receiver.applyBlock
  cases parsed : parse body {} with
  | none => simpa [parsed] using filtered
  | some m => cases passes : wanted padded m <;> simpa [parsed, passes] using filtered

theorem Filtered.blocks (filtered : receiver.Filtered padded) (pkt : List UInt8)
    (skip block : UInt16)
    (blocks : List Mold.Block) :
    (blocks.foldl (onBlock padded pkt skip) (block, receiver)).2.Filtered padded := by
  induction blocks generalizing receiver block with
  | nil => exact filtered
  | cons first blocks induction =>
      rw [List.foldl_cons]
      by_cases seen : block < skip
      · rw [onBlock, if_pos seen]
        exact induction filtered _
      · rw [onBlock, if_neg seen]
        exact induction (filtered.applyBlock _ _) _

theorem Filtered.onDatagram (filtered : receiver.Filtered padded) :
    (receiver.onDatagram padded pkt).Filtered padded := by
  unfold Receiver.onDatagram
  split
  case isTrue => exact filtered
  case isFalse =>
      simp only
      split
      case isTrue => exact filtered
      case isFalse =>
          have tracked : Filtered padded { receiver with
              tracker := (receiver.tracker.onPacket (be64 (pkt.drop 10))
                (be16 (pkt.drop 18))).2 } :=
            filtered
          split
          case isTrue => exact tracked.blocks pkt _ 0 _
          case isFalse => exact tracked.blocks pkt _ 0 _

theorem receive_filtered (padded : List UInt8) (datagrams : List (List UInt8)) :
    (receive padded {} datagrams).Filtered padded := by
  unfold receive
  induction datagrams using List.reverseRecOn with
  | nil => rfl
  | append_singleton datagrams pkt induction =>
      rw [List.foldl_append, List.foldl_cons, List.foldl_nil]
      split
      case isTrue => exact induction
      case isFalse => exact induction.onDatagram

end Receiver

theorem filters_wanted (padded : List UInt8) : Filters (wanted padded) (isSymbol padded) where
  own m _ same := by
    have symbol : m.stock = padded := by simpa [isSymbol] using same
    simp [wanted, symbol]
  lifecycle m noAdd _ := by simp [wanted, noAdd]
  adds m kind passes := by simpa [wanted, isSymbol, kind] using passes

theorem restates_filter (padded : List UInt8) (halted : Bool) (feed : List Message) :
    Restates (isSymbol padded) halted (feed.filter (wanted padded)) ↔
      Restates (isSymbol padded) halted feed := by
  induction feed generalizing halted with
  | nil => exact Iff.rfl
  | cons m feed induction =>
      cases passes : wanted padded m with
      | true =>
          rw [List.filter_cons_of_pos passes, Restates, Restates, induction]
      | false =>
          have kind : m.type = .add := by
            by_contra noAdd
            simp [wanted, noAdd] at passes
          rw [List.filter_cons_of_neg (by simp [passes]), Restates, induction]
          simp [haltedAfter, kind]

section isolation

variable (padded : List UInt8) (band : Band) (h : H) (expectedOrders : Nat)

theorem recvBook_about {feed : List Message} (restates : Restates (isSymbol padded) false feed) :
    ∃ e, recvBook padded (.new band h expectedOrders) feed = some e ∧
      recvBook padded (.new band h expectedOrders)
        (about (isSymbol padded) (fun _ => false) feed) = some e := by
  have filters := filters_wanted padded
  have live := MatchingEngine.live_new band h expectedOrders
  rcases BookBuilder.applyAll_filter filters live BookBuilder.bound_empty
    ((restates_filter padded false feed).2 restates) with ⟨state, whole, own⟩
  refine ⟨state.2, by rw [recvBook, whole]; rfl, ?_⟩
  rw [recvBook, filters.filter_about, own]
  rfl

/-- Two feeds that agree on the symbol build the same book if no trading action of another
symbol says anything new, and only then does every prefix of a feed build what the symbol's own
messages in it build. -/
theorem recvBook_isolated_iff :
    (∀ feed feed', about (isSymbol padded) (fun _ => false) feed =
        about (isSymbol padded) (fun _ => false) feed' →
      Restates (isSymbol padded) false feed → Restates (isSymbol padded) false feed' →
      ∃ e, recvBook padded (.new band h expectedOrders) feed = some e ∧
        recvBook padded (.new band h expectedOrders) feed' = some e) ∧
    ∀ feed, (∀ n, recvBook padded (.new band h expectedOrders) (feed.take n) =
        recvBook padded (.new band h expectedOrders)
          (about (isSymbol padded) (fun _ => false) (feed.take n))) ↔
      Restates (isSymbol padded) false feed := by
  constructor
  · intro feed feed' same restates restates'
    rcases recvBook_about padded band h expectedOrders restates with ⟨e, built, own⟩
    rcases recvBook_about padded band h expectedOrders restates' with ⟨e', built', own'⟩
    rw [same] at own
    have equal : e' = e := Option.some.inj (own'.symm.trans own)
    exact ⟨e, built, by rw [built', equal]⟩
  · intro feed
    constructor
    · intro isolated
      have filters := filters_wanted padded
      have live := MatchingEngine.live_new band h expectedOrders
      apply (restates_filter padded false feed).1
      apply BookBuilder.restates_of_isolated filters live BookBuilder.bound_empty
      intro n
      simpa [recvBook, filters.filter_about] using isolated n
    · intro restates n
      rcases recvBook_about padded band h expectedOrders (restates.take n) with ⟨e, built, own⟩
      rw [built, own]

/-- `MBTEST` -/
def mbtest : List UInt8 := [77, 66, 84, 69, 83, 84, 32, 32]

/-- `OTHER` -/
def other : List UInt8 := [79, 84, 72, 69, 82, 32, 32, 32]

/-- A book that is running, told that another symbol trades. -/
theorem recvBook_isolated_running :
    ∃ e, recvBook mbtest (.new ⟨1, 20000000, by decide, by decide, by decide⟩ () 16)
        [{ type := .add, ref := 1, qty := 5, price := 100, stock := mbtest },
         { type := .action, stock := other, state := 'T'.toUInt8 }] = some e ∧
      recvBook mbtest (.new ⟨1, 20000000, by decide, by decide, by decide⟩ () 16)
        [{ type := .add, ref := 1, qty := 5, price := 100, stock := mbtest }] = some e :=
  (recvBook_isolated_iff mbtest ⟨1, 20000000, by decide, by decide, by decide⟩ () 16).1
    [{ type := .add, ref := 1, qty := 5, price := 100, stock := mbtest },
     { type := .action, stock := other, state := 'T'.toUInt8 }]
    [{ type := .add, ref := 1, qty := 5, price := 100, stock := mbtest }]
    (by decide) ⟨by decide, by decide, trivial⟩ ⟨by decide, trivial⟩

/-- A halt of another symbol halts the book. -/
theorem not_recvBook_isolated :
    ¬ ∀ (padded : List UInt8) (band : Band) (feed feed' : List Message),
      UniqueRefs feed → UniqueRefs feed' →
      about (isSymbol padded) (fun _ => false) feed =
        about (isSymbol padded) (fun _ => false) feed' →
      recvBook padded (.new band () 16) feed = recvBook padded (.new band () 16) feed' := by
  intro isolated
  let band : Band := ⟨1, 20000000, by decide, by decide, by decide⟩
  have same := isolated mbtest band [{ type := .action, stock := other, state := 'H'.toUInt8 }] []
    (by decide) (by decide) (by decide)
  rcases (MatchingEngine.live_new band () 16).halt with ⟨e, called, -, halted⟩
  have built : recvBook mbtest (.new band () 16)
      [{ type := .action, stock := other, state := 'H'.toUInt8 }] = some e := by
    simp [recvBook, wanted, BookBuilder.applyAll, BookBuilder.apply, called]
  rw [built] at same
  rw [Option.some.inj same] at halted
  exact absurd halted Bool.false_ne_true

end isolation

end Mcast

end Matchbook
