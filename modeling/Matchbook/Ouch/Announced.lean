import Matchbook.Market.Origins
import Matchbook.Market.SelfStops
import Matchbook.Ouch.Coupling

namespace Matchbook

open Transitions

/-! # Closed orders are told closed

The coupling does not say what the ledger has of a cancelled order. It has nothing left of it,
as long as no cancel is folded away. -/

section accounts

variable {id : OrderId} {account : Account} {events : List Event}

theorem Account.told_cancelled (cancelled : (account.told id events).cancelled = true) :
    account.cancelled = true ∨ .cancel id ∈ events := by
  induction events generalizing account with
  | nil => exact .inl cancelled
  | cons event events induction =>
      rw [told_cons] at cancelled
      rcases induction cancelled with before | later
      · cases event with
        | cancel target =>
            by_cases own : target = id
            · exact .inr (own ▸ List.mem_cons_self)
            · rw [see, if_neg own] at before
              exact .inl before
        | accept target side price qty =>
            rw [see] at before
            split at before
            · cases before
            · exact .inl before
        | trade t =>
            rw [see] at before
            split at before <;> exact .inl before
        | _ => exact .inl before
      · exact .inr (.tail event later)

def Account.Limits (account : Account) : Prop :=
  account.discards = false ∧ account.calling.any Op.discards = false

theorem Account.Limits.told (limits : account.Limits) : (account.told id events).Limits := by
  induction events generalizing account with
  | nil => exact limits
  | cons event events induction =>
      rw [told_cons]
      apply induction
      cases event with
      | accept target side price qty =>
          rw [see]
          split
          · exact ⟨limits.2, limits.2⟩
          · exact limits
      | trade t =>
          rw [see]
          split <;> exact limits
      | cancel target =>
          rw [see]
          split <;> exact limits
      | _ => exact limits

end accounts

namespace Ouch

/-- Executions and cancels leave a token at 0 that was, and add to none. -/
theorem after_acted {stream messages : List OutMsg} (acted : ∀ m ∈ messages, m.acted.isSome)
    (token : List UInt8) :
    (Ledger.after stream token = some 0 → Ledger.after (stream ++ messages) token = some 0) ∧
      ∀ left, Ledger.after (stream ++ messages) token = some left →
        ∃ before, Ledger.after stream token = some before ∧ left ≤ before := by
  induction messages using List.reverseRecOn with
  | nil =>
      rw [List.append_nil]
      exact ⟨id, fun left entry => ⟨left, entry, Nat.le_refl left⟩⟩
  | append_singleton messages m induction =>
      have isActed := acted m (by simp)
      have earlier := induction fun other member => acted other (List.mem_append_left _ member)
      rw [← List.append_assoc, Ledger.after_snoc]
      have one : (Ledger.after (stream ++ messages) token = some 0 →
          (Ledger.after (stream ++ messages)).read m token = some 0) ∧
            ∀ left, (Ledger.after (stream ++ messages)).read m token = some left →
              ∃ before, Ledger.after (stream ++ messages) token = some before ∧ left ≤ before := by
        cases m with
        | executed other qty price number =>
            simp only [Ledger.read, Function.update_apply]
            split
            case isTrue same =>
              subst same
              refine ⟨fun entry => by simp [entry], fun left entry => ?_⟩
              rcases Option.map_eq_some_iff.mp entry with ⟨before, found, rfl⟩
              exact ⟨before, found, Nat.sub_le _ _⟩
            case isFalse => exact ⟨id, fun left entry => ⟨left, entry, Nat.le_refl left⟩⟩
        | canceled other reason =>
            simp only [Ledger.read, Function.update_apply]
            split
            case isTrue same =>
              subst same
              refine ⟨fun entry => by simp [entry], fun left entry => ?_⟩
              rcases Option.map_eq_some_iff.mp entry with ⟨before, found, rfl⟩
              exact ⟨before, found, Nat.zero_le before⟩
            case isFalse => exact ⟨id, fun left entry => ⟨left, entry, Nat.le_refl left⟩⟩
        | accepted => cases isActed
        | replaced => cases isActed
        | rejected => cases isActed
      refine ⟨fun entry => one.1 (earlier.1 entry), fun left entry => ?_⟩
      rcases one.2 left entry with ⟨between, found, less⟩
      rcases earlier.2 between found with ⟨before, start, within⟩
      exact ⟨before, start, Nat.le_trans less within⟩

theorem Hears.unique {session session' session'' : Session} {events : List Event}
    {messages messages' : List OutMsg} (first : Hears session events session' messages)
    (second : Hears session events session'' messages') :
    session' = session'' ∧ messages = messages' := by
  have same : session' = session'' := first.heard.symm.trans second.heard
  rcases first.queued with ⟨bytes, out, spells⟩
  rcases second.queued with ⟨bytes', out', spells'⟩
  rw [← same, out] at out'
  have sameBytes : bytes = bytes' := List.append_cancel_left out'
  subst sameBytes
  exact ⟨same, List.map_injective_iff.mpr (Option.some_injective _) (spells.symm.trans spells')⟩

structure Announced (state : Market × Phase) (session : Session) (accounts : OrderId → Account)
    (stream : List OutMsg) : Prop where
  closed : ∀ id, Issued state id → (accounts id).cancelled = true →
    Ledger.after stream (session.tokenStr id) = some 0
  /-- What is left is left of the token of an order. -/
  owned : ∀ token left, Ledger.after stream token = some left → 0 < left →
    ∃ id, Issued state id ∧ session.tokenStr id = token
  /-- What is left of an order in the end is cancelled, not discarded. -/
  limits : ∀ id, (accounts id).Limits
  unstopped : state.1.stops = []

namespace Announced

variable {state next : Market × Phase} {session session' : Session}
  {accounts : OrderId → Account} {stream messages : List OutMsg} {events : List Event}

/-- What is reported and told. -/
theorem advance (announced : Announced state session accounts stream)
    (coupled : Coupled state session accounts stream) (follows : Follows state events next)
    (reports : Reports state events) (unstopped : next.1.stops = [])
    (hears : Hears session events session' messages)
    (told : ∀ id, .cancel id ∈ events → session.folds id = false) :
    Announced next session' (Coupled.audit accounts events) (stream ++ messages) := by
  have issued (id : OrderId) : Issued next id ↔ Issued state id := by
    rw [Issued, Issued, follows.nextId]
  constructor
  case closed =>
      intro id isIssued cancelled
      rw [issued] at isIssued
      rw [hears.tokenStr]
      rcases Account.told_cancelled cancelled with before | now
      · exact (after_acted hears.acted _).1 (announced.closed id isIssued before)
      · -- The one cancel of the step is told, so that the reader closes the token.
        have unfolded := told id now
        cases reports with
        | nothing rests =>
            rcases rests _ now with ⟨_, _, _, _, same⟩
            cases same
        | trade rests =>
            rcases List.mem_cons.mp now with same | later
            · cases same
            · rcases rests _ later with ⟨_, _, _, _, same⟩
              cases same
        | cancel isOpen =>
            cases List.mem_singleton.mp now
            rcases hears.unique (coupled.cancel follows isOpen).1 with ⟨-, rfl⟩
            rcases coupled.left_of_open isOpen with ⟨left, entry, -⟩
            have canceled : session.tells (.cancel id) =
                [.canceled (session.tokenStr id) (session.cancelReason id)] :=
              if_neg (by simp [unfolded])
            rw [canceled, after_canceled, if_pos rfl, entry]
            rfl
  case owned =>
      intro token left entry some
      rcases (after_acted hears.acted token).2 left entry with ⟨before, found, less⟩
      rcases announced.owned token before found (Nat.lt_of_lt_of_le some less) with
        ⟨id, isIssued, rfl⟩
      exact ⟨id, (issued id).mpr isIssued, hears.tokenStr id⟩
  case limits => exact fun id => (announced.limits id).told
  case unstopped => exact unstopped

theorem step (announced : Announced state session accounts stream)
    (coupled : Coupled state session accounts stream) (step : Step state events next)
    (hears : Hears session events session' messages)
    (told : ∀ id, .cancel id ∈ events → session.folds id = false) :
    Announced next session' (Coupled.audit accounts events) (stream ++ messages) :=
  announced.advance coupled (step.follows coupled.valid coupled.hungry)
    (step.reports coupled.valid coupled.hungry) (step.unstopped announced.unstopped) hears told

theorem run (announced : Announced state session accounts stream)
    (coupled : Coupled state session accounts stream) (run : Run Step state events next)
    (hears : Hears session events session' messages)
    (told : ∀ id, .cancel id ∈ events → session.folds id = false) :
    Announced next session' (Coupled.audit accounts events) (stream ++ messages) := by
  induction run generalizing session' messages with
  | refl =>
      rcases hears.unique (Hears.refl session) with ⟨rfl, rfl⟩
      rwa [List.append_nil]
  | @snoc events new middle final run last induction =>
      rcases coupled.run run with ⟨between, first, heard, coupled'⟩
      rcases coupled'.step last with ⟨_, second, heard', -⟩
      have before := induction heard fun id member => told id (List.mem_append_left _ member)
      have folds (id : OrderId) : between.folds id = session.folds id := by
        rw [Session.folds, heard.mode, heard.replaceId]
        rfl
      have after := before.step coupled' last heard' fun id member =>
        (folds id).trans (told id (List.mem_append_right _ member))
      rcases hears.unique (heard.trans heard') with ⟨rfl, rfl⟩
      have accountsAfter : Coupled.audit (Coupled.audit accounts events) new =
          Coupled.audit accounts (events ++ new) := by
        funext id
        exact (Account.told_append id (accounts id) events new).symm
      rwa [accountsAfter, List.append_assoc] at after

theorem congr (announced : Announced state session accounts stream)
    (tokens : session'.tokenOf = session.tokenOf) : Announced state session' accounts stream := by
  have tokenStr (id : OrderId) : session'.tokenStr id = session.tokenStr id := by
    rw [Session.tokenStr, tokens]
    rfl
  constructor
  case closed => exact fun id isIssued => tokenStr id ▸ announced.closed id isIssued
  case owned =>
      intro token left entry some
      rcases announced.owned token left entry some with ⟨id, isIssued, owns⟩
      exact ⟨id, isIssued, (tokenStr id).trans owns⟩
  case limits => exact announced.limits
  case unstopped => exact announced.unstopped

theorem rejected (announced : Announced state session accounts stream) (token : List UInt8)
    (reason : UInt8) : Announced state session accounts (stream ++ [.rejected token reason]) := by
  have same : Ledger.after (stream ++ [.rejected token reason]) = Ledger.after stream :=
    Ledger.after_snoc _ _
  constructor
  case closed => rw [same]; exact announced.closed
  case owned => rw [same]; exact announced.owned
  case limits => exact announced.limits
  case unstopped => exact announced.unstopped

/-! ### The first step of an operation -/

variable {m m' : Market} {phase : Phase}

/-- An order is accepted under the pending token. -/
theorem accepting (announced : Announced (m, .idle) session accounts stream) (phase : Phase)
    (started : 0 < m.nextId) (entering : session.mode = .enter)
    (sized : session.tokenOf.size = m.nextId)
    (fresh : ∀ id, Issued (m, .idle) id → session.tokenStr id ≠ session.pendingToken)
    (side : Side) (price : Price) (qty : Qty) (number : UInt64) (told : UInt32) (px : Int64) :
    Announced ({ m with nextId := m.nextId + 1 }, phase) (session.evAccept m.nextId side price qty)
      (Coupled.audit accounts [.accept m.nextId side price qty])
      (stream ++ [.accepted session.pendingToken number side told px]) := by
  have tokenStr (id : OrderId) : (session.evAccept m.nextId side price qty).tokenStr id =
      if id = m.nextId then session.pendingToken else session.tokenStr id :=
    Session.evAccept_tokenStr entering sized side price qty id
  have before {id : OrderId} (isIssued : Issued ({ m with nextId := m.nextId + 1 }, phase) id)
      (other : id ≠ m.nextId) : Issued (m, .idle) id :=
    ⟨isIssued.1, Nat.lt_of_le_of_ne (Nat.le_of_lt_succ isIssued.2) other⟩
  constructor
  case closed =>
      intro id isIssued cancelled
      by_cases new : id = m.nextId
      · subst new
        simp [Coupled.audit, Account.see] at cancelled
      · have unchanged : Coupled.audit accounts [.accept m.nextId side price qty] id =
          accounts id :=
          if_neg (Ne.symm new)
        rw [unchanged] at cancelled
        rw [tokenStr, if_neg new, Ledger.after_snoc, Ledger.read,
          Function.update_of_ne (fresh id (before isIssued new))]
        exact announced.closed id (before isIssued new) cancelled
  case owned =>
      intro token left entry some
      rw [Ledger.after_snoc, Ledger.read, Function.update_apply] at entry
      split at entry
      case isTrue same =>
        exact ⟨m.nextId, ⟨started, Nat.lt_succ_self _⟩, by rw [tokenStr, if_pos rfl, same]⟩
      case isFalse other =>
        rcases announced.owned token left entry some with ⟨id, isIssued, owns⟩
        refine ⟨id, ⟨isIssued.1, Nat.lt_succ_of_lt isIssued.2⟩, ?_⟩
        rw [tokenStr, if_neg (Nat.ne_of_lt isIssued.2), owns]
  case limits => exact fun id => (announced.limits id).told
  case unstopped => exact announced.unstopped

theorem amend (announced : Announced (m, .idle) session accounts stream)
    (coupled : Coupled (m, .idle) session accounts stream) {id : OrderId}
    (isIssued : Issued (m, .idle) id) {price : Price} {qty : UInt32}
    (start : m.Begin (.modify id price qty.toUInt64) events (m', phase) (.ok true))
    {newToken : List UInt8}
    (fresh : ∀ id', Issued (m, .idle) id' → session.tokenStr id' ≠ newToken)
    (rebound : ∀ other, session'.tokenStr other =
      if other = id then newToken else session.tokenStr other) (number : UInt64) (px : Int64) :
    Announced (m', phase) session'
      (Coupled.auditCall accounts (.modify id price qty.toUInt64) (.ok true) events)
      (stream ++ [.replaced (session.tokenStr id) newToken number qty px]) := by
  have amends := Coupled.amends coupled.valid.1 start
  have issued (other : OrderId) : Issued (m', phase) other ↔ Issued (m, .idle) other := by
    have same : m'.nextId = m.nextId := amends.nextId
    rw [Issued, Issued, same]
  constructor
  case closed =>
      intro other isOther cancelled
      rw [issued] at isOther
      rw [rebound, Ledger.after_snoc, Ledger.read, Function.update_apply]
      by_cases same : other = id
      · subst same
        have zero := amends.closes (accounts other) (coupled.balanced other) cancelled
        have none : qty.toNat = 0 := by simpa using congrArg UInt64.toNat zero
        rw [if_pos rfl, if_pos rfl, none]
      · rw [Coupled.auditCall, amends.untouched (accounts other) same] at cancelled
        have apart : session.tokenStr other ≠ session.tokenStr id := fun token =>
          same (coupled.distinct other id isOther isIssued token)
        rw [if_neg same, if_neg (fresh other isOther), Function.update_of_ne apart]
        exact announced.closed other isOther cancelled
  case owned =>
      intro token left entry some
      rw [Ledger.after_snoc, Ledger.read] at entry
      simp only [Function.update_apply] at entry
      split at entry
      case isTrue new =>
        exact ⟨id, (issued id).mpr isIssued, by rw [rebound, if_pos rfl, new]⟩
      case isFalse =>
        split at entry
        case isTrue =>
          rcases Option.map_eq_some_iff.mp entry with ⟨_, -, rfl⟩
          exact absurd some (Nat.lt_irrefl 0)
        case isFalse old =>
          rcases announced.owned token left entry some with ⟨other, isOther, rfl⟩
          have apart : other ≠ id := fun same => old (congrArg session.tokenStr same)
          exact ⟨other, (issued other).mpr isOther, by rw [rebound, if_neg apart]⟩
  case limits =>
      intro other
      have called : ((accounts other).see other
          (.called (.modify id price qty.toUInt64) (.ok true))).Limits :=
        ⟨(announced.limits other).1, rfl⟩
      exact called.told
  case unstopped => exact start.unstopped .modify announced.unstopped

end Announced

end Ouch

end Matchbook
