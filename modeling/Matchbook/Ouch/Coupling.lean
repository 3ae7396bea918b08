import Matchbook.Market.Determinism
import Matchbook.Market.Reports
import Matchbook.Ouch.Gateway
import Matchbook.Ouch.Stream

namespace Matchbook

open Transitions

/-! # The market behind the stream

While an operation runs, the ledger that a reader of the stream keeps agrees with the
accounts of the orders, each under the token of its id. -/

/-! ## Accounts -/

section accounts

variable {id : OrderId} {state next : Market × Phase} {account : Account} {events : List Event}

theorem Balanced.openFor {qty : Nat} (balanced : Balanced id state account)
    (isOpen : OpenFor state id qty) : account.cancelled = false ∧ qty ≤ account.left := by
  rcases isOpen with ⟨q, discards, isOpen, within⟩
  rcases balanced.opens q discards isOpen with ⟨balance, standing, -⟩
  refine ⟨standing, ?_⟩
  unfold Account.left
  lia

theorem Account.told_onlyRests (rests : OnlyRests events) : account.told id events = account := by
  apply foldl_ignored
  intro entry member
  rcases List.mem_map.mp member with ⟨event, isEvent, rfl⟩
  rcases rests event isEvent with ⟨id, side, price, displayed, rfl⟩
  rfl

theorem fills_onlyRests (rests : OnlyRests events) : Market.tally (fun _ => 1) events = 0 := by
  apply Market.tally_eq_zero
  intro trade member
  rcases rests _ member with ⟨id, side, price, displayed, same⟩
  cases same

theorem Account.told_trade {t : Trade} (rests : OnlyRests events) :
    account.told id (.trade t :: events) =
      if t.taker = id ∨ t.maker = id then
        { account with traded := account.traded + t.qty.toNat }
      else account := by
  rw [told_cons, told_onlyRests rests]
  rfl

structure Follows (state : Market × Phase) (events : List Event) (next : Market × Phase) :
    Prop where
  valid : ValidState next
  hungry : next.2.Hungry
  nextId : next.1.nextId = state.1.nextId
  balanced : ∀ id account, Balanced id state account → Balanced id next (account.told id events)

theorem Step.follows (step : Step state events next) (valid : ValidState state)
    (hungry : state.2.Hungry) : Follows state events next where
  valid := step.valid valid
  hungry := step.hungry hungry
  nextId := by cases step <;> rfl
  balanced _ _ balanced := step.balanced valid balanced

end accounts

namespace Ouch

/-! ## What a session tells -/

namespace Session

variable (session : Session)

def tells : Event → List OutMsg
  | .trade t =>
      [.executed (session.tokenStr t.taker) t.qty.toUInt32 (Int64.ofInt t.price)
          (session.matchSeq + 1),
        .executed (session.tokenStr t.maker) t.qty.toUInt32 (Int64.ofInt t.price)
          (session.matchSeq + 1)]
  | .cancel id =>
      if session.folds id then []
      else [.canceled (session.tokenStr id) (session.cancelReason id)]
  | _ => []

theorem onAll_onlyRests {events : List Event} (rests : OnlyRests events) :
    Handler.onAll session events = session := by
  induction events with
  | nil => rfl
  | cons event events induction =>
      rcases rests event List.mem_cons_self with ⟨id, side, price, displayed, rfl⟩
      exact induction fun event member => rests event (List.mem_cons_of_mem _ member)

end Session

structure Exact (token : List UInt8) : Prop where
  noNul : (0 : UInt8) ∉ token
  whole : token.length = tokenLen

theorem Exact.isToken {token : List UInt8} (exact : Exact token) : IsToken token :=
  ⟨exact.noNul, Nat.le_of_eq exact.whole⟩

theorem Exact.putToken_eq {token : List UInt8} (exact : Exact token) : putToken token = token :=
  putToken_of_length exact.whole

def Spells (stream : List (List UInt8)) (messages : List OutMsg) : Prop :=
  stream.map decodeOut = messages.map some

section spells

variable {first second : List (List UInt8)} {messages messages' : List OutMsg}

theorem spells_nil : Spells [] [] := rfl

theorem Spells.append (left : Spells first messages) (right : Spells second messages') :
    Spells (first ++ second) (messages ++ messages') := by
  rw [Spells, List.map_append, List.map_append, left, right]

theorem Spells.filterMap (spells : Spells first messages) :
    first.filterMap decodeOut = messages := by
  have read := congrArg (List.filterMap fun entry => entry) spells
  simpa [List.filterMap_map, Function.comp_def] using read

theorem spells_executed {token : List UInt8} (exact : Exact token) (qty : UInt32) (price : Price)
    (number : UInt64) : Spells [encodeExecuted token qty price number]
      [.executed token qty (Int64.ofInt price) number] := by
  have read := decodeOut_encodeExecuted exact.isToken qty price number
  rw [exact.putToken_eq] at read
  simp [Spells, read]

theorem spells_canceled {token : List UInt8} (exact : Exact token) (reason : UInt8) :
    Spells [encodeCanceled token reason] [.canceled token reason] := by
  have read := decodeOut_encodeCanceled exact.isToken reason
  rw [exact.putToken_eq] at read
  simp [Spells, read]

theorem spells_rejected {token : List UInt8} (exact : Exact token) (reason : UInt8) :
    Spells [encodeRejected token reason] [.rejected token reason] := by
  have read := decodeOut_encodeRejected exact.isToken reason
  rw [exact.putToken_eq] at read
  simp [Spells, read]

theorem spells_accepted {token : List UInt8} (exact : Exact token) (id : OrderId) (side : Side)
    (qty : UInt32) (price : Price) : Spells [encodeAccepted token id side qty price]
      [.accepted token (UInt64.ofNat id) side qty (Int64.ofInt price)] := by
  have read := decodeOut_encodeAccepted exact.isToken id side qty price
  rw [exact.putToken_eq] at read
  simp [Spells, read]

theorem spells_replaced {token newToken : List UInt8} (exact : Exact token)
    (exactNew : Exact newToken) (id : OrderId) (qty : UInt32) (price : Price) :
    Spells [encodeReplaced token newToken id qty price]
      [.replaced token newToken (UInt64.ofNat id) qty (Int64.ofInt price)] := by
  have read := decodeOut_encodeReplaced exact.isToken exactNew.isToken id qty price
  rw [exact.putToken_eq, exactNew.putToken_eq] at read
  simp [Spells, read]

end spells

/-! ## The ledger along a stream -/

section ledger

variable {stream : List OutMsg} {token other : List UInt8} {qty : UInt32} {price : Int64}
  {number : UInt64}

theorem after_executed (token other : List UInt8) (qty : UInt32) (price : Int64) (number : UInt64) :
    Ledger.after (stream ++ [.executed token qty price number]) other =
      if other = token then (Ledger.after stream token).map (· - qty.toNat)
      else Ledger.after stream other := by
  rw [Ledger.after_snoc, Ledger.read, Function.update_apply]

theorem after_canceled (token other : List UInt8) (reason : UInt8) :
    Ledger.after (stream ++ [.canceled token reason]) other =
      if other = token then (Ledger.after stream token).map fun _ => 0
      else Ledger.after stream other := by
  rw [Ledger.after_snoc, Ledger.read, Function.update_apply]

theorem left_lt {left : Nat} (entry : Ledger.after stream token = some left) : left < 2 ^ 32 := by
  induction stream using List.reverseRecOn generalizing left token with
  | nil => cases entry
  | append_singleton stream m induction =>
      rw [Ledger.after_snoc] at entry
      cases m with
      | accepted other number side qty price =>
          have small := qty.toNat_lt
          simp only [Ledger.read, Function.update_apply] at entry
          split at entry
          · cases entry
            exact small
          · exact induction entry
      | executed other qty price number =>
          simp only [Ledger.read, Function.update_apply] at entry
          split at entry
          · rcases Option.map_eq_some_iff.mp entry with ⟨before, found, rfl⟩
            exact Nat.lt_of_le_of_lt (Nat.sub_le _ _) (induction found)
          · exact induction entry
      | canceled other reason =>
          simp only [Ledger.read, Function.update_apply] at entry
          split at entry
          · rcases Option.map_eq_some_iff.mp entry with ⟨before, found, rfl⟩
            exact Nat.two_pow_pos 32
          · exact induction entry
      | replaced old new number qty price =>
          have small := qty.toNat_lt
          simp only [Ledger.read, Function.update_apply] at entry
          split at entry
          · cases entry
            exact small
          split at entry
          · rcases Option.map_eq_some_iff.mp entry with ⟨before, found, rfl⟩
            exact Nat.two_pow_pos 32
          · exact induction entry
      | rejected other reason => exact induction entry

end ledger

/-! ## The coupling -/

def Issued (state : Market × Phase) (id : OrderId) : Prop := 0 < id ∧ id < state.1.nextId

structure Coupled (state : Market × Phase) (session : Session) (accounts : OrderId → Account)
    (stream : List OutMsg) : Prop where
  valid : ValidState state
  hungry : state.2.Hungry
  balanced : ∀ id, Balanced id state (accounts id)
  exact : ∀ id, Issued state id → Exact (session.tokenStr id)
  distinct : ∀ id id', Issued state id → Issued state id' →
    session.tokenStr id = session.tokenStr id' → id = id'
  linked : ∀ id, Issued state id → (accounts id).cancelled = false →
    Ledger.after stream (session.tokenStr id) = some (accounts id).left
  consistent : Consistent stream
  numbered : ∃ matched, stream.filterMap OutMsg.execution = bothSides matched 1 ∧
    session.matchSeq = UInt64.ofNat matched.length

structure Hears (session : Session) (events : List Event) (session' : Session)
    (messages : List OutMsg) : Prop where
  heard : Handler.onAll session events = session'
  queued : ∃ bytes, session'.out = session.out ++ bytes ∧ Spells bytes messages
  acted : ∀ m ∈ messages, m.acted.isSome
  /-- Every trade is told twice. -/
  counted : (messages.filterMap OutMsg.execution).length = 2 * Market.tally (fun _ => 1) events
  tokens : session'.tokenOf = session.tokenOf
  mode : session'.mode = session.mode
  replaceId : session'.replaceId = session.replaceId

theorem Hears.tokenStr {session session' : Session} {events : List Event}
    {messages : List OutMsg} (hears : Hears session events session' messages) (id : OrderId) :
    session'.tokenStr id = session.tokenStr id := by
  rw [Session.tokenStr, hears.tokens]
  rfl

theorem Hears.refl (session : Session) : Hears session [] session [] :=
  ⟨rfl, ⟨[], (List.append_nil _).symm, spells_nil⟩, fun _ member => absurd member List.not_mem_nil,
    rfl, rfl, rfl, rfl⟩

theorem Hears.trans {session session' session'' : Session} {events events' : List Event}
    {messages messages' : List OutMsg} (first : Hears session events session' messages)
    (second : Hears session' events' session'' messages') :
    Hears session (events ++ events') session'' (messages ++ messages') := by
  rcases first.queued with ⟨bytes, out, spells⟩
  rcases second.queued with ⟨bytes', out', spells'⟩
  constructor
  case heard => rw [Handler.onAll_append, first.heard, second.heard]
  case queued =>
    exact ⟨bytes ++ bytes', by rw [out', out, List.append_assoc], spells.append spells'⟩
  case acted =>
      intro m member
      rcases List.mem_append.mp member with before | later
      · exact first.acted m before
      · exact second.acted m later
  case counted =>
      rw [List.filterMap_append, List.length_append, first.counted, second.counted,
        Market.tally_append]
      lia
  case tokens => exact second.tokens.trans first.tokens
  case mode => exact second.mode.trans first.mode
  case replaceId => exact second.replaceId.trans first.replaceId

namespace Coupled

variable {state next : Market × Phase} {session : Session} {accounts : OrderId → Account}
  {stream : List OutMsg} {events : List Event}

def audit (accounts : OrderId → Account) (events : List Event) (id : OrderId) : Account :=
  (accounts id).told id events

def auditCall (accounts : OrderId → Account) (op : Op) (ret : Ret) (events : List Event)
    (id : OrderId) : Account :=
  ((accounts id).see id (.called op ret)).told id events

theorem issued (coupled : Coupled state session accounts stream) {id : OrderId} {qty : Nat}
    (isOpen : OpenFor state id qty) : Issued state id := by
  rcases isOpen with ⟨q, discards, holds | ⟨t, going, rfl, -⟩, -⟩
  · exact coupled.valid.1.issued id holds.isOpen
  · have phase := coupled.valid.2
    rcases going with same | same <;> rw [same] at phase <;> exact phase.issued

theorem left_of_open (coupled : Coupled state session accounts stream) {id : OrderId} {qty : Nat}
    (isOpen : OpenFor state id qty) :
    ∃ left, Ledger.after stream (session.tokenStr id) = some left ∧ qty ≤ left := by
  rcases (coupled.balanced id).openFor isOpen with ⟨standing, within⟩
  exact ⟨_, coupled.linked id (coupled.issued isOpen) standing, within⟩

/-- A step, if the session tells of it what it changes. -/
theorem advance (coupled : Coupled state session accounts stream)
    (follows : Follows state events next)
    {session' : Session} {messages : List OutMsg} (hears : Hears session events session' messages)
    (consistent : Consistent (stream ++ messages))
    (linked : ∀ id, Issued state id → (audit accounts events id).cancelled = false →
      Ledger.after (stream ++ messages) (session.tokenStr id) =
        some (audit accounts events id).left)
    (numbered : ∃ matched,
      (stream ++ messages).filterMap OutMsg.execution = bothSides matched 1 ∧
        session'.matchSeq = UInt64.ofNat matched.length) :
    Coupled next session' (audit accounts events) (stream ++ messages) := by
  have issued (id : OrderId) (isIssued : Issued next id) : Issued state id := by
    rwa [Issued, follows.nextId] at isIssued
  constructor
  case valid => exact follows.valid
  case hungry => exact follows.hungry
  case balanced => exact fun id => follows.balanced id _ (coupled.balanced id)
  case exact =>
      intro id isIssued
      rw [hears.tokenStr]
      exact coupled.exact id (issued id isIssued)
  case distinct =>
      intro id id' first second same
      rw [hears.tokenStr, hears.tokenStr] at same
      exact coupled.distinct id id' (issued id first) (issued id' second) same
  case linked =>
      intro id isIssued standing
      rw [hears.tokenStr]
      exact linked id (issued id isIssued) standing
  case consistent => exact consistent
  case numbered => exact numbered

/-- A step the session has nothing to tell of. -/
theorem quiet (coupled : Coupled state session accounts stream)
    (follows : Follows state events next)
    (heard : Handler.onAll session events = session)
    (untraded : Market.tally (fun _ => 1) events = 0)
    (same : ∀ id, (audit accounts events id).cancelled = false →
      audit accounts events id = accounts id) :
    Hears session events session [] ∧
      Coupled next session (audit accounts events) (stream ++ []) := by
  have hears : Hears session events session [] :=
    { Hears.refl session with heard := heard, counted := by rw [untraded]; rfl }
  refine ⟨hears, coupled.advance follows hears ?_ ?_ ?_⟩ <;> rw [List.append_nil]
  · exact coupled.consistent
  · intro id isIssued standing
    have unchanged := same id standing
    rw [unchanged] at standing ⊢
    exact coupled.linked id isIssued standing
  · exact coupled.numbered

/-- A trade is told to its taker and to its maker. -/
theorem trade (coupled : Coupled state session accounts stream) {t : Trade} {rests : List Event}
    (follows : Follows state (.trade t :: rests) next) (onlyRests : OnlyRests rests)
    (apart : t.taker ≠ t.maker) (some : 0 < t.qty.toNat)
    (taker : OpenFor state t.taker t.qty.toNat) (maker : OpenFor state t.maker t.qty.toNat) :
    Hears session (.trade t :: rests) (session.evTrade t) (session.tells (.trade t)) ∧
      Coupled next (session.evTrade t) (audit accounts (.trade t :: rests))
        (stream ++ session.tells (.trade t)) := by
  have takerExact := coupled.exact _ (coupled.issued taker)
  have makerExact := coupled.exact _ (coupled.issued maker)
  have different : session.tokenStr t.maker ≠ session.tokenStr t.taker := fun same =>
    apart (coupled.distinct _ _ (coupled.issued maker) (coupled.issued taker) same).symm
  rcases coupled.left_of_open taker with ⟨takerLeft, takerEntry, takerWithin⟩
  rcases coupled.left_of_open maker with ⟨makerLeft, makerEntry, makerWithin⟩
  have small : t.qty.toNat < 2 ^ 32 := Nat.lt_of_le_of_lt takerWithin (left_lt takerEntry)
  have qty : t.qty.toUInt32.toNat = t.qty.toNat := by
    rw [UInt64.toNat_toUInt32]
    exact Nat.mod_eq_of_lt small
  have hears : Hears session (.trade t :: rests) (session.evTrade t)
      (session.tells (.trade t)) := by
    constructor
    case heard => exact Session.onAll_onlyRests (session.evTrade t) onlyRests
    case queued =>
        refine ⟨_, List.append_assoc _ _ _, ?_⟩
        exact (spells_executed takerExact _ _ _).append (spells_executed makerExact _ _ _)
    case acted => simp [Session.tells, OutMsg.acted]
    case counted =>
        rw [Market.tally_trade, fills_onlyRests onlyRests]
        rfl
    case tokens => rfl
    case mode => rfl
    case replaceId => rfl
  have split : stream ++ session.tells (.trade t) =
      stream ++ [.executed (session.tokenStr t.taker) t.qty.toUInt32 (Int64.ofInt t.price)
          (session.matchSeq + 1)] ++
        [.executed (session.tokenStr t.maker) t.qty.toUInt32 (Int64.ofInt t.price)
          (session.matchSeq + 1)] := by simp [Session.tells]
  refine ⟨hears, coupled.advance follows hears ?_ ?_ ?_⟩ <;> rw [split]
  · rw [consistent_snoc, consistent_snoc]
    refine ⟨⟨coupled.consistent, takerLeft, takerEntry, ?_, ?_⟩, makerLeft, ?_, ?_, ?_⟩
    · rwa [qty]
    · rwa [qty]
    · rw [after_executed, if_neg different]
      exact makerEntry
    · rwa [qty]
    · rwa [qty]
  · intro id isIssued standing
    rw [audit, Account.told_trade onlyRests] at standing ⊢
    have sameToken {id' : OrderId} (other : Issued state id') :
        session.tokenStr id = session.tokenStr id' ↔ id = id' :=
      ⟨coupled.distinct _ _ isIssued other, congrArg session.tokenStr⟩
    have before : (accounts id).cancelled = false := by
      split at standing <;> exact standing
    have entry := coupled.linked id isIssued before
    simp only [after_executed, if_neg different, sameToken (coupled.issued maker),
      sameToken (coupled.issued taker)]
    by_cases isMaker : id = t.maker
    · subst isMaker
      rw [if_pos rfl, if_pos (.inr rfl), entry, Option.map_some, qty]
      congr 1
      unfold Account.left
      lia
    · by_cases isTaker : id = t.taker
      · subst isTaker
        rw [if_neg isMaker, if_pos rfl, if_pos (.inl rfl), entry, Option.map_some, qty]
        congr 1
        unfold Account.left
        lia
      · rw [if_neg isMaker, if_neg isTaker, if_neg (not_or.mpr ⟨Ne.symm isTaker, Ne.symm isMaker⟩)]
        exact entry
  · rcases coupled.numbered with ⟨matched, executions, number⟩
    refine ⟨matched ++ [(t.qty.toUInt32, Int64.ofInt t.price)], ?_, ?_⟩
    · have next : session.matchSeq + 1 = UInt64.ofNat (1 + matched.length) := by
        rw [number, Nat.add_comm, UInt64.ofNat_add]
        rfl
      rw [List.filterMap_append, List.filterMap_append, executions, bothSides_snoc, ← next]
      simp [OutMsg.execution]
    · have next : (session.evTrade t).matchSeq = session.matchSeq + 1 := rfl
      rw [next, number, List.length_append, UInt64.ofNat_add]
      rfl

/-- A cancel is told under the token of its order, unless the session folds it. -/
theorem cancel (coupled : Coupled state session accounts stream) {id : OrderId}
    (follows : Follows state [.cancel id] next) (isOpen : OpenFor state id 1) :
    Hears session [.cancel id] (session.evCancel id) (session.tells (.cancel id)) ∧
      Coupled next (session.evCancel id) (audit accounts [.cancel id])
        (stream ++ session.tells (.cancel id)) := by
  have others {other : OrderId} (standing : (audit accounts [.cancel id] other).cancelled = false) :
      id ≠ other ∧ audit accounts [.cancel id] other = accounts other := by
    by_cases same : id = other
    · simp [audit, Account.see, same] at standing
    · exact ⟨same, if_neg same⟩
  cases folds : session.folds id with
  | true =>
      have heard : session.evCancel id = session := if_pos folds
      have told : session.tells (.cancel id) = [] := if_pos folds
      rw [heard, told]
      exact coupled.quiet follows heard rfl fun other standing => (others standing).2
  | false =>
      have isExact := coupled.exact _ (coupled.issued isOpen)
      have heard : session.evCancel id =
          session.emit (encodeCanceled (session.tokenStr id) (session.cancelReason id)) :=
        if_neg (by simp [folds])
      have told : session.tells (.cancel id) =
          [.canceled (session.tokenStr id) (session.cancelReason id)] := if_neg (by simp [folds])
      rcases coupled.left_of_open isOpen with ⟨left, entry, some⟩
      rw [heard, told]
      have hears : Hears session [.cancel id]
          (session.emit (encodeCanceled (session.tokenStr id) (session.cancelReason id)))
          [.canceled (session.tokenStr id) (session.cancelReason id)] :=
        ⟨heard, ⟨_, rfl, spells_canceled isExact _⟩, by simp [OutMsg.acted], rfl, rfl, rfl, rfl⟩
      refine ⟨hears, coupled.advance follows hears ?_ ?_ ?_⟩
      · exact consistent_snoc.mpr ⟨coupled.consistent, left, entry, some⟩
      · intro other isIssued standing
        rcases others standing with ⟨different, unchanged⟩
        rw [unchanged] at standing ⊢
        have apart : session.tokenStr other ≠ session.tokenStr id := fun same =>
          different (coupled.distinct _ _ isIssued (coupled.issued isOpen) same).symm
        rw [after_canceled, if_neg apart]
        exact coupled.linked other isIssued standing
      · rcases coupled.numbered with ⟨matched, executions, number⟩
        refine ⟨matched, ?_, number⟩
        rw [List.filterMap_append, executions]
        simp [OutMsg.execution]

theorem step (coupled : Coupled state session accounts stream) (step : Step state events next) :
    ∃ session' messages, Hears session events session' messages ∧
      Coupled next session' (audit accounts events) (stream ++ messages) := by
  have follows := step.follows coupled.valid coupled.hungry
  cases step.reports coupled.valid coupled.hungry with
  | nothing rests =>
      refine ⟨session, [], coupled.quiet follows (session.onAll_onlyRests rests)
        (fills_onlyRests rests) ?_⟩
      exact fun id _ => Account.told_onlyRests rests
  | trade rests apart some taker maker =>
      exact ⟨_, _, coupled.trade follows rests apart some taker maker⟩
  | cancel isOpen => exact ⟨_, _, coupled.cancel follows isOpen⟩

theorem run (coupled : Coupled state session accounts stream) (run : Run Step state events next) :
    ∃ session' messages, Hears session events session' messages ∧
      Coupled next session' (audit accounts events) (stream ++ messages) := by
  induction run with
  | refl => exact ⟨session, [], Hears.refl session, by rwa [List.append_nil]⟩
  | @snoc events new middle final run last induction =>
      rcases induction with ⟨session', messages, hears, coupled'⟩
      rcases coupled'.step last with ⟨session'', messages', hears', coupled''⟩
      refine ⟨session'', messages ++ messages', hears.trans hears', ?_⟩
      have accountsAfter : audit (audit accounts events) new = audit accounts (events ++ new) := by
        funext id
        exact (Account.told_append id (accounts id) events new).symm
      rw [accountsAfter, List.append_assoc] at coupled''
      exact coupled''

/-! ### The first step of an operation -/

theorem congr (coupled : Coupled state session accounts stream) {session' : Session}
    (tokens : session'.tokenOf = session.tokenOf) (number : session'.matchSeq = session.matchSeq) :
    Coupled state session' accounts stream := by
  have tokenStr (id : OrderId) : session'.tokenStr id = session.tokenStr id := by
    rw [Session.tokenStr, tokens]
    rfl
  constructor
  case valid => exact coupled.valid
  case hungry => exact coupled.hungry
  case balanced => exact coupled.balanced
  case exact => exact fun id isIssued => tokenStr id ▸ coupled.exact id isIssued
  case distinct =>
      intro id id' first second same
      rw [tokenStr, tokenStr] at same
      exact coupled.distinct id id' first second same
  case linked =>
      intro id isIssued standing
      rw [tokenStr]
      exact coupled.linked id isIssued standing
  case consistent => exact coupled.consistent
  case numbered => rw [number]; exact coupled.numbered

theorem rejected (coupled : Coupled state session accounts stream) (token : List UInt8)
    (reason : UInt8) : Coupled state session accounts (stream ++ [.rejected token reason]) where
  valid := coupled.valid
  hungry := coupled.hungry
  balanced := coupled.balanced
  exact := coupled.exact
  distinct := coupled.distinct
  linked id isIssued standing := by
    rw [Ledger.after_snoc]
    exact coupled.linked id isIssued standing
  consistent := consistent_snoc.mpr ⟨coupled.consistent, trivial⟩
  numbered := by
    rcases coupled.numbered with ⟨matched, executions, number⟩
    exact ⟨matched, by simp [executions, OutMsg.execution], number⟩

end Coupled

namespace Session

theorem evAccept_eq {session : Session} (entering : session.mode = .enter) (id : OrderId)
    (side : Side) (price : Price) (qty : Qty) :
    session.evAccept id side price qty =
      { session with
        enteredId := id
        tokenOf := (session.tokenOf ++
          Array.replicate (id + 1 - session.tokenOf.size) []).setIfInBounds id
            session.pendingToken
        out := session.out ++
          [encodeAccepted session.pendingToken id side qty.toUInt32 price] } := by
  have folds : session.folds id = false := by simp [folds, entering]
  rw [evAccept, folds, if_neg Bool.false_ne_true, if_neg (not_not.mpr entering)]
  rfl

theorem getD_grown (table : Array (List UInt8)) (token : List UInt8) (i : Nat) :
    ((table ++ Array.replicate (table.size + 1 - table.size) []).setIfInBounds table.size
      token).getD i [] = if i = table.size then token else table.getD i [] := by
  have one : table.size + 1 - table.size = 1 := by lia
  simp only [Array.getD_eq_getD_getElem?, Array.getElem?_setIfInBounds, one, Array.size_append,
    Array.size_replicate, Nat.lt_succ_self, if_true]
  by_cases last : i = table.size
  · simp [last]
  · rw [if_neg last, if_neg (Ne.symm last), Array.getElem?_append]
    split
    · rfl
    · have beyond : ¬ i - table.size < 1 := by lia
      rw [Array.getElem?_replicate, if_neg beyond, Array.getElem?_eq_none (by lia)]

theorem evAccept_tokenStr {session : Session} {id : OrderId} (entering : session.mode = .enter)
    (sized : session.tokenOf.size = id) (side : Side) (price : Price) (qty : Qty)
    (other : OrderId) :
    (session.evAccept id side price qty).tokenStr other =
      if other = id then session.pendingToken else session.tokenStr other := by
  subst sized
  rw [evAccept_eq entering]
  exact getD_grown _ _ _

theorem evAccept_size {session : Session} {id : OrderId} (entering : session.mode = .enter)
    (sized : session.tokenOf.size = id) (side : Side) (price : Price) (qty : Qty) :
    (session.evAccept id side price qty).tokenOf.size = id + 1 := by
  rw [evAccept_eq entering]
  simp [sized]

end Session

namespace Coupled

variable {m : Market} {next : Market × Phase} {session : Session} {accounts : OrderId → Account}
  {stream : List OutMsg} {events : List Event}

theorem accepting (coupled : Coupled (m, .idle) session accounts stream) {t : Taker} {phase : Phase}
    (going : phase = .taking t ∨ phase = .stopped t) (number : t.id = m.nextId)
    (taker : t.Valid { m with nextId := m.nextId + 1 }) (announced : t.remainder ≠ .discard)
    (some : t.qty ≠ 0) {qty : UInt32} (amount : t.qty = qty.toUInt64)
    (entering : session.mode = .enter) (sized : session.tokenOf.size = m.nextId)
    (isExact : Exact session.pendingToken)
    (unopened : Ledger.after stream session.pendingToken = none)
    (fresh : ∀ id, Issued (m, .idle) id → session.tokenStr id ≠ session.pendingToken)
    (side : Side) (price : Price) :
    Coupled ({ m with nextId := m.nextId + 1 }, phase)
      (session.evAccept t.id side price t.qty) (audit accounts [.accept t.id side price t.qty])
      (stream ++ [.accepted session.pendingToken (UInt64.ofNat t.id) side qty
        (Int64.ofInt price)]) := by
  have tokenStr (id : OrderId) : (session.evAccept t.id side price t.qty).tokenStr id =
      if id = t.id then session.pendingToken else session.tokenStr id :=
    Session.evAccept_tokenStr entering (sized.trans number.symm) side price t.qty id
  have before {id : OrderId} (isIssued : Issued ({ m with nextId := m.nextId + 1 }, phase) id)
      (other : id ≠ t.id) : Issued (m, .idle) id := by
    rw [number] at other
    exact ⟨isIssued.1, Nat.lt_of_le_of_ne (Nat.le_of_lt_succ isIssued.2) other⟩
  constructor
  case valid =>
      refine ⟨coupled.valid.1.issue, ?_⟩
      rcases going with rfl | rfl <;> exact taker
  case hungry =>
      rcases going with rfl | rfl
      · trivial
      · exact some
  case balanced =>
      intro id
      exact (coupled.balanced id).issue.accepting taker.fresh going fun discards =>
        absurd discards announced
  case exact =>
      intro id isIssued
      rw [tokenStr]
      split
      · exact isExact
      · exact coupled.exact id (before isIssued ‹_›)
  case distinct =>
      intro id id' first second same
      rw [tokenStr, tokenStr] at same
      split at same <;> split at same
      · exact ‹id = t.id›.trans ‹id' = t.id›.symm
      · exact absurd same.symm (fresh id' (before second ‹_›))
      · exact absurd same (fresh id (before first ‹_›))
      · exact coupled.distinct id id' (before first ‹_›) (before second ‹_›) same
  case linked =>
      intro id isIssued standing
      rw [tokenStr, Ledger.after_snoc, Ledger.read, Function.update_apply]
      by_cases isTaker : id = t.id
      · subst isTaker
        rw [if_pos rfl, if_pos rfl]
        simp [audit, Account.see, Account.left, amount]
      · have unchanged : audit accounts [.accept t.id side price t.qty] id = accounts id :=
          if_neg (Ne.symm isTaker)
        rw [unchanged] at standing ⊢
        rw [if_neg isTaker, if_neg (fresh id (before isIssued isTaker))]
        exact coupled.linked id (before isIssued isTaker) standing
  case consistent => exact consistent_snoc.mpr ⟨coupled.consistent, unopened⟩
  case numbered =>
      rcases coupled.numbered with ⟨matched, executions, sequence⟩
      refine ⟨matched, by simp [executions, OutMsg.execution], ?_⟩
      rw [Session.evAccept_eq entering]
      exact sequence

theorem withdraw (coupled : Coupled (m, .idle) session accounts stream) {id : OrderId}
    (start : m.Begin (.cancel id) events next (.ok true)) :
    events = [.cancel id] ∧ Follows (m, .idle) [.cancel id] next ∧ OpenFor (m, .idle) id 1 := by
  have valid := coupled.valid.1
  have nextValid := start.valid valid
  rcases start.order_cases valid .cancel with ⟨-, -, answer⟩ | ⟨-, -, acted⟩
  · cases answer
  rcases acted with ⟨side, px, front, o, back, place, rfl, same⟩ |
    ⟨front, o, back, place, rfl, same⟩
  · have member : o ∈ m.levels side px := place ▸ List.mem_append_right front List.mem_cons_self
    cases same
    refine ⟨rfl, ⟨nextValid, trivial, rfl, ?_⟩,
      openFor_mem valid member (valid.shape _ _ o member).total_pos⟩
    intro other account balanced
    apply balanced.cancel
    intro q discards
    rw [open_idle, open_idle]
    exact valid.holds_remove place
  · have member : o ∈ m.stops := place ▸ List.mem_append_right front List.mem_cons_self
    cases same
    refine ⟨rfl, ⟨nextValid, trivial, rfl, ?_⟩, o.qty.toNat, o.stopMarket, ?_, ?_⟩
    · intro other account balanced
      apply balanced.cancel
      intro q discards
      rw [open_idle, open_idle]
      exact valid.holds_unpark place
    · exact .inl ((valid.holds_of_stop member).mpr ⟨rfl, rfl⟩)
    · exact UInt64.lt_iff_toNat_lt.mp (valid.stopShape o member).1

structure Amends (m : Market) (id : OrderId) (price : Price) (qty : Qty) (events : List Event)
    (next : Market × Phase) : Prop where
  own : ∀ event ∈ events, event = .cancel id ∨ ∃ side, event = .accept id side price qty
  hungry : next.2.Hungry
  nextId : next.1.nextId = m.nextId
  left : ∀ account : Account, Balanced id (m, .idle) account →
    ((account.see id (.called (.modify id price qty) (.ok true))).told id events).cancelled =
      false →
    ((account.see id (.called (.modify id price qty) (.ok true))).told id events).left = qty.toNat
  closes : ∀ account : Account, Balanced id (m, .idle) account →
    ((account.see id (.called (.modify id price qty) (.ok true))).told id events).cancelled =
      true → qty = 0

theorem amends (valid : m.Valid) {id : OrderId} {price : Price} {qty : Qty}
    (start : m.Begin (.modify id price qty) events next (.ok true)) :
    Amends m id price qty events next := by
  have cancelled (account : Account) :
      ((account.told id [.cancel id]).cancelled = false) → (account.told id [.cancel id]).left =
        qty.toNat := by
    intro standing
    simp [Account.see] at standing
  rcases start.order_cases valid .modify with ⟨-, -, answer⟩ | ⟨accepted, -, acted⟩
  · cases answer
  rcases acted with ⟨side, px, front, o, back, place, rfl, same⟩ |
    ⟨front, o, back, place, rfl, same⟩
  · have member : o ∈ m.levels side px := place ▸ List.mem_append_right front List.mem_cons_self
    simp only [Market.acting] at same
    split at same
    case isTrue zero =>
      cases same
      exact ⟨by simp, trivial, rfl, fun account _ => cancelled _, fun _ _ _ => zero⟩
    case isFalse nonzero =>
      split at same
      case isTrue less =>
        have within := UInt64.le_iff_toNat_le.mp less.2
        have isOpen : Open (m, .idle) o.id o.total.toNat false :=
          .inl ((valid.holds_of_mem member).mpr ⟨rfl, rfl⟩)
        have taken (account : Account) (balanced : Balanced o.id (m, .idle) account) :
            (account.see o.id (.called (.modify o.id price qty) (.ok true))).left = qty.toNat := by
          have balance := (balanced.opens _ _ isOpen).1
          simp only [Account.see, Op.takesOff, Account.left]
          lia
        have standing (account : Account) (balanced : Balanced o.id (m, .idle) account)
            (closed : account.cancelled = true) : qty = 0 := by
          rw [(balanced.opens _ _ isOpen).2.1] at closed
          cases closed
        unfold Market.takingOff at same
        split at same <;> cases same <;> exact ⟨by simp, trivial, rfl, fun account balanced _ =>
          taken account balanced, standing⟩
      case isFalse moved =>
        cases same
        refine ⟨by simp, trivial, rfl, fun account _ _ => ?_, fun account _ closed => ?_⟩
        · simp [Account.see, Account.left]
        · simp [Account.see] at closed
  · cases same
    have zero : qty = 0 := by
      by_contra nonzero
      have moves : m.inBand price ∧ m.Rests o.id := by
        simpa [Market.Declines, nonzero] using accepted
      rcases moves.2 with ⟨side, px, resting, member, same⟩
      exact valid.apart side px resting member o (by simp [place]) same
    exact ⟨by simp, trivial, rfl, fun account _ => cancelled _, fun _ _ _ => zero⟩

theorem Amends.untouched {id other : OrderId} {price : Price} {qty : Qty}
    (amends : Amends m id price qty events next) (account : Account) (different : other ≠ id) :
    (account.see other (.called (.modify id price qty) (.ok true))).told other events =
      { account with calling := some (.modify id price qty) } := by
  have called : account.see other (.called (.modify id price qty) (.ok true)) =
      { account with calling := some (.modify id price qty) } := by
    simp [Account.see, Op.takesOff, Ne.symm different]
  rw [called]
  apply foldl_ignored
  intro entry member
  rcases List.mem_map.mp member with ⟨event, isEvent, rfl⟩
  rcases amends.own event isEvent with rfl | ⟨side, rfl⟩ <;> exact if_neg (Ne.symm different)

theorem amend (coupled : Coupled (m, .idle) session accounts stream) {id : OrderId}
    (isIssued : Issued (m, .idle) id) {price : Price} {qty : UInt32}
    (start : m.Begin (.modify id price qty.toUInt64) events next (.ok true))
    {newToken : List UInt8} (isExact : Exact newToken)
    (unopened : Ledger.after stream newToken = none)
    (fresh : ∀ id', Issued (m, .idle) id' → session.tokenStr id' ≠ newToken) {session' : Session}
    (rebound : ∀ other, session'.tokenStr other =
      if other = id then newToken else session.tokenStr other)
    (number : session'.matchSeq = session.matchSeq) (folds : session'.folds id = true) :
    Handler.onAll session' events = session' ∧ Coupled next session'
      (auditCall accounts (.modify id price qty.toUInt64) (.ok true) events)
      (stream ++ [.replaced (session.tokenStr id) newToken (UInt64.ofNat id) qty
        (Int64.ofInt price)]) := by
  have amends := amends coupled.valid.1 start
  have untouched {other : OrderId} (different : other ≠ id) :=
    amends.untouched (accounts other) different
  have issued {other : OrderId} (isIssued : Issued next other) : Issued (m, .idle) other := by
    rwa [Issued, amends.nextId] at isIssued
  constructor
  · have ignored : ∀ event ∈ events, Handler.on session' event = session' := by
      intro event member
      rcases amends.own event member with rfl | ⟨side, rfl⟩ <;> exact if_pos folds
    exact foldl_ignored ignored
  constructor
  case valid => exact start.valid coupled.valid.1
  case hungry => exact amends.hungry
  case balanced => exact fun other => start.balanced coupled.valid.1 (coupled.balanced other)
  case exact =>
      intro other isIssued
      rw [rebound]
      split
      · exact isExact
      · exact coupled.exact other (issued isIssued)
  case distinct =>
      intro other other' first second same
      rw [rebound, rebound] at same
      split at same <;> split at same
      · exact ‹other = id›.trans ‹other' = id›.symm
      · exact absurd same.symm (fresh other' (issued second))
      · exact absurd same (fresh other (issued first))
      · exact coupled.distinct other other' (issued first) (issued second) same
  case linked =>
      intro other isOther standing
      rw [rebound, Ledger.after_snoc, Ledger.read, Function.update_apply]
      by_cases same : other = id
      · subst same
        rw [if_pos rfl, if_pos rfl]
        have left := amends.left (accounts other) (coupled.balanced other) standing
        exact congrArg some (left.trans (by simp)).symm
      · rw [auditCall, untouched same] at standing ⊢
        have apart : session.tokenStr other ≠ session.tokenStr id := fun token =>
          same (coupled.distinct other id (issued isOther) isIssued token)
        rw [if_neg same, if_neg (fresh other (issued isOther)), Function.update_of_ne apart]
        exact coupled.linked other (issued isOther) standing
  case consistent =>
      refine consistent_snoc.mpr ⟨coupled.consistent, unopened, ?_⟩
      exact (fresh id isIssued).symm
  case numbered =>
      rcases coupled.numbered with ⟨matched, executions, sequence⟩
      exact ⟨matched, by simp [executions, OutMsg.execution], number.trans sequence⟩

end Coupled

end Ouch

end Matchbook
