import Matchbook.Market.Frame
import Matchbook.Ouch.Announced
import Matchbook.Ouch.Canonical
import Matchbook.Ouch.Tokens

namespace Matchbook

open Transitions

/-! # The outbound stream is well formed -/

/-- What runs behind the first event of a limit order or an iceberg. -/
theorem Market.Performs.limit_runs {m m' : Market} {op : Op} {side : Side} {price : Price}
    {qty : Qty} {tif : TimeInForce} {owner : OwnerId} {stp : StpPolicy} {peak : Qty}
    {events : List Event} {ret : Ret} (entry : op.Limit side price qty tif owner stp peak)
    (performs : m.Performs op events m' ret) :
    let t := Taker.ofLimit m.nextId side price qty tif owner stp peak
    (ret = .id invalidOrderId ∧ ∃ rest, events = .reject invalidOrderId :: rest ∧
      Run Step (m, .idle) rest (m', .idle)) ∨
    (ret = .id m.nextId ∧ m.inBand price ∧ qty ≠ 0 ∧ ∃ phase rest,
      events = .accept m.nextId side price qty :: rest ∧
      (phase = .taking t ∨ phase = .stopped t) ∧
      Run Step ({ m with nextId := m.nextId + 1 }, phase) rest (m', .idle)) := by
  intro t
  cases performs with
  | @intro first rest m₁ phase _ _ start steps settled answers =>
      rcases start.submit_cases entry.isSubmit with ⟨bad, told, answer⟩ | ⟨good, told, answer⟩
      · cases told
        exact .inl ⟨answer.trans entry.rejection_eq, rest, rfl, steps⟩
      · have number : ret = .id m.nextId := by
          rcases answer with ⟨side, qty, owner, stp, rfl⟩ | number
          · cases entry
          · exact number
        rcases not_or.mp (mt entry.rejects.mpr good) with ⟨inside, some⟩
        refine .inr ⟨number, not_not.mp inside, some, ?_⟩
        rw [entering_limit entry, entering] at told
        split at told <;> cases told
        · have killed : Step ({ m with nextId := m.nextId + 1 }, .stopped t) [.cancel m.nextId]
              ({ m with nextId := m.nextId + 1 }, .idle) := .killed Taker.ofLimit_remainder
          exact ⟨.stopped t, _, rfl, .inr rfl, (Run.single killed).trans steps⟩
        · exact ⟨.taking t, rest, rfl, .inl rfl, steps⟩

namespace Ouch

open Itch (byteAt)

theorem known_of_acted {stream messages : List OutMsg} (acted : ∀ m ∈ messages, m.acted.isSome)
    {token : List UInt8} (known : Ledger.after (stream ++ messages) token ≠ none) :
    Ledger.after stream token ≠ none := by
  induction messages using List.reverseRecOn with
  | nil => rwa [List.append_nil] at known
  | append_singleton messages m induction =>
      apply induction fun other member => acted other (List.mem_append_left _ member)
      rw [← List.append_assoc, Ledger.after_snoc] at known
      have isActed := acted m (by simp)
      cases m with
      | executed other qty price number =>
          simp only [Ledger.read, Function.update_apply] at known
          split at known
          · rename_i same
            subst same
            simpa using known
          · exact known
      | canceled other reason =>
          simp only [Ledger.read, Function.update_apply] at known
          split at known
          · rename_i same
            subst same
            simpa using known
          · exact known
      | accepted => cases isActed
      | replaced => cases isActed
      | rejected => cases isActed

/-! ## The tables of tokens -/

structure Filed (byToken : List UInt8 → Option OrderId) (state : Market × Phase)
    (session : Session) (stream : List OutMsg) : Prop where
  sized : session.tokenOf.size = state.1.nextId
  /-- The token of an order leads to it. -/
  filed : ∀ id, Issued state id → byToken (session.tokenStr id) = some id
  /-- A token that is not burned is the token of its order. -/
  owned : ∀ token id, byToken token = some id → id ≠ invalidOrderId →
    Issued state id ∧ session.tokenStr id = token
  /-- A token that was told is in the table. -/
  known : ∀ token, Ledger.after stream token ≠ none → (byToken token).isSome

namespace Filed

variable {byToken : List UInt8 → Option OrderId} {state next : Market × Phase}
  {session session' : Session} {stream messages : List OutMsg} {events : List Event}

theorem unopened (filed : Filed byToken state session stream) {token : List UInt8}
    (unused : ¬ (byToken token).isSome) : Ledger.after stream token = none := by
  by_contra told
  exact unused (filed.known token told)

theorem fresh (filed : Filed byToken state session stream) {token : List UInt8}
    (unused : ¬ (byToken token).isSome) (id : OrderId) (isIssued : Issued state id) :
    session.tokenStr id ≠ token := by
  intro same
  apply unused
  rw [← same, filed.filed id isIssued]
  rfl

theorem congr (filed : Filed byToken state session stream)
    (tokens : session'.tokenOf = session.tokenOf) (same : next.1.nextId = state.1.nextId) :
    Filed byToken next session' stream := by
  have tokenStr (id : OrderId) : session'.tokenStr id = session.tokenStr id := by
    rw [Session.tokenStr, tokens]
    rfl
  have issued (id : OrderId) : Issued next id ↔ Issued state id := by rw [Issued, Issued, same]
  constructor
  case sized => rw [tokens, same, filed.sized]
  case filed => exact fun id isIssued => tokenStr id ▸ filed.filed id ((issued id).mp isIssued)
  case owned =>
      intro token id entry valid
      rw [issued, tokenStr]
      exact filed.owned token id entry valid
  case known => exact filed.known

theorem acted (filed : Filed byToken state session stream)
    (acted : ∀ m ∈ messages, m.acted.isSome) : Filed byToken state session (stream ++ messages) :=
  { filed with known := fun token told => filed.known token (known_of_acted acted told) }

theorem rejected (filed : Filed byToken state session stream) (token : List UInt8)
    (reason : UInt8) : Filed byToken state session (stream ++ [.rejected token reason]) where
  sized := filed.sized
  filed := filed.filed
  owned := filed.owned
  known other told := by
    rw [Ledger.after_snoc] at told
    exact filed.known other told

/-- An order is accepted under the pending token. -/
theorem accepting {m : Market} (phase : Phase) (filed : Filed byToken (m, .idle) session stream)
    (started : 0 < m.nextId) (entering : session.mode = .enter)
    (unused : ¬ (byToken session.pendingToken).isSome) (side : Side) (price : Price) (qty : Qty)
    (number : UInt64) (told : UInt32) (px : Int64) :
    Filed (Function.update byToken session.pendingToken (some m.nextId))
      ({ m with nextId := m.nextId + 1 }, phase) (session.evAccept m.nextId side price qty)
      (stream ++ [.accepted session.pendingToken number side told px]) := by
  have tokenStr (id : OrderId) : (session.evAccept m.nextId side price qty).tokenStr id =
      if id = m.nextId then session.pendingToken else session.tokenStr id :=
    Session.evAccept_tokenStr entering filed.sized side price qty id
  have before {id : OrderId} (isIssued : Issued ({ m with nextId := m.nextId + 1 }, phase) id)
      (other : id ≠ m.nextId) : Issued (m, .idle) id :=
    ⟨isIssued.1, Nat.lt_of_le_of_ne (Nat.le_of_lt_succ isIssued.2) other⟩
  constructor
  case sized => exact Session.evAccept_size entering filed.sized side price qty
  case filed =>
      intro id isIssued
      rw [tokenStr]
      split
      case isTrue new => rw [Function.update_self, new]
      case isFalse old =>
        rw [Function.update_of_ne (filed.fresh unused id (before isIssued old))]
        exact filed.filed id (before isIssued old)
  case owned =>
      intro token id entry valid
      rw [tokenStr]
      by_cases same : token = session.pendingToken
      · rw [same, Function.update_self] at entry
        cases entry
        exact ⟨⟨started, Nat.lt_succ_self _⟩, by rw [if_pos rfl, same]⟩
      · rw [Function.update_of_ne same] at entry
        rcases filed.owned token id entry valid with ⟨isIssued, owns⟩
        rw [if_neg (Nat.ne_of_lt isIssued.2)]
        exact ⟨⟨isIssued.1, Nat.lt_succ_of_lt isIssued.2⟩, owns⟩
  case known =>
      intro token told
      rw [Ledger.after_snoc, Ledger.read] at told
      simp only [Function.update_apply] at told ⊢
      split
      case isTrue => rfl
      case isFalse other =>
        rw [if_neg other] at told
        exact filed.known token told

/-- The order of a token gets a new one, and the old one is burned. -/
theorem amend {m : Market} (filed : Filed byToken (m, .idle) session stream) {id : OrderId}
    (isIssued : Issued (m, .idle) id) (issued : next.1.nextId = m.nextId)
    {newToken : List UInt8} (unused : ¬ (byToken newToken).isSome)
    (size : session'.tokenOf.size = session.tokenOf.size)
    (rebound : ∀ other, session'.tokenStr other =
      if other = id then newToken else session.tokenStr other)
    (number : UInt64) (qty : UInt32) (price : Int64) :
    Filed (Function.update (Function.update byToken (session.tokenStr id) (some invalidOrderId))
        newToken (some id))
      next session' (stream ++ [.replaced (session.tokenStr id) newToken number qty price]) := by
  have same (other : OrderId) : Issued next other ↔ Issued (m, .idle) other := by
    rw [Issued, Issued, issued]
  have fresh := filed.fresh unused
  constructor
  case sized => rw [size, issued, filed.sized]
  case filed =>
      intro other isOther
      have isOther := (same other).mp isOther
      rw [rebound]
      split
      case isTrue own => rw [Function.update_self, own]
      case isFalse foreign =>
        have apart : session.tokenStr other ≠ session.tokenStr id := by
          intro shared
          have found := filed.filed other isOther
          rw [shared, filed.filed id isIssued] at found
          exact foreign (Option.some.inj found).symm
        rw [Function.update_of_ne (fresh other isOther), Function.update_of_ne apart]
        exact filed.filed other isOther
  case owned =>
      intro token other entry valid
      rw [rebound, same]
      simp only [Function.update_apply] at entry
      split at entry
      case isTrue new =>
        cases entry
        exact ⟨isIssued, by rw [if_pos rfl, new]⟩
      case isFalse old =>
        split at entry
        case isTrue burned =>
          cases entry
          exact absurd rfl valid
        case isFalse stands =>
          rcases filed.owned token other entry valid with ⟨isOther, owns⟩
          have foreign : other ≠ id := by
            intro shared
            exact stands (by rw [← owns, shared])
          exact ⟨isOther, by rw [if_neg foreign, owns]⟩
  case known =>
      intro token told
      rw [Ledger.after_snoc, Ledger.read] at told
      simp only [Function.update_apply] at told ⊢
      split
      case isTrue => rfl
      case isFalse other =>
        rw [if_neg other] at told
        split
        case isTrue => rfl
        case isFalse old =>
          rw [if_neg old] at told
          exact filed.known token told

end Filed

/-! ## Between two messages -/

namespace Gateway

structure Serves (g : Gateway) (m : Market) (accounts : OrderId → Account)
    (stream : List OutMsg) : Prop where
  holds : g.engine.Holds m
  coupled : Coupled (m, .idle) g.session accounts stream
  tables : Filed g.byToken (m, .idle) g.session stream

structure Handled (g : Gateway) (m : Market) (accounts : OrderId → Account) (stream : List OutMsg)
    (unfolded : Prop) (g' : Gateway) (m' : Market) (accounts' : OrderId → Account)
    (messages : List OutMsg) : Prop where
  serves : g'.Serves m' accounts' (stream ++ messages)
  queued : ∃ bytes, g'.session.out = g.session.out ++ bytes ∧ Spells bytes messages
  announces : unfolded → Announced (m, .idle) g.session accounts stream →
    Announced (m', .idle) g'.session accounts' (stream ++ messages)

def Unchanged (g g' : Gateway) : Prop :=
  { g'.engine with h := g.session } = g.engine ∧ g'.byToken = g.byToken ∧
    g'.session.tokenOf = g.session.tokenOf

variable {g g' : Gateway} {m : Market} {accounts : OrderId → Account} {stream : List OutMsg}

theorem serves_new (band : Band) (expectedOrders : Nat) :
    (new band expectedOrders).Serves (.new band) (fun _ => .new) [] := by
  have none (id : OrderId) : ¬ Issued (Market.new band, .idle) id := fun isIssued =>
    absurd isIssued.2 (Nat.not_lt.mpr isIssued.1)
  have holds : (new band expectedOrders).engine.Holds (.new band) :=
    MatchingEngine.holds_new band _ expectedOrders
  constructor
  case holds => exact holds
  case coupled =>
      constructor
      case valid => exact ⟨holds.valid, trivial⟩
      case hungry => trivial
      case balanced => exact fun id => Balanced.new band id
      case exact => exact fun id isIssued => absurd isIssued (none id)
      case distinct => exact fun id _ isIssued => absurd isIssued (none id)
      case linked => exact fun id isIssued => absurd isIssued (none id)
      case consistent => trivial
      case numbered => exact ⟨[], rfl, rfl⟩
  case tables =>
      constructor
      case sized => rfl
      case filed => exact fun id isIssued => absurd isIssued (none id)
      case owned => exact fun token id entry => nomatch entry
      case known => exact fun token told => absurd rfl told

theorem Serves.refuse (serves : g.Serves m accounts stream) {token : List UInt8}
    (isExact : Exact token) (reason : UInt8) {unfolded : Prop} :
    g.Handled m accounts stream unfolded (g.emit (encodeRejected token reason)) m accounts
      [.rejected token reason] := by
  have serves' : (g.emit (encodeRejected token reason)).Serves m accounts
      (stream ++ [.rejected token reason]) := by
    constructor
    case holds => exact serves.holds.setHandler _
    case coupled => exact (serves.coupled.rejected token reason).congr rfl rfl
    case tables => exact (serves.tables.rejected token reason).congr rfl rfl
  exact ⟨serves', ⟨[encodeRejected token reason], rfl, spells_rejected isExact reason⟩,
    fun _ announced => (announced.rejected token reason).congr rfl⟩

theorem unchanged_emit (g : Gateway) (message : List UInt8) : g.Unchanged (g.emit message) :=
  ⟨rfl, rfl, rfl⟩

theorem Handled.of_setSession {session : Session} {unfolded : Prop} {m' : Market}
    {accounts' : OrderId → Account} {messages : List OutMsg}
    (handled : (g.setSession session).Handled m accounts stream unfolded g' m' accounts' messages)
    (out : session.out = g.session.out) (tokens : session.tokenOf = g.session.tokenOf) :
    g.Handled m accounts stream unfolded g' m' accounts' messages :=
  ⟨handled.serves, out ▸ handled.queued,
    fun spared announced => handled.announces spared (announced.congr tokens)⟩

theorem Unchanged.of_setSession {session : Session} {g' : Gateway}
    (unchanged : (g.setSession session).Unchanged g')
    (tokens : session.tokenOf = g.session.tokenOf) : g.Unchanged g' :=
  ⟨congrArg (fun engine => { engine with h := g.session }) unchanged.1, unchanged.2.1,
    unchanged.2.2.trans tokens⟩

theorem Serves.orderOf (serves : g.Serves m accounts stream) {token : List UInt8} {id : OrderId}
    (known : g.orderOf token = some id) :
    g.byToken token = some id ∧ Issued (m, .idle) id ∧ g.session.tokenStr id = token := by
  rcases Option.filter_eq_some_iff.mp known with ⟨entry, valid⟩
  have valid : id ≠ invalidOrderId := by simpa using valid
  exact ⟨entry, serves.tables.owned token id entry valid⟩

/-- The rest of an operation, after what its first step has told. -/
theorem Serves.finish {engine : MatchingEngine Session} {byToken : List UInt8 → Option OrderId}
    {state : Market × Phase} {session : Session} {events : List Event} {m' : Market}
    (holds : engine.Holds m') (coupled : Coupled state session accounts stream)
    (tables : Filed byToken state session stream) (run : Run Step state events (m', .idle))
    (told : engine.h = Handler.onAll session events) :
    ∃ messages bytes accounts', ({ engine := rested engine, byToken } : Gateway).Serves m'
        accounts' (stream ++ messages) ∧
      engine.h.out = session.out ++ bytes ∧ Spells bytes messages ∧
      (∀ m ∈ messages, m.acted.isSome) ∧
      (messages.filterMap OutMsg.execution).length = 2 * Market.tally (fun _ => 1) events ∧
      ((∀ id, .cancel id ∈ events → session.folds id = false) →
        Announced state session accounts stream →
          Announced (m', .idle) (rested engine).h accounts' (stream ++ messages)) := by
  rcases coupled.run run with ⟨session', messages, hears, coupled'⟩
  rcases hears.queued with ⟨bytes, out, spells⟩
  have final : engine.h = session' := told.trans hears.heard
  have tokens : (rested engine).h.tokenOf = session'.tokenOf :=
    show engine.h.tokenOf = session'.tokenOf from congrArg Session.tokenOf final
  have number : (rested engine).h.matchSeq = session'.matchSeq :=
    show engine.h.matchSeq = session'.matchSeq from congrArg Session.matchSeq final
  have serves : ({ engine := rested engine, byToken } : Gateway).Serves m'
      (Coupled.audit accounts events) (stream ++ messages) := by
    constructor
    case holds => exact holds.setHandler _
    case coupled => exact coupled'.congr tokens number
    case tables =>
        exact (tables.acted hears.acted).congr (tokens.trans hears.tokens) (Step.run_nextId run)
  exact ⟨messages, bytes, _, serves, (congrArg Session.out final).trans out, spells, hears.acted,
    hears.counted, fun told announced => (announced.run coupled run hears told).congr tokens⟩

theorem folds_eq_false {session : Session} (mode : session.mode ≠ .replace) (id : OrderId) :
    session.folds id = false := by
  simp [Session.folds, mode]

/-- An Enter is rejected, or accepted, and then runs. Its trades are told twice. -/
theorem Serves.enter (serves : g.Serves m accounts stream) {token : List UInt8}
    (isExact : Exact token) (side : Side) (qty : UInt32) (price : Price) (tif : TimeInForce)
    (display : UInt32) (owner : OwnerId) (stp : StpPolicy) :
    ∃ g' m' accounts' messages,
      g.handleEnter token side qty price tif display owner stp = some g' ∧
        g.Handled m accounts stream True g' m' accounts' messages ∧ messages ≠ [] ∧
        (¬ (g.byToken token).isSome → ∃ op peak events ret,
          op.Limit side price qty.toUInt64 tif owner stp peak ∧
          (peak = if display ≠ 0 ∧ display < qty then display.toUInt64 else 0) ∧
          m.Performs op events m' ret ∧
          (messages.filterMap OutMsg.execution).length = 2 * Market.tally (fun _ => 1) events ∧
          ∀ other, other ≠ token → g'.byToken other = g.byToken other) := by
  by_cases unused : ¬ (g.byToken token).isSome
  case neg =>
    exact ⟨_, m, accounts, _, handleEnter_used (not_not.mp unused),
      serves.refuse isExact badToken, List.cons_ne_nil _ _, fun isUnused => absurd isUnused unused⟩
  case pos =>
    let begun := g.beginEnter token
    have holds : begun.engine.Holds m := serves.holds.setHandler _
    have coupled : Coupled (m, .idle) begun.session accounts stream := serves.coupled.congr rfl rfl
    have tables : Filed g.byToken (m, .idle) begun.session stream := serves.tables.congr rfl rfl
    have valid := holds.valid
    rcases submit_did holds side qty price tif display owner stp with
      ⟨op, peak, engine, id, m', events, entry, plain, submitted, did⟩
    have handled := handleEnter_submitted unused submitted
    have told : engine.h = Handler.onAll begun.session events := did.told
    rcases did.performs.limit_runs entry with ⟨answer, rest, rfl, run⟩ |
      ⟨answer, inside, some, phase, rest, rfl, going, run⟩
    · cases answer
      rw [if_neg (not_not.mpr rfl)] at handled
      let session := begun.session.emit (encodeRejected token validation)
      have first : begun.session.evReject = session := if_neg (not_not.mpr rfl)
      have told : engine.h = Handler.onAll begun.session.evReject rest := told
      rw [first] at told
      have coupled' : Coupled (m, .idle) session accounts
          (stream ++ [.rejected token validation]) :=
        (coupled.rejected token validation).congr rfl rfl
      have tables' : Filed g.byToken (m, .idle) session (stream ++ [.rejected token validation]) :=
        (tables.rejected token validation).congr rfl rfl
      rcases Serves.finish did.holds coupled' tables' run told with
        ⟨messages, bytes, accounts', serves', out, spells, acted, counted, announces⟩
      refine ⟨_, m', accounts', .rejected token validation :: messages, handled,
        ⟨?_, ⟨encodeRejected token validation :: bytes, ?_, ?_⟩, fun _ announced => ?_⟩,
        List.cons_ne_nil _ _, fun _ => ⟨op, peak, _, _, entry, plain, did.performs,
          counted.trans (by simp [Market.tally]),
          fun _ _ => rfl⟩⟩
      · simpa using serves'
      · exact out.trans (List.append_assoc _ _ _)
      · exact (spells_rejected isExact validation).append spells
      · have after := announces (fun id _ => folds_eq_false (by simp [session, begun, beginEnter,
          setSession, Session.emit]) id) ((announced.rejected token validation).congr rfl)
        rwa [List.append_assoc] at after
    · cases answer
      have issued : m.nextId ≠ invalidOrderId := Nat.ne_of_gt valid.started
      rw [if_pos issued] at handled
      let t := Taker.ofLimit m.nextId side price qty.toUInt64 tif owner stp peak
      have taker : t.Valid { m with nextId := m.nextId + 1 } :=
        Taker.ofLimit_valid valid.fresh ⟨valid.started, Nat.lt_succ_self _⟩ inside
      have amount : t.qty = qty.toUInt64 := rfl
      have coupled' := coupled.accepting going rfl taker Taker.ofLimit_remainder some amount rfl
        tables.sized isExact (tables.unopened unused) (tables.fresh unused) side price
      have tables' := tables.accepting phase valid.started rfl unused side price qty.toUInt64
        (UInt64.ofNat m.nextId) qty (Int64.ofInt price)
      rcases Serves.finish did.holds coupled' tables' run told with
        ⟨messages, bytes, accounts', serves', out, spells, acted, counted, announces⟩
      have entered : begun.session.evAccept m.nextId side price qty.toUInt64 =
          { begun.session with
            enteredId := m.nextId
            tokenOf := (begun.session.tokenOf ++ Array.replicate
              (m.nextId + 1 - begun.session.tokenOf.size) []).setIfInBounds m.nextId token
            out := g.session.out ++ [encodeAccepted token m.nextId side qty price] } := by
        rw [Session.evAccept_eq rfl, UInt32.toUInt32_toUInt64]
        rfl
      have first : (begun.session.evAccept m.nextId side price qty.toUInt64).out =
          g.session.out ++ [encodeAccepted token m.nextId side qty price] :=
        congrArg Session.out entered
      have entering : (begun.session.evAccept m.nextId side price qty.toUInt64).mode ≠
          .replace := by
        rw [congrArg Session.mode entered]
        exact Mode.noConfusion
      let accepted : OutMsg :=
        .accepted token (UInt64.ofNat m.nextId) side qty (Int64.ofInt price)
      refine ⟨_, m', accounts', accepted :: messages, handled,
        ⟨?_, ⟨encodeAccepted token m.nextId side qty price :: bytes, ?_, ?_⟩,
          fun _ announced => ?_⟩, List.cons_ne_nil _ _, fun _ => ⟨op, peak, _, _, entry, plain,
          did.performs, counted.trans (by simp [Market.tally]),
          fun other apart => Function.update_of_ne apart _ _⟩⟩
      · rw [List.append_assoc] at serves'
        exact serves'
      · exact out.trans ((congrArg (· ++ bytes) first).trans (List.append_assoc _ _ _))
      · exact (spells_accepted isExact m.nextId side qty price).append spells
      · have begins : Announced (m, .idle) begun.session accounts stream := announced.congr rfl
        have after := announces (fun id _ => folds_eq_false entering id)
          (begins.accepting phase valid.started rfl tables.sized (tables.fresh unused) side price
            qty.toUInt64 (UInt64.ofNat m.nextId) qty (Int64.ofInt price))
        rwa [List.append_assoc] at after

theorem Serves.setSession (serves : g.Serves m accounts stream) (session : Session)
    (tokens : session.tokenOf = g.session.tokenOf)
    (number : session.matchSeq = g.session.matchSeq) :
    (g.setSession session).Serves m accounts stream where
  holds := serves.holds.setHandler _
  coupled := serves.coupled.congr tokens number
  tables := serves.tables.congr tokens rfl

theorem Serves.insertOut (serves : g.Serves m accounts stream) (pos : Nat)
    (message : List UInt8) : (g.insertOut pos message).Serves m accounts stream :=
  serves.setSession _ rfl rfl

/-- A Cancel is rejected and changes nothing, or the order is told cancelled. -/
theorem Serves.cancel (serves : g.Serves m accounts stream) {token : List UInt8}
    (isExact : Exact token) :
    ∃ g' m' accounts' messages, g.handleCancel token = some g' ∧
      g.Handled m accounts stream True g' m' accounts' messages ∧
      ((messages = [.rejected token badToken] ∧ g.Unchanged g') ∨
        ∃ rest, messages = .canceled token userRequested :: rest ∧ ∀ m ∈ rest, m.acted.isSome) := by
  cases known : g.orderOf token with
  | none =>
      exact ⟨_, m, accounts, _, handleCancel_unknown known, serves.refuse isExact badToken,
        .inl ⟨rfl, unchanged_emit g _⟩⟩
  | some id =>
      rcases serves.orderOf known with ⟨-, isIssued, owns⟩
      let begun := g.setMode .cancel
      have begunServes : begun.Serves m accounts stream := serves.setSession _ rfl rfl
      rcases begunServes.holds.cancel id with ⟨engine, ok, m', events, called, did⟩
      have handled := handleCancel_known known called
      cases ok with
      | false =>
          have stepped : begun.engine.step (.cancel id) = some (engine, .ok false) :=
            congrArg (Option.map (Prod.map (fun s => s) Ret.ok)) called
          have same := begunServes.holds.declined stepped
          subst same
          let rested : Gateway := g.setMode .idle
          have restedServes : rested.Serves m accounts stream := serves.setSession _ rfl rfl
          exact ⟨_, m, accounts, _, handled,
            (restedServes.refuse isExact badToken).of_setSession rfl rfl,
            .inl ⟨rfl, (unchanged_emit rested _).of_setSession rfl⟩⟩
      | true =>
          have told : engine.h = Handler.onAll begun.session events := did.told
          rcases did.performs with ⟨start, run, -, -⟩
          rename_i first rest m₁ phase
          rcases begunServes.coupled.withdraw start with ⟨rfl, follows, isOpen⟩
          rcases begunServes.coupled.cancel follows isOpen with ⟨hears, coupled⟩
          have unfolded : begun.session.folds id = false := folds_eq_false Mode.noConfusion id
          have tells : begun.session.tells (.cancel id) = [.canceled token userRequested] := by
            have owns : begun.session.tokenStr id = token := owns
            rw [Session.tells, if_neg (by simp [unfolded]), owns]
            rfl
          rw [tells] at hears coupled
          have tables : Filed g.byToken (m₁, phase) (begun.session.evCancel id)
              (stream ++ [.canceled token userRequested]) :=
            (begunServes.tables.acted hears.acted).congr hears.tokens follows.nextId
          rcases Serves.finish did.holds coupled tables run told with
            ⟨messages, bytes, accounts', serves', out, spells, acted, counted, announces⟩
          rcases hears.queued with ⟨own, queued, spelled⟩
          have out : engine.h.out = g.session.out ++ (own ++ bytes) := by
            rw [out, queued, List.append_assoc]
            rfl
          rw [List.append_assoc] at serves' announces
          refine ⟨_, m', accounts', .canceled token userRequested :: messages, handled,
            ⟨serves', ⟨own ++ bytes, out, spelled.append spells⟩, fun _ announced => ?_⟩,
            .inr ⟨messages, rfl, acted⟩⟩
          have begins : Announced (m, .idle) begun.session accounts stream := announced.congr rfl
          have ends := begins.advance begunServes.coupled follows (.cancel isOpen)
            (start.unstopped .cancel begins.unstopped) hears fun _ _ => folds_eq_false
              Mode.noConfusion _
          have mode : (begun.session.evCancel id).mode ≠ .replace := by
            rw [hears.mode]
            exact Mode.noConfusion
          exact announces (fun id _ => folds_eq_false mode id) ends

theorem beginReplace_tokenStr {id : OrderId} (inside : id < g.session.tokenOf.size)
    (newToken : List UInt8) (other : OrderId) :
    (g.beginReplace id newToken).session.tokenStr other =
      if other = id then newToken else g.session.tokenStr other := by
  show (g.session.tokenOf.setIfInBounds id newToken).getD other [] = _
  simp only [Array.getD_eq_getD_getElem?, Array.getElem?_setIfInBounds, inside, if_true]
  by_cases same : other = id
  · simp [same]
  · rw [if_neg same, if_neg (Ne.symm same), Session.tokenStr, Array.getD_eq_getD_getElem?]

theorem rebind_tokenOf (id : OrderId) (newToken : List UInt8) :
    (g.session.tokenOf.setIfInBounds id newToken).setIfInBounds id (g.session.tokenStr id) =
      g.session.tokenOf := by
  apply Array.ext_getElem?
  intro i
  simp only [Array.getElem?_setIfInBounds, Array.size_setIfInBounds]
  split
  case isTrue same =>
    subst same
    split
    case isTrue inside => simp [Session.tokenStr, inside]
    case isFalse outside => rw [Array.getElem?_eq_none (Nat.le_of_not_lt outside)]
  case isFalse => rfl

theorem rested_beginReplace (g : Gateway) (id : OrderId) (newToken : List UInt8) :
    ({ engine := rested (g.beginReplace id newToken).engine, byToken := g.byToken } : Gateway) =
      g.setSession { (g.beginReplace id newToken).session with mode := .idle } := rfl

theorem bind_setSession (g : Gateway) (session : Session) (id : OrderId) (token : List UInt8) :
    (g.setSession session).bind id token =
      g.setSession { session with tokenOf := session.tokenOf.setIfInBounds id token } := rfl

/-- A Replace is rejected and changes nothing, or told before everything that comes of it. -/
theorem Serves.replace (serves : g.Serves m accounts stream) {token newToken : List UInt8}
    (isExact : Exact token) (isNew : Exact newToken) (qty : UInt32) (price : Price) :
    ∃ g' m' accounts' messages, g.handleReplace token newToken qty price = some g' ∧
      g.Handled m accounts stream
        (∀ id, g.orderOf token = some id → g.byToken newToken = none →
          m.Spares id price qty.toUInt64) g' m' accounts' messages ∧
      ((∃ reason, messages = [.rejected newToken reason] ∧ g.Unchanged g') ∨
        ∃ number rest, messages = .replaced token newToken number qty (Int64.ofInt price) :: rest ∧
          ∀ m ∈ rest, m.acted.isSome) := by
  cases known : g.orderOf token with
  | none =>
      exact ⟨_, m, accounts, _, handleReplace_unknown known, serves.refuse isNew badToken,
        .inl ⟨_, rfl, unchanged_emit g _⟩⟩
  | some id =>
      by_cases unused : ¬ (g.byToken newToken).isSome
      case neg =>
        exact ⟨_, m, accounts, _, handleReplace_used known (not_not.mp unused),
          serves.refuse isNew badToken, .inl ⟨_, rfl, unchanged_emit g _⟩⟩
      case pos =>
        rcases serves.orderOf known with ⟨-, isIssued, owns⟩
        let begun := g.beginReplace id newToken
        have begunHolds : begun.engine.Holds m := serves.holds.setHandler _
        rcases begunHolds.modify id price qty.toUInt64 with ⟨engine, ok, m', events, called, did⟩
        have handled := handleReplace_modified known unused called
        have inside : id < g.session.tokenOf.size := serves.tables.sized ▸ isIssued.2
        have rebound := beginReplace_tokenStr inside newToken
        cases ok with
        | false =>
            have stepped : begun.engine.step (.modify id price qty.toUInt64) =
                some (engine, .ok false) :=
              congrArg (Option.map (Prod.map (fun s => s) Ret.ok)) called
            have same := begunHolds.declined stepped
            subst same
            let restored : Session :=
              { begun.session with
                mode := .idle
                tokenOf := begun.session.tokenOf.setIfInBounds id (g.session.tokenStr id) }
            have tokens : restored.tokenOf = g.session.tokenOf := rebind_tokenOf id newToken
            have restoredServes : (g.setSession restored).Serves m accounts stream :=
              serves.setSession _ tokens rfl
            rw [if_neg Bool.false_ne_true, rested_beginReplace, bind_setSession] at handled
            exact ⟨_, m, accounts, _, handled,
              (restoredServes.refuse isNew validation).of_setSession rfl tokens,
              .inl ⟨_, rfl, (unchanged_emit _ _).of_setSession tokens⟩⟩
        | true =>
            have told : engine.h = Handler.onAll begun.session events := did.told
            have valid := begunHolds.valid
            rcases did.performs with ⟨start, run, -, -⟩
            rename_i first rest m₁ phase
            have unopened := serves.tables.unopened unused
            have fresh := serves.tables.fresh unused
            have folds : begun.session.folds id = true := decide_eq_true ⟨rfl, rfl⟩
            rcases serves.coupled.amend isIssued start isNew unopened fresh rebound rfl folds with
              ⟨ignored, coupled⟩
            have nextId : m₁.nextId = m.nextId := (Coupled.amends valid start).nextId
            have issued : (m₁, phase).1.nextId = m.nextId := nextId
            have tables := serves.tables.amend isIssued issued unused
              (Array.size_setIfInBounds ..) rebound (UInt64.ofNat id) qty (Int64.ofInt price)
            rw [Handler.onAll_append, ignored] at told
            rcases Serves.finish did.holds coupled tables run told with
              ⟨messages, bytes, accounts', serves', out, spells, acted, counted, announces⟩
            rw [if_pos rfl, owns] at handled
            rw [owns, List.append_assoc, List.singleton_append] at serves' announces
            have inserted := serves'.insertOut g.session.out.length
              (encodeReplaced token newToken id qty price)
            have queue : (rested engine).h.out = g.session.out ++ bytes := out
            refine ⟨_, m', accounts', .replaced token newToken (UInt64.ofNat id) qty
              (Int64.ofInt price) :: messages, handled, ⟨inserted,
              ⟨encodeReplaced token newToken id qty price :: bytes, ?_, ?_⟩,
              fun spared announced => ?_⟩, .inr ⟨_, messages, rfl, acted⟩⟩
            · show (rested engine).h.out.take g.session.out.length ++
                encodeReplaced token newToken id qty price ::
                  (rested engine).h.out.drop g.session.out.length = _
              rw [queue, List.take_left, List.drop_left]
            · exact (spells_replaced isExact isNew id qty price).append spells
            · have begins := announced.amend serves.coupled isIssued start fresh rebound
                (UInt64.ofNat id) (Int64.ofInt price)
              rw [owns] at begins
              have untold := start.spared valid announced.unstopped
                (spared id rfl (by simpa using unused)) run
              have after := announces (fun other member => ?_) begins
              · exact after.congr rfl
              · have apart : other ≠ id := fun same => untold (same ▸ member)
                exact decide_eq_false fun both => apart both.2

end Gateway

/-! ## Whole messages -/

def InMsg.Exacts : InMsg → Prop
  | .enter token _ _ _ _ _ _ _ => Exact token
  | .replace token newToken _ _ => Exact token ∧ Exact newToken
  | .cancel token => Exact token

theorem exact_getToken {p : List UInt8} (noNul : (0 : UInt8) ∉ p.take tokenLen)
    (room : tokenLen ≤ p.length) : Exact (getToken p) := by
  rw [getToken_eq_take noNul]
  exact ⟨noNul, List.length_take_of_le room⟩

theorem exacts_of_nulFree {p : List UInt8} {msg : InMsg} (read : decodeIn p = some msg)
    (nulFree : NulFree p) : msg.Exacts := by
  have first (size : 1 + tokenLen ≤ p.length) : Exact (getToken (p.drop 1)) :=
    exact_getToken nulFree.1 (by rw [List.length_drop]; omega)
  by_cases enter : byteAt p 0 = 'O'.toUInt8
  · rcases decodeIn_enter enter read with ⟨whole, tif, stp, -, -, rfl⟩
    exact first (Nat.le_trans (by decide) whole)
  rw [decodeIn, if_neg enter] at read
  split at read
  case isTrue => cases read
  case isFalse =>
    split at read
    case isTrue replace =>
      split at read
      case isTrue => cases read
      case isFalse whole =>
        cases read
        have whole : 1 + tokenLen + tokenLen ≤ p.length :=
          Nat.le_trans (by decide) (Nat.le_of_not_lt whole)
        refine ⟨first (by omega), exact_getToken (nulFree.2 replace) ?_⟩
        rw [List.length_drop]
        omega
    case isFalse =>
      split at read
      case isTrue =>
        split at read
        case isTrue => cases read
        case isFalse whole =>
          cases read
          exact first (Nat.le_trans (by decide) (Nat.le_of_not_lt whole))
      case isFalse => cases read

def InMsg.Amends : InMsg → Prop
  | .enter .. => False
  | _ => True

namespace Gateway

structure Answers (g g' : Gateway) (msg : InMsg) (messages : List OutMsg) : Prop where
  answered : messages ≠ []
  /-- The ack of a Replace is there before its fills. -/
  acked : ∀ token newToken qty price, msg = .replace token newToken qty price →
    ∀ before m after, messages = before ++ m :: after → m.execution.isSome →
      ∃ number, .replaced token newToken number qty (Int64.ofInt price) ∈ before
  refused : msg.Amends → (∃ token reason, .rejected token reason ∈ messages) → g.Unchanged g'

variable {g : Gateway} {m : Market} {accounts : OrderId → Account} {stream : List OutMsg}

theorem not_rejected {messages : List OutMsg} (acted : ∀ m ∈ messages, m.acted.isSome)
    (token : List UInt8) (reason : UInt8) : .rejected token reason ∉ messages := by
  intro member
  cases acted _ member

def Spares (g : Gateway) (m : Market) (msg : InMsg) : Prop :=
  ∀ token newToken qty price, msg = .replace token newToken qty price →
    ∀ id, g.orderOf token = some id → g.byToken newToken = none → m.Spares id price qty.toUInt64

theorem Serves.message (serves : g.Serves m accounts stream) {p : List UInt8} {msg : InMsg}
    (read : decodeIn p = some msg) (nulFree : NulFree p) :
    ∃ g' m' accounts' messages, g.onMessage p = some (g', true) ∧
      g.Handled m accounts stream (g.Spares m msg) g' m' accounts' messages ∧
        g.Answers g' msg messages := by
  have exacts := exacts_of_nulFree read nulFree
  rw [onMessage, read]
  cases msg with
  | enter token side qty price tif display owner stp =>
      rcases serves.enter exacts side qty price tif display owner stp with
        ⟨g', m', accounts', messages, done, handled, some, -⟩
      refine ⟨g', m', accounts', messages, by simp [done], ⟨handled.serves, handled.queued,
        fun _ => handled.announces trivial⟩, some, ?_, fun amends => amends.elim⟩
      intro _ _ _ _ same
      cases same
  | replace token newToken qty price =>
      rcases serves.replace exacts.1 exacts.2 qty price with
        ⟨g', m', accounts', messages, done, handled, outcome⟩
      refine ⟨g', m', accounts', messages, by simp [done], ⟨handled.serves, handled.queued,
        fun spares => handled.announces (spares _ _ _ _ rfl)⟩, ?_⟩
      rcases outcome with ⟨reason, rfl, unchanged⟩ | ⟨number, rest, rfl, acted⟩
      · refine ⟨List.cons_ne_nil _ _, ?_, fun _ _ => unchanged⟩
        intro _ _ _ _ _ before m after place executed
        have member : m ∈ [OutMsg.rejected newToken reason] := place ▸ by simp
        cases List.mem_singleton.mp member
        cases executed
      · refine ⟨List.cons_ne_nil _ _, ?_, ?_⟩
        · intro _ _ _ _ same before m after place executed
          cases same
          cases before with
          | nil =>
              cases (List.cons.inj place).1
              cases executed
          | cons first before =>
              cases (List.cons.inj place).1
              exact ⟨number, List.mem_cons_self⟩
        · rintro - ⟨other, reason, member⟩
          rcases List.mem_cons.mp member with same | later
          · cases same
          · exact absurd later (not_rejected acted other reason)
  | cancel token =>
      rcases serves.cancel exacts with ⟨g', m', accounts', messages, done, handled, outcome⟩
      refine ⟨g', m', accounts', messages, by simp [done], ⟨handled.serves, handled.queued,
        fun _ => handled.announces trivial⟩, ?_⟩
      rcases outcome with ⟨rfl, unchanged⟩ | ⟨rest, rfl, acted⟩
      · refine ⟨List.cons_ne_nil _ _, ?_, fun _ _ => unchanged⟩
        intro _ _ _ _ same
        cases same
      · refine ⟨List.cons_ne_nil _ _, ?_, ?_⟩
        · intro _ _ _ _ same
          cases same
        · rintro - ⟨other, reason, member⟩
          rcases List.mem_cons.mp member with same | later
          · cases same
          · exact absurd later (not_rejected acted other reason)

/-! ## Sessions -/

theorem Serves.step (serves : g.Serves m accounts stream) {call : Call}
    (nulFree : ∀ p, call = .message p → NulFree p) :
    ∃ g' taken m' accounts' bytes messages, g.step call = some (g', taken) ∧
      g'.Serves m' accounts' (stream ++ messages) ∧
      taken ++ g'.session.out = g.session.out ++ bytes ∧ Spells bytes messages ∧
      ((∀ p msg, call = .message p → decodeIn p = some msg → g.Spares m msg) →
        Announced (m, .idle) g.session accounts stream →
          Announced (m', .idle) g'.session accounts' (stream ++ messages)) := by
  cases call with
  | takeOut =>
      have taken := serves.setSession { g.session with out := [] } rfl rfl
      rw [← List.append_nil stream] at taken
      refine ⟨_, _, m, accounts, [], [], rfl, taken, rfl, spells_nil, fun _ announced => ?_⟩
      rw [List.append_nil]
      exact announced.congr rfl
  | message p =>
      cases read : decodeIn p with
      | none =>
          have same : g.step (.message p) = some (g, []) := by simp [Gateway.step, onMessage, read]
          refine ⟨g, [], m, accounts, [], [], same, ?_, ?_, spells_nil, ?_⟩
          · rwa [List.append_nil]
          · rw [List.append_nil, List.nil_append]
          · rw [List.append_nil]
            exact fun _ announced => announced
      | some msg =>
          rcases serves.message read (nulFree p rfl) with
            ⟨g', m', accounts', messages, done, handled, -⟩
          rcases handled.queued with ⟨bytes, out, spells⟩
          have same : g.step (.message p) = some (g', []) := by simp [Gateway.step, done]
          refine ⟨g', [], m', accounts', bytes, messages, same, handled.serves, ?_, spells, ?_⟩
          · rw [List.nil_append, out]
          · exact fun spares => handled.announces (spares p msg rfl read)

theorem Serves.run (serves : g.Serves m accounts stream) {calls : List Call}
    (nulFree : ∀ p, .message p ∈ calls → NulFree p) (earlier : List (List UInt8))
    (spells : Spells (earlier ++ g.session.out) stream) :
    ∃ g' taken m' accounts' stream', g.run calls = some (g', taken) ∧
      g'.Serves m' accounts' stream' ∧ Spells (earlier ++ (taken ++ g'.session.out)) stream' := by
  induction calls generalizing g m accounts stream earlier with
  | nil => exact ⟨g, [], m, accounts, stream, rfl, serves, spells⟩
  | cons call calls induction =>
      rcases serves.step fun p same => nulFree p (same ▸ List.mem_cons_self) with
        ⟨g₁, taken₁, m₁, accounts₁, bytes, messages, stepped, serves₁, out, spelled, -⟩
      have spells₁ : Spells (earlier ++ taken₁ ++ g₁.session.out) (stream ++ messages) := by
        rw [List.append_assoc, out, ← List.append_assoc]
        exact spells.append spelled
      rcases induction serves₁ (fun p member => nulFree p (.tail call member)) _ spells₁ with
        ⟨g', taken, m', accounts', stream', ran, serves', spells'⟩
      refine ⟨g', taken₁ ++ taken, m', accounts', stream', ?_, serves', ?_⟩
      · simp only [Gateway.run, stepped, ran, Option.bind_eq_bind, Option.bind_some]
      · simpa [List.append_assoc] using spells'

/-- What comes of an inbound buffer. -/
structure Responds (g : Gateway) (p : List UInt8) : Prop where
  malformed : decodeIn p = none → g.onMessage p = some (g, false)
  wellFormed : ∀ msg, decodeIn p = some msg → ∃ g' bytes messages,
    g.onMessage p = some (g', true) ∧ g'.session.out = g.session.out ++ bytes ∧
      Spells bytes messages ∧ g.Answers g' msg messages

theorem Serves.responds (serves : g.Serves m accounts stream) {p : List UInt8}
    (nulFree : NulFree p) : g.Responds p where
  malformed read := by rw [onMessage, read]
  wellFormed msg read := by
    rcases serves.message read nulFree with ⟨g', m', accounts', messages, done, handled, answers⟩
    rcases handled.queued with ⟨bytes, out, spells⟩
    exact ⟨g', bytes, messages, done, out, spells, answers⟩

end Gateway

end Ouch

end Matchbook
