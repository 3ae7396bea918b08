import Mathlib.Algebra.Order.Group.Abs
import Matchbook.Engine.Invariant
import Matchbook.Engine.Lifetimes
import Matchbook.Gate.Flatten
import Matchbook.Market.Screen
import Matchbook.Market.SelfTrade

namespace Matchbook

open Transitions

/-! # Whose position a fill counts for

The gate takes an id that is accepted for the owner of the submission it handed on last.
An order that `modify` enters again is accepted again, whoever submitted last. -/

def Trade.signed (trade : Trade) : Int :=
  if trade.takerSide = .buy then trade.qty.toNat else -(trade.qty.toNat : Int)

def Submissions.share (submissions : Submissions) (owner : OwnerId) (trade : Trade) : Int :=
  (if submissions.owner trade.taker = owner then trade.signed else 0) -
    if submissions.owner trade.maker = owner then trade.signed else 0

/-- The owner each id was submitted with, and what the orders of each owner have bought, less
what they have sold. -/
structure Statement where
  submissions : Submissions
  net : OwnerId → Int

namespace Statement

def start : Statement where
  submissions := .start
  net _ := 0

def see (statement : Statement) (entry : Entry) : Statement where
  submissions := statement.submissions.see entry
  net owner :=
    match entry with
    | .seen (.trade trade) => statement.net owner + statement.submissions.share owner trade
    | _ => statement.net owner

theorem foldl_submissions (log : List Entry) (statement : Statement) :
    (log.foldl see statement).submissions = log.foldl Submissions.see statement.submissions := by
  induction log generalizing statement with
  | nil => rfl
  | cons entry log induction => exact induction (statement.see entry)

def fills (log : List Entry) : Nat :=
  log.countP fun
    | .seen (.trade _) => true
    | _ => false

theorem abs_share_le (submissions : Submissions) (owner : OwnerId) (trade : Trade) :
    |submissions.share owner trade| ≤ trade.qty.toNat := by
  have signed : |trade.signed| = trade.qty.toNat := by
    have natural := abs_of_nonneg (Int.natCast_nonneg trade.qty.toNat)
    unfold Trade.signed
    split
    · exact natural
    · rw [abs_neg, natural]
  unfold Submissions.share
  split <;> split <;> simp [signed]

theorem abs_net_le {bound : Nat} {log : List Entry}
    (small : ∀ trade, .seen (.trade trade) ∈ log → trade.qty.toNat ≤ bound) (statement : Statement)
    (owner : OwnerId) :
    |(log.foldl see statement).net owner| ≤ |statement.net owner| + bound * fills log := by
  induction log generalizing statement with
  | nil => simp [fills]
  | cons entry log induction =>
      have rest := induction (fun trade member => small trade (.tail entry member))
        (statement.see entry)
      rw [List.foldl_cons]
      refine rest.trans ?_
      cases entry with
      | called op ret => simp [see, fills]
      | seen event =>
          cases event with
          | trade trade =>
              have one : |(statement.see (.seen (.trade trade))).net owner| ≤
                  |statement.net owner| + bound := by
                refine (abs_add_le _ _).trans ?_
                have share := abs_share_le statement.submissions owner trade
                have within := small trade List.mem_cons_self
                lia
              have count : fills (.seen (.trade trade) :: log) = fills log + 1 := by simp [fills]
              rw [count]
              push_cast
              lia
          | _ => simp [see, fills]

end Statement

/-! ## The sink -/

namespace Sink

variable {H : Type} {sink : Sink H} {statement : Statement}

theorem ownerAt_noteAccept (sink : Sink H) (id : OrderId) :
    (sink.noteAccept id).ownerAt = Function.update sink.ownerAt id sink.pendingOwner := by
  funext other
  simp only [ownerAt, noteAccept, Array.getD_eq_getD_getElem?, Array.getElem?_setIfInBounds,
    Array.getElem?_append, Array.getElem?_replicate, Array.size_append, Array.size_replicate,
    Function.update_apply]
  by_cases same : other = id
  · subst same
    simp only [if_true]
    rw [if_pos (by omega), Option.getD_some]
  · rw [if_neg (Ne.symm same), if_neg same]
    split
    · rfl
    · rename_i outside
      rw [Array.getElem?_eq_none (Nat.le_of_not_lt outside)]
      split <;> rfl

theorem addPosition_positions (sink : Sink H) (owner : OwnerId) (delta : Int64) {other : OwnerId}
    (nonzero : other ≠ 0) : (sink.addPosition owner delta).positions other =
      sink.positions other + if owner = other then delta else 0 := by
  unfold addPosition
  by_cases same : owner = other
  · subst same
    simp [nonzero]
  · have apart : other ≠ owner := fun equal => same equal.symm
    split <;> simp [apart]

theorem addPosition_ownerAt (sink : Sink H) (owner : OwnerId) (delta : Int64) :
    (sink.addPosition owner delta).ownerAt = sink.ownerAt := by
  unfold addPosition
  split <;> rfl

theorem addPosition_pendingOwner (sink : Sink H) (owner : OwnerId) (delta : Int64) :
    (sink.addPosition owner delta).pendingOwner = sink.pendingOwner := by
  unfold addPosition
  split <;> rfl

theorem toInt64_qty (qty : Qty) : qty.toInt64 = Int64.ofInt qty.toNat := by
  conv_lhs => rw [← UInt64.ofNat_toNat (x := qty)]
  rw [UInt64.toInt64_ofNat', Int64.ofInt_eq_ofNat]

structure Agrees (sink : Sink H) (statement : Statement) : Prop where
  owners : ∀ id, sink.ownerAt id = statement.submissions.owner id
  positions : ∀ owner, owner ≠ 0 → sink.positions owner = Int64.ofInt (statement.net owner)

theorem Agrees.noteTrade (agrees : sink.Agrees statement) (trade : Trade) :
    (sink.noteTrade trade).Agrees (statement.see (.seen (.trade trade))) where
  owners id := by
    unfold Sink.noteTrade
    rw [addPosition_ownerAt, addPosition_ownerAt]
    exact agrees.owners id
  positions owner nonzero := by
    have delta : (if trade.takerSide = .buy then trade.qty.toInt64 else -trade.qty.toInt64) =
        Int64.ofInt trade.signed := by
      rw [Trade.signed, toInt64_qty]
      split
      · rfl
      · rw [Int64.ofInt_neg]
    have shares : Int64.ofInt ((statement.see (.seen (.trade trade))).net owner) =
        Int64.ofInt (statement.net owner) +
          ((if statement.submissions.owner trade.taker = owner then Int64.ofInt trade.signed
              else 0) +
            if statement.submissions.owner trade.maker = owner then -Int64.ofInt trade.signed
            else 0) := by
      simp only [Statement.see, Submissions.share, Int64.ofInt_add, Int64.ofInt_sub]
      split <;> split <;> simp [Int64.sub_eq_add_neg, Int64.add_right_neg]
    unfold Sink.noteTrade
    dsimp only
    rw [delta, addPosition_positions _ _ _ nonzero, addPosition_positions _ _ _ nonzero,
      agrees.positions owner nonzero, agrees.owners, agrees.owners, shares, Int64.add_assoc]

def Learns (sink : Sink H) (submissions : Submissions) (events : List Event) : Prop :=
  ∀ id side price qty, .accept id side price qty ∈ events →
    sink.pendingOwner = (submissions.calling.bind Op.owner?).getD (submissions.owner id)

theorem see_accept_owner (submissions : Submissions) (id : OrderId) (side : Side) (price : Price)
    (qty : Qty) : (submissions.see (.seen (.accept id side price qty))).owner =
      Function.update submissions.owner id
        ((submissions.calling.bind Op.owner?).getD (submissions.owner id)) := by
  rw [Submissions.see]
  cases submissions.calling.bind Op.owner? with
  | none => rw [Option.getD_none, Function.update_eq_self]
  | some owner => rfl

theorem see_seen_calling (submissions : Submissions) (event : Event) :
    (submissions.see (.seen event)).calling = submissions.calling := by
  cases event with
  | accept id side price qty =>
      rw [Submissions.see]
      cases submissions.calling.bind Op.owner? <;> rfl
  | _ => rfl

variable [Handler H]

theorem on_pendingOwner (sink : Sink H) (event : Event) :
    (Handler.on sink event).pendingOwner = sink.pendingOwner := by
  cases event with
  | trade trade =>
      show (sink.noteTrade trade).pendingOwner = sink.pendingOwner
      unfold noteTrade
      rw [addPosition_pendingOwner, addPosition_pendingOwner]
  | _ => rfl

theorem Agrees.on {event : Event} (agrees : sink.Agrees statement)
    (learns : sink.Learns statement.submissions [event]) :
    (Handler.on sink event).Agrees (statement.see (.seen event)) := by
  cases event with
  | accept id side price qty =>
      refine ⟨fun other => ?_, agrees.positions⟩
      have told := learns id side price qty List.mem_cons_self
      show (sink.noteAccept id).ownerAt other = _
      rw [ownerAt_noteAccept, told, funext agrees.owners]
      exact (congrFun (see_accept_owner statement.submissions id side price qty) other).symm
  | trade trade =>
      have noted := agrees.noteTrade trade
      exact ⟨noted.owners, noted.positions⟩
  | _ => exact ⟨agrees.owners, agrees.positions⟩

theorem Learns.after {event : Event} {events : List Event} {submissions : Submissions}
    (learns : sink.Learns submissions (event :: events)) :
    (Handler.on sink event).Learns (submissions.see (.seen event)) events := by
  intro id side price qty member
  rw [on_pendingOwner, see_seen_calling, learns id side price qty (.tail event member)]
  cases calling : submissions.calling.bind Op.owner? with
  | some owner => rfl
  | none =>
      cases event with
      | accept id' side' price' qty' =>
          rw [see_accept_owner, calling]
          simp only [Option.getD_none, Function.update_eq_self]
      | _ => rfl

theorem Agrees.onAll {events : List Event} (agrees : sink.Agrees statement)
    (learns : sink.Learns statement.submissions events) :
    (Handler.onAll sink events).Agrees ((events.map Entry.seen).foldl Statement.see statement) := by
  induction events generalizing sink statement with
  | nil => exact agrees
  | cons event events induction =>
      have first : sink.Learns statement.submissions [event] := by
        intro id side price qty member
        exact learns id side price qty (List.mem_singleton.mp member ▸ List.mem_cons_self)
      exact induction (agrees.on first) learns.after

theorem onAll_user (sink : Sink H) (events : List Event) :
    (Handler.onAll sink events).user = Handler.onAll sink.user events := by
  induction events generalizing sink with
  | nil => rfl
  | cons event events induction => exact induction (Handler.on sink event)

end Sink

/-! ## Calls -/

def RiskGate.Call.entries (call : Call) (ret : Ret) (events : List Event) : List Entry :=
  match call with
  | .order op => .called op ret :: events.map .seen
  | _ => events.map .seen

namespace RiskGate

variable {H : Type} {g : RiskGate H} {m m' : Market} {statement : Statement} {op : Op}

structure Accounts (g : RiskGate H) (m : Market) (statement : Statement) : Prop where
  holds : g.engine.Holds m
  attributed : Attributed (m, .idle) statement.submissions
  agrees : g.engine.h.Agrees statement
  capped : m.Capped (.below (2 ^ 31))

def KeepsOwner (g : RiskGate H) (call : Call) : Prop :=
  ∀ (side : Side) (px : Price), ∀ o ∈ g.engine.queue side.book px, ∀ newPrice newQty,
    call = .order (.modify o.id newPrice newQty) → g.verdict call = none →
      g.engine.Reenters o newPrice newQty → o.owner = g.engine.h.pendingOwner

theorem isSubmit_iff (op : Op) : op.IsSubmit ↔ op.owner?.isSome := by
  cases op <;> simp [Op.IsSubmit, Op.owner?]

/-- What the operation accepts, the gate takes for its owner. -/
theorem Accounts.learns (accounts : g.Accounts m statement) {events : List Event} {ret : Ret}
    (performs : m.Performs op events m' ret)
    (pending : ∀ owner ∈ op.owner?, g.engine.h.pendingOwner = owner)
    (keeps : ∀ side px, ∀ o ∈ m.levels side px, ∀ newPrice newQty,
      op = .modify o.id newPrice newQty → m.Reenters o newPrice newQty →
        o.owner = g.engine.h.pendingOwner) :
    g.engine.h.Learns (statement.see (.called op ret)).submissions events := by
  intro id side price qty accepted
  show _ = (op.owner?).getD (statement.submissions.owner id)
  rcases performs.accepts accepted with submit | ⟨side, px, o, member, newPrice, newQty, rfl, rfl,
    reenters⟩
  · rw [isSubmit_iff, Option.isSome_iff_exists] at submit
    rcases submit with ⟨owner, named⟩
    rw [named, Option.getD_some]
    exact pending owner named
  · have owner := keeps side px o member newPrice newQty rfl reenters
    rw [← owner]
    exact (accounts.attributed.resting side px o member).symm

theorem Accounts.congr {g' : RiskGate H} (accounts : g.Accounts m statement)
    (engine : g'.engine = g.engine) : g'.Accounts m statement := by
  constructor
  · rw [engine]
    exact accounts.holds
  · exact accounts.attributed
  · rw [engine]
    exact accounts.agrees
  · exact accounts.capped

/-- At the moment an operation is handed on, its owner is the pending one. -/
theorem Accounts.ready (accounts : g.Accounts m statement) (op : Op) :
    (g.ready op).Accounts m statement ∧
      (∀ owner ∈ op.owner?, (g.ready op).engine.h.pendingOwner = owner) ∧
      (op.owner? = none → (g.ready op).engine.h.pendingOwner = g.engine.h.pendingOwner) ∧
      (g.ready op).engine.h.user = g.engine.h.user := by
  have entered (owner : OwnerId) :
      (g.countMessage.setPendingOwner owner).Accounts m statement :=
    ⟨accounts.holds.setHandler _, accounts.attributed,
      ⟨accounts.agrees.owners, accounts.agrees.positions⟩, accounts.capped⟩
  cases op with
  | submitLimit | submitMarket | submitIceberg | submitStop | submitStopLimit =>
      refine ⟨entered _, fun owner named => ?_, fun none => ?_, rfl⟩
      · cases named
        rfl
      · cases none
  | _ =>
      refine ⟨accounts.congr rfl, fun owner named => ?_, fun _ => rfl, rfl⟩
      cases named

theorem Accounts.keeps (accounts : g.Accounts m statement) (keeps : g.KeepsOwner (.order op))
    (admitted : g.verdict (.order op) = none) :
    ∀ side px, ∀ o ∈ m.levels side px, ∀ newPrice newQty, op = .modify o.id newPrice newQty →
      m.Reenters o newPrice newQty → o.owner = g.engine.h.pendingOwner := by
  rintro side px o member newPrice newQty rfl reenters
  rcases accounts.holds with ⟨band, r, simulates, rfl⟩
  rw [← simulates.shows.levels] at member
  exact keeps side px o member newPrice newQty rfl admitted
    (simulates.reenters_iff.mpr reenters)

section handler

variable [Handler H]

/-- An operation that is handed on. -/
theorem Accounts.forward (accounts : g.Accounts m statement)
    (admitted : op.Admitted (.below (2 ^ 31)))
    (pending : ∀ owner ∈ op.owner?, g.engine.h.pendingOwner = owner)
    (keeps : ∀ side px, ∀ o ∈ m.levels side px, ∀ newPrice newQty,
      op = .modify o.id newPrice newQty → m.Reenters o newPrice newQty →
        o.owner = g.engine.h.pendingOwner) :
    ∃ g' ret m' events, g.forward op = some (g', ret) ∧
      g'.engine.h.user = Handler.onAll g.engine.h.user events ∧
      g'.Accounts m' (((Call.order op).entries ret events).foldl Statement.see statement) ∧
      TradesBelow (2 ^ 31) events := by
  rcases accounts.holds.step op with ⟨engine, ret, m', events, stepped, did⟩
  have valid := accounts.holds.valid
  have told : engine.h = Handler.onAll g.engine.h events := did.told
  have learns := accounts.learns did.performs pending keeps
  have called : g.engine.h.Agrees (statement.see (.called op ret)) :=
    ⟨accounts.agrees.owners, accounts.agrees.positions⟩
  have fair := Run.fair (did.performs.moves accounts.holds.settled) ⟨valid, trivial⟩
    accounts.attributed
  refine ⟨{ g with engine }, ret, m', events, ?_, ?_, ⟨did.holds, ?_, ?_, ?_⟩, ?_⟩
  · rw [RiskGate.forward, stepped]
    rfl
  · show engine.h.user = _
    rw [told, Sink.onAll_user]
  · rw [Statement.foldl_submissions]
    exact fair.2
  · show engine.h.Agrees _
    rw [told]
    exact called.onAll learns
  · exact did.performs.capped valid accounts.capped admitted
  · exact did.performs.tradesBelow valid accounts.capped admitted

theorem cancelAll_eq (g : RiskGate H) (ids : List OrderId) :
    g.cancelAll ids = (g.engine.cancelEach ids).map fun engine => { g with engine } := by
  induction ids generalizing g with
  | nil => rfl
  | cons id ids induction =>
      rw [RiskGate.cancelAll, MatchingEngine.cancelEach, RiskGate.forward]
      cases g.engine.step (.cancel id) with
      | none => rfl
      | some next => exact induction { g with engine := next.1 }

theorem Accounts.killAndCancelAll (accounts : g.Accounts m statement) :
    ∃ g' m', ∃ ids : List OrderId, g.killAndCancelAll = some g' ∧
      g'.engine.h.user = Handler.onAll g.engine.h.user (ids.map .cancel) ∧
      g'.Accounts m' (((ids.map Event.cancel).map Entry.seen).foldl Statement.see statement) := by
  rcases accounts.holds.visits with ⟨bids, asks, stops, buys, sells, visited, nodup, members⟩
  rcases accounts.holds.cancelEach nodup members with
    ⟨engine, m', each, holds, closed, last, told⟩
  refine ⟨{ g with killed := true, engine }, m', bids.map Prod.fst ++ asks.map Prod.fst ++ stops,
    ?_, ?_, ⟨holds, ?_, ?_, ?_⟩⟩
  · simp only [RiskGate.killAndCancelAll, buys, sells, visited, Option.bind_eq_bind,
      Option.bind_some]
    rw [cancelAll_eq, each]
    rfl
  · show engine.h.user = _
    rw [told, Sink.onAll_user]
  · constructor
    · intro side px o member
      exact absurd (Market.isOpen_of_mem member) (closed o.id)
    · intro o member
      exact absurd (Market.isOpen_of_stop member) (closed o.id)
    · intro t taking
      rcases taking with same | same <;> cases same
    · intro clearing crossing
      cases crossing
  · show engine.h.Agrees _
    rw [told]
    apply accounts.agrees.onAll
    intro id side price qty member
    rcases List.mem_map.mp member with ⟨other, -, same⟩
    cases same
  · constructor
    · intro side px o member
      exact absurd (Market.isOpen_of_mem member) (closed o.id)
    · intro o member
      exact absurd (Market.isOpen_of_stop member) (closed o.id)

/-- Every call whose quantities are below the bound. -/
theorem Accounts.step (accounts : g.Accounts m statement) (call : Call)
    (small : ∀ op, call = .order op → op.Admitted (.below (2 ^ 31))) (keeps : g.KeepsOwner call) :
    ∃ g' ret m' events, g.step call = some (g', ret) ∧
      g'.engine.h.user = Handler.onAll g.engine.h.user events ∧
      g'.Accounts m' ((call.entries ret events).foldl Statement.see statement) ∧
      TradesBelow (2 ^ 31) events := by
  have silent : TradesBelow (2 ^ 31) [] := fun trade member => absurd member List.not_mem_nil
  cases call with
  | order op =>
      cases decided : g.verdict (.order op) with
      | none =>
          have onMarket := accounts.keeps keeps decided
          rcases accounts.ready op with ⟨accounts', pending, unchanged, user⟩
          have kept : ∀ side px, ∀ o ∈ m.levels side px, ∀ newPrice newQty,
              op = .modify o.id newPrice newQty → m.Reenters o newPrice newQty →
                o.owner = (g.ready op).engine.h.pendingOwner := by
            rintro side px o member newPrice newQty rfl reenters
            rw [unchanged rfl]
            exact onMarket side px o member newPrice newQty rfl reenters
          rcases accounts'.forward (small op rfl) pending kept with
            ⟨g', ret, m', events, handed, told, accounts'', below⟩
          refine ⟨g', ret, m', events, (g.step_admitted op decided).trans handed, ?_, accounts'',
            below⟩
          rw [told, user]
      | some reason =>
          refine ⟨_, _, m, [], g.step_turnedAway op decided, rfl, ?_, silent⟩
          have called := accounts.attributed.called op op.refused
          exact ⟨accounts.holds, called, ⟨accounts.agrees.owners, accounts.agrees.positions⟩,
            accounts.capped⟩
  | killAndCancelAll =>
      rcases accounts.killAndCancelAll with ⟨g', m', ids, killed, told, accounts'⟩
      refine ⟨g', .done, m', ids.map .cancel, ?_, told, accounts', ?_⟩
      · rw [RiskGate.step, killed, Option.map_some]
      · intro trade member
        rcases List.mem_map.mp member with ⟨id, -, same⟩
        cases same
  | setLimits limits => exact ⟨_, .done, m, [], rfl, rfl, accounts.congr rfl, silent⟩
  | newWindow => exact ⟨_, .done, m, [], rfl, rfl, accounts.congr rfl, silent⟩
  | kill => exact ⟨_, .done, m, [], rfl, rfl, accounts.congr rfl, silent⟩
  | clearKill => exact ⟨_, .done, m, [], rfl, rfl, accounts.congr rfl, silent⟩

end handler

/-! ## Runs -/

def rewind (g : RiskGate Tape) : RiskGate Tape :=
  { g with engine := { g.engine with h := { g.engine.h with user := [] } } }

def journal (g : RiskGate Tape) : List Call → Option (List Entry × RiskGate Tape)
  | [] => some ([], g)
  | call :: calls => do
      let (g, ret) ← g.rewind.step call
      let (log, final) ← g.journal calls
      some (call.entries ret g.engine.h.user ++ log, final)

def KeepsOwners : RiskGate Tape → List Call → Prop
  | _, [] => True
  | g, call :: calls => g.KeepsOwner call ∧
      ∀ g' ret, g.rewind.step call = some (g', ret) → g'.KeepsOwners calls

theorem Accounts.rewind {g : RiskGate Tape} (accounts : g.Accounts m statement) :
    g.rewind.Accounts m statement :=
  ⟨accounts.holds.setHandler _, accounts.attributed,
    ⟨accounts.agrees.owners, accounts.agrees.positions⟩, accounts.capped⟩

theorem KeepsOwner.rewind {g : RiskGate Tape} {call : Call} (keeps : g.KeepsOwner call) :
    g.rewind.KeepsOwner call := by
  rintro side px o member newPrice newQty rfl
  exact keeps side px o member newPrice newQty rfl

theorem Accounts.journal {g : RiskGate Tape} (accounts : g.Accounts m statement) {calls : List Call}
    (small : ∀ op, .order op ∈ calls → op.Admitted (.below (2 ^ 31)))
    (keeps : g.KeepsOwners calls) :
    ∃ log g' m', g.journal calls = some (log, g') ∧
      g'.Accounts m' (log.foldl Statement.see statement) ∧
      ∀ trade, .seen (.trade trade) ∈ log → trade.qty < 2 ^ 31 := by
  induction calls generalizing g m statement with
  | nil => exact ⟨[], g, m, rfl, accounts, fun trade member => absurd member List.not_mem_nil⟩
  | cons call calls induction =>
      rcases accounts.rewind.step call (fun op same => small op (same ▸ List.mem_cons_self))
        keeps.1.rewind with ⟨g₁, ret, m₁, events, stepped, told, accounts₁, below⟩
      have record : g₁.engine.h.user = events := by
        rw [told]
        exact Handler.onAll_tape [] events
      rcases induction accounts₁ (fun op member => small op (.tail call member))
        (keeps.2 g₁ ret stepped) with ⟨log, g', m', ran, accounts', below'⟩
      refine ⟨call.entries ret events ++ log, g', m', ?_, ?_, ?_⟩
      · simp only [RiskGate.journal, stepped, ran, record, Option.bind_eq_bind, Option.bind_some]
      · rw [List.foldl_append]
        exact accounts'
      · intro trade member
        rcases List.mem_append.mp member with now | later
        · apply below
          cases call with
          | order op => simpa [Call.entries] using now
          | _ => simpa [Call.entries] using now
        · exact below' trade later

/-- Every position is what the owner's orders have traded, and every open order is taken for
one of its owner. -/
structure Attributes (g : RiskGate H) (statement : Statement) : Prop where
  positions : ∀ owner, owner ≠ 0 → (g.position owner).toInt = statement.net owner
  owners : ∀ id o, g.engine.lookup id = some o →
    g.engine.h.ownerAt id = (g.engine.mem.nodes o).owner

theorem Accounts.owner_eq (accounts : g.Accounts m statement) {id : OrderId} {ptr : Ptr}
    (found : g.engine.lookup id = some ptr) :
    (g.engine.mem.nodes ptr).owner = statement.submissions.owner id := by
  rcases accounts.holds with ⟨band, r, simulates, rfl⟩
  rcases simulates.tracks with ⟨cells, mirrors, -⟩
  rcases (mirrors.heap.filed.table id ptr).mp found with ⟨book, i, o, member, rfl⟩
  have node := (mirrors.heap.filed.holds book i ptr o member).node
  have present := List.mem_map_of_mem (f := Prod.snd) member
  rw [node]
  rcases MatchingEngine.book_cases book with ⟨side, rfl | rfl⟩
  · rw [mirrors.resting] at present
    exact (accounts.attributed.resting side _ o present).symm
  · exact (accounts.attributed.parked o (mirrors.mem_stops member).1).symm

/-- Fewer than 2 ^ 31 trades of less than 2 ^ 31 each do not wrap a position. -/
theorem Accounts.attributes {log : List Entry}
    (accounts : g.Accounts m (log.foldl Statement.see .start))
    (small : ∀ trade, .seen (.trade trade) ∈ log → trade.qty < 2 ^ 31)
    (few : Statement.fills log < 2 ^ 31) : g.Attributes (log.foldl Statement.see .start) where
  positions owner nonzero := by
    have below : ∀ trade, .seen (.trade trade) ∈ log → trade.qty.toNat ≤ 2 ^ 31 :=
      fun trade member => Nat.le_of_lt (UInt64.lt_iff_toNat_lt.mp (small trade member))
    have net := abs_le.mp (Statement.abs_net_le below .start owner)
    have none : |Statement.start.net owner| = 0 := rfl
    rw [none] at net
    rw [RiskGate.position, accounts.agrees.positions owner nonzero]
    exact Int64.toInt_ofInt_of_le (by lia) (by lia)
  owners id ptr found := by
    rw [accounts.owner_eq found]
    exact accounts.agrees.owners id

theorem accounts_new (band : Band) (user : H) (limits : RiskLimits) (expectedOrders : Nat) :
    (new band user limits expectedOrders).Accounts (.new band) .start where
  holds := MatchingEngine.holds_new ..
  attributed := .new band
  agrees := by
    refine ⟨fun id => ?_, fun owner nonzero => rfl⟩
    show #[(0 : OwnerId)].getD id 0 = 0
    cases id <;> rfl
  capped :=
    { resting := fun side px o member => absurd member List.not_mem_nil
      parked := fun o member => absurd member List.not_mem_nil }

/-- In a run in which no `modify` enters an order of another owner than the last submission's
again, every fill counts for the owner the order was submitted with. -/
theorem journal_attributes (band : Band) (limits : RiskLimits) (expectedOrders : Nat)
    (calls : List Call) (small : ∀ op, .order op ∈ calls → op.Admitted (.below (2 ^ 31)))
    (keeps : (new band ([] : Tape) limits expectedOrders).KeepsOwners calls) :
    ∃ log g, (new band [] limits expectedOrders).journal calls = some (log, g) ∧
      (Statement.fills log < 2 ^ 31 → g.Attributes (log.foldl Statement.see .start)) := by
  rcases (accounts_new band [] limits expectedOrders).journal small keeps with
    ⟨log, g, m, ran, accounts, below⟩
  exact ⟨log, g, ran, accounts.attributes below⟩

/-! ### Runs on fixed calls -/

def ownerKept (g : RiskGate Tape) : Call → Bool
  | .order (.modify id _ _) => g.engine.h.ownerAt id = g.engine.h.pendingOwner
  | _ => true

def ownersKept : RiskGate Tape → List Call → Bool
  | _, [] => true
  | g, call :: calls => g.ownerKept call &&
      match g.rewind.step call with
      | none => true
      | some (g', _) => g'.ownersKept calls

theorem Accounts.keepsOwner {call : Call} (accounts : g.Accounts m statement)
    (kept : ∀ id newPrice newQty, call = .order (.modify id newPrice newQty) →
      g.engine.h.ownerAt id = g.engine.h.pendingOwner) : g.KeepsOwner call := by
  rintro side px o member newPrice newQty rfl - -
  rcases accounts.holds with ⟨band, r, simulates, rfl⟩
  rw [simulates.shows.levels] at member
  rw [← accounts.attributed.resting side px o member, ← accounts.agrees.owners]
  exact kept o.id newPrice newQty rfl

theorem Accounts.keepsOwners {g : RiskGate Tape} (accounts : g.Accounts m statement)
    {calls : List Call} (small : ∀ op, .order op ∈ calls → op.Admitted (.below (2 ^ 31)))
    (kept : g.ownersKept calls = true) : g.KeepsOwners calls := by
  induction calls generalizing g m statement with
  | nil => trivial
  | cons call calls induction =>
      rw [ownersKept, Bool.and_eq_true] at kept
      have keeps : g.KeepsOwner call := by
        apply accounts.keepsOwner
        rintro id newPrice newQty rfl
        exact of_decide_eq_true kept.1
      refine ⟨keeps, fun g' ret stepped => ?_⟩
      rcases accounts.rewind.step call (fun op same => small op (same ▸ List.mem_cons_self))
        keeps.rewind with ⟨g₁, ret₁, m₁, events, stepped₁, -, accounts₁, -⟩
      rw [stepped] at stepped₁
      cases stepped₁
      rw [stepped] at kept
      exact induction accounts₁ (fun op member => small op (.tail call member)) kept.2

/-- Owner 2 buys of owner 1, who then moves what is left. -/
theorem journal_attributes_reprice :
    let calls : List Call :=
      [.order (.submitLimit .buy 100 2 .gtc 2 .cancelTaker),
        .order (.submitLimit .sell 100 5 .gtc 1 .cancelTaker), .order (.modify 2 101 3)]
    ∃ log g, (new ⟨95, 105, by decide, by decide, by decide⟩ [] {} 16).journal calls =
        some (log, g) ∧
      (Statement.fills log < 2 ^ 31 → g.Attributes (log.foldl Statement.see .start)) := by
  intro calls
  have small : ∀ op, Call.order op ∈ calls → op.Admitted (.below (2 ^ 31)) := by
    intro op member
    simp only [calls, List.mem_cons, Call.order.injEq, List.not_mem_nil, or_false] at member
    rcases member with rfl | rfl | rfl
    · show (2 : Qty) < 2 ^ 31
      decide
    · show (5 : Qty) < 2 ^ 31
      decide
    · show (3 : Qty) ≠ 0 → (3 : Qty) < 2 ^ 31
      decide
  apply journal_attributes _ _ _ _ small
  exact (accounts_new ..).keepsOwners small (by decide +kernel)

/-- The order of owner 1 is moved after owner 2 has submitted one, and then filled. -/
theorem not_journal_attributes :
    let calls : List Call :=
      [.order (.submitLimit .buy 100 5 .gtc 1 .cancelTaker),
        .order (.submitLimit .sell 105 1 .gtc 2 .cancelTaker), .order (.modify 1 101 5),
        .order (.submitLimit .sell 101 2 .gtc 3 .cancelTaker)]
    (∀ op, .order op ∈ calls → op.Admitted (.below (2 ^ 31))) ∧
      ∃ log g, (new ⟨95, 105, by decide, by decide, by decide⟩ [] {} 16).journal calls =
          some (log, g) ∧ Statement.fills log = 1 ∧ g.position 1 = 0 ∧ g.position 2 = 2 ∧
        (log.foldl Statement.see .start).net 1 = 2 ∧ g.engine.h.ownerAt 1 = 2 ∧
        (g.engine.lookup 1).map (fun o => (g.engine.mem.nodes o).owner) = some 1 ∧
        ¬ g.Attributes (log.foldl Statement.see .start) := by
  intro calls
  let gate : RiskGate Tape := new ⟨95, 105, by decide, by decide, by decide⟩ [] {} 16
  have seen : (gate.journal calls).map (fun run =>
      ((Statement.fills run.1, (run.1.foldl Statement.see .start).net 1),
        (run.2.position 1, run.2.position 2), run.2.engine.h.ownerAt 1,
        (run.2.engine.lookup 1).map fun o => (run.2.engine.mem.nodes o).owner)) =
      some ((1, 2), (0, 2), 2, some 1) := by
    decide +kernel
  constructor
  · intro op member
    simp only [calls, List.mem_cons, Call.order.injEq, List.not_mem_nil, or_false] at member
    rcases member with rfl | rfl | rfl | rfl
    · show (5 : Qty) < 2 ^ 31
      decide
    · show (1 : Qty) < 2 ^ 31
      decide
    · show (5 : Qty) ≠ 0 → (5 : Qty) < 2 ^ 31
      decide
    · show (2 : Qty) < 2 ^ 31
      decide
  · cases ran : gate.journal calls with
    | none =>
        rw [ran] at seen
        cases seen
    | some outcome =>
        rcases outcome with ⟨log, g⟩
        rw [ran, Option.map_some, Option.some.injEq] at seen
        simp only [Prod.mk.injEq] at seen
        rcases seen with ⟨⟨fills, net⟩, ⟨first, second⟩, owner, node⟩
        refine ⟨log, g, rfl, fills, first, second, net, owner, node, fun attributes => ?_⟩
        have same := attributes.positions 1 (by decide)
        rw [first, net] at same
        exact absurd same (by decide)

end RiskGate

end Matchbook
