import Matchbook.Engine.FillOrKill
import Matchbook.Engine.OpenOrders
import Matchbook.Engine.Records
import Matchbook.Engine.SerialSchedule
import Matchbook.Market.Auction
import Matchbook.Market.StopFree
import Matchbook.Strategy.MarketMaker

namespace Matchbook

/-! # The market maker's position

Our quotes only ever rest, and the two ids in the handler are enough to tell our fills from those
of everyone else. -/

theorem MatchingEngine.Holds.best_iff {H : Type} {s : MatchingEngine H} {m : Market}
    (holds : s.Holds m) (side : Side) (px : Price) :
    (s.hasBest side ∧ s.bestPrice side = px) ↔ m.Best side px := by
  rcases holds with ⟨band, r, simulates, rfl⟩
  rcases simulates.tracks with ⟨cells, mirrors, -⟩
  exact mirrors.hasBest_iff simulates.sound.keyed side px

namespace Mmsim

def quoted (calls : List Call) (side : Side) : List OrderId :=
  calls.filterMap fun call =>
    if call.quotes = some side ∧ issued call.ret ≠ invalidOrderId then some (issued call.ret)
    else none

def fills (calls : List Call) (side : Side) (tape : Tape) : List Trade :=
  (tradesOf tape).filter fun t => t.maker ∈ quoted calls side

def quantity (trades : List Trade) : Int := (trades.map fun t => (t.qty.toNat : Int)).sum

def notional (trades : List Trade) : Int :=
  (trades.map fun t => t.price * (t.qty.toNat : Int)).sum

/-- The position that is left of those fills. -/
structure MMHandler.Balanced (h : MMHandler) (bought sold : List Trade) : Prop where
  inventory : h.inventory = quantity bought - quantity sold
  cash : h.cash = notional sold - notional bought
  mmFills : h.mmFills = bought.length + sold.length

/-! ## The handler -/

section handler

variable {h : MMHandler} {bought sold : List Trade} {t : Trade} {calls : List Call}
  {tape : Tape} {events : List Event} {side other : Side}

theorem fills_append : fills calls side (tape ++ events) =
    fills calls side tape ++ fills calls side events := by
  rw [fills, tradesOf_append, List.filter_append]
  rfl

theorem fills_trade : fills calls side [.trade t] =
    if t.maker ∈ quoted calls side then [t] else [] := by
  by_cases member : t.maker ∈ quoted calls side <;> simp [fills, tradesOf, Event.trade?, member]

theorem fills_untraded (untraded : ∀ t, .trade t ∉ events) : fills calls side events = [] := by
  apply List.eq_nil_iff_forall_not_mem.mpr
  intro t member
  exact untraded t (mem_tradesOf.mp (List.mem_of_mem_filter member))

theorem quoted_concat (call : Call) : quoted (calls ++ [call]) side =
    quoted calls side ++ if call.quotes = some side ∧ issued call.ret ≠ invalidOrderId then
      [issued call.ret] else [] := by
  rw [quoted, List.filterMap_append]
  congr 1
  split <;> simp [*]

namespace MMHandler

theorem Balanced.buy (balanced : h.Balanced bought sold) (ours : t.maker = h.mmBid) :
    (h.onTrade t).Balanced (bought ++ [t]) sold := by
  rcases balanced with ⟨inventory, cash, mmFills⟩
  rw [onTrade, if_pos ours]
  constructor
  · simp only [inventory, quantity, List.map_append, List.sum_append, List.map_singleton,
      List.sum_singleton]
    lia
  · simp only [cash, notional, List.map_append, List.sum_append, List.map_singleton,
      List.sum_singleton]
    lia
  · simp only [mmFills, List.length_append, List.length_singleton]
    lia

theorem Balanced.sell (balanced : h.Balanced bought sold) (ours : t.maker = h.mmAsk)
    (notBid : t.maker ≠ h.mmBid) : (h.onTrade t).Balanced bought (sold ++ [t]) := by
  rcases balanced with ⟨inventory, cash, mmFills⟩
  rw [onTrade, if_neg notBid, if_pos ours]
  constructor
  · simp only [inventory, quantity, List.map_append, List.sum_append, List.map_singleton,
      List.sum_singleton]
    lia
  · simp only [cash, notional, List.map_append, List.sum_append, List.map_singleton,
      List.sum_singleton]
    lia
  · simp only [mmFills, List.length_append, List.length_singleton]
    lia

@[simp] theorem quote_onTrade : (h.onTrade t).quote side = h.quote side := by
  cases side <;> simp only [onTrade, quote] <;> split <;> [skip; split; skip; split] <;> rfl

@[simp] theorem quote_on (event : Event) : (Handler.on h event).quote side = h.quote side := by
  cases event with
  | trade t => exact quote_onTrade
  | _ => rfl

theorem quote_onAll : (Handler.onAll h events).quote side = h.quote side := by
  induction events generalizing h with
  | nil => rfl
  | cons event events induction => exact induction.trans (quote_on event)

theorem quote_setQuote {id : OrderId} :
    (h.setQuote side id).quote other = if other = side then id else h.quote other := by
  cases side <;> cases other <;> rfl

theorem Balanced.setQuote (balanced : h.Balanced bought sold) (id : OrderId) :
    (h.setQuote side id).Balanced bought sold := by
  cases side <;> exact ⟨balanced.inventory, balanced.cash, balanced.mmFills⟩

/-- A fill is booked if the ids in the handler are those of the makers that are ours. -/
theorem Balanced.trade
    (balanced : h.Balanced (fills calls .buy tape) (fills calls .sell tape))
    (apart : ∀ id ∈ quoted calls .buy, id ∉ quoted calls .sell)
    (tells : ∀ side, t.maker ∈ quoted calls side ↔ t.maker = h.quote side) :
    (h.onTrade t).Balanced (fills calls .buy (tape ++ [.trade t]))
      (fills calls .sell (tape ++ [.trade t])) := by
  rw [fills_append, fills_append, fills_trade, fills_trade]
  by_cases bid : t.maker ∈ quoted calls .buy
  · rw [if_pos bid, if_neg (apart _ bid), List.append_nil]
    exact balanced.buy ((tells .buy).mp bid)
  · rw [if_neg bid, List.append_nil]
    have notBid : t.maker ≠ h.mmBid := mt (tells .buy).mpr bid
    by_cases ask : t.maker ∈ quoted calls .sell
    · rw [if_pos ask]
      exact balanced.sell ((tells .sell).mp ask) notBid
    · rw [if_neg ask, List.append_nil]
      have notAsk : t.maker ≠ h.mmAsk := mt (tells .sell).mpr ask
      rw [onTrade, if_neg notBid, if_neg notAsk]
      exact balanced

theorem Balanced.onAll
    (balanced : h.Balanced (fills calls .buy tape) (fills calls .sell tape))
    (apart : ∀ id ∈ quoted calls .buy, id ∉ quoted calls .sell)
    (tells : ∀ t, .trade t ∈ events → ∀ side,
      t.maker ∈ quoted calls side ↔ t.maker = h.quote side) :
    (Handler.onAll h events).Balanced (fills calls .buy (tape ++ events))
      (fills calls .sell (tape ++ events)) := by
  induction events generalizing h tape with
  | nil => simpa using balanced
  | cons event events induction =>
      rw [List.append_cons]
      apply induction (h := Handler.on h event)
      · cases event with
        | trade t => exact balanced.trade apart (tells t List.mem_cons_self)
        | _ => simpa [fills_append, fills_untraded, Handler.on] using balanced
      · intro t member side
        rw [quote_on]
        exact tells t (List.mem_cons_of_mem event member) side

end MMHandler

end handler

/-! ## Between two calls -/

structure Square (m : Market) (h : MMHandler) (calls : List Call) (tape : Tape) : Prop where
  valid : m.Valid
  free : m.StopFree
  past : ∀ t, .trade t ∈ tape → t.maker < m.nextId ∧ t.taker < m.nextId
  given : ∀ side, ∀ id ∈ quoted calls side, 0 < id ∧ id < m.nextId
  live : ∀ side, ∀ id ∈ quoted calls side, m.IsOpen id → id = h.quote side
  current : ∀ side, h.quote side = 0 ∨ h.quote side ∈ quoted calls side
  apart : ∀ id ∈ quoted calls .buy, id ∉ quoted calls .sell
  passive : ∀ t, .trade t ∈ tape → ∀ side, t.taker ∉ quoted calls side
  balanced : h.Balanced (fills calls .buy tape) (fills calls .sell tape)

section square

variable {m m' : Market} {h : MMHandler} {calls : List Call} {tape : Tape} {events : List Event}
  {op : Op} {ret : Ret} {side : Side} {id : OrderId}

theorem quoted_unquoted : quoted (calls ++ [⟨op, ret, none⟩]) = quoted calls := by
  funext side
  rw [quoted_concat, if_neg (by simp), List.append_nil]

theorem quoted_refused (quotes : Option Side) :
    quoted (calls ++ [⟨op, .id invalidOrderId, quotes⟩]) = quoted calls := by
  funext side
  rw [quoted_concat, if_neg (fun given => given.2 rfl), List.append_nil]

theorem Square.congr {calls' : List Call} (square : Square m h calls tape)
    (same : quoted calls' = quoted calls) : Square m h calls' tape := by
  have filled : fills calls' = fills calls := by
    funext side tape
    rw [fills, same]
    rfl
  exact ⟨square.valid, square.free, square.past, same ▸ square.given, same ▸ square.live,
    same ▸ square.current, same ▸ square.apart, same ▸ square.passive, filled ▸ square.balanced⟩

theorem Square.closed (square : Square m h calls tape) (none : h.quote side = 0)
    (member : id ∈ quoted calls side) : ¬ m.IsOpen id := by
  intro isOpen
  have same := square.live side id member isOpen
  have positive := (square.given side id member).1
  rw [same, none] at positive
  exact Nat.lt_irrefl 0 positive

theorem Square.tells (square : Square m h calls tape) (isOpen : m.IsOpen id) (side : Side) :
    id ∈ quoted calls side ↔ id = h.quote side := by
  constructor
  · exact fun member => square.live side id member isOpen
  · rintro rfl
    rcases square.current side with none | member
    · have positive := (square.valid.issued _ isOpen).1
      rw [none] at positive
      exact absurd positive (Nat.lt_irrefl 0)
    · exact member

/-- What an order of someone else does, or a cancel. -/
theorem Square.next (square : Square m h calls tape) (valid : m'.Valid) (free : m'.StopFree)
    (ordered : m.nextId ≤ m'.nextId)
    (origin : ∀ other, m'.IsOpen other → m.IsOpen other ∨ other = m.nextId)
    (trades : ∀ t, .trade t ∈ events →
      t.taker = m.nextId ∧ m.IsOpen t.maker ∧ t.taker < m'.nextId) :
    Square m' (Handler.onAll h events) calls (tape ++ events) := by
  have below (side : Side) (id : OrderId) (member : id ∈ quoted calls side) : id < m.nextId :=
    (square.given side id member).2
  constructor
  case valid => exact valid
  case free => exact free
  case past =>
    intro t member
    rcases List.mem_append.mp member with old | new
    · have ids := square.past t old
      exact ⟨Nat.lt_of_lt_of_le ids.1 ordered, Nat.lt_of_lt_of_le ids.2 ordered⟩
    · rcases trades t new with ⟨-, isOpen, issued⟩
      exact ⟨Nat.lt_of_lt_of_le (square.valid.issued _ isOpen).2 ordered, issued⟩
  case given =>
    exact fun side id member =>
      ⟨(square.given side id member).1, Nat.lt_of_lt_of_le (below side id member) ordered⟩
  case live =>
    intro side id member isOpen
    rw [MMHandler.quote_onAll]
    rcases origin id isOpen with before | new
    · exact square.live side id member before
    · exact absurd (below side id member) (Nat.not_lt.mpr (Nat.le_of_eq new.symm))
  case current =>
    intro side
    rw [MMHandler.quote_onAll]
    exact square.current side
  case apart => exact square.apart
  case passive =>
    intro t member side ours
    rcases List.mem_append.mp member with old | new
    · exact square.passive t old side ours
    · rw [(trades t new).1] at ours
      exact Nat.lt_irrefl _ (below side _ ours)
  case balanced =>
    exact square.balanced.onAll square.apart fun t member side =>
      square.tells (trades t member).2.1 side

theorem Square.enters (square : Square m h calls tape) (entry : op.IsEntry)
    (performs : m.Performs op events m' ret) :
    Square m' (Handler.onAll h events) calls (tape ++ events) := by
  have sweeps := performs.sweeps square.valid square.free entry
  exact square.next sweeps.valid.1 sweeps.free sweeps.next
    (fun other isOpen => sweeps.alive other (.inl isOpen)) sweeps.trades

theorem Square.cancels (square : Square m h calls tape)
    (performs : m.Performs (.cancel id) events m' ret) :
    Square m' (Handler.onAll h events) calls (tape ++ events) ∧ ¬ m'.IsOpen id := by
  rcases performs.removes square.valid square.free with ⟨free, ordered, untraded, removes⟩
  refine ⟨square.next (performs.valid square.valid) free ordered
    (fun other isOpen => .inl (removes other isOpen).1)
    (fun t member => absurd member (untraded t)), fun isOpen => (removes id isOpen).2 rfl⟩

theorem Square.forget (square : Square m h calls tape)
    (closed : ∀ id ∈ quoted calls side, ¬ m.IsOpen id) :
    Square m (h.setQuote side 0) calls tape where
  valid := square.valid
  free := square.free
  past := square.past
  given := square.given
  live := by
    intro other id member isOpen
    rw [MMHandler.quote_setQuote]
    split
    · rename_i same
      exact absurd isOpen (closed id (same ▸ member))
    · exact square.live other id member isOpen
  current := by
    intro other
    rw [MMHandler.quote_setQuote]
    split
    · exact .inl rfl
    · exact square.current other
  apart := square.apart
  passive := square.passive
  balanced := square.balanced.setQuote 0

theorem Square.remember (square : Square m h calls tape) (none : h.quote side = 0)
    (issued : 0 < id ∧ id < m.nextId) (unquoted : ∀ other, id ∉ quoted calls other)
    (untraded : ∀ t, .trade t ∈ tape → t.maker ≠ id ∧ t.taker ≠ id) :
    Square m (h.setQuote side id) (calls ++ [⟨op, .id id, some side⟩]) tape := by
  have member_iff (other : Side) (id' : OrderId) :
      id' ∈ quoted (calls ++ [⟨op, .id id, some side⟩]) other ↔
        id' ∈ quoted calls other ∨ (other = side ∧ id' = id) := by
    have placed : Mmsim.issued (.id id) = id := rfl
    have real : id ≠ invalidOrderId := Nat.ne_of_gt issued.1
    rw [quoted_concat]
    by_cases same : other = side
    · simp [same, placed, real]
    · simp [same, Ne.symm same]
  have filled (other : Side) : fills (calls ++ [⟨op, .id id, some side⟩]) other tape =
      fills calls other tape := by
    apply List.filter_congr
    intro t member
    have fresh := (untraded t (mem_tradesOf.mp member)).1
    rw [decide_eq_decide, member_iff]
    simp [fresh]
  constructor
  case valid => exact square.valid
  case free => exact square.free
  case past => exact square.past
  case given =>
    intro other id' member
    rcases (member_iff other id').mp member with old | ⟨-, rfl⟩
    · exact square.given other id' old
    · exact issued
  case live =>
    intro other id' member isOpen
    rw [MMHandler.quote_setQuote]
    rcases (member_iff other id').mp member with old | ⟨same, rfl⟩
    · split
      · rename_i same
        subst same
        exact absurd isOpen (square.closed none old)
      · exact square.live other id' old isOpen
    · rw [if_pos same]
  case current =>
    intro other
    rw [MMHandler.quote_setQuote, member_iff]
    split
    · exact .inr (.inr ⟨‹_›, rfl⟩)
    · exact (square.current other).imp_right .inl
  case apart =>
    intro id' bid ask
    rcases (member_iff .buy id').mp bid with old | ⟨isBid, rfl⟩
    · rcases (member_iff .sell id').mp ask with old' | ⟨-, rfl⟩
      · exact square.apart id' old old'
      · exact unquoted .buy old
    · rcases (member_iff .sell id').mp ask with old' | ⟨isAsk, -⟩
      · exact unquoted .sell old'
      · rw [← isBid] at isAsk
        cases isAsk
  case passive =>
    intro t member other ours
    rcases (member_iff other t.taker).mp ours with old | ⟨-, same⟩
    · exact square.passive t member other old
    · exact (untraded t member).2 same
  case balanced =>
    rw [filled, filled]
    exact square.balanced.setQuote id

end square

/-! ## Runs -/

structure Sim.Recorded (band : Band) (expectedOrders : Nat) (sim : Sim) (s : MatchingEngine Tape)
    (m : Market) : Prop where
  records : sim.e.Records s m
  ran : (MatchingEngine.new band ([] : Tape) expectedOrders).runOps (sim.calls.map Call.op) =
    some (s, sim.calls.map Call.ret)

def Sim.Kept (band : Band) (expectedOrders : Nat) (sim : Sim) : Prop :=
  ∃ s m, sim.Recorded band expectedOrders s m ∧ Square m sim.e.h sim.calls s.h

namespace Sim

section run

variable {band : Band} {expectedOrders : Nat} {sim : Sim} {s : MatchingEngine Tape} {m : Market}
  {side : Side} {px : Price}

theorem Recorded.setQuote (recorded : sim.Recorded band expectedOrders s m) (side : Side)
    (id : OrderId) : (sim.setQuote side id).Recorded band expectedOrders s m where
  records := recorded.records.setHandler _
  ran := recorded.ran

/-- What a call does to the engine, to the record of it and to the handler. -/
theorem Recorded.call (recorded : sim.Recorded band expectedOrders s m) (op : Op)
    (quotes : Option Side) :
    ∃ e ret s' m' events, sim.e.step op = some (e, ret) ∧
      sim.call op quotes = some (⟨e, sim.calls ++ [⟨op, ret, quotes⟩]⟩, ret) ∧
      Recorded band expectedOrders ⟨e, sim.calls ++ [⟨op, ret, quotes⟩]⟩ s' m' ∧
      m.Performs op events m' ret ∧ e.h = Handler.onAll sim.e.h events ∧
      s'.h = s.h ++ events := by
  rcases recorded.records.step op with
    ⟨e, s', ret, m', events, stepped, there, records, performs, heard, tape⟩
  refine ⟨e, ret, s', m', events, stepped, ?_, ⟨records, ?_⟩, performs, heard, tape⟩
  · rw [Sim.call, stepped]
    rfl
  · simp only [List.map_append, List.map_singleton]
    exact MatchingEngine.runOps_concat recorded.ran there

theorem kept_new (band : Band) (expectedOrders : Nat) :
    (new band expectedOrders).Kept band expectedOrders := by
  have valid : (Market.new band).Valid := (MatchingEngine.new_valid band).1
  refine ⟨.new band [] expectedOrders, .new band,
    ⟨MatchingEngine.records_new band ({} : MMHandler) expectedOrders, rfl⟩, valid, ⟨rfl, rfl⟩,
    nofun, nofun, nofun, fun side => .inl ?_, nofun, nofun,
    ⟨rfl, rfl, rfl⟩⟩
  cases side <;> rfl

theorem Kept.all {ops : List Op} (entries : ∀ op ∈ ops, op.IsEntry)
    (kept : sim.Kept band expectedOrders) :
    ∃ sim', sim.all ops = some sim' ∧ sim'.Kept band expectedOrders := by
  induction ops generalizing sim with
  | nil => exact ⟨sim, rfl, kept⟩
  | cons op ops induction =>
      rcases kept with ⟨s, m, recorded, square⟩
      rcases recorded.call op none with
        ⟨e, ret, s', m', events, -, called, recorded', performs, heard, tape⟩
      have entered := square.enters (entries op List.mem_cons_self) performs
      rw [← heard, ← tape] at entered
      rcases induction (fun op member => entries op (List.mem_cons_of_mem _ member))
        ⟨s', m', recorded', entered.congr quoted_unquoted⟩ with ⟨sim', rest, kept'⟩
      exact ⟨sim', by simp only [Sim.all, called, Option.bind_eq_bind, Option.bind_some, rest],
        kept'⟩

theorem Kept.withdraw (kept : sim.Kept band expectedOrders) (side : Side) :
    ∃ sim', sim.withdraw side = some sim' ∧ sim'.Kept band expectedOrders ∧
      ∀ other, sim'.e.h.quote other = if other = side then 0 else sim.e.h.quote other := by
  rw [Sim.withdraw]
  split
  case isTrue none =>
    refine ⟨sim, rfl, kept, fun other => ?_⟩
    split
    · rw [‹other = side›, none]
    · rfl
  case isFalse some =>
    rcases kept with ⟨s, m, recorded, square⟩
    rcases recorded.call (.cancel (sim.e.h.quote side)) none with
      ⟨e, ret, s', m', events, -, called, recorded', performs, heard, tape⟩
    rcases square.cancels performs with ⟨square', closed⟩
    rw [← heard, ← tape] at square'
    have quotes (other : Side) : e.h.quote other = sim.e.h.quote other := by
      rw [heard, MMHandler.quote_onAll]
    refine ⟨_, by rw [called]; rfl, ⟨s', m', recorded'.setQuote side 0,
      (square'.congr quoted_unquoted).forget ?_⟩,
      fun other => ?_⟩
    · rw [quoted_unquoted]
      intro id member isOpen
      have current := square'.live side id member isOpen
      rw [quotes] at current
      exact closed (current ▸ isOpen)
    · show (e.h.setQuote side 0).quote other = _
      rw [MMHandler.quote_setQuote, quotes]

theorem bidPx_clear (holds : sim.e.Holds m) (pair : QuotePair) :
    ¬ m.WouldCross .buy (sim.bidPx pair) := by
  rintro ⟨px, occupied, reaches⟩
  have reaches : px ≤ sim.bidPx pair := reaches
  rcases holds.valid.exists_best occupied with ⟨top, best⟩
  rcases (holds.best_iff .sell top).mpr best with ⟨hasAsk, same⟩
  have least : top ≤ px := best.least px occupied
  rw [bidPx, same] at reaches
  split at reaches
  · lia
  · rename_i below
    exact below ⟨hasAsk, Int.le_trans least reaches⟩

theorem bidPx_le (pair : QuotePair) : sim.bidPx pair ≤ pair.bid := by
  rw [bidPx]
  split <;> lia

theorem askPx_ge (pair : QuotePair) : pair.ask ≤ sim.askPx pair := by
  rw [askPx]
  split <;> lia

theorem askPx_clear {m' : Market} (holds : sim.e.Holds m) (pair : QuotePair)
    (levels : ∀ px, m'.levels .buy px ≠ [] → m.levels .buy px ≠ [] ∨ px = sim.bidPx pair) :
    ¬ m'.WouldCross .sell (sim.askPx pair) := by
  rintro ⟨px, occupied, reaches⟩
  have reaches : sim.askPx pair ≤ px := reaches
  rcases levels px occupied with before | rfl
  · rcases holds.valid.exists_best before with ⟨top, best⟩
    rcases (holds.best_iff .buy top).mpr best with ⟨hasBid, same⟩
    have least : px ≤ top := best.least px before
    rw [askPx, same] at reaches
    split at reaches
    · lia
    · rename_i above
      exact above ⟨hasBid, Int.le_trans reaches least⟩
  · have bid := sim.bidPx_le pair
    have ask := sim.askPx_ge pair
    have apart := pair.apart
    lia

theorem step_submitLimit {H : Type} [Handler H] {e e' : MatchingEngine H} {ret : Ret} {qty : Qty}
    {tif : TimeInForce} {owner : OwnerId} {stp : StpPolicy}
    (stepped : e.step (.submitLimit side px qty tif owner stp) = some (e', ret)) :
    ∃ id, ret = .id id := by
  rcases Option.map_eq_some_iff.mp stepped with ⟨⟨_, id⟩, -, same⟩
  cases same
  exact ⟨id, rfl⟩

theorem Recorded.place (recorded : sim.Recorded band expectedOrders s m)
    (square : Square m sim.e.h sim.calls s.h) (none : sim.e.h.quote side = 0)
    (clear : ¬ m.WouldCross side px) :
    ∃ sim' s' m', sim.place side px = some sim' ∧ sim'.Recorded band expectedOrders s' m' ∧
      Square m' sim'.e.h sim'.calls s'.h ∧
      (∀ other, other ≠ side → sim'.e.h.quote other = sim.e.h.quote other) ∧
      ∀ other px', m'.levels other px' ≠ [] → m.levels other px' ≠ [] ∨
      (other = side ∧ px' = px) := by
  rcases recorded.call (.submitLimit side px quoteSize .gtc 0 .cancelTaker) (some side) with
    ⟨e, ret, s', m', events, stepped, called, recorded', performs, heard, tape⟩
  rcases step_submitLimit stepped with ⟨id, rfl⟩
  have resting := performs.comesToRest square.free clear
  have entry : Op.IsEntry (.submitLimit side px quoteSize .gtc 0 .cancelTaker) := trivial
  have entered := square.enters entry performs
  rw [← heard, ← tape] at entered
  have quotes (other : Side) : e.h.quote other = sim.e.h.quote other := by
    rw [heard, MMHandler.quote_onAll]
  have none' : e.h.quote side = 0 := (quotes side).trans none
  refine ⟨_, s', m', by rw [Sim.place, called]; rfl, recorded'.setQuote side id, ?_, ?_,
    resting.levels⟩
  · rcases performs.entered square.free.settled with ⟨rfl, -⟩ | ⟨rfl, issued⟩
    · exact (entered.forget fun id member => entered.closed none' member).congr (quoted_refused _)
    · apply entered.remember none' ⟨square.valid.started, issued⟩
      · exact fun other member => Nat.lt_irrefl _ (square.given other _ member).2
      · intro t member
        rw [tape] at member
        rcases List.mem_append.mp member with old | new
        · exact (square.past t old).imp Nat.ne_of_lt Nat.ne_of_lt
        · exact absurd new (resting.trades t)
  · intro other different
    show (e.h.setQuote side id).quote other = _
    rw [MMHandler.quote_setQuote, if_neg different, quotes]

theorem Kept.orders {α : Type} (kept : sim.Kept band expectedOrders) (order : α → Op)
    (entries : ∀ a, (order a).IsEntry) (orders : List α) :
    ∃ sim', sim.all (orders.map order) = some sim' ∧ sim'.Kept band expectedOrders := by
  apply kept.all
  intro op member
  rcases List.mem_map.mp member with ⟨a, -, rfl⟩
  exact entries a

theorem Kept.tick (kept : sim.Kept band expectedOrders) (t : Tick) :
    ∃ sim', sim.tick t = some sim' ∧ sim'.Kept band expectedOrders := by
  rcases kept.orders passiveOrder (fun _ => trivial) t.flow with ⟨sim₁, flowed, kept₁⟩
  rcases kept₁.withdraw .buy with ⟨sim₂, noBid, kept₂, quotes₂⟩
  rcases kept₂.withdraw .sell with ⟨sim₃, noAsk, ⟨s, m, recorded, square⟩, quotes₃⟩
  have bid : sim₃.e.h.quote .buy = 0 := by rw [quotes₃, if_neg (by simp), quotes₂, if_pos rfl]
  have ask : sim₃.e.h.quote .sell = 0 := by rw [quotes₃, if_pos rfl]
  let pair := (t.strategy sim₃.e).quotes
  rcases recorded.place square bid (bidPx_clear recorded.records.holds_e pair) with
    ⟨sim₄, s₄, m₄, bade, recorded₄, square₄, quotes₄, levels⟩
  have clear : ¬ m₄.WouldCross .sell (sim₃.askPx pair) :=
    askPx_clear recorded.records.holds_e pair fun px occupied =>
      (levels .buy px occupied).imp_right And.right
  rcases recorded₄.place square₄ ((quotes₄ .sell (by simp)).trans ask) clear with
    ⟨sim₅, s₅, m₅, offered, recorded₅, square₅, -, -⟩
  have kept₅ : sim₅.Kept band expectedOrders := ⟨s₅, m₅, recorded₅, square₅⟩
  rcases kept₅.orders takerOrder (fun _ => trivial) t.takers with ⟨sim₆, took, kept₆⟩
  refine ⟨sim₆, ?_, kept₆⟩
  simp only [Sim.tick, flowed, noBid, noAsk, Option.bind_eq_bind, Option.bind_some]
  rw [bade, Option.bind_some, offered, Option.bind_some, took]

theorem Kept.run (kept : sim.Kept band expectedOrders) (ticks : List Tick) :
    ∃ sim', sim.run ticks = some sim' ∧ sim'.Kept band expectedOrders := by
  induction ticks generalizing sim with
  | nil => exact ⟨sim, rfl, kept⟩
  | cons t ticks induction =>
      rcases kept.tick t with ⟨sim₁, ticked, kept₁⟩
      rcases induction kept₁ with ⟨sim', rest, kept'⟩
      exact ⟨sim', by simp only [Sim.run, ticked, Option.bind_eq_bind, Option.bind_some, rest],
        kept'⟩

/-- In any simulation, whatever the strategy and the orders of the others: our quotes only ever
rest, the position is exactly that of their fills, and none is open but the current pair. -/
theorem run_square (band : Band) (expectedOrders : Nat) (ticks : List Tick) :
    ∃ sim s, (new band expectedOrders).run ticks = some sim ∧
      (MatchingEngine.new band ([] : Tape) expectedOrders).runOps (sim.calls.map Call.op) =
        some (s, sim.calls.map Call.ret) ∧
      sim.e = s.mapHandler (fun _ => sim.e.h) ∧
      (∀ t, .trade t ∈ s.h → ∀ side, t.taker ∉ quoted sim.calls side) ∧
      sim.e.h.Balanced (fills sim.calls .buy s.h) (fills sim.calls .sell s.h) ∧
      ∀ side, ∀ id ∈ quoted sim.calls side, (s.lookup id).isSome → id = sim.e.h.quote side := by
  rcases (kept_new band expectedOrders).run ticks with ⟨sim, run, s, m, recorded, square⟩
  refine ⟨sim, s, run, recorded.ran, recorded.records.same, square.passive, square.balanced, ?_⟩
  intro side id member found
  exact square.live side id member ((recorded.records.holds.isOpen_iff id).mpr found)

end run

end Sim

end Mmsim

end Matchbook
