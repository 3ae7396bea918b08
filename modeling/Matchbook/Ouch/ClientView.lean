import Matchbook.Engine.FillOrKill
import Matchbook.Engine.Lifetimes
import Matchbook.Ouch.Conformance
import Matchbook.Ouch.RoundTrip

namespace Matchbook

open Transitions

/-! # What the client knows

A client that reads the outbound stream knows the open orders, as long as no Replace enters an
order where self-trade prevention stops it: that end of an order is folded away. -/

namespace MatchingEngine

variable {H : Type}

def SelfStops (s : MatchingEngine H) (o : RO) (price : Price) (qty : Qty) : Prop :=
  o.owner ≠ 0 ∧ o.stp ≠ .cancelMaker ∧ ∃ px front own back,
    s.queue o.side.opposite.book px = front ++ own :: back ∧ own.owner = o.owner ∧
      o.side.opposite.Reaches px price ∧
        s.offered o.side.opposite (o.side.opposite.inside px) + shownQty front < qty.toNat

theorem Shows.selfStops_iff {s : MatchingEngine H} {m : Market} (shows : s.Shows m) {o : RO}
    {price : Price} {qty : Qty} : s.SelfStops o price qty ↔ m.SelfStops o price qty := by
  simp only [SelfStops, Market.SelfStops, Market.ahead, shows.levels, shows.offered_eq]

end MatchingEngine

namespace Ouch

namespace Gateway

/-- The client holds open, with what is left of each, what is open in the engine, each order
under a token of its own. -/
structure ClientView (g : Gateway) (stream : List OutMsg) : Prop where
  opens : ∀ token left, 0 < left → (Ledger.after stream token = some left ↔
    ∃ book px, ∃ o ∈ g.engine.queue book px,
      g.session.tokenStr o.id = token ∧ o.qty.toNat + o.reserve.toNat = left)
  single : ∀ book px book' px', ∀ o ∈ g.engine.queue book px, ∀ o' ∈ g.engine.queue book' px',
    g.session.tokenStr o.id = g.session.tokenStr o'.id → o.id = o'.id

def KeepsGoing (g : Gateway) (call : Call) : Prop :=
  ∀ p token newToken qty price, call = .message p →
    decodeIn p = some (.replace token newToken qty price) →
      ∀ id, g.orderOf token = some id → g.byToken newToken = none →
        ∀ (side : Side) (px : Price), ∀ o ∈ g.engine.queue side.book px, o.id = id →
          g.engine.Reenters o price qty.toUInt64 → ¬ g.engine.SelfStops o price qty.toUInt64

def KeepsGoingAll (g : Gateway) : List Call → Prop
  | [] => True
  | call :: calls => g.KeepsGoing call ∧
      ∀ g' taken, g.step call = some (g', taken) → g'.KeepsGoingAll calls

variable {g : Gateway} {m : Market} {accounts : OrderId → Account} {stream : List OutMsg}

theorem KeepsGoing.spares {call : Call} (keeps : g.KeepsGoing call) (holds : g.engine.Holds m)
    {p : List UInt8} {msg : InMsg} (isMessage : call = .message p) (read : decodeIn p = some msg) :
    g.Spares m msg := by
  rintro token newToken qty price rfl id known unused side px o member same reenters
  have shows := holds.shows
  rw [← shows.selfStops_iff]
  rcases holds with ⟨band, r, simulates, rfl⟩
  rw [← shows.levels] at member
  exact keeps p token newToken qty price isMessage read id known unused side px o member same
    (simulates.reenters_iff.mpr reenters)

theorem Serves.left_eq (serves : g.Serves m accounts stream) {side : Side} {px : Price} {o : RO}
    (member : o ∈ m.levels side px) :
    Ledger.after stream (g.session.tokenStr o.id) = some (o.qty.toNat + o.reserve.toNat) := by
  have valid := serves.holds.valid
  have isOpen : Open (m, .idle) o.id o.total.toNat false :=
    .inl ((valid.holds_of_mem member).mpr ⟨rfl, rfl⟩)
  have issued : Issued (m, .idle) o.id := valid.issued _ (Market.isOpen_of_mem member)
  rcases (serves.coupled.balanced o.id).opens _ _ isOpen with ⟨balance, standing, -⟩
  have total := (valid.shape side px o member).total_toNat
  rw [serves.coupled.linked o.id issued standing]
  congr 1
  unfold Account.left
  omega

theorem Serves.clientView (serves : g.Serves m accounts stream)
    (announced : Announced (m, .idle) g.session accounts stream) : g.ClientView stream := by
  have shows := serves.holds.shows
  have valid := serves.holds.valid
  -- No stop waits, so that what is open rests.
  have rests {book : BookName} {px : Price} {o : RO} (member : o ∈ g.engine.queue book px) :
      ∃ side, o ∈ m.levels side px := by
    rcases MatchingEngine.book_cases book with ⟨side, rfl | rfl⟩
    · exact ⟨side, shows.levels side px ▸ member⟩
    · have parked := (shows.mem_stops.mp member).1
      rw [announced.unstopped] at parked
      cases parked
  constructor
  case opens =>
      intro token left some
      constructor
      · intro entry
        rcases announced.owned token left entry some with ⟨id, isIssued, rfl⟩
        by_contra absent
        have none (q : Nat) (discards : Bool) : ¬ Open (m, .idle) id q discards := by
          rw [open_idle]
          rintro (⟨-, side, px, o, member, rfl, total⟩ | ⟨o, parked, -⟩)
          · have same := serves.left_eq member
            rw [entry] at same
            refine absent ⟨side.book, px, o, shows.levels side px ▸ member, rfl, ?_⟩
            exact (Option.some.inj same).symm
          · rw [announced.unstopped] at parked
            cases parked
        have standing : (accounts id).cancelled = false := by
          by_contra closed
          rw [Bool.not_eq_false] at closed
          rw [announced.closed id isIssued closed] at entry
          cases entry
          exact Nat.lt_irrefl 0 some
        rcases (serves.coupled.balanced id).closed none with cancelled | discards | all
        · rw [standing] at cancelled
          cases cancelled
        · rw [(announced.limits id).1] at discards
          cases discards
        · have same := serves.coupled.linked id isIssued standing
          rw [entry, Account.left, all, Nat.add_sub_cancel_left, Nat.sub_self] at same
          cases same
          exact Nat.lt_irrefl 0 some
      · rintro ⟨book, px, o, member, rfl, rfl⟩
        rcases rests member with ⟨side, resting⟩
        exact serves.left_eq resting
  case single =>
      intro book px book' px' o member o' member' same
      rcases rests member with ⟨side, resting⟩
      rcases rests member' with ⟨side', resting'⟩
      exact serves.coupled.distinct _ _ (valid.issued _ (Market.isOpen_of_mem resting))
        (valid.issued _ (Market.isOpen_of_mem resting')) same

theorem announced_new (band : Band) (expectedOrders : Nat) :
    Announced (Market.new band, .idle) (new band expectedOrders).session (fun _ => .new) [] := by
  have none (id : OrderId) : ¬ Issued (Market.new band, .idle) id := fun isIssued =>
    absurd isIssued.2 (Nat.not_lt.mpr isIssued.1)
  constructor
  case closed => exact fun id isIssued => absurd isIssued (none id)
  case owned =>
      intro token left entry
      cases entry
  case limits => exact fun _ => ⟨rfl, rfl⟩
  case unstopped => rfl

theorem Serves.run_announced (serves : g.Serves m accounts stream)
    (announced : Announced (m, .idle) g.session accounts stream) {calls : List Call}
    (nulFree : ∀ p, .message p ∈ calls → NulFree p) (keeps : g.KeepsGoingAll calls)
    (earlier : List (List UInt8)) (spells : Spells (earlier ++ g.session.out) stream) :
    ∃ g' taken stream', g.run calls = some (g', taken) ∧
      Spells (earlier ++ (taken ++ g'.session.out)) stream' ∧ g'.ClientView stream' := by
  induction calls generalizing g m accounts stream earlier with
  | nil => exact ⟨g, [], stream, rfl, spells, serves.clientView announced⟩
  | cons call calls induction =>
      rcases serves.step fun p same => nulFree p (same ▸ List.mem_cons_self) with
        ⟨g₁, taken₁, m₁, accounts₁, bytes, messages, stepped, serves₁, out, spelled, announces⟩
      have announced₁ := announces
        (fun p msg isMessage read => keeps.1.spares serves.holds isMessage read) announced
      have spells₁ : Spells (earlier ++ taken₁ ++ g₁.session.out) (stream ++ messages) := by
        rw [List.append_assoc, out, ← List.append_assoc]
        exact spells.append spelled
      rcases induction serves₁ announced₁ (fun p member => nulFree p (.tail call member))
        (keeps.2 g₁ taken₁ stepped) _ spells₁ with ⟨g', taken, stream', ran, spells', view⟩
      refine ⟨g', taken₁ ++ taken, stream', ?_, ?_, view⟩
      · simp only [Gateway.run, stepped, ran, Option.bind_eq_bind, Option.bind_some]
      · simpa [List.append_assoc] using spells'

/-- In a session in which no Replace enters an order where it stops itself, the client knows
the open orders after every call. -/
theorem run_clientView (band : Band) (expectedOrders : Nat) (calls : List Call)
    (nulFree : ∀ p, .message p ∈ calls → NulFree p)
    (keeps : (new band expectedOrders).KeepsGoingAll calls) :
    ∃ g taken stream, (new band expectedOrders).run calls = some (g, taken) ∧
      Spells (taken ++ g.session.out) stream ∧ g.ClientView stream :=
  (serves_new band expectedOrders).run_announced (announced_new band expectedOrders) nulFree keeps
    [] spells_nil

/-! ### Runs on fixed messages -/

def unowned (g : Gateway) : Call → Bool
  | .takeOut => true
  | .message p =>
      match decodeIn p with
      | some (.replace token _ _ _) =>
          ((g.orderOf token).bind g.engine.lookup).all fun o => (g.engine.mem.nodes o).owner = 0
      | _ => true

def unownedAll : Gateway → List Call → Bool
  | _, [] => true
  | g, call :: calls => g.unowned call &&
      match g.step call with
      | none => true
      | some (g', _) => g'.unownedAll calls

theorem keepsGoing_of_unowned (holds : g.engine.Holds m) {call : Call}
    (isUnowned : g.unowned call = true) : g.KeepsGoing call := by
  rintro p token newToken qty price rfl read id known - side px o member rfl - stops
  rw [holds.shows.levels] at member
  rcases holds.found member with ⟨ptr, found, held⟩
  have owner : (g.engine.mem.nodes ptr).owner = 0 := by
    simpa [unowned, read, known, found] using isUnowned
  rw [held.node] at owner
  exact stops.1 owner

theorem Serves.keepsGoingAll (serves : g.Serves m accounts stream) {calls : List Call}
    (nulFree : ∀ p, .message p ∈ calls → NulFree p) (isUnowned : g.unownedAll calls = true) :
    g.KeepsGoingAll calls := by
  induction calls generalizing g m accounts stream with
  | nil => trivial
  | cons call calls induction =>
      rw [unownedAll, Bool.and_eq_true] at isUnowned
      refine ⟨keepsGoing_of_unowned serves.holds isUnowned.1, fun g' taken stepped => ?_⟩
      rcases serves.step fun p same => nulFree p (same ▸ List.mem_cons_self) with
        ⟨g₁, taken₁, m₁, accounts₁, bytes, messages, stepped₁, serves₁, -⟩
      rw [stepped] at stepped₁
      cases stepped₁
      have rest := isUnowned.2
      rw [stepped] at rest
      exact induction serves₁ (fun p member => nulFree p (.tail call member)) rest

theorem found_of_queued (holds : g.engine.Holds m) {book : BookName} {px : Price} {o : RO}
    (member : o ∈ g.engine.queue book px) : (g.engine.lookup o.id).isSome := by
  rw [← holds.isOpen_iff]
  rcases MatchingEngine.book_cases book with ⟨side, rfl | rfl⟩
  · rw [holds.shows.levels] at member
    exact Market.isOpen_of_mem member
  · exact Market.isOpen_of_stop (holds.shows.mem_stops.mp member).1

/-- A token of one letter, filled up with spaces. -/
def letterToken (letter : Char) : List UInt8 := letter.toUInt8 :: List.replicate 13 ' '.toUInt8

/-- A bid that is moved to the price of an offer, and takes it. -/
theorem run_clientView_moved :
    ∃ g taken stream, (new ⟨1, 10, by decide, by decide, by decide⟩ 16).run
        [.message (encodeEnter (letterToken 'A') .buy 6 5 .gtc 0 0 .cancelTaker),
          .message (encodeEnter (letterToken 'B') .sell 4 7 .gtc 0 0 .cancelTaker),
          .message (encodeReplace (letterToken 'A') (letterToken 'C') 6 7)] = some (g, taken) ∧
      Spells (taken ++ g.session.out) stream ∧ g.ClientView stream := by
  have nulFree : ∀ p, Call.message p ∈
      [Call.message (encodeEnter (letterToken 'A') .buy 6 5 .gtc 0 0 .cancelTaker),
        .message (encodeEnter (letterToken 'B') .sell 4 7 .gtc 0 0 .cancelTaker),
        .message (encodeReplace (letterToken 'A') (letterToken 'C') 6 7)] → NulFree p := by
    intro p member
    simp only [List.mem_cons, Call.message.injEq, List.not_mem_nil, or_false] at member
    rcases member with rfl | rfl | rfl <;> exact ⟨by decide, by decide⟩
  exact run_clientView _ _ _ nulFree
    ((serves_new _ _).keepsGoingAll nulFree (by decide +kernel))

/-- A bid of owner 1 is moved to the price of an offer of owner 1, and stopped there. The client
takes it for open. -/
theorem not_clientView :
    let calls : List Call :=
      [.message (encodeEnter (letterToken 'A') .sell 3 5 .gtc 0 1 .cancelTaker),
        .message (encodeEnter (letterToken 'B') .buy 5 4 .gtc 0 1 .cancelTaker),
        .message (encodeReplace (letterToken 'B') (letterToken 'C') 5 5)]
    (∀ p, .message p ∈ calls → NulFree p) ∧
      ∃ g taken stream, (new ⟨1, 10, by decide, by decide, by decide⟩ 16).run calls =
          some (g, taken) ∧ Spells (taken ++ g.session.out) stream ∧
        Ledger.after stream (letterToken 'C') = some 5 ∧ g.engine.lookup 2 = none ∧
        ¬ g.ClientView stream := by
  intro calls
  have nulFree : ∀ p, .message p ∈ calls → NulFree p := by
    intro p member
    simp only [calls, List.mem_cons, Call.message.injEq, List.not_mem_nil, or_false] at member
    rcases member with rfl | rfl | rfl <;> exact ⟨by decide, by decide⟩
  refine ⟨nulFree, ?_⟩
  let start : Gateway := new ⟨1, 10, by decide, by decide, by decide⟩ 16
  have seen : (start.run calls).map (fun run =>
      (Ledger.after ((run.2 ++ run.1.session.out).filterMap decodeOut) (letterToken 'C'),
        run.1.engine.lookup 2, run.1.session.tokenOf.toList)) =
      some (some 5, none, [[], letterToken 'A', letterToken 'C']) := by
    decide +kernel
  rcases (serves_new _ _).run nulFree [] spells_nil with
    ⟨g, taken, m, accounts, stream, ran, serves, spells⟩
  have read : (taken ++ g.session.out).filterMap decodeOut = stream := spells.filterMap
  rw [ran, Option.map_some, Option.some.injEq] at seen
  simp only [read, Prod.mk.injEq] at seen
  rcases seen with ⟨entry, gone, tokens⟩
  refine ⟨g, taken, stream, ran, spells, entry, gone, fun view => ?_⟩
  rcases (view.opens _ 5 (by decide)).mp entry with ⟨book, px, o, member, token, -⟩
  have found := found_of_queued serves.holds member
  have table : g.session.tokenOf = #[[], letterToken 'A', letterToken 'C'] :=
    Array.toList_inj.mp tokens
  rw [Session.tokenStr, table] at token
  rcases same : o.id with _ | _ | _ | other
  · rw [same] at token
    cases token
  · rw [same] at token
    exact absurd token (by decide)
  · rw [same, gone] at found
    cases found
  · rw [same] at token
    cases token

end Gateway

end Ouch

end Matchbook
