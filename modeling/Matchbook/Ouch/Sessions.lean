import Matchbook.Ouch.Conformance
import Matchbook.Ouch.RoundTrip

namespace Matchbook

open Transitions

/-! # What the outbound stream promises

There are sessions with as many matches as wanted, more than 64 bits can number. -/

namespace Ouch

/-! ## Tokens enough -/

def numeral : Nat → Nat → List UInt8
  | 0, _ => []
  | n + 1, k => UInt8.ofNat (k % 128 + 1) :: numeral n (k / 128)

theorem length_numeral (n k : Nat) : (numeral n k).length = n := by
  induction n generalizing k with
  | zero => rfl
  | succ n induction => rw [numeral, List.length_cons, induction]

theorem toNat_digit (k : Nat) : (UInt8.ofNat (k % 128 + 1)).toNat = k % 128 + 1 :=
  UInt8.toNat_ofNat_of_lt' (by show k % 128 + 1 < 256; omega)

theorem noNul_numeral (n k : Nat) : (0 : UInt8) ∉ numeral n k := by
  induction n generalizing k with
  | zero => exact List.not_mem_nil
  | succ n induction =>
      rw [numeral, List.mem_cons, not_or]
      refine ⟨fun zero => ?_, induction _⟩
      have value := congrArg UInt8.toNat zero
      rw [toNat_digit] at value
      cases value

theorem numeral_inj {n k k' : Nat} (small : k < 128 ^ n) (small' : k' < 128 ^ n)
    (same : numeral n k = numeral n k') : k = k' := by
  induction n generalizing k k' with
  | zero => omega
  | succ n induction =>
      rcases List.cons.inj same with ⟨digit, rest⟩
      have digit := congrArg UInt8.toNat digit
      rw [toNat_digit, toNat_digit] at digit
      have higher := induction (by rw [Nat.pow_succ] at small; omega)
        (by rw [Nat.pow_succ] at small'; omega) rest
      omega

def tokenNo (k : Nat) : List UInt8 := numeral tokenLen k

theorem exact_tokenNo (k : Nat) : Exact (tokenNo k) :=
  ⟨noNul_numeral tokenLen k, length_numeral tokenLen k⟩

/-! ## Matches enough -/

def mostAtFive (token : List UInt8) (side : Side) (display : UInt32) : List UInt8 :=
  encodeEnter token side 4294967295 5 .gtc display 0 .cancelTaker

theorem decodeIn_mostAtFive {token : List UInt8} (exact : Exact token) (side : Side)
    (display : UInt32) : decodeIn (mostAtFive token side display) =
      some (.enter token side 4294967295 5 .gtc display 0 .cancelTaker) := by
  have fits : FitsPrice 5 := ⟨by decide, by decide⟩
  have read := decodeIn_encodeEnter exact.isToken side 4294967295 fits .gtc display 0 .cancelTaker
  rwa [exact.putToken_eq] at read

theorem nulFree_mostAtFive {token : List UInt8} (exact : Exact token) (side : Side)
    (display : UInt32) : NulFree (mostAtFive token side display) := by
  constructor
  · have field : ((mostAtFive token side display).drop 1).take tokenLen = token := by
      show (putToken token ++ _).take tokenLen = token
      rw [exact.putToken_eq]
      exact List.take_left' exact.whole
    rw [field]
    exact exact.noNul
  · intro replace
    cases replace

end Ouch

namespace Market

structure Flat (m : Market) : Prop where
  empty : ∀ side px, m.levels side px = []
  unstopped : m.stops = []
  running : m.halted = false
  inside : m.inBand 5

def clipAtFive (id : OrderId) (hidden : Qty) : RO :=
  { id, side := .sell, price := 5, qty := 1, owner := 0, stp := .cancelTaker, reserve := hidden,
    peak := 1 }

structure Offering (m : Market) (id : OrderId) (hidden : Qty) : Prop where
  head : m.levels .sell 5 = [clipAtFive id hidden]
  empty : ∀ side px, ¬ (side = .sell ∧ px = 5) → m.levels side px = []
  unstopped : m.stops = []
  running : m.halted = false
  inside : m.inBand 5

variable {m : Market} {id : OrderId} {hidden : Qty}

theorem Flat.offers (flat : m.Flat) : ∃ events m' ret,
    m.Performs (.submitIceberg .sell 5 4294967295 1 .gtc 0 .cancelTaker) events m' ret ∧
      m'.Offering m.nextId 4294967294 ∧ tally (fun _ => 1) events = 0 := by
  let t : Taker := .ofLimit m.nextId .sell 5 4294967295 .gtc 0 .cancelTaker 1
  let entered : Market := { m with nextId := m.nextId + 1 }
  have start : m.Begin (.submitIceberg .sell 5 4294967295 1 .gtc 0 .cancelTaker)
      [.accept m.nextId .sell 5 4294967295] (entered, .taking t) (.id m.nextId) :=
    .enter (.iceberg (by decide)) (by decide) flat.inside id
  have blocked : t.Blocked entered :=
    .inr fun px occupied => absurd (flat.empty .buy px) occupied
  have left : t.qty ≠ 0 := show (4294967295 : Qty) ≠ 0 by decide
  have rests : t.remainder = .rest 5 1 := rfl
  have last := Step.rest left blocked rests
  have shown : t.resting 5 1 = clipAtFive m.nextId 4294967294 := by
    have less : (1 : Qty) < 4294967295 := by decide
    have hides : (4294967295 : Qty) - 1 = 4294967294 := by decide
    simp [Taker.resting, t, Taker.ofLimit, less, hides, clipAtFive]
  have level : entered.levels t.side 5 = [] := flat.empty _ _
  rw [shown, level, List.nil_append] at last
  have offering : (entered.setLevel t.side 5 [clipAtFive m.nextId 4294967294]).Offering m.nextId
      4294967294 := by
    constructor
    case head => exact setLevel_levels_self ..
    case empty =>
        intro side px other
        exact (setLevel_levels ..).trans ((if_neg other).trans (flat.empty side px))
    case unstopped => exact flat.unstopped
    case running => exact flat.running
    case inside => exact flat.inside
  refine ⟨_, _, _, .intro start (.single last) ?_ trivial, offering, rfl⟩
  refine .inr fun o parked => ?_
  rw [offering.unstopped] at parked
  cases parked

theorem Offering.meets (offering : m.Offering id hidden) {t : Taker} (buys : t.side = .buy)
    (limit : t.limit = some 5) (hungry : t.qty ≠ 0) : t.Meets m 5 (clipAtFive id hidden) [] := by
  have maker : t.maker = .sell := congrArg Side.opposite buys
  constructor
  case running => exact offering.running
  case hungry => exact hungry
  case best =>
      rw [maker]
      refine ⟨by rw [offering.head]; exact List.cons_ne_nil _ _, fun px occupied => ?_⟩
      by_contra worse
      apply occupied
      apply offering.empty
      rintro ⟨-, rfl⟩
      exact worse (Side.reaches_refl .sell 5)
  case head =>
      rw [maker]
      exact offering.head
  case within =>
      rw [maker, limit]
      exact Side.reaches_refl .sell 5

theorem consume_last (id : OrderId) : consume 5 1 [clipAtFive id 0] = ([], []) := by
  simp [consume, RO.consumed, clipAtFive]

theorem consume_clip (id : OrderId) (some : 0 < hidden) :
    consume 5 1 [clipAtFive id hidden] = ([clipAtFive id (hidden - 1)], [.rest id .sell 5 1]) := by
  have clip : (if 1 < hidden then 1 else hidden) = 1 := by
    split
    · rfl
    · next few =>
      rw [UInt64.lt_iff_toNat_lt] at few some
      apply UInt64.toNat_inj.mp
      exact Nat.le_antisymm (Nat.not_lt.mp few) some
  simp [consume, RO.consumed, clipAtFive, RO.replenished, RO.clip, some, clip]

/-- One order buys all of the offer, one by one. -/
theorem sweeps (n : Nat) (small : n < 2 ^ 32) {m : Market} {t : Taker}
    (offering : m.Offering id (UInt64.ofNat n)) (buys : t.side = .buy) (limit : t.limit = some 5)
    (owner : t.owner = 0) (qty : t.qty = UInt64.ofNat (n + 1)) :
    ∃ events m', Run Step (m, .taking t) events (m', .idle) ∧ m'.Flat ∧
      tally (fun _ => 1) events = n + 1 := by
  have value (k : Nat) (low : k ≤ n + 1) : (UInt64.ofNat k).toNat = k :=
    UInt64.toNat_ofNat_of_lt' (by show k < 2 ^ 64; omega)
  have next (k : Nat) : UInt64.ofNat (k + 1) - 1 = UInt64.ofNat k := by
    rw [UInt64.ofNat_add]
    exact add_sub_cancel_right _ _
  have hungry : t.qty ≠ 0 := by
    rw [qty, ← UInt64.toNat_inj.ne, value _ (Nat.le_refl _)]
    exact Nat.succ_ne_zero n
  have amount : (1 : Qty) = if t.qty < (clipAtFive id (UInt64.ofNat n)).qty then t.qty
      else (clipAtFive id (UInt64.ofNat n)).qty := by
    rw [if_neg]
    · rfl
    · show ¬ t.qty < 1
      rw [qty, UInt64.lt_iff_toNat_lt, value _ (Nat.le_refl _)]
      exact Nat.not_lt.mpr (Nat.succ_le_succ (Nat.zero_le n))
  have maker : t.maker = .sell := congrArg Side.opposite buys
  have other : ¬ t.Owns (clipAtFive id (UInt64.ofNat n)) := fun owns => owns.1 owner
  have fill := Step.fill (offering.meets buys limit hungry) other amount
  rw [maker, qty, next n] at fill
  have kept (level : List RO) (side : Side) (px : Price) (apart : ¬ (side = .sell ∧ px = 5)) :
      (m.setLevel .sell 5 level).levels side px = [] :=
    (setLevel_levels ..).trans ((if_neg apart).trans (offering.empty side px apart))
  cases n with
  | zero =>
      have last : UInt64.ofNat 0 = 0 := rfl
      rw [last, consume_last] at fill
      refine ⟨_, _, (Run.single fill).snoc (.filled rfl), ?_, rfl⟩
      constructor
      case empty =>
          intro side px
          by_cases here : side = .sell ∧ px = 5
          · exact (setLevel_levels ..).trans (if_pos here)
          · exact kept [] side px here
      case unstopped => exact offering.unstopped
      case running => exact offering.running
      case inside => exact offering.inside
  | succ n =>
      have some : 0 < UInt64.ofNat (n + 1) := by
        rw [UInt64.lt_iff_toNat_lt, value _ (Nat.le_succ _)]
        exact Nat.succ_pos n
      rw [consume_clip id some, next n] at fill
      have offering' : ({ m.setLevel .sell 5 [clipAtFive id (UInt64.ofNat n)] with
          last := .some 5 } : Market).Offering id (UInt64.ofNat n) := by
        constructor
        case head =>
            show (m.setLevel .sell 5 [clipAtFive id (UInt64.ofNat n)]).levels .sell 5 = _
            exact setLevel_levels_self ..
        case empty => exact kept _
        case unstopped => exact offering.unstopped
        case running => exact offering.running
        case inside => exact offering.inside
      have rest := sweeps n (by omega) offering' (t := t.withQty (UInt64.ofNat (n + 1)))
      rcases rest buys limit owner rfl with ⟨events, m', run, flat, count⟩
      refine ⟨_, m', (Run.single fill).trans run, flat, ?_⟩
      rw [tally_append, count]
      show 1 + 0 + (n + 1) = n + 1 + 1
      omega

theorem Offering.bought (offering : m.Offering id 4294967294) : ∃ events m' ret,
    m.Performs (.submitLimit .buy 5 4294967295 .gtc 0 .cancelTaker) events m' ret ∧ m'.Flat ∧
      tally (fun _ => 1) events = 4294967295 := by
  let t : Taker := .ofLimit m.nextId .buy 5 4294967295 .gtc 0 .cancelTaker 0
  let entered : Market := { m with nextId := m.nextId + 1 }
  have start : m.Begin (.submitLimit .buy 5 4294967295 .gtc 0 .cancelTaker)
      [.accept m.nextId .buy 5 4294967295] (entered, .taking t) (.id m.nextId) :=
    .enter .limit (by decide) offering.inside fun refused => refused
  have hides : UInt64.ofNat 4294967294 = 4294967294 := by decide
  have offering' : entered.Offering id (UInt64.ofNat 4294967294) :=
    ⟨hides ▸ offering.head, offering.empty, offering.unstopped, offering.running, offering.inside⟩
  have qty : t.qty = UInt64.ofNat (4294967294 + 1) := show (4294967295 : Qty) = _ by decide
  rcases sweeps 4294967294 (by decide) offering' rfl rfl rfl qty with
    ⟨events, m', run, flat, count⟩
  refine ⟨_, m', _, .intro start run (.inr fun o parked => ?_) trivial, flat, ?_⟩
  · rw [flat.unstopped] at parked
    cases parked
  · have silent : tally (fun _ => 1) [.accept m.nextId .buy 5 4294967295] = 0 := rfl
    rw [tally_append, silent, count]

end Market

theorem Op.Limit.unique {op op' : Op} {side : Side} {price : Price} {qty : Qty} {tif : TimeInForce}
    {owner : OwnerId} {stp : StpPolicy} {peak : Qty}
    (entry : op.Limit side price qty tif owner stp peak)
    (entry' : op'.Limit side price qty tif owner stp peak) : op = op' := by
  cases entry with
  | limit =>
      cases entry' with
      | limit => rfl
      | iceberg shown => exact absurd rfl shown
  | iceberg shown =>
      cases entry' with
      | limit => exact absurd rfl shown
      | iceberg shown' => rfl

namespace Ouch

namespace Gateway

variable {g : Gateway} {m : Market} {accounts : OrderId → Account} {stream : List OutMsg}

def executions (stream : List OutMsg) : Nat := (stream.filterMap OutMsg.execution).length

/-- An order at five under an unused token. -/
theorem Serves.most (serves : g.Serves m accounts stream) {token : List UInt8}
    (exact : Exact token) (unused : g.byToken token = none) (side : Side) (display : UInt32)
    {op : Op} {peak : Qty} {events : List Event} {m' : Market} {ret : Ret}
    (entry : op.Limit side 5 4294967295 .gtc 0 .cancelTaker peak)
    (shown : peak = if display ≠ 0 ∧ display < 4294967295 then display.toUInt64 else 0)
    (performs : m.Performs op events m' ret) :
    ∃ g' accounts' bytes messages,
      g.step (.message (mostAtFive token side display)) = some (g', []) ∧
      g'.Serves m' accounts' (stream ++ messages) ∧ g'.session.out = g.session.out ++ bytes ∧
      Spells bytes messages ∧ executions messages = 2 * Market.tally (fun _ => 1) events ∧
      ∀ other, other ≠ token → g'.byToken other = g.byToken other := by
  rcases serves.enter exact side 4294967295 5 .gtc display 0 .cancelTaker with
    ⟨g', m₁, accounts', messages, done, handled, -, submitted⟩
  rcases submitted (by simp [unused]) with
    ⟨op', peak', events', ret', entry', rfl, performs', counted, others⟩
  rcases handled.queued with ⟨bytes, out, spells⟩
  rw [← shown] at entry'
  cases entry.unique entry'
  have continuous : Market.Continuous op := by
    cases entry <;> trivial
  rcases performs.deterministic serves.holds.valid continuous performs' with ⟨rfl, rfl, -⟩
  refine ⟨g', accounts', bytes, messages, ?_, handled.serves, out, spells, counted, others⟩
  simp [Gateway.step, onMessage, decodeIn_mostAtFive exact, done]

/-- An offer under one token that shows one, taken under the next, from the token `2 * k`
on. The stream is handed out after each. -/
def rounds : Nat → Nat → List Call
  | _, 0 => []
  | k, n + 1 =>
      .message (mostAtFive (tokenNo (2 * k)) .sell 1) ::
        .message (mostAtFive (tokenNo (2 * k + 1)) .buy 0) :: .takeOut :: rounds (k + 1) n

theorem nulFree_rounds {k n : Nat} {p : List UInt8} (member : .message p ∈ rounds k n) :
    NulFree p := by
  induction n generalizing k with
  | zero => cases member
  | succ n induction =>
      rcases List.mem_cons.mp member with same | member
      · cases same
        exact nulFree_mostAtFive (exact_tokenNo _) .sell 1
      rcases List.mem_cons.mp member with same | member
      · cases same
        exact nulFree_mostAtFive (exact_tokenNo _) .buy 0
      rcases List.mem_cons.mp member with same | member
      · cases same
      exact induction member

theorem tokenNo_ne {i j : Nat} (apart : i ≠ j) (left : i < 2 ^ 66) (right : j < 2 ^ 66) :
    tokenNo i ≠ tokenNo j := by
  have room : 2 ^ 66 < 128 ^ tokenLen := by decide
  exact fun same => apart (numeral_inj (left.trans room) (right.trans room) same)

/-- Each round is a match for every share, each told twice. -/
theorem Serves.rounds (serves : g.Serves m accounts stream) (flat : m.Flat) (k n : Nat)
    (few : k + n ≤ 2 ^ 65) (unused : ∀ i, 2 * k ≤ i → i < 2 ^ 66 → g.byToken (tokenNo i) = none)
    (earlier : List (List UInt8)) (spells : Spells (earlier ++ g.session.out) stream) :
    ∃ g' taken stream', g.run (rounds k n) = some (g', taken) ∧
      Spells (earlier ++ (taken ++ g'.session.out)) stream' ∧
        executions stream' = executions stream + 2 * 4294967295 * n := by
  induction n generalizing g m accounts stream k earlier with
  | zero => exact ⟨g, [], stream, rfl, spells, rfl⟩
  | succ n induction =>
      rcases flat.offers with ⟨events₁, m₁, ret₁, performs₁, offering, none₁⟩
      rcases serves.most (exact_tokenNo (2 * k)) (unused _ (Nat.le_refl _) (by omega)) .sell 1
        (.iceberg (by decide)) rfl performs₁ with
        ⟨g₁, accounts₁, bytes₁, first, step₁, serves₁, out₁, spells₁, count₁, keep₁⟩
      have next : g₁.byToken (tokenNo (2 * k + 1)) = none := by
        rw [keep₁ _ (tokenNo_ne (by omega) (by omega) (by omega))]
        exact unused _ (by omega) (by omega)
      rcases offering.bought with ⟨events₂, m₂, ret₂, performs₂, flat₂, all₂⟩
      rcases serves₁.most (exact_tokenNo (2 * k + 1)) next .buy 0 .limit rfl performs₂ with
        ⟨g₂, accounts₂, bytes₂, second, step₂, serves₂, out₂, spells₂, count₂, keep₂⟩
      let g₃ := g₂.setSession { g₂.session with out := [] }
      have serves₃ : g₃.Serves m₂ accounts₂ (stream ++ first ++ second) :=
        serves₂.setSession { g₂.session with out := [] } rfl rfl
      have unused₃ (i : Nat) (from_ : 2 * (k + 1) ≤ i) (small : i < 2 ^ 66) :
          g₃.byToken (tokenNo i) = none := by
        show g₂.byToken (tokenNo i) = none
        rw [keep₂ _ (tokenNo_ne (by omega) small (by omega)),
          keep₁ _ (tokenNo_ne (by omega) small (by omega))]
        exact unused i (by omega) small
      have spelled : Spells (earlier ++ g₂.session.out) (stream ++ first ++ second) := by
        rw [out₂, out₁, ← List.append_assoc, ← List.append_assoc]
        exact (spells.append spells₁).append spells₂
      have handed : Spells (earlier ++ g₂.session.out ++ g₃.session.out)
          (stream ++ first ++ second) := by
        rw [show g₃.session.out = [] from rfl, List.append_nil]
        exact spelled
      rcases induction serves₃ flat₂ (k + 1) (by omega) unused₃ (earlier ++ g₂.session.out) handed
        with ⟨g', taken, stream', ran, spells', count'⟩
      refine ⟨g', g₂.session.out ++ taken, stream', ?_, ?_, ?_⟩
      · have step₃ : g₂.step .takeOut = some (g₃, g₂.session.out) := rfl
        simp only [Gateway.rounds, Gateway.run, step₁, step₂, step₃, ran, Option.bind_eq_bind,
          Option.bind_some, List.nil_append]
      · rw [List.append_assoc] at spells' ⊢
        exact spells'
      · have told : executions (stream ++ first ++ second) =
            executions stream + executions first + executions second := by
          simp [executions, Nat.add_assoc]
        have one : executions first = 0 := by rw [count₁, none₁]
        have two : executions second = 2 * 4294967295 := by rw [count₂, all₂]
        omega

/-- The outbound stream of a session is well formed, and so is the answer to any message after
it. Match numbers count from 1 in 64 bits, and name one match as long as they do not wrap. -/
theorem run_conforms (band : Band) (expectedOrders : Nat) (calls : List Call)
    (nulFree : ∀ p, .message p ∈ calls → NulFree p) :
    ∃ g taken stream, (new band expectedOrders).run calls = some (g, taken) ∧
      Spells (taken ++ g.session.out) stream ∧ WellFormed stream ∧ Paired stream ∧
        ∀ p, NulFree p → g.Responds p := by
  rcases (serves_new band expectedOrders).run nulFree [] spells_nil with
    ⟨g, taken, m, accounts, stream, ran, serves, spells⟩
  rcases serves.coupled.numbered with ⟨matched, numbered, -⟩
  exact ⟨g, taken, stream, ran, spells, serves.coupled.consistent.wellFormed numbered,
    paired_of_bothSides numbered, fun p nulFree => serves.responds nulFree⟩

/-- An offer that is taken. -/
theorem run_conforms_round :
    ∃ g taken stream, (new ⟨1, 10, by decide, by decide, by decide⟩ 16).run (rounds 0 1) =
        some (g, taken) ∧ Spells (taken ++ g.session.out) stream ∧ WellFormed stream ∧
      Paired stream ∧ ∀ p, NulFree p → g.Responds p :=
  run_conforms _ _ _ fun _ => nulFree_rounds

/-- After 2 ^ 64 matches the number of the next is 0 again. The rounds take 2 ^ 33 + 4
orders. -/
theorem not_numbered : ¬ ∀ (band : Band) (expectedOrders : Nat) (calls : List Call),
    (∀ p, .message p ∈ calls → NulFree p) → ∀ g taken stream,
      (new band expectedOrders).run calls = some (g, taken) →
        Spells (taken ++ g.session.out) stream →
          ∀ k execution, (stream.filterMap OutMsg.execution)[k]? = some execution →
            execution.2.2.toNat = k / 2 + 1 := by
  intro numbered
  let band : Band := ⟨1, 10, by decide, by decide, by decide⟩
  have flat : (Market.new band).Flat :=
    ⟨fun _ _ => rfl, rfl, rfl, show (1 : Price) ≤ 5 ∧ (5 : Price) ≤ 10 by decide⟩
  rcases (serves_new band 0).rounds flat 0 (2 ^ 32 + 2) (by decide) (fun _ _ _ => rfl) []
    spells_nil with ⟨g, taken, stream, ran, spells, count⟩
  have last : 2 ^ 65 - 1 < (stream.filterMap OutMsg.execution).length := by
    rw [← executions, count]
    decide
  have number := numbered band 0 _ (fun p => nulFree_rounds) g taken stream ran spells
    (2 ^ 65 - 1) _ (List.getElem?_eq_getElem last)
  have small := (stream.filterMap OutMsg.execution)[2 ^ 65 - 1].2.2.toNat_lt
  rw [number] at small
  exact absurd small (by decide)

end Gateway

end Ouch

end Matchbook
