import Matchbook.Gate.Transparency
import Matchbook.Market.Caps

namespace Matchbook

/-! # The caps of the gate hold in the book

The gate looks at an order once, when it comes in. What it then admitted holds of
the order as long as it is open. -/

namespace MatchingEngine

structure Capped {H : Type} (s : MatchingEngine H) (cap : Cap) : Prop where
  resting : ∀ (side : Side) (px : Price), ∀ o ∈ s.queue side.book px, cap.Admits (some px) o.total
  parked : ∀ (side : Side) (px : Price), ∀ o ∈ s.queue side.stopBook px,
    cap.Admits o.fired.limit o.qty

section engine

variable {H : Type} {band : Band} {s s' : MatchingEngine H} {r : ReferenceEngine H} {cap : Cap}

theorem Simulates.capped_iff (simulates : Simulates band s r) :
    s.Capped cap ↔ r.market.Capped cap := by
  have shows := simulates.shows
  constructor
  · rintro ⟨resting, parked⟩
    refine ⟨fun side px o member => resting side px o (shows.levels side px ▸ member), ?_⟩
    intro o member
    exact parked o.side o.price o (shows.mem_stops.mpr ⟨member, rfl, rfl⟩)
  · rintro ⟨resting, parked⟩
    refine ⟨fun side px o member => resting side px o (shows.levels side px ▸ member), ?_⟩
    intro side px o member
    exact parked o (shows.mem_stops.mp member).1

theorem Simulates.openOrders_eq (simulates : Simulates band s r) :
    s.openOrders = r.openOrderIds.length := by
  rcases simulates.tracks with ⟨cells, mirrors, -⟩
  rw [mirrors.openOrders_eq simulates.sound.valid, r.openOrders_eq]

theorem Live.length_le_openOrders (live : s.Live) {ids : List OrderId} (distinct : ids.Nodup)
    (isOpen : ∀ id ∈ ids, ∃ o, s.lookup id = some o) : ids.length ≤ s.openOrders := by
  rcases live with ⟨band, r, simulates⟩
  rcases simulates.tracks with ⟨cells, mirrors, -⟩
  rw [simulates.openOrders_eq]
  apply (List.subperm_of_subset distinct _).length_le
  intro id member
  exact ReferenceEngine.mem_openOrderIds.mpr
    ((mirrors.isOpen_iff simulates.sound.valid).mpr (isOpen id member))

theorem Live.resting (live : s.Live) {side : Side} {px : Price} {o : RO}
    (member : o ∈ s.queue side.book px) :
    px < 2 ^ 63 ∧ o.total.toNat = o.qty.toNat + o.reserve.toNat := by
  rcases live with ⟨band, r, simulates⟩
  have valid := simulates.sound.valid
  rw [simulates.shows.levels] at member
  refine ⟨?_, (valid.shape side px o member).total_toNat⟩
  rcases simulates.tracks with ⟨cells, mirrors, -⟩
  have most : px ≤ r.max := (valid.inside side px (List.ne_nil_of_mem member)).2
  have refMax := mirrors.refMax
  have levels : (Band.levels band : Int) = band.max - band.min + 1 := by
    have := band.min_le_max
    unfold Band.levels
    lia
  have upper := band.upper
  lia

variable [Handler H]

theorem Live.step_capped (live : s.Live) (op : Op) :
    ∃ s' ret, s.step op = some (s', ret) ∧ s'.Live ∧
      (∀ cap : Cap, op.Admitted cap → s.Capped cap → s'.Capped cap) ∧
      s'.openOrders ≤ s.openOrders + 1 ∧ (¬ op.IsSubmit → s'.openOrders ≤ s.openOrders) := by
  rcases live with ⟨band, r, simulates⟩
  rcases simulates.step op with ⟨s', r', ret, fast, ref, simulates', performed⟩
  rcases performed.performs with ⟨events, performs, -⟩
  have nodup := ReferenceEngine.nodup_openOrderIds simulates'.sound.valid
  have origin (id : OrderId) (member : id ∈ r'.openOrderIds) :=
    performs.isOpen_origin (ReferenceEngine.mem_openOrderIds.mp member)
  refine ⟨s', ret, fast, ⟨band, r', simulates'⟩, ?_, ?_, ?_⟩
  · intro cap admitted capped
    rw [simulates'.capped_iff]
    exact performs.capped simulates.sound.valid (simulates.capped_iff.mp capped) admitted
  · rw [simulates.openOrders_eq, simulates'.openOrders_eq]
    have within : r'.openOrderIds ⊆ r.market.nextId :: r.openOrderIds := by
      intro id member
      rcases origin id member with before | ⟨-, new⟩
      · exact List.mem_cons_of_mem _ (ReferenceEngine.mem_openOrderIds.mpr before)
      · exact new ▸ List.mem_cons_self
    exact (List.subperm_of_subset nodup within).length_le
  · intro notSubmit
    rw [simulates.openOrders_eq, simulates'.openOrders_eq]
    apply (List.subperm_of_subset nodup _).length_le
    intro id member
    rcases origin id member with before | ⟨submit, -⟩
    · exact ReferenceEngine.mem_openOrderIds.mpr before
    · exact absurd submit notSubmit

end engine

end MatchingEngine

/-! ## Limits as caps -/

namespace RiskLimits

def qtyCap (limits : RiskLimits) : Cap where
  Admits _ qty := limits.maxOrderQty = 0 ∨ qty ≤ limits.maxOrderQty
  mono less admits := admits.imp_right (UInt64.le_trans less)

def notionalCap (limits : RiskLimits) : Cap where
  Admits limit qty := ∀ px ∈ limit, 0 < px → px < 2 ^ 63 →
    limits.maxNotional = 0 ∨ px * qty.toNat ≤ limits.maxNotional.toInt
  mono less admits := by
    intro px given positive small
    apply (admits px given positive small).imp_right
    intro within
    have less := Int.ofNat_le.mpr (UInt64.le_iff_toNat_le.mp less)
    exact (Int.mul_le_mul_of_nonneg_left less positive.le).trans within

/-- The limits hold in the book of an engine, each unless it is 0. -/
structure Holds {H : Type} (limits : RiskLimits) (s : MatchingEngine H) : Prop where
  openOrders : limits.maxOpenOrders ≠ 0 → s.openOrders ≤ limits.maxOpenOrders ∧
    ∀ ids : List OrderId, ids.Nodup → (∀ id ∈ ids, ∃ o, s.lookup id = some o) →
      ids.length ≤ limits.maxOpenOrders
  orderQty : limits.maxOrderQty ≠ 0 → ∀ (side : Side) (px : Price),
    (∀ o ∈ s.queue side.book px, o.qty.toNat + o.reserve.toNat ≤ limits.maxOrderQty.toNat) ∧
    ∀ o ∈ s.queue side.stopBook px, o.qty.toNat ≤ limits.maxOrderQty.toNat
  notional : limits.maxNotional ≠ 0 → ∀ (side : Side) (px : Price),
    ∀ o ∈ s.queue side.book px, px * (o.qty.toNat + o.reserve.toNat) ≤ limits.maxNotional.toInt

structure Kept {H : Type} (limits : RiskLimits) (s : MatchingEngine H) : Prop where
  openOrders : limits.maxOpenOrders ≠ 0 → s.openOrders ≤ limits.maxOpenOrders
  orderQty : s.Capped limits.qtyCap
  notional : s.Capped limits.notionalCap

variable {H : Type} {limits : RiskLimits} {s : MatchingEngine H}

theorem Kept.holds (kept : limits.Kept s) (live : s.Live) (nonneg : 0 ≤ limits.maxNotional) :
    limits.Holds s where
  openOrders limited :=
    ⟨kept.openOrders limited, fun _ distinct isOpen =>
      (live.length_le_openOrders distinct isOpen).trans (kept.openOrders limited)⟩
  orderQty limited side px := by
    constructor
    · intro o member
      rcases kept.orderQty.resting side px o member with none | within
      · exact absurd none limited
      · rw [← (live.resting member).2]
        exact UInt64.le_iff_toNat_le.mp within
    · intro o member
      rcases kept.orderQty.parked side px o member with none | within
      · exact absurd none limited
      · exact UInt64.le_iff_toNat_le.mp within
  notional limited side px o member := by
    rcases live.resting member with ⟨small, total⟩
    by_cases positive : 0 < px
    · rcases kept.notional.resting side px o member px rfl positive small with none | within
      · exact absurd none limited
      · rw [total, Int.natCast_add] at within
        exact within
    · have less : px * (o.qty.toNat + o.reserve.toNat) ≤ 0 :=
        Int.mul_nonpos_of_nonpos_of_nonneg (not_lt.mp positive) (by lia)
      exact less.trans (Int64.le_iff_toInt_le.mp nonneg)

end RiskLimits

/-! ## What the checks say -/

def Op.isNewFlow : Op → Bool
  | .submitLimit .. | .submitMarket .. | .submitIceberg .. | .submitStop .. |
    .submitStopLimit .. | .modify .. => true
  | _ => false

namespace RiskGate

variable {H : Type} {g : RiskGate H}

theorem checkNotional_iff {px : Price} {q : Qty} (nonneg : 0 ≤ g.limits.maxNotional)
    (fits : FitsPrice px) : g.checkNotional px q = true ↔
      (g.limits.maxNotional ≠ 0 → 0 < px → px * q.toNat ≤ g.limits.maxNotional.toInt) := by
  rw [checkNotional, decide_eq_true_eq, or_iff_not_imp_left, or_iff_not_imp_left, not_le]
  apply imp_congr_right
  intro limited
  apply imp_congr_right
  intro positive
  have price : (Int64.ofInt px).toInt = px := Int64.toInt_ofInt_of_le fits.1 fits.2
  have total : 0 ≤ g.limits.maxNotional.toInt := Int64.le_iff_toInt_le.mp nonneg
  have notMinus : Int64.ofInt px ≠ -1 := by
    intro minus
    rw [minus] at price
    have : (-1 : Int64).toInt = -1 := by decide
    lia
  have quotient : (g.limits.maxNotional / Int64.ofInt px).toInt =
      g.limits.maxNotional.toInt / px := by
    rw [Int64.toInt_div_of_ne_right _ _ notMinus, price, Int.tdiv_eq_ediv_of_nonneg total]
  have quotientNonneg : 0 ≤ g.limits.maxNotional / Int64.ofInt px := by
    rw [Int64.le_iff_toInt_le, quotient]
    exact Int.ediv_nonneg total positive.le
  rw [UInt64.le_iff_toNat_le, Int64.toNat_toUInt64_of_le quotientNonneg, ← Int.ofNat_le,
    ← Int64.toInt_eq_toNatClampNeg quotientNonneg, quotient, Int.le_ediv_iff_mul_le positive,
    Int.mul_comm]

theorem mul_le_of_checkNotional {px : Price} {q : Qty} (nonneg : 0 ≤ g.limits.maxNotional)
    (checked : g.checkNotional px q = true) :
    g.limits.notionalCap.Admits (some px) q := by
  intro px' given positive small
  cases given
  have fits : FitsPrice px := ⟨by lia, small⟩
  have within := (checkNotional_iff nonneg fits).mp checked
  by_cases none : g.limits.maxNotional = 0
  · exact .inl none
  · exact .inr (within none positive)

structure Passes (g : RiskGate H) (op : Op) : Prop where
  budget : op.isNewFlow → g.limits.maxMessages ≠ 0 → g.windowMsgs + 1 ≤ g.limits.maxMessages
  orderQty : op.Admitted g.limits.qtyCap
  notional : 0 ≤ g.limits.maxNotional → op.Admitted g.limits.notionalCap
  openOrders : op.IsSubmit → g.limits.maxOpenOrders ≠ 0 →
    g.engine.openOrders < g.limits.maxOpenOrders

section checks

variable {owner : OwnerId} {side : Side} {qty : Qty} {px : Price}

theorem budget_of_check (within : g.countMessage.overBudget = false)
    (limited : g.limits.maxMessages ≠ 0) : g.windowMsgs + 1 ≤ g.limits.maxMessages := by
  simp only [overBudget, decide_eq_false_iff_not, not_and, UInt64.not_lt] at within
  exact within limited

theorem openOrders_of_check (room : g.checkOpenOrders = true)
    (limited : g.limits.maxOpenOrders ≠ 0) :
    g.engine.openOrders < g.limits.maxOpenOrders := by
  simp only [checkOpenOrders, decide_eq_true_eq] at room
  exact room.resolve_left limited

theorem qty_of_check {limit : Option Price} (checked : g.checkQty qty = true) :
    g.limits.qtyCap.Admits limit qty := by
  simp only [checkQty, decide_eq_true_eq] at checked
  exact checked

/-- The checks on a submission other than a market order. -/
theorem passes_of_refusal {checksPrice : Bool} {op : Op}
    (none : g.countMessage.refusal owner side qty px checksPrice = none)
    (orderQty : op.Admitted g.limits.qtyCap ↔ g.limits.qtyCap.Admits (some px) qty)
    (notional : (checksPrice = true → g.limits.notionalCap.Admits (some px) qty) →
      op.Admitted g.limits.notionalCap) : g.Passes op := by
  unfold refusal at none
  split_ifs at none with killed budget checked priced near room position
  refine ⟨fun _ => budget_of_check (by simpa using budget), orderQty.mpr (qty_of_check checked),
    fun nonneg => notional fun checksPrice => ?_, fun _ => openOrders_of_check room⟩
  apply mul_le_of_checkNotional nonneg
  by_contra unchecked
  exact priced ⟨checksPrice, unchecked⟩

theorem passes {op : Op} (none : g.verdict (.order op) = none) : g.Passes op := by
  cases op with
  | submitLimit side price qty tif owner stp =>
      exact passes_of_refusal none Iff.rfl fun priced => priced rfl
  | submitIceberg side price totalQty display tif owner stp =>
      exact passes_of_refusal none Iff.rfl fun priced => priced rfl
  | submitStop side stopPrice qty owner stp =>
      exact passes_of_refusal none Iff.rfl fun _ _ given => nomatch given
  | submitStopLimit side stopPrice limitPrice qty owner stp =>
      exact passes_of_refusal none Iff.rfl fun priced => priced rfl
  | submitMarket side qty owner stp =>
      have none : g.countMessage.marketRefusal owner side qty = Option.none := none
      unfold marketRefusal at none
      split_ifs at none with killed budget blocked checked priced room position
      exact ⟨fun _ => budget_of_check (by simpa using budget), qty_of_check checked,
        fun _ _ given => (nomatch given), fun _ => openOrders_of_check room⟩
  | modify id newPrice newQty =>
      have none : g.countMessage.modifyRefusal newPrice newQty = Option.none := none
      unfold modifyRefusal at none
      split_ifs at none with killed budget checked priced near
      refine ⟨fun _ => budget_of_check (by simpa using budget), fun nonzero => ?_,
        fun nonneg nonzero => ?_, False.elim⟩
      · apply qty_of_check
        by_contra unchecked
        exact checked ⟨nonzero, unchecked⟩
      · apply mul_le_of_checkNotional nonneg
        by_contra unchecked
        exact priced ⟨nonzero, unchecked⟩
  | _ => exact ⟨nofun, trivial, fun _ => trivial, False.elim⟩

end checks

end RiskGate

/-! ## What operations keep -/

section kept

variable {H : Type} [Handler H] {limits : RiskLimits} {s s' : MatchingEngine H} {ret : Ret}

theorem RiskLimits.Kept.step (kept : limits.Kept s) (live : s.Live) {op : Op}
    (orderQty : op.Admitted limits.qtyCap) (notional : op.Admitted limits.notionalCap)
    (room : op.IsSubmit → limits.maxOpenOrders ≠ 0 → s.openOrders < limits.maxOpenOrders)
    (stepped : s.step op = some (s', ret)) : limits.Kept s' := by
  rcases live.step_capped op with ⟨next, answer, result, -, capped, more, fewer⟩
  cases stepped.symm.trans result
  refine ⟨fun limited => ?_, capped _ orderQty kept.orderQty, capped _ notional kept.notional⟩
  by_cases submit : op.IsSubmit
  · exact more.trans (room submit limited)
  · exact (fewer submit).trans (kept.openOrders limited)

theorem RiskLimits.Kept.cancelEach (kept : limits.Kept s) (live : s.Live) (ids : List OrderId)
    (cancelled : s.cancelEach ids = some s') : limits.Kept s' := by
  induction ids generalizing s with
  | nil => exact Option.some.inj cancelled ▸ kept
  | cons id ids induction =>
      rcases live.step (.cancel id) with ⟨next, answer, stepped, live', -⟩
      have admitted (cap : Cap) : (Op.cancel id).Admitted cap := trivial
      have kept' := kept.step live (admitted _) (admitted _) False.elim stepped
      simp only [MatchingEngine.cancelEach, stepped, Option.bind_eq_bind, Option.bind_some]
        at cancelled
      exact induction kept' live' cancelled

theorem RiskLimits.Kept.cancelOpen (kept : limits.Kept s) (live : s.Live)
    (cancelled : s.cancelOpen = some s') : limits.Kept s' := by
  rcases live.visitOrders .buy with ⟨bids, buys⟩
  rcases live.visitOrders .sell with ⟨asks, sells⟩
  rcases live.visitStops with ⟨ids, stops⟩
  simp only [MatchingEngine.cancelOpen, buys, sells, stops, Option.bind_eq_bind,
    Option.bind_some] at cancelled
  exact kept.cancelEach live _ cancelled

omit [Handler H] in
theorem RiskLimits.kept_new (limits : RiskLimits) (band : Band) (h : H) (expectedOrders : Nat) :
    limits.Kept (.new band h expectedOrders) := by
  have simulates := MatchingEngine.simulates_new band h expectedOrders
  have empty (cap : Cap) : (MatchingEngine.new band h expectedOrders).Capped cap := by
    rw [simulates.capped_iff, MatchingEngine.market_new]
    exact ⟨fun _ _ _ member => absurd member List.not_mem_nil,
      fun _ member => absurd member List.not_mem_nil⟩
  have none : (MatchingEngine.new band h expectedOrders).openOrders = 0 :=
    (Pool.accounts_reserve expectedOrders).inUse
  exact ⟨fun _ => none ▸ Nat.zero_le _, empty _, empty _⟩

end kept

/-! ## Runs -/

namespace RiskGate

/-- The calls the message budget counts. -/
def Call.metered : Call → Bool
  | .order .halt | .order .resume | .order .uncross => false
  | .order _ => true
  | _ => false

def Call.isNewFlow : Call → Bool
  | .order op => op.isNewFlow
  | _ => false

def Call.limitsAfter (limits : RiskLimits) : Call → RiskLimits
  | .setLimits limits => limits
  | _ => limits

def Call.windowAfter (windowMsgs : UInt64) : Call → UInt64
  | .newWindow => 0
  | call => if call.metered then windowMsgs + 1 else windowMsgs

theorem Call.windowAfter_eq {windowMsgs : UInt64} {call : Call} (notNew : call ≠ .newWindow) :
    call.windowAfter windowMsgs = if call.metered then windowMsgs + 1 else windowMsgs := by
  cases call with
  | newWindow => exact absurd rfl notNew
  | _ => rfl

theorem Call.metered_of_isNewFlow {call : Call} (new : call.isNewFlow = true) :
    call.metered = true := by
  cases call with
  | order op => cases op <;> first | rfl | exact Bool.noConfusion new
  | _ => exact Bool.noConfusion new

theorem budget_of_verdict {H : Type} {g : RiskGate H} {call : Call} (none : g.verdict call = none)
    (new : call.isNewFlow = true) (limited : g.limits.maxMessages ≠ 0) :
    g.windowMsgs + 1 ≤ g.limits.maxMessages := by
  cases call with
  | order op => exact (passes none).budget new limited
  | _ => exact Bool.noConfusion new

section runs

variable {H : Type} [Handler H] {limits : RiskLimits} {g g' : RiskGate H} {s : MatchingEngine H}
  {ret : Ret}

theorem forward_frame {op : Op} (handed : g.forward op = some (g', ret)) :
    ∃ engine, g' = { g with engine } := by
  unfold forward at handed
  cases result : g.engine.step op with
  | none => simp [result] at handed
  | some outcome =>
      simp only [result, Option.bind_eq_bind, Option.bind_some, Option.some.injEq,
        Prod.mk.injEq] at handed
      exact ⟨outcome.1, handed.1.symm⟩

theorem cancelAll_frame (ids : List OrderId) (cancelled : g.cancelAll ids = some g') :
    ∃ engine, g' = { g with engine } := by
  induction ids generalizing g with
  | nil => exact ⟨g.engine, (Option.some.inj cancelled).symm⟩
  | cons id ids induction =>
      unfold cancelAll at cancelled
      cases result : g.forward (.cancel id) with
      | none => simp [result] at cancelled
      | some outcome =>
          rcases outcome with ⟨next, answer⟩
          rcases forward_frame result with ⟨engine, rfl⟩
          simp only [result, Option.bind_eq_bind, Option.bind_some] at cancelled
          rcases induction cancelled with ⟨last, rfl⟩
          exact ⟨last, rfl⟩

theorem killAndCancelAll_frame (cancelled : g.killAndCancelAll = some g') :
    ∃ engine, g' = { g with killed := true, engine } := by
  simp only [killAndCancelAll, Option.bind_eq_bind, Option.bind_eq_some_iff] at cancelled
  rcases cancelled with ⟨bids, -, asks, -, stops, -, each⟩
  exact cancelAll_frame _ each

theorem step_order_frame {op : Op} (stepped : g.step (.order op) = some (g', ret)) :
    g'.limits = g.limits ∧ g'.killed = g.killed ∧
      g'.windowMsgs = Call.windowAfter g.windowMsgs (.order op) := by
  cases decided : g.verdict (.order op) with
  | none =>
      rw [step_admitted g op decided] at stepped
      rcases forward_frame stepped with ⟨engine, rfl⟩
      cases op <;> exact ⟨rfl, rfl, rfl⟩
  | some reason =>
      rw [step_turnedAway g op decided] at stepped
      cases stepped
      cases op with
      | halt | resume | uncross | cancel | reduce => cases decided
      | _ => exact ⟨rfl, rfl, rfl⟩

theorem step_frame {call : Call} (stepped : g.step call = some (g', ret)) :
    g'.limits = call.limitsAfter g.limits ∧ g'.windowMsgs = call.windowAfter g.windowMsgs := by
  cases call with
  | order op =>
      rcases step_order_frame stepped with ⟨limits, -, windowMsgs⟩
      exact ⟨limits, windowMsgs⟩
  | killAndCancelAll =>
      rcases Option.map_eq_some_iff.mp stepped with ⟨next, cancelled, same⟩
      cases same
      rcases killAndCancelAll_frame cancelled with ⟨engine, rfl⟩
      exact ⟨rfl, rfl⟩
  | setLimits | newWindow | kill | clearKill =>
      cases stepped
      exact ⟨rfl, rfl⟩

structure Within (g : RiskGate H) (limits : RiskLimits) (s : MatchingEngine H) : Prop where
  guards : g.Guards s
  fixed : g.limits = limits
  kept : limits.Kept s

theorem Within.step (within : g.Within limits s) (nonneg : 0 ≤ limits.maxNotional) (call : Call)
    (fixed : call.limitsAfter limits = limits) :
    ∃ g' s' ret, g.step call = some (g', ret) ∧ g'.Within limits s' := by
  cases decided : g.verdict call with
  | some reason =>
      rcases call_of_verdict decided with ⟨op, rfl⟩
      exact ⟨_, s, _, g.step_turnedAway op decided,
        ⟨within.guards.live, within.guards.shows⟩, within.fixed, within.kept⟩
  | none =>
      rcases within.guards.step call decided with ⟨g', s', ret, stepped, bare, guards, -⟩
      have limits' : g'.limits = limits := by
        rw [(step_frame stepped).1, within.fixed, fixed]
      refine ⟨g', s', ret, stepped, guards, limits', ?_⟩
      cases call with
      | order op =>
          have passes := passes decided
          have open' : s.openOrders = g.engine.openOrders := within.guards.shows ▸ rfl
          apply within.kept.step within.guards.live (within.fixed ▸ passes.orderQty) _ _ bare
          · exact within.fixed ▸ passes.notional (within.fixed ▸ nonneg)
          · rw [open', ← within.fixed]
            exact passes.openOrders
      | killAndCancelAll =>
          rcases Option.map_eq_some_iff.mp bare with ⟨next, cancelled, same⟩
          cases same
          exact within.kept.cancelOpen within.guards.live cancelled
      | setLimits | newWindow | kill | clearKill =>
          cases bare
          exact within.kept

theorem limitsAfter_eq {call : Call} {calls : List Call} (member : call ∈ calls)
    (fixed : ∀ other, .setLimits other ∉ calls) : call.limitsAfter limits = limits := by
  cases call with
  | setLimits other => exact absurd member (fixed other)
  | _ => rfl

theorem Within.run (within : g.Within limits s) (nonneg : 0 ≤ limits.maxNotional)
    (calls : List Call) (fixed : ∀ other, .setLimits other ∉ calls) :
    ∃ g' s' rets, g.run calls = some (g', rets) ∧ g'.Within limits s' := by
  induction calls generalizing g s with
  | nil => exact ⟨g, s, [], rfl, within⟩
  | cons call calls induction =>
      rcases within.step nonneg call (limitsAfter_eq List.mem_cons_self fixed) with
        ⟨g₁, s₁, ret, stepped, within₁⟩
      have fixed' (other : RiskLimits) : .setLimits other ∉ calls := fun member =>
        fixed other (List.mem_cons_of_mem call member)
      rcases induction within₁ fixed' with ⟨g', s', rets, ran, within'⟩
      refine ⟨g', s', ret :: rets, ?_, within'⟩
      simp only [RiskGate.run, stepped, ran, Option.bind_eq_bind, Option.bind_some]

/-- In a window that does not wrap the counter, the budget that is left is not
overrun. -/
theorem Within.admitted_le (within : g.Within limits s) (nonneg : 0 ≤ limits.maxNotional)
    (limited : limits.maxMessages ≠ 0) (window : List Call)
    (fixed : ∀ other, .setLimits other ∉ window) (closed : .newWindow ∉ window)
    (short : g.windowMsgs.toNat + window.countP Call.metered < 2 ^ 64) :
    (g.admitted window).countP (fun entry => entry.1.isNewFlow) ≤
      limits.maxMessages.toNat - g.windowMsgs.toNat := by
  induction window generalizing g s with
  | nil => exact Nat.zero_le _
  | cons call window induction =>
      rcases within.step nonneg call (limitsAfter_eq List.mem_cons_self fixed) with
        ⟨g₁, s₁, ret, stepped, within₁⟩
      have fixed' (other : RiskLimits) : .setLimits other ∉ window := fun member =>
        fixed other (List.mem_cons_of_mem call member)
      have closed' : .newWindow ∉ window := fun member =>
        closed (List.mem_cons_of_mem call member)
      have counted : g₁.windowMsgs.toNat =
          g.windowMsgs.toNat + if call.metered = true then 1 else 0 := by
        have notNew : call ≠ .newWindow := fun same => closed (same ▸ List.mem_cons_self)
        rw [List.countP_cons] at short
        rw [(step_frame stepped).2, Call.windowAfter_eq notNew]
        by_cases metered : call.metered = true
        · rw [if_pos metered, if_pos metered, UInt64.toNat_add, UInt64.toNat_one]
          rw [if_pos metered] at short
          exact Nat.mod_eq_of_lt (by lia)
        · rw [if_neg metered, if_neg metered, Nat.add_zero]
      have rest := induction within₁ fixed' closed' (by rw [List.countP_cons] at short; lia)
      have first : g.admitted (call :: window) =
          if g.verdict call = none then (call, ret) :: g₁.admitted window
          else g₁.admitted window := by
        simp only [admitted, stepped]
      rw [first]
      split
      · rename_i decided
        rw [List.countP_cons]
        by_cases new : call.isNewFlow = true
        · have metered := Call.metered_of_isNewFlow new
          rw [List.countP_cons, if_pos metered] at short
          have budget := budget_of_verdict decided new (within.fixed ▸ limited)
          rw [within.fixed, UInt64.le_iff_toNat_le, UInt64.toNat_add, UInt64.toNat_one,
            Nat.mod_eq_of_lt (by lia)] at budget
          rw [if_pos metered] at counted
          rw [if_pos new]
          lia
        · rw [if_neg new]
          lia
      · lia

omit [Handler H] in
theorem within_new (band : Band) (user : H) (limits : RiskLimits) (expectedOrders : Nat) :
    (new band user limits expectedOrders).Within limits (.new band user expectedOrders) :=
  ⟨guards_new band user limits expectedOrders, rfl, limits.kept_new band user expectedOrders⟩

theorem run_append (first second : List Call) :
    g.run (first ++ second) = (g.run first).bind fun out =>
      (out.1.run second).map fun last => (last.1, out.2 ++ last.2) := by
  induction first generalizing g with
  | nil => cases result : g.run second <;> simp [RiskGate.run, result]
  | cons call first induction =>
      cases stepped : g.step call with
      | none => simp [RiskGate.run, stepped]
      | some out =>
          simp only [List.cons_append, RiskGate.run, stepped, Option.bind_eq_bind,
            Option.bind_some, induction]
          cases middle : out.1.run first with
          | none => rfl
          | some out' =>
              simp only [Option.bind_some]
              cases out'.1.run second <;> rfl

theorem windowMsgs_of_opens {before : List Call} {g : RiskGate H} {rets : List Ret} {band : Band}
    {user : H} {expectedOrders : Nat} (opens : ∀ call ∈ before.getLast?, call = .newWindow)
    (ran : (new band user limits expectedOrders).run before = some (g, rets)) :
    g.windowMsgs = 0 := by
  rcases before.eq_nil_or_concat with rfl | ⟨front, last, rfl⟩
  · cases ran
    rfl
  · have isNew : last = .newWindow := opens last (by simp)
    rw [isNew, List.concat_eq_append, run_append, Option.bind_eq_some_iff] at ran
    rcases ran with ⟨out, -, ended⟩
    cases ended
    rfl

/-- The limits of a gate hold in the book after every run, and in each window of fewer
than 2 ^ 64 messages no more new flow reaches the engine than the budget allows. -/
theorem run_holds (band : Band) (user : H) (limits : RiskLimits) (expectedOrders : Nat)
    (nonneg : 0 ≤ limits.maxNotional) (calls : List Call)
    (fixed : ∀ other, .setLimits other ∉ calls) :
    ∃ g rets, (new band user limits expectedOrders).run calls = some (g, rets) ∧
      limits.Holds g.engine ∧
      (limits.maxMessages ≠ 0 → ∀ before window, calls = before ++ window →
        (∀ call ∈ before.getLast?, call = .newWindow) → .newWindow ∉ window →
        window.countP Call.metered < 2 ^ 64 →
        ∃ opening rets, (new band user limits expectedOrders).run before =
            some (opening, rets) ∧
          (opening.admitted window).countP (fun entry => entry.1.isNewFlow) ≤
            limits.maxMessages.toNat) := by
  have start := within_new band user limits expectedOrders
  rcases start.run nonneg calls fixed with ⟨g, s, rets, ran, within⟩
  refine ⟨g, rets, ran, ?_, ?_⟩
  · have holds := within.kept.holds within.guards.live nonneg
    rw [← within.guards.shows] at holds
    exact ⟨holds.openOrders, holds.orderQty, holds.notional⟩
  · rintro limited before window rfl opens closed short
    rcases start.run nonneg before fun other member =>
      fixed other (List.mem_append_left window member) with ⟨opening, s₁, rets₁, ran₁, within₁⟩
    refine ⟨opening, rets₁, ran₁, ?_⟩
    have empty := windowMsgs_of_opens opens ran₁
    have most := within₁.admitted_le nonneg limited window
      (fun other member => fixed other (List.mem_append_right before member)) closed
      (by simpa [empty] using short)
    simpa [empty] using most

end runs

/-- A bid for one at one. -/
def bid : Call := .order (.submitLimit .buy 1 1 .gtc 0 .cancelTaker)

theorem run_holds_bids :
    let limits : RiskLimits :=
      { maxOrderQty := 10, maxNotional := 1500, maxOpenOrders := 2, maxMessages := 1 }
    let gate : RiskGate NullHandler := new ⟨1, 10, by decide, by decide, by decide⟩ () limits 0
    (∃ g rets, gate.run [bid, .newWindow, bid, bid] = some (g, rets) ∧ limits.Holds g.engine) ∧
      ∃ opening rets, gate.run [bid, .newWindow] = some (opening, rets) ∧
        (opening.admitted [bid, bid]).countP (fun entry => entry.1.isNewFlow) ≤ 1 := by
  intro limits gate
  have holds := run_holds ⟨1, 10, by decide, by decide, by decide⟩ () limits 0 (by decide)
    [bid, .newWindow, bid, bid] (by simp [bid])
  rcases holds with ⟨g, rets, ran, holds, windows⟩
  exact ⟨⟨g, rets, ran, holds⟩, windows (by decide) [bid, .newWindow] [bid, bid] rfl
    (by simp) (by simp [bid]) (by decide)⟩

/-! ### A window that wraps the counter -/

section rollover

variable {H : Type} [Handler H] {g g' : RiskGate H} {s : MatchingEngine H}

theorem admitted_append {first second : List Call} {rets : List Ret}
    (ran : g.run first = some (g', rets)) :
    g.admitted (first ++ second) = g.admitted first ++ g'.admitted second := by
  induction first generalizing g rets with
  | nil =>
      cases ran
      rfl
  | cons call first induction =>
      cases stepped : g.step call with
      | none => simp [RiskGate.run, stepped] at ran
      | some out =>
          simp only [RiskGate.run, stepped, Option.bind_eq_bind, Option.bind_some,
            Option.bind_eq_some_iff] at ran
          rcases ran with ⟨out', ran', same⟩
          cases same
          simp only [List.cons_append, admitted, stepped, induction ran']
          split <;> rfl

theorem run_cancels (guards : g.Guards s) (n : Nat) :
    ∃ g' s' rets, g.run (List.replicate n (.order (.cancel 0))) = some (g', rets) ∧
      g'.Guards s' ∧ g'.limits = g.limits ∧ g'.killed = g.killed ∧
      g'.windowMsgs = g.windowMsgs + UInt64.ofNat n := by
  induction n generalizing g s with
  | zero => exact ⟨g, s, [], rfl, guards, rfl, rfl, (UInt64.add_zero _).symm⟩
  | succ n induction =>
      rcases guards.step (.order (.cancel 0)) rfl with ⟨g₁, s₁, ret, stepped, -, guards₁, -⟩
      rcases step_order_frame stepped with ⟨limits, killed, counted⟩
      rcases induction guards₁ with ⟨g', s', rets, ran, guards', limits', killed', counted'⟩
      refine ⟨g', s', ret :: rets, ?_, guards', limits'.trans limits, killed'.trans killed, ?_⟩
      · rw [List.replicate_succ]
        simp only [RiskGate.run, stepped, ran, Option.bind_eq_bind, Option.bind_some]
      · have one : g₁.windowMsgs = g.windowMsgs + 1 := counted
        rw [counted', one, UInt64.ofNat_add]
        grind

omit [Handler H] in
theorem bid_admitted (limits : g.limits = { maxMessages := 1 }) (on : g.killed = false)
    (start : g.windowMsgs = 0) : g.verdict bid = none := by
  simp [verdict, bid, refusal, countMessage, overBudget, checkQty, checkNotional, checkCollar,
    checkOpenOrders, checkPosition, limits, on, start]

def rollover : List Call :=
  bid :: (List.replicate (2 ^ 64 - 1) (.order (.cancel 0)) ++ [bid])

theorem newFlow_rollover (guards : g.Guards s) (limits : g.limits = { maxMessages := 1 })
    (on : g.killed = false) (start : g.windowMsgs = 0) :
    1 < (g.admitted rollover).countP fun entry => entry.1.isNewFlow := by
  have first := bid_admitted limits on start
  rcases guards.step bid first with ⟨g₁, s₁, ret₁, stepped₁, -, guards₁, -⟩
  rcases step_order_frame stepped₁ with ⟨limits₁, on₁, counted₁⟩
  rcases run_cancels guards₁ (2 ^ 64 - 1) with
    ⟨g₂, s₂, rets, ran, guards₂, limits₂, on₂, counted₂⟩
  have wrapped : g₂.windowMsgs = 0 := by
    rw [counted₂, counted₁, start]
    decide
  have last := bid_admitted (limits₂.trans (limits₁.trans limits))
      (on₂.trans (on₁.trans on)) wrapped
  rcases guards₂.step bid last with ⟨g₃, s₃, ret₃, stepped₃, -⟩
  have entries : g.admitted rollover = (bid, ret₁) ::
      (g₁.admitted (List.replicate (2 ^ 64 - 1) (.order (.cancel 0))) ++ [(bid, ret₃)]) := by
    have ended : g₂.admitted [bid] = [(bid, ret₃)] := by
      simp only [admitted, stepped₃, last, if_true]
    rw [← ended, ← admitted_append ran, rollover]
    simp only [admitted, stepped₁, first, if_true]
  rw [entries, List.countP_cons, List.countP_append, List.countP_singleton]
  simp only [bid, Call.isNewFlow, Op.isNewFlow, if_true]
  lia

end rollover

/-- The budget does not bound a window that wraps the counter. -/
theorem not_run_holds : ¬ ∀ (band : Band) (user : NullHandler) (limits : RiskLimits)
    (calls : List Call), 0 ≤ limits.maxNotional → (∀ other, .setLimits other ∉ calls) →
    limits.maxMessages ≠ 0 → ∀ before window, calls = before ++ window →
    (∀ call ∈ before.getLast?, call = .newWindow) → .newWindow ∉ window →
    ∀ opening rets, (new band user limits 0).run before = some (opening, rets) →
      (opening.admitted window).countP (fun entry => entry.1.isNewFlow) ≤
        limits.maxMessages.toNat := by
  intro holds
  let band : Band := ⟨1, 10, by decide, by decide, by decide⟩
  have only (call : Call) (member : call ∈ rollover) : call = bid ∨ call = .order (.cancel 0) := by
    rcases List.mem_cons.mp member with first | rest
    · exact .inl first
    rcases List.mem_append.mp rest with cancel | last
    · exact .inr (List.eq_of_mem_replicate cancel)
    · exact .inl (List.mem_singleton.mp last)
  have most := holds band () { maxMessages := 1 } rollover (by decide)
    (fun other member => by rcases only _ member with same | same <;> cases same) (by decide)
    [] rollover rfl (fun call member => nomatch member)
    (fun member => by rcases only _ member with same | same <;> cases same) _ [] rfl
  have more := newFlow_rollover (guards_new band () { maxMessages := 1 } 0) rfl rfl rfl
  exact absurd most (Nat.not_le.mpr more)

end RiskGate

end Matchbook
