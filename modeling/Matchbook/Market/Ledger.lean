import Matchbook.Market.Fills
import Matchbook.Market.OpenQuantity

namespace Matchbook

open Transitions

/-! # Quantity conservation

An account of one id, kept by an onlooker of the history: what was accepted under
the id, and what has been traded and taken off since. The rest is open. -/

def Op.discards : Op → Bool
  | .submitMarket .. | .submitStop .. => true
  | _ => false

def Op.takesOff (id : OrderId) (left : Nat) : Op → Ret → Nat
  | .reduce target delta, .ok true => if target = id then min delta.toNat left else 0
  | .modify target _ qty, .ok true => if target = id ∧ qty ≠ 0 then left - qty.toNat else 0
  | _, _ => 0

/-- What has happened to an id since it was accepted last. -/
structure Account where
  calling : Option Op
  accepted : Nat
  traded : Nat
  reduced : Nat
  cancelled : Bool
  discards : Bool

namespace Account

def new : Account where
  calling := none
  accepted := 0
  traded := 0
  reduced := 0
  cancelled := false
  discards := false

def left (account : Account) : Nat := account.accepted - account.traded - account.reduced

def see (id : OrderId) (account : Account) : Entry → Account
  | .called op ret =>
      { account with
        calling := some op
        reduced := account.reduced + op.takesOff id account.left ret }
  | .seen (.accept target _ _ qty) =>
      if target = id then
        { account with
          accepted := qty.toNat
          traded := 0
          reduced := 0
          cancelled := false
          discards := account.calling.any Op.discards }
      else account
  | .seen (.trade trade) =>
      if trade.taker = id ∨ trade.maker = id then
        { account with traded := account.traded + trade.qty.toNat }
      else account
  | .seen (.cancel target) => if target = id then { account with cancelled := true } else account
  | .seen _ => account

/-- No more is traded than was accepted. -/
def Covered (account : Account) : Prop := account.traded ≤ account.accepted

def Closed (account : Account) : Prop :=
  account.cancelled = true ∨ account.discards = true ∨
    account.accepted = account.traded + account.reduced

end Account

structure Balanced (id : OrderId) (state : Market × Phase) (account : Account) : Prop where
  opens : ∀ q discards, Open state id q discards →
    account.accepted = account.traded + account.reduced + q ∧ account.cancelled = false ∧
      (discards = true → account.discards = true)
  closed : (∀ q discards, ¬ Open state id q discards) → account.Closed
  within : account.traded + account.reduced ≤ account.accepted

variable {id : OrderId} {state next : Market × Phase} {account : Account}

namespace Balanced

theorem new (band : Band) (id : OrderId) : Balanced id (Market.new band, .idle) .new where
  opens q discards isOpen := by
    rw [open_idle] at isOpen
    rcases isOpen with ⟨-, side, px, queued⟩ | ⟨o, member, -⟩
    · exact absurd queued Market.queued_nil.mp
    · exact absurd member List.not_mem_nil
  closed _ := .inr (.inr rfl)
  within := Nat.le_refl 0

theorem same (balanced : Balanced id state account)
    (same : ∀ q discards, Open next id q discards ↔ Open state id q discards) :
    Balanced id next account where
  opens q discards isOpen := balanced.opens q discards ((same q discards).mp isOpen)
  closed none := balanced.closed fun q discards isOpen =>
    none q discards ((same q discards).mpr isOpen)
  within := balanced.within

/-- A trade takes its quantity off what is open. -/
theorem trade {q f : Nat} {discards : Bool} (balanced : Balanced id state account)
    (before : Open state id q discards) (within : f ≤ q)
    (after : ∀ q' discards', Open next id q' discards' → q' + f = q ∧ discards' = discards)
    (gone : (∀ q' discards', ¬ Open next id q' discards') → q = f) :
    Balanced id next { account with traded := account.traded + f } := by
  rcases balanced.opens q discards before with ⟨balance, standing, market⟩
  constructor
  case opens =>
      intro q' discards' isOpen
      rcases after q' discards' isOpen with ⟨left, rfl⟩
      refine ⟨?_, standing, market⟩
      show account.accepted = account.traded + f + account.reduced + q'
      omega
  case closed =>
      intro none
      right
      right
      have all := gone none
      show account.accepted = account.traded + f + account.reduced
      omega
  case within =>
      show account.traded + f + account.reduced ≤ account.accepted
      omega

/-- A fill of a resting order. -/
theorem fill {total f : Nat} (balanced : Balanced id state account) (within : f ≤ total)
    (before : ∀ q discards, Open state id q discards ↔ discards = false ∧ q = total)
    (after : ∀ q discards,
      Open next id q discards ↔ discards = false ∧ q ≠ 0 ∧ q + f = total) :
    Balanced id next { account with traded := account.traded + f } := by
  apply balanced.trade ((before total false).mpr ⟨rfl, rfl⟩) within
  · intro q discards isOpen
    have left := (after q discards).mp isOpen
    exact ⟨left.2.2, left.1⟩
  · intro none
    by_contra some
    exact none (total - f) false ((after _ _).mpr ⟨rfl, by omega, by omega⟩)

theorem close (none : ∀ q discards, ¬ Open next id q discards) (closed : account.Closed)
    (within : account.traded + account.reduced ≤ account.accepted) : Balanced id next account where
  opens q discards isOpen := absurd isOpen (none q discards)
  closed _ := closed
  within := within

end Balanced

/-! ## Steps -/

section seeing

variable (id : OrderId) (account : Account)

def Account.told (events : List Event) : Account :=
  (events.map Entry.seen).foldl (Account.see id) account

@[simp] theorem Account.told_nil : account.told id [] = account := rfl

@[simp] theorem Account.told_cons (event : Event) (events : List Event) :
    account.told id (event :: events) = (account.see id (.seen event)).told id events := rfl

@[simp] theorem Account.told_append (first second : List Event) :
    account.told id (first ++ second) = (account.told id first).told id second := by
  rw [told, List.map_append, List.foldl_append]
  rfl

@[simp] theorem Account.told_consume (px : Price) (f : Qty) (level : List RO) :
    account.told id (consume px f level).2 = account := by
  apply foldl_ignored
  intro entry member
  rcases List.mem_map.mp member with ⟨event, isEvent, rfl⟩
  rcases mem_consume_events isEvent with ⟨o, -, rfl, -⟩
  rfl

end seeing

variable {events : List Event}

namespace Balanced

theorem cancel {target : OrderId} (balanced : Balanced id state account)
    (after : ∀ q discards, Open next id q discards ↔ id ≠ target ∧ Open state id q discards) :
    Balanced id next (account.told id [.cancel target]) := by
  by_cases isTarget : target = id
  · have seen : account.told id [.cancel target] = { account with cancelled := true } :=
      if_pos isTarget
    have none : ∀ q discards, ¬ Open next id q discards := fun q discards isOpen =>
      ((after q discards).mp isOpen).1 isTarget.symm
    rw [seen]
    exact close none (.inl rfl) balanced.within
  · have seen : account.told id [.cancel target] = account := if_neg isTarget
    rw [seen]
    apply balanced.same
    intro q discards
    rw [after]
    simp [Ne.symm isTarget]

/-- The order `target` is accepted for `qty`. -/
theorem accept {target : OrderId} {side : Side} {price : Price} {qty : Qty} {discards : Bool}
    (balanced : id ≠ target → Balanced id state account)
    (called : discards = true → account.calling.any Op.discards = true)
    (after : ∀ q discards', Open next id q discards' ↔
      if id = target then q = qty.toNat ∧ discards' = discards else Open state id q discards') :
    Balanced id next (account.told id [.accept target side price qty]) := by
  by_cases isTarget : target = id
  · have seen : account.told id [.accept target side price qty] =
        { account with
          accepted := qty.toNat
          traded := 0
          reduced := 0
          cancelled := false
          discards := account.calling.any Op.discards } := if_pos isTarget
    rw [seen]
    simp only [if_pos isTarget.symm] at after
    constructor
    case opens =>
        intro q discards' isOpen
        rcases (after q discards').mp isOpen with ⟨rfl, rfl⟩
        exact ⟨by simp, rfl, called⟩
    case closed =>
        intro none
        exact absurd ((after _ _).mpr ⟨rfl, rfl⟩) (none _ _)
    case within => exact Nat.zero_le _
  · have seen : account.told id [.accept target side price qty] = account := if_neg isTarget
    rw [seen]
    apply (balanced (Ne.symm isTarget)).same
    intro q discards'
    rw [after, if_neg (Ne.symm isTarget)]

end Balanced

section taker

variable {m : Market} {t : Taker} {phase : Phase} (fresh : ¬ m.IsOpen t.id)
  (going : phase = .taking t ∨ phase = .stopped t)
include fresh going

omit fresh in
theorem open_going {q : Nat} {discards : Bool} :
    Open (m, phase) id q discards ↔ m.Holds id q discards ∨ t.Carries id q discards := by
  rcases going with rfl | rfl
  · exact open_taking
  · exact open_stopped

theorem open_left {q : Nat} {discards : Bool} :
    Open (m, .idle) id q discards ↔ id ≠ t.id ∧ Open (m, phase) id q discards := by
  rw [open_idle, open_going going]
  by_cases isTaker : id = t.id
  · have closed : ¬ m.Holds id q discards := fun holds => fresh (isTaker ▸ holds.isOpen)
    simp [isTaker ▸ closed, isTaker]
  · simp [Taker.Carries, isTaker, Ne.symm isTaker]

theorem Balanced.leave (balanced : Balanced id (m, phase) account)
    (closed : t.id = id → account.Closed) : Balanced id (m, .idle) account := by
  by_cases isTaker : t.id = id
  · apply Balanced.close _ (closed isTaker) balanced.within
    intro q discards isOpen
    exact ((open_left fresh going).mp isOpen).1 isTaker.symm
  · apply balanced.same
    intro q discards
    rw [open_left fresh going]
    simp [Ne.symm isTaker]

theorem Balanced.kill (balanced : Balanced id (m, phase) account) :
    Balanced id (m, .idle) (account.told id [.cancel t.id]) :=
  balanced.cancel fun _ _ => open_left fresh going

theorem Balanced.cancelHead {side : Side} {px : Price} {o : RO} {rest : List RO}
    (market : m.Valid) (head : m.levels side px = o :: rest)
    (balanced : Balanced id (m, .taking t) account) :
    Balanced id (m.setLevel side px rest, phase) (account.told id [.cancel o.id]) := by
  have member : o ∈ m.levels side px := by simp [head]
  have apart : t.id ≠ o.id := fun same => fresh (same ▸ Market.isOpen_of_mem member)
  have place : m.levels side px = [] ++ o :: rest := head
  apply balanced.cancel
  intro q discards
  have removed : (m.setLevel side px rest).Holds id q discards ↔
      id ≠ o.id ∧ m.Holds id q discards := market.holds_remove place
  rw [open_going going, open_taking, removed, and_or_left]
  apply or_congr_right
  rw [iff_and_self]
  exact fun carries same => apart (carries.1.trans same)

theorem Balanced.accepting {side : Side} {price : Price} (balanced : Balanced id (m, .idle) account)
    (called : t.remainder = .discard → account.calling.any Op.discards = true) :
    Balanced id (m, phase) (account.told id [.accept t.id side price t.qty]) := by
  have called : decide (t.remainder = .discard) = true → account.calling.any Op.discards = true :=
    fun isDiscard => called (of_decide_eq_true isDiscard)
  apply Balanced.accept (fun _ => balanced) called
  intro q discards
  rw [open_going going, open_idle]
  by_cases isTaker : id = t.id
  · have closed : ¬ m.Holds id q discards := fun holds => fresh (isTaker ▸ holds.isOpen)
    rw [if_pos isTaker, or_iff_right closed, Taker.Carries]
    grind
  · simp [Taker.Carries, isTaker, Ne.symm isTaker]

end taker

theorem Step.balanced (valid : ValidState state) (balanced : Balanced id state account)
    (step : Step state events next) : Balanced id next (account.told id events) := by
  cases step with
  | @fill m t px o rest fill meets other amount =>
      rcases valid with ⟨market, taker⟩
      have member : o ∈ m.levels t.maker px := by simp [meets.head]
      have apart : t.id ≠ o.id := fun same => taker.fresh (same ▸ Market.isOpen_of_mem member)
      have shown := (market.shape _ _ o member).qty_le_total
      have within : fill ≤ o.total := by grind
      have taken : fill ≤ t.qty := by grind
      have after (q : Nat) (discards : Bool) : Open ({ m.setLevel t.maker px
          (consume px fill (o :: rest)).1 with last := some px },
            .taking (t.withQty (t.qty - fill))) id q discards ↔
          (if id = o.id then discards = false ∧ q ≠ 0 ∧ q + fill.toNat = o.total.toNat
            else m.Holds id q discards) ∨ (t.withQty (t.qty - fill)).Carries id q discards := by
        rw [open_taking]
        exact or_congr_left (market.holds_consume px meets.head within)
      rw [Account.told_cons, Account.told_consume]
      by_cases isTaker : t.id = id
      · have seen : account.see id (.seen (.trade ⟨t.id, o.id, px, fill, t.side⟩)) =
            { account with traded := account.traded + fill.toNat } := if_pos (.inl isTaker)
        have closed (q : Nat) (discards : Bool) : ¬ m.Holds id q discards := fun holds =>
          taker.fresh (isTaker ▸ holds.isOpen)
        have left : (t.qty - fill).toNat + fill.toNat = t.qty.toNat :=
          (toNat_fill amount).symm
        rw [seen]
        apply balanced.trade (q := t.qty.toNat) (.inr ⟨t, .inl rfl, isTaker, rfl, rfl⟩)
        · exact UInt64.le_iff_toNat_le.mp taken
        · intro q discards isOpen
          rw [after, if_neg (isTaker ▸ apart)] at isOpen
          rcases isOpen with holds | ⟨-, rfl, rfl⟩
          · exact absurd holds (closed q discards)
          · exact ⟨left, rfl⟩
        · intro none
          exact absurd ((after _ _).mpr (.inr ⟨isTaker, rfl, rfl⟩)) (none _ _)
      · have carries (q : Nat) (discards : Bool) : ¬ t.Carries id q discards :=
          fun carries => isTaker carries.1
        have carriesLeft (qty : Qty) (q : Nat) (discards : Bool) :
            ¬ (t.withQty qty).Carries id q discards := fun carries => isTaker carries.1
        by_cases isMaker : o.id = id
        · have seen : account.see id (.seen (.trade ⟨t.id, o.id, px, fill, t.side⟩)) =
              { account with traded := account.traded + fill.toNat } := if_pos (.inr isMaker)
          rw [seen]
          apply balanced.fill (UInt64.le_iff_toNat_le.mp within)
          · intro q discards
            rw [open_taking, or_iff_left (carries q discards), ← isMaker,
              market.holds_of_mem member]
          · intro q discards
            rw [after, if_pos isMaker.symm]
            simp [carriesLeft]
        · have seen : account.see id (.seen (.trade ⟨t.id, o.id, px, fill, t.side⟩)) = account :=
            if_neg (not_or.mpr ⟨isTaker, isMaker⟩)
          rw [seen]
          apply balanced.same
          intro q discards
          rw [after, if_neg (Ne.symm isMaker), open_taking]
          simp [carries, carriesLeft]
  | @cancelMaker m t px o rest meets own policy =>
      exact balanced.cancelHead valid.2.fresh (.inl rfl) valid.1 meets.head
  | @cancelTaker m t px o rest meets own policy =>
      apply balanced.same
      intro q discards
      rw [open_taking, open_stopped]
  | @cancelBoth m t px o rest meets own policy =>
      exact balanced.cancelHead valid.2.fresh (.inr rfl) valid.1 meets.head
  | @killed m t announced => exact balanced.kill valid.2.fresh (.inr rfl)
  | @stoppedMarket m t silent =>
      apply balanced.leave valid.2.fresh (.inr rfl)
      intro isTaker
      exact .inr (.inl ((balanced.opens _ _ (.inr ⟨t, .inr rfl, isTaker, rfl, rfl⟩)).2.2
        (by simp [silent])))
  | @filled m t done =>
      apply balanced.leave valid.2.fresh (.inl rfl)
      intro isTaker
      have all := (balanced.opens _ _ (.inr ⟨t, .inl rfl, isTaker, rfl, rfl⟩)).1
      rw [done] at all
      exact .inr (.inr all)
  | @rest m t price peak left blocked rests =>
      have fresh : ¬ m.IsOpen (t.resting price peak).id := by simpa using valid.2.fresh
      apply balanced.same
      intro q discards
      rw [open_idle, open_taking, Market.holds_append fresh, Taker.resting_id, Taker.total_resting,
        Taker.Carries, rests]
      by_cases isTaker : id = t.id
      · have closed : ¬ m.Holds id q discards := fun holds =>
          valid.2.fresh (isTaker ▸ holds.isOpen)
        rw [if_pos isTaker]
        simp only [isTaker, true_and]
        grind
      · simp [isTaker, Ne.symm isTaker]
  | @cancelRemainder m t left blocked cancels => exact balanced.kill valid.2.fresh (.inl rfl)
  | @discard m t left blocked discards =>
      apply balanced.leave valid.2.fresh (.inl rfl)
      intro isTaker
      exact .inr (.inl ((balanced.opens _ _ (.inr ⟨t, .inl rfl, isTaker, rfl, rfl⟩)).2.2
        (by simp [discards])))
  | @fire m front o back next =>
      have parked : o ∈ m.stops := by simp [next.parked]
      apply balanced.same
      intro q discards
      rw [open_idle, open_taking, valid.1.holds_unpark next.parked, Taker.Carries, RO.fired_id,
        RO.fired_qty, RO.fired_discards]
      by_cases isStop : id = o.id
      · rw [isStop, valid.1.holds_of_stop parked]
        grind
      · simp [isStop, Ne.symm isStop]
  | @cross m clearing bpx apx b a bids asks f bestBid bestAsk bidHead askHead low high amount =>
      have market := valid.1
      rcases le_total_of_min amount with ⟨bidWithin, askWithin⟩
      have bidMember : b ∈ m.levels .buy bpx := by simp [bidHead]
      have askMember : a ∈ m.levels .sell apx := by simp [askHead]
      have apart : b.id ≠ a.id := by
        intro same
        have place := market.place _ _ _ _ b bidMember a askMember same
        cases place.1
      have askHead' : (m.setLevel .buy bpx (consume clearing f (b :: bids)).1).levels
          .sell apx = a :: asks := by
        rw [Market.setLevel_levels_side _ _ _ _ _ _ (by decide), askHead]
      have bidFilled := market.fillHead clearing bidHead bidWithin
      have after (q : Nat) (discards : Bool) : Open ({ (m.setLevel .buy bpx
          (consume clearing f (b :: bids)).1).setLevel .sell apx
            (consume clearing f (a :: asks)).1 with last := some clearing },
              .crossing clearing) id q discards ↔
          if id = a.id then discards = false ∧ q ≠ 0 ∧ q + f.toNat = a.total.toNat
          else if id = b.id then discards = false ∧ q ≠ 0 ∧ q + f.toNat = b.total.toNat
          else m.Holds id q discards := by
        rw [open_crossing, ← market.holds_consume clearing bidHead bidWithin]
        exact bidFilled.holds_consume clearing askHead' askWithin
      rw [Account.told_cons, Account.told_append, Account.told_consume, Account.told_consume]
      by_cases isBid : b.id = id
      · have seen : account.see id (.seen (.trade ⟨b.id, a.id, clearing, f, .buy⟩)) =
            { account with traded := account.traded + f.toNat } := if_pos (.inl isBid)
        rw [seen]
        apply balanced.fill (UInt64.le_iff_toNat_le.mp bidWithin)
        · intro q discards
          rw [open_crossing, ← isBid, market.holds_of_mem bidMember]
        · intro q discards
          rw [after, if_neg (isBid ▸ apart), if_pos isBid.symm]
      · by_cases isAsk : a.id = id
        · have seen : account.see id (.seen (.trade ⟨b.id, a.id, clearing, f, .buy⟩)) =
              { account with traded := account.traded + f.toNat } := if_pos (.inr isAsk)
          rw [seen]
          apply balanced.fill (UInt64.le_iff_toNat_le.mp askWithin)
          · intro q discards
            rw [open_crossing, ← isAsk, market.holds_of_mem askMember]
          · intro q discards
            rw [after, if_pos isAsk.symm]
        · have seen : account.see id (.seen (.trade ⟨b.id, a.id, clearing, f, .buy⟩)) = account :=
            if_neg (not_or.mpr ⟨isBid, isAsk⟩)
          rw [seen]
          apply balanced.same
          intro q discards
          rw [after, if_neg (Ne.symm isAsk), if_neg (Ne.symm isBid), open_crossing]
  | crossed apart =>
      apply balanced.same
      intro q discards
      rw [open_idle, open_crossing]

/-! ## Operations -/

theorem Op.Reduces.takesOff {op : Op} {o : RO} {delta : Qty} (reduces : op.Reduces o delta) :
    op.takesOff o.id o.total.toNat (.ok true) = min delta.toNat o.total.toNat := by
  cases reduces with
  | reduce => exact if_pos rfl
  | @modify qty nonzero less =>
      rw [Op.takesOff, if_pos ⟨rfl, nonzero⟩, UInt64.toNat_sub_of_le _ _ less]
      omega

theorem Op.Reduces.takesOff_other {op : Op} {o : RO} {delta : Qty} (reduces : op.Reduces o delta)
    (other : o.id ≠ id) (left : Nat) (ret : Ret) : op.takesOff id left ret = 0 := by
  cases reduces <;> unfold Op.takesOff <;> split <;> simp_all

theorem Balanced.call {op : Op} {ret : Ret} (balanced : Balanced id state account)
    (quiet : op.takesOff id account.left ret = 0) :
    Balanced id state (account.see id (.called op ret)) := by
  have seen : account.see id (.called op ret) = { account with calling := some op } := by
    simp [Account.see, quiet]
  rw [seen]
  exact ⟨balanced.opens, balanced.closed, balanced.within⟩

/-- A call that takes some of a resting order off. -/
theorem Balanced.takeOff {op : Op} {ret : Ret} {total off : Nat}
    (balanced : Balanced id state account) (within : off ≤ total)
    (takes : op.takesOff id total ret = off)
    (before : ∀ q discards, Open state id q discards ↔ discards = false ∧ q = total)
    (after : ∀ q discards, Open next id q discards ↔
      discards = false ∧ q ≠ 0 ∧ q + off = total) :
    Balanced id next (account.see id (.called op ret)) := by
  rcases balanced.opens total false ((before _ _).mpr ⟨rfl, rfl⟩) with ⟨balance, standing, -⟩
  have left : account.left = total := by
    rw [Account.left, balance]
    omega
  have seen : account.see id (.called op ret) =
      { account with calling := some op, reduced := account.reduced + off } := by
    simp [Account.see, left, takes]
  rw [seen]
  constructor
  case opens =>
      intro q discards isOpen
      rcases (after q discards).mp isOpen with ⟨rfl, -, rest⟩
      refine ⟨?_, standing, nofun⟩
      show account.accepted = account.traded + (account.reduced + off) + q
      omega
  case closed =>
      intro none
      have all : total = off := by
        by_contra some
        exact none (total - off) false ((after _ _).mpr ⟨rfl, by omega, by omega⟩)
      right
      right
      show account.accepted = account.traded + (account.reduced + off)
      omega
  case within =>
      show account.traded + (account.reduced + off) ≤ account.accepted
      omega

theorem Balanced.issue {m : Market} (balanced : Balanced id (m, .idle) account) :
    Balanced id ({ m with nextId := m.nextId + 1 }, .idle) account :=
  balanced.same fun _ _ => Iff.rfl

theorem Taker.ofLimit_remainder {target : OrderId} {side : Side} {price : Price} {qty : Qty}
    {tif : TimeInForce} {owner : OwnerId} {stp : StpPolicy} {peak : Qty} :
    (Taker.ofLimit target side price qty tif owner stp peak).remainder ≠ .discard := by
  unfold ofLimit
  split <;> exact nofun

theorem Market.Begin.balanced {m : Market} {op : Op} {ret : Ret} (valid : m.Valid)
    (balanced : Balanced id (m, .idle) account) (start : m.Begin op events next ret) :
    Balanced id next ((account.see id (.called op ret)).told id events) := by
  cases start with
  | reject submit answer bad =>
      apply balanced.call
      cases op <;> first | rfl | cases submit
  | @refuse op side price qty tif owner stp peak entry temporary nonzero inside refused =>
      have called : Balanced id (m, .idle) (account.see id (.called op (.id m.nextId))) := by
        apply balanced.call
        cases entry <;> rfl
      let t := Taker.ofLimit m.nextId side price qty tif owner stp peak
      have fresh : ¬ { m with nextId := m.nextId + 1 }.IsOpen t.id := valid.fresh
      have admitted : Balanced id ({ m with nextId := m.nextId + 1 }, .taking t)
          ((account.see id (.called op (.id m.nextId))).told id [.accept t.id side price t.qty]) :=
        called.issue.accepting fresh (.inl rfl) fun discards =>
          absurd discards Taker.ofLimit_remainder
      exact admitted.kill fresh (.inl rfl)
  | @enter op side price qty tif owner stp peak entry nonzero inside admitted =>
      have called : Balanced id (m, .idle) (account.see id (.called op (.id m.nextId))) := by
        apply balanced.call
        cases entry <;> rfl
      let t := Taker.ofLimit m.nextId side price qty tif owner stp peak
      have fresh : ¬ { m with nextId := m.nextId + 1 }.IsOpen t.id := valid.fresh
      exact called.issue.accepting fresh (.inl rfl) fun discards =>
        absurd discards Taker.ofLimit_remainder
  | @market side qty owner stp ret running =>
      have called : Balanced id (m, .idle)
          (account.see id (.called (.submitMarket side qty owner stp) ret)) := balanced.call rfl
      let t := Taker.ofMarket m.nextId side qty owner stp
      have fresh : ¬ { m with nextId := m.nextId + 1 }.IsOpen t.id := valid.fresh
      exact called.issue.accepting fresh (.inl rfl) fun _ => rfl
  | @trigger op o entry nonzero inside limit running armed =>
      have called : Balanced id (m, .idle) (account.see id (.called op (.id m.nextId))) := by
        apply balanced.call
        cases entry <;> rfl
      have fresh : ¬ { m with nextId := m.nextId + 1 }.IsOpen o.fired.id := by
        rw [RO.fired_id, entry.id_eq]
        exact valid.fresh
      have admitted : Balanced id ({ m with nextId := m.nextId + 1 }, .taking o.fired)
          ((account.see id (.called op (.id m.nextId))).told id
            [.accept o.fired.id o.side o.price o.fired.qty]) := by
        apply called.issue.accepting fresh (.inl rfl)
        intro discards
        have isMarket := o.fired_discards
        rw [decide_eq_true discards] at isMarket
        cases entry with
        | market => rfl
        | limit => cases isMarket
      rw [RO.fired_id, RO.fired_qty, entry.id_eq] at admitted
      exact admitted
  | @park op o entry nonzero inside limit waits =>
      have called : Balanced id (m, .idle) (account.see id (.called op (.id m.nextId))) := by
        apply balanced.call
        cases entry <;> rfl
      have fresh : ¬ m.IsOpen o.id := by
        rw [entry.id_eq]
        exact valid.fresh
      have kind : o.stopMarket = true → (account.see id (.called op (.id m.nextId))).calling.any
          Op.discards = true := by
        intro isMarket
        cases entry with
        | market => rfl
        | limit => cases isMarket
      apply Balanced.accept (fun _ => called) kind
      intro q discards
      rw [open_idle, open_idle, ← entry.id_eq]
      exact Market.holds_park fresh
  | @decline op target onOrder declined =>
      apply balanced.call
      cases onOrder <;> rfl
  | @cancel op side px front o back cancels place =>
      have called : Balanced id (m, .idle) (account.see id (.called op (.ok true))) := by
        apply balanced.call
        cases cancels <;> simp [Op.takesOff]
      apply called.cancel
      intro q discards
      rw [open_idle, open_idle]
      exact valid.holds_remove place
  | @cancelStop op front o back cancels place =>
      have called : Balanced id (m, .idle) (account.see id (.called op (.ok true))) := by
        apply balanced.call
        cases cancels <;> simp [Op.takesOff]
      apply called.cancel
      intro q discards
      rw [open_idle, open_idle]
      exact valid.holds_unpark place
  | @erase op side px front o back delta reduces place all =>
      have member : o ∈ m.levels side px := by simp [place]
      have total : Min.min delta.toNat o.total.toNat = o.total.toNat :=
        Nat.min_eq_right (UInt64.le_iff_toNat_le.mp all)
      by_cases isTarget : o.id = id
      · subst isTarget
        apply balanced.takeOff (Nat.le_refl _) (reduces.takesOff.trans total)
        · intro q discards
          rw [open_idle, valid.holds_of_mem member]
        · intro q discards
          rw [open_idle, valid.holds_remove place]
          simp
      · apply (balanced.call (reduces.takesOff_other isTarget _ _)).same
        intro q discards
        rw [open_idle, open_idle, valid.holds_remove place]
        simp [Ne.symm isTarget]
  | @reduce op side px front o back delta reduces place some =>
      have member : o ∈ m.levels side px := by simp [place]
      have less := UInt64.lt_iff_toNat_lt.mp some
      by_cases isTarget : o.id = id
      · subst isTarget
        apply balanced.takeOff (Nat.le_of_lt less)
          (reduces.takesOff.trans (Nat.min_eq_left (Nat.le_of_lt less)))
        · intro q discards
          rw [open_idle, valid.holds_of_mem member]
        · intro q discards
          rw [open_idle, valid.holds_amend place some, if_pos rfl]
          grind
      · apply (balanced.call (reduces.takesOff_other isTarget _ _)).same
        intro q discards
        rw [open_idle, open_idle, valid.holds_amend place some, if_neg (Ne.symm isTarget)]
  | @replace side px front o back newPrice newQty place nonzero inside moved =>
      let t := Taker.ofLimit o.id o.side newPrice newQty .gtc o.owner o.stp o.peak
      have quiet (other : id ≠ o.id) : Balanced id (m, .idle)
          ((account.see id (.called (.modify o.id newPrice newQty) (.ok true))).told id
            [.cancel o.id]) := by
        have takes : (Op.modify o.id newPrice newQty).takesOff id account.left (.ok true) = 0 :=
          if_neg fun same => other same.1.symm
        apply (balanced.call takes).cancel
        intro q discards
        simp [other]
      apply Balanced.accept quiet (fun discards => absurd discards Bool.false_ne_true)
      intro q discards
      rw [open_taking, open_idle, valid.holds_remove place]
      by_cases isTarget : id = o.id
      · subst isTarget
        simp [Taker.Carries, Taker.ofLimit, eq_comm]
      · simp [Taker.Carries, Taker.ofLimit, isTarget, Ne.symm isTarget]
  | halt => exact (balanced.call rfl).same fun _ _ => Iff.rfl
  | resume => exact (balanced.call rfl).same fun _ _ => Iff.rfl
  | flat => exact balanced.call rfl
  | uncross bestBid bestAsk low high =>
      apply (balanced.call rfl).same
      intro q discards
      rw [open_idle, open_crossing]

/-! ## Histories -/

namespace Account

variable {entry : Entry} {entries : List Entry}

theorem see_covered
    (notAccept : ∀ target side price qty, entry ≠ .seen (.accept target side price qty))
    (covered : (account.see id entry).Covered) : account.Covered := by
  unfold Covered at covered ⊢
  cases entry with
  | called op ret => exact covered
  | seen event =>
      cases event with
      | accept target side price qty => exact absurd rfl (notAccept target side price qty)
      | trade trade =>
          simp only [see] at covered
          split at covered
          · exact Nat.le_trans (Nat.le_add_right _ _) covered
          · exact covered
      | cancel target =>
          simp only [see] at covered
          split at covered <;> exact covered
      | _ => exact covered

theorem throughout_covered
    (notAccept : ∀ target side price qty, .seen (.accept target side price qty) ∉ entries)
    (covered : (entries.foldl (see id) account).Covered) :
    Throughout (see id) (fun account _ => account.Covered) account entries ∧ account.Covered := by
  induction entries generalizing account with
  | nil => exact ⟨trivial, covered⟩
  | cons entry entries induction =>
      have later := induction
        (fun target side price qty member => notAccept target side price qty
          (List.mem_cons_of_mem entry member)) covered
      have now : account.Covered := see_covered
        (fun target side price qty same => notAccept target side price qty
          (same ▸ List.mem_cons_self)) later.2
      exact ⟨⟨now, later.1⟩, now⟩

theorem throughout_covered_of_not_trade (notTrade : ∀ trade, .seen (.trade trade) ∉ entries)
    (covered : account.Covered) :
    Throughout (see id) (fun account _ => account.Covered) account entries := by
  induction entries generalizing account with
  | nil => trivial
  | cons entry entries induction =>
      refine ⟨covered, induction (fun trade member => notTrade trade
        (List.mem_cons_of_mem entry member)) ?_⟩
      unfold Covered at covered ⊢
      cases entry with
      | called op ret => exact covered
      | seen event =>
          cases event with
          | trade trade => exact absurd List.mem_cons_self (notTrade trade)
          | accept target side price qty =>
              simp only [see]
              split
              · exact Nat.zero_le _
              · exact covered
          | cancel target =>
              simp only [see]
              split <;> exact covered
          | _ => exact covered

end Account

theorem Balanced.covered (balanced : Balanced id state account) : account.Covered :=
  Nat.le_trans (Nat.le_add_right _ _) balanced.within

theorem Run.balanced {log : List Entry} (run : Run Market.Move state log next)
    (valid : ValidState state) (balanced : Balanced id state account) :
    Throughout (Account.see id) (fun account _ => account.Covered) account log ∧
      Balanced id next (log.foldl (Account.see id) account) := by
  have kept : ∀ state entries next account, ValidState state ∧ Balanced id state account →
      Market.Move state entries next →
      Throughout (Account.see id) (fun account _ => account.Covered) account entries ∧
        ValidState next ∧ Balanced id next (entries.foldl (Account.see id) account) := by
    rintro state entries next account ⟨valid, balanced⟩ move
    refine ⟨?_, move.valid valid, ?_⟩
    · cases move with
      | @begin m op events next ret settled start =>
          apply Account.throughout_covered_of_not_trade _ balanced.covered
          intro trade member
          rcases List.mem_cons.mp member with same | seen
          · cases same
          · rcases List.mem_map.mp seen with ⟨event, isEvent, same⟩
            cases same
            exact start.not_trade isEvent
      | @step state events next taken =>
          refine (Account.throughout_covered ?_ (taken.balanced valid balanced).covered).1
          intro target side price qty member
          rcases List.mem_map.mp member with ⟨event, isEvent, same⟩
          cases same
          exact taken.not_accept isEvent
    · cases move with
      | begin settled start => exact start.balanced valid.1 balanced
      | step taken => exact taken.balanced valid balanced
  have both := run.throughout kept ⟨valid, balanced⟩
  exact ⟨both.1, both.2.2⟩

end Matchbook
