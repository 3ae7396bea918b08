import Matchbook.Market.Caps
import Matchbook.Market.StopPump
import Matchbook.Market.Withdrawals

namespace Matchbook

open Transitions

/-! # What an operation leaves alone

An order that no event of an operation is about stays as it is, unless the operation is
on that order. -/

def Event.Names (id : OrderId) : Event → Prop
  | .trade t => t.taker = id ∨ t.maker = id
  | .cancel other => other = id
  | _ => False

variable {m m' : Market} {op : Op} {events : List Event} {state next : Market × Phase} {ret : Ret}
  {side : Side} {px : Price} {o : RO}

/-! ## Steps -/

theorem mem_consume_behind {announced : Price} {f : Qty} {first : RO} {rest : List RO}
    (behind : o ∈ rest) : o ∈ (consume announced f (first :: rest)).1 := by
  rcases consume_cases announced f first rest with ⟨-, equal⟩ | ⟨-, -, equal⟩ | ⟨-, -, equal⟩ <;>
    rw [equal]
  · exact List.mem_cons_of_mem _ behind
  · exact behind
  · exact List.mem_append_left _ behind

namespace Market

theorem mem_setLevel {side' : Side} {px' : Price} {level : List RO}
    (member : o ∈ m.levels side px) (still : o ∈ m.levels side' px' → o ∈ level) :
    o ∈ (m.setLevel side' px' level).levels side px := by
  rw [setLevel_levels]
  split
  · rename_i same
    rw [same.1, same.2] at member
    exact still member
  · exact member

theorem mem_fillHead {side' : Side} {px' : Price} {first : RO} {rest : List RO}
    (announced : Price) (f : Qty) (head : m.levels side' px' = first :: rest)
    (member : o ∈ m.levels side px)
    (other : first.id ≠ o.id) :
    o ∈ (m.setLevel side' px' (consume announced f (first :: rest)).1).levels side px := by
  apply mem_setLevel member
  intro inLevel
  rw [head] at inLevel
  rcases List.mem_cons.mp inLevel with rfl | behind
  · exact absurd rfl other
  · exact mem_consume_behind behind

theorem mem_removeHead {side' : Side} {px' : Price} {first : RO} {rest : List RO}
    (head : m.levels side' px' = first :: rest) (member : o ∈ m.levels side px)
    (other : first.id ≠ o.id) : o ∈ (m.setLevel side' px' rest).levels side px := by
  apply mem_setLevel member
  intro inLevel
  rw [head] at inLevel
  rcases List.mem_cons.mp inLevel with rfl | behind
  · exact absurd rfl other
  · exact behind

theorem mem_replaced {side' : Side} {px' : Price} {front back : List RO} {target : RO}
    (middle : List RO) (place : m.levels side' px' = front ++ target :: back)
    (member : o ∈ m.levels side px)
    (other : target.id ≠ o.id) :
    o ∈ (m.setLevel side' px' (front ++ middle ++ back)).levels side px := by
  apply mem_setLevel member
  intro inLevel
  rw [place] at inLevel
  simp only [List.mem_append, List.mem_cons] at inLevel ⊢
  rcases inLevel with inFront | rfl | inBack
  · exact .inl (.inl inFront)
  · exact absurd rfl other
  · exact .inr inBack

end Market

theorem Step.keeps (step : Step state events next) (member : o ∈ state.1.levels side px)
    (unnamed : ∀ event ∈ events, ¬ event.Names o.id) : o ∈ next.1.levels side px := by
  cases step with
  | fill meets other amount =>
      have notMaker := unnamed _ List.mem_cons_self
      exact Market.mem_fillHead _ _ meets.head member fun same => notMaker (.inr same)
  | cancelMaker meets own policy =>
      have notCancelled := unnamed _ List.mem_cons_self
      exact Market.mem_removeHead meets.head member notCancelled
  | cancelBoth meets own policy =>
      have notCancelled := unnamed _ List.mem_cons_self
      exact Market.mem_removeHead meets.head member notCancelled
  | rest left blocked rests =>
      exact Market.mem_setLevel member fun before => List.mem_append_left _ before
  | @cross m clearing bpx apx b a bids asks f bestBid bestAsk bidHead askHead low high amount =>
      have untraded := unnamed _ List.mem_cons_self
      have askHead' : (m.setLevel .buy bpx (consume clearing f (b :: bids)).1).levels
          .sell apx = a :: asks := by
        rw [Market.setLevel_levels_side _ _ _ _ _ _ (by decide), askHead]
      have bid := Market.mem_fillHead clearing f bidHead member
        fun same => untraded (.inl same)
      exact Market.mem_fillHead clearing f askHead' bid fun same => untraded (.inr same)
  | _ => exact member

theorem Step.run_keeps (run : Run Step state events next) (member : o ∈ state.1.levels side px)
    (unnamed : ∀ event ∈ events, ¬ event.Names o.id) : o ∈ next.1.levels side px := by
  induction run with
  | refl => exact member
  | snoc run last induction =>
      have before := induction fun event inside => unnamed event (List.mem_append_left _ inside)
      exact last.keeps before fun event inside => unnamed event (List.mem_append_right _ inside)

/-! ## Operations -/

theorem Op.Cancels.onOrder {id : OrderId} (cancels : op.Cancels id) : op.OnOrder id := by
  cases cancels <;> constructor

theorem Op.Reduces.onOrder {delta : Qty} (reduces : op.Reduces o delta) : op.OnOrder o.id := by
  cases reduces <;> constructor

namespace Market

theorem Begin.keeps (start : m.Begin op events next ret) (member : o ∈ m.levels side px)
    (untargeted : ¬ op.OnOrder o.id) : o ∈ next.1.levels side px := by
  have elsewhere {target : RO} (on : op.OnOrder target.id) : target.id ≠ o.id :=
    fun same => untargeted (same ▸ on)
  cases start with
  | @cancel op side' px' front target back cancels place =>
      simpa using mem_replaced [] place member (elsewhere cancels.onOrder)
  | @erase op side' px' front target back delta reduces place =>
      simpa using mem_replaced [] place member (elsewhere reduces.onOrder)
  | @reduce op side' px' front target back delta reduces place =>
      simpa using mem_replaced [target.reduced delta] place member
        (elsewhere reduces.onOrder)
  | @replace side' px' front target back newPrice newQty place =>
      simpa using mem_replaced [] place member (elsewhere .modify)
  | _ => exact member

theorem Performs.keeps (performs : m.Performs op events m' ret) (member : o ∈ m.levels side px)
    (untargeted : ¬ op.OnOrder o.id) (unnamed : ∀ event ∈ events, ¬ event.Names o.id) :
    o ∈ m'.levels side px := by
  cases performs with
  | intro start steps settled answers =>
      have first := start.keeps member untargeted
      exact Step.run_keeps steps first fun event inside =>
        unnamed event (List.mem_append_right _ inside)

end Market

/-! ## Orders that are gone -/

structure Gone (id : OrderId) (state : Market × Phase) : Prop where
  closed : ¬ state.1.IsOpen id
  away : ∀ t, state.2 = .taking t ∨ state.2 = .stopped t → t.id ≠ id

theorem Step.gone {id : OrderId} (step : Step state events next) (gone : Gone id state) :
    Gone id next ∧ ∀ event ∈ events, ¬ event.Names id := by
  have lone {other : OrderId} (isOpen : state.1.IsOpen other) : other ≠ id :=
    fun same => gone.closed (same ▸ isOpen)
  have resting {side : Side} {px : Price} {first : RO} {rest : List RO}
      (head : state.1.levels side px = first :: rest) : first.id ≠ id :=
    lone (Market.isOpen_of_mem (head ▸ List.mem_cons_self : first ∈ state.1.levels side px))
  refine ⟨⟨fun isOpen => ?_, fun t taking => ?_⟩, ?_⟩
  · rcases step.alive_origin (.inl isOpen) with before | ⟨t, taking, same⟩
    · exact gone.closed before
    · exact gone.away t (.inl taking) same
  · rcases step.taker_origin taking with ⟨before, was, same⟩ | ⟨-, o, parked, rfl⟩
    · rw [same]
      exact gone.away before (.inl was)
    · rw [RO.fired_id]
      exact lone (Market.isOpen_of_stop parked)
  · intro event member names
    cases step with
    | fill meets other amount =>
        rcases List.mem_cons.mp member with rfl | clip
        · exact names.elim (gone.away _ (.inl rfl)) (resting meets.head)
        · rcases mem_consume_events clip with ⟨o, -, rfl, -⟩
          cases names
    | cancelMaker meets own policy =>
        cases List.mem_singleton.mp member
        exact resting meets.head names
    | cancelBoth meets own policy =>
        cases List.mem_singleton.mp member
        exact resting meets.head names
    | killed announced =>
        cases List.mem_singleton.mp member
        exact gone.away _ (.inr rfl) names
    | rest left blocked rests =>
        cases List.mem_singleton.mp member
        cases names
    | cancelRemainder left blocked cancels =>
        cases List.mem_singleton.mp member
        exact gone.away _ (.inl rfl) names
    | cross bestBid bestAsk bidHead askHead =>
        rcases List.mem_cons.mp member with rfl | clips
        · exact names.elim (resting bidHead) (resting askHead)
        · rcases List.mem_append.mp clips with clip | clip <;>
            rcases mem_consume_events clip with ⟨o, -, rfl, -⟩ <;> cases names
    | _ => cases member

/-! ## Markets without owners

Where no order has an owner and no stop is parked, an operation cancels nothing but the
order it is on. -/

structure Market.Ownerless (m : Market) : Prop where
  unparked : m.stops = []
  resting : ∀ side px, ∀ o ∈ m.levels side px, o.owner = 0

structure Anonymous (state : Market × Phase) (id : OrderId) : Prop where
  market : state.1.Ownerless
  taking : state.2 = .idle ∨ ∃ t, state.2 = .taking t ∧ t.id = id ∧ t.owner = 0

def NamesOnly (id : OrderId) (events : List Event) : Prop :=
  ∀ event ∈ events, ∀ other, event.Names other →
    other = id ∨ ∃ t, event = .trade t ∧ t.maker = other

section anonymous

variable {id : OrderId}

theorem namesOnly_nil : NamesOnly id [] := nofun

theorem NamesOnly.append {first second : List Event} (left : NamesOnly id first)
    (right : NamesOnly id second) : NamesOnly id (first ++ second) := by
  intro event member
  rcases List.mem_append.mp member with before | after
  · exact left event before
  · exact right event after

theorem namesOnly_cancel : NamesOnly id [.cancel id] := by
  intro event member other names
  cases List.mem_singleton.mp member
  exact .inl (Eq.symm names)

theorem not_owns_of_anonymous {t : Taker} (anonymous : t.owner = 0) : ¬ t.Owns o :=
  fun own => own.1 anonymous

theorem Step.ownerless (step : Step state events next) (anonymous : Anonymous state id) :
    next.1.Ownerless := by
  have unparked := anonymous.market.unparked
  refine ⟨List.eq_nil_of_subset_nil (unparked ▸ step.stops_origin.subset), ?_⟩
  intro side px o member
  rcases step.resting_origin member with ⟨before, present, continues⟩ |
    ⟨t, price, peak, taking, -, rfl, -⟩
  · rw [continues.owner]
    exact anonymous.market.resting side px before present
  · rcases anonymous.taking with idle | ⟨t', taking', -, free⟩
    · rw [idle] at taking
      cases taking
    · cases taking.symm.trans taking'
      rw [Taker.resting_owner]
      exact free

theorem Step.anonymous (step : Step state events next) (anonymous : Anonymous state id) :
    Anonymous next id ∧ NamesOnly id events := by
  have market := step.ownerless anonymous
  rcases state with ⟨m, phase⟩
  rcases anonymous.taking with idle | ⟨t, taking, own, free⟩
  · cases idle
    cases step with
    | fire fires =>
        have none := anonymous.market.unparked
        simp [fires.parked] at none
  · cases taking
    cases step with
    | fill meets other amount =>
        refine ⟨⟨market, .inr ⟨_, rfl, own, free⟩⟩, ?_⟩
        intro event member id' names
        rcases List.mem_cons.mp member with rfl | clip
        · rcases names with same | same
          · exact .inl (same.symm.trans own)
          · exact .inr ⟨_, rfl, same⟩
        · rcases mem_consume_events clip with ⟨o, -, rfl, -⟩
          cases names
    | cancelMaker meets owns policy => exact absurd owns (not_owns_of_anonymous free)
    | cancelTaker meets owns policy => exact absurd owns (not_owns_of_anonymous free)
    | cancelBoth meets owns policy => exact absurd owns (not_owns_of_anonymous free)
    | filled done => exact ⟨⟨market, .inl rfl⟩, namesOnly_nil⟩
    | rest left blocked rests =>
        refine ⟨⟨market, .inl rfl⟩, ?_⟩
        intro event member id' names
        cases List.mem_singleton.mp member
        cases names
    | cancelRemainder left blocked cancels =>
        exact ⟨⟨market, .inl rfl⟩, own ▸ namesOnly_cancel⟩
    | discard left blocked discards => exact ⟨⟨market, .inl rfl⟩, namesOnly_nil⟩

theorem Step.run_anonymous (run : Run Step state events next) (anonymous : Anonymous state id) :
    Anonymous next id ∧ NamesOnly id events := by
  induction run with
  | refl => exact ⟨anonymous, namesOnly_nil⟩
  | snoc run last induction =>
      rcases last.anonymous induction.1 with ⟨after, names⟩
      exact ⟨after, induction.2.append names⟩

inductive Op.Plain (next : OrderId) : Op → OrderId → Prop
  | limit {side price qty stp} : Op.Plain next (.submitLimit side price qty .gtc 0 stp) next
  | order {op : Op} {target} (on : op.OnOrder target) : Op.Plain next op target
  | halt {other} : Op.Plain next .halt other
  | resume {other} : Op.Plain next .resume other

theorem Op.OnOrder.unique {id' : OrderId} (target : op.OnOrder id) (target' : op.OnOrder id') :
    id = id' := by
  cases target <;> cases target' <;> rfl

namespace Market

theorem Ownerless.shrinks (ownerless : m.Ownerless) (shrinks : m.Shrinks m')
    (unparked : m'.stops = []) : m'.Ownerless := by
  refine ⟨unparked, ?_⟩
  intro side px o member
  rcases shrinks side px o member with ⟨before, present, continues⟩
  rw [continues.owner]
  exact ownerless.resting side px before present

theorem Begin.anonymous (start : m.Begin op events next ret) (ownerless : m.Ownerless)
    (plain : op.Plain m.nextId id) : Anonymous next id ∧ NamesOnly id events := by
  have shrinks := start.shrinks
  have idle {m₁ : Market} (after : m.Shrinks m₁) (unparked : m₁.stops = []) :
      Anonymous (m₁, .idle) id := ⟨ownerless.shrinks after unparked, .inl rfl⟩
  have unparked := ownerless.unparked
  have same {target : OrderId} (on : op.OnOrder target) : target = id := by
    cases plain with
    | order on' => exact on.unique on'
    | _ => cases on
  cases start with
  | reject submit =>
      refine ⟨idle shrinks unparked, ?_⟩
      intro event member other names
      cases List.mem_singleton.mp member
      cases names
  | refuse entry temporary =>
      cases plain with
      | limit =>
          cases entry
          exact absurd rfl temporary
      | order target => cases target <;> cases entry
      | _ => cases entry
  | enter entry =>
      cases plain with
      | limit =>
          cases entry
          refine ⟨⟨ownerless.shrinks shrinks unparked, .inr ⟨_, rfl, rfl, rfl⟩⟩, ?_⟩
          intro event member other names
          cases List.mem_singleton.mp member
          cases names
      | order target => cases target <;> cases entry
      | _ => cases entry
  | market =>
      cases plain with
      | order target => cases target
  | trigger entry =>
      cases plain with
      | order target => cases target <;> cases entry
      | _ => cases entry
  | park entry =>
      cases plain with
      | order target => cases target <;> cases entry
      | _ => cases entry
  | decline target => exact ⟨idle shrinks unparked, namesOnly_nil⟩
  | cancel cancels place =>
      cases same cancels.onOrder
      exact ⟨idle shrinks unparked, namesOnly_cancel⟩
  | cancelStop cancels place =>
      rw [unparked] at place
      simp at place
  | erase reduces place => exact ⟨idle shrinks unparked, namesOnly_nil⟩
  | reduce reduces place => exact ⟨idle shrinks unparked, namesOnly_nil⟩
  | @replace side px front o back newPrice newQty place =>
      cases same .modify
      have member : o ∈ m.levels side px := by simp [place]
      refine ⟨⟨ownerless.shrinks shrinks unparked,
        .inr ⟨_, rfl, rfl, ownerless.resting side px o member⟩⟩, ?_⟩
      intro event inside other names
      simp only [List.mem_cons, List.not_mem_nil, or_false] at inside
      rcases inside with rfl | rfl
      · exact .inl (Eq.symm names)
      · cases names
  | halt => exact ⟨idle shrinks unparked, namesOnly_nil⟩
  | resume => exact ⟨idle shrinks unparked, namesOnly_nil⟩
  | flat => exact ⟨idle shrinks unparked, namesOnly_nil⟩
  | uncross =>
      cases plain with
      | order target => cases target

theorem Performs.anonymous (performs : m.Performs op events m' ret) (ownerless : m.Ownerless)
    (plain : op.Plain m.nextId id) : m'.Ownerless ∧ NamesOnly id events := by
  cases performs with
  | intro start steps settled answers =>
      rcases start.anonymous ownerless plain with ⟨first, names⟩
      rcases Step.run_anonymous steps first with ⟨last, names'⟩
      exact ⟨last.market, names.append names'⟩

theorem Ownerless.still {final : Market × Phase} (ownerless : m.Ownerless)
    (run : Run Step (m, .idle) events final) : events = [] := by
  have settled : m.Settled := .inr fun o parked => by
    rw [ownerless.unparked] at parked
    cases parked
  exact (settled.still run).1

theorem Performs.untraded {target : OrderId} (valid : m.Valid) (ownerless : m.Ownerless)
    (on : op.OnOrder target) (still : ∀ price qty, op ≠ .modify target price qty)
    (performs : m.Performs op events m' ret) {t : Trade} : .trade t ∉ events := by
  cases performs with
  | @intro first events m₁ phase m' ret start steps settled answers =>
      rcases start.anonymous ownerless (.order on) with ⟨anonymous, -⟩
      have idle : phase = .idle := by
        rcases start.order_cases valid on with ⟨-, same, -⟩ | ⟨-, -, acted⟩
        · cases same
          rfl
        · rcases acted with ⟨side, px, front, o, back, -, -, same⟩ | ⟨front, o, back, -, -, same⟩
          · cases on with
            | cancel =>
                cases same
                rfl
            | reduce =>
                simp only [acting, takingOff] at same
                split at same <;> cases same <;> rfl
            | modify => exact absurd rfl (still _ _)
          · cases same
            rfl
      subst idle
      rw [anonymous.market.still steps, List.append_nil]
      exact start.not_trade

theorem Performs.untraded_session (ownerless : m.Ownerless) (session : op = .halt ∨ op = .resume)
    (performs : m.Performs op events m' ret) {t : Trade} : .trade t ∉ events := by
  cases performs with
  | @intro first events m₁ phase m' ret start steps settled answers =>
      have plain : op.Plain m.nextId invalidOrderId := by
        rcases session with rfl | rfl
        · exact .halt
        · exact .resume
      rcases start.anonymous ownerless plain with ⟨anonymous, -⟩
      have idle : phase = .idle := by
        rcases session with rfl | rfl <;>
          cases start <;> first | rfl | contradiction
      subst idle
      rw [anonymous.market.still steps, List.append_nil]
      exact start.not_trade

end Market

end anonymous

/-! ## Answers -/

theorem Step.run_nextId (run : Run Step state events next) :
    next.1.nextId = state.1.nextId := by
  induction run with
  | refl => rfl
  | snoc run last induction => exact (Market.nextId_step last).trans induction

namespace Market

theorem Performs.nextId_le (performs : m.Performs op events m' ret) : m.nextId ≤ m'.nextId := by
  cases performs with
  | intro start steps settled answers =>
      have same : m'.nextId = _ := Step.run_nextId steps
      exact same ▸ nextId_le_begin start

theorem Performs.entered {side : Side} {price : Price} {qty : Qty} {tif : TimeInForce}
    {owner : OwnerId} {stp : StpPolicy} {id : OrderId} (settled : m.Settled)
    (performs : m.Performs (.submitLimit side price qty tif owner stp) events m' (.id id)) :
    (id = invalidOrderId ∧ m' = m) ∨ (id = m.nextId ∧ m.nextId < m'.nextId) := by
  have issued {m₁ : Market} {phase : Phase} {steps : List Event} (next : m₁.nextId = m.nextId + 1)
      (run : Run Step (m₁, phase) steps (m', .idle)) : m.nextId < m'.nextId := by
    have same : m'.nextId = m₁.nextId := Step.run_nextId run
    rw [same, next]
    exact Nat.lt_succ_self _
  cases performs with
  | intro start steps settled' answers =>
      cases start with
      | reject submit answer =>
          cases answer
          have still := (settled.still steps).2
          cases still
          exact .inl ⟨rfl, rfl⟩
      | refuse => exact .inr ⟨rfl, issued rfl steps⟩
      | enter => exact .inr ⟨rfl, issued rfl steps⟩
      | trigger entry => exact .inr ⟨rfl, issued rfl steps⟩
      | park entry => exact .inr ⟨rfl, issued rfl steps⟩

theorem isOpen_of_accepted {id : OrderId} (target : op.OnOrder id) (accepted : ¬ m.Declines op) :
    m.IsOpen id := by
  cases target with
  | cancel => exact not_not.mp accepted
  | reduce => exact .inl (not_not.mp accepted)
  | modify =>
      simp only [Declines] at accepted
      split at accepted
      · exact not_not.mp accepted
      · exact .inl (not_not.mp (not_or.mp accepted).2)

theorem Performs.answered {id : OrderId} {ok : Bool} (valid : m.Valid) (target : op.OnOrder id)
    (performs : m.Performs op events m' (.ok ok)) : ok = false ↔ m.Declines op := by
  cases performs with
  | intro start steps settled answers =>
      rcases start.order_cases valid target with ⟨declined, -, answer⟩ | ⟨accepted, answer, -⟩
      · cases answer
        simp [declined]
      · cases answer
        simp [accepted]

end Market

end Matchbook
