import Matchbook.Market.Caps
import Matchbook.Market.PostOnly
import Matchbook.Market.Frame
import Matchbook.Market.StopPump
import Matchbook.Market.Withdrawals

namespace Matchbook

open Transitions

/-! # Continuous trading without stops

Where no stop is parked an order that enters meets only what was there before, and one that
does not cross meets nothing. -/

structure Market.StopFree (m : Market) : Prop where
  stops : m.stops = []
  running : m.halted = false

theorem Market.StopFree.settled {m : Market} (free : m.StopFree) : m.Settled := by
  right
  rw [free.stops]
  exact fun o member => absurd member List.not_mem_nil

structure Sweeps (m : Market) (id : OrderId) (state : Market × Phase) (seen : List Event) :
    Prop where
  valid : ValidState state
  free : state.1.StopFree
  going : ∀ t, state.2 = .taking t ∨ state.2 = .stopped t → t.id = id
  calm : ∀ clearing, state.2 ≠ .crossing clearing
  alive : ∀ other, Alive state other → m.IsOpen other ∨ other = id
  next : m.nextId ≤ state.1.nextId
  trades : ∀ t, .trade t ∈ seen → t.taker = id ∧ m.IsOpen t.maker ∧ t.taker < state.1.nextId

section sweeps

variable {m : Market} {id : OrderId} {state next : Market × Phase} {seen events : List Event}

theorem Step.stopFree (step : Step state events next) (free : state.1.StopFree) :
    next.1.StopFree where
  stops := List.eq_nil_of_sublist_nil (free.stops ▸ step.stops_origin)
  running := by cases step <;> exact free.running

theorem Sweeps.step (sweeps : Sweeps m id state seen) (step : Step state events next) :
    Sweeps m id next (seen ++ events) := by
  constructor
  case valid => exact step.valid sweeps.valid
  case free => exact step.stopFree sweeps.free
  case going =>
      intro t' taking
      rcases step.taker_origin taking with ⟨t, before, same⟩ | ⟨-, o, parked, -⟩
      · rw [same]
        exact sweeps.going t (.inl before)
      · rw [sweeps.free.stops] at parked
        exact absurd parked List.not_mem_nil
  case calm =>
      intro clearing crossing
      cases step with
      | cross => exact sweeps.calm _ rfl
      | _ => cases crossing
  case alive => exact fun other alive => sweeps.alive other (step.alive_origin alive)
  case next => exact Nat.le_trans sweeps.next (Nat.le_of_eq (Market.nextId_step step).symm)
  case trades =>
      intro trade member
      rw [Market.nextId_step step]
      rcases List.mem_append.mp member with old | new
      · exact sweeps.trades trade old
      cases step with
      | @fill m₀ t px o rest fill meets other amount =>
          rcases List.mem_cons.mp new with same | clip
          · cases same
            have member : o ∈ m₀.levels t.maker px := by simp [meets.head]
            have taker := sweeps.valid.2
            have isTaker := sweeps.going t (.inl rfl)
            refine ⟨isTaker, ?_, taker.issued.2⟩
            rcases sweeps.alive o.id (.inl (Market.isOpen_of_mem member)) with old | same
            · exact old
            · rw [← isTaker] at same
              exact absurd (same ▸ Market.isOpen_of_mem member) taker.fresh
          · rcases mem_consume_events clip with ⟨o, -, same, -⟩
            cases same
      | cross => exact absurd rfl (sweeps.calm _)
      | _ => simp at new

def Op.IsEntry : Op → Prop
  | .submitLimit .. | .submitMarket .. | .submitIceberg .. => True
  | _ => False

theorem Market.Begin.sweeps {op : Op} {ret : Ret} (valid : m.Valid) (free : m.StopFree)
    (entry : op.IsEntry) (start : m.Begin op events next ret) : Sweeps m m.nextId next events := by
  have begun : ValidState next := start.valid valid
  have origin (other : OrderId) (alive : Alive next other) : m.IsOpen other ∨ other = m.nextId :=
    (start.alive_origin alive).imp_right And.right
  have ordered := Market.nextId_le_begin start
  have silent (t : Trade) (member : .trade t ∈ events) : t.taker = m.nextId ∧ m.IsOpen t.maker ∧
      t.taker < next.1.nextId := absurd member start.not_trade
  have issued : { m with nextId := m.nextId + 1 }.StopFree := ⟨free.stops, free.running⟩
  have taking {m' : Market} {t : Taker} (named : t.id = m.nextId) (t' : Taker)
      (going : (m', Phase.taking t).2 = .taking t' ∨ (m', Phase.taking t).2 = .stopped t') :
      t'.id = m.nextId := by
    rcases going with same | same <;> cases same
    exact named
  have idle (t : Taker) (going : Phase.idle = .taking t ∨ Phase.idle = .stopped t) :
      t.id = m.nextId := by
    rcases going with same | same <;> cases same
  cases start with
  | reject =>
      exact ⟨begun, free, idle, fun _ crossing => (nomatch crossing), origin, ordered, silent⟩
  | refuse =>
      exact ⟨begun, issued, idle, fun _ crossing => (nomatch crossing), origin, ordered, silent⟩
  | enter =>
      exact ⟨begun, issued, taking rfl, fun _ crossing => (nomatch crossing), origin, ordered,
        silent⟩
  | market =>
      exact ⟨begun, issued, taking rfl, fun _ crossing => (nomatch crossing), origin, ordered,
        silent⟩
  | trigger stop => cases stop <;> exact entry.elim
  | park stop => cases stop <;> exact entry.elim
  | decline target => cases target <;> exact entry.elim
  | cancel target => cases target <;> exact entry.elim
  | cancelStop target => cases target <;> exact entry.elim
  | erase target => cases target <;> exact entry.elim
  | reduce target => cases target <;> exact entry.elim
  | _ => exact entry.elim

theorem Market.Performs.sweeps {m' : Market} {op : Op} {ret : Ret} (valid : m.Valid)
    (free : m.StopFree) (entry : op.IsEntry) (performs : m.Performs op events m' ret) :
    Sweeps m m.nextId (m', .idle) events := by
  cases performs with
  | @intro first later m₁ phase _ _ start steps settled answers =>
      have begun := start.sweeps valid free entry
      have kept (state : Market × Phase) (new : List Event) (next : Market × Phase)
          (seen : List Event) (sweeps : Sweeps m m.nextId state (first ++ seen))
          (step : Step state new next) : Sweeps m m.nextId next (first ++ (seen ++ new)) := by
        rw [← List.append_assoc]
        exact sweeps.step step
      exact steps.recorded kept (by rw [List.append_nil]; exact begun)

structure ComesToRest (m : Market) (side : Side) (price : Price) (state : Market × Phase)
    (seen : List Event) : Prop where
  free : state.1.StopFree
  blocked : ∀ t, state.2 = .taking t → t.Blocked state.1 ∧ t.side = side ∧
    ∀ px peak, t.remainder = .rest px peak → px = price
  going : ∀ t, state.2 ≠ .stopped t
  calm : ∀ clearing, state.2 ≠ .crossing clearing
  levels : ∀ s px, state.1.levels s px ≠ [] → m.levels s px ≠ [] ∨ (s = side ∧ px = price)
  trades : ∀ t, .trade t ∉ seen

theorem ComesToRest.step {side : Side} {price : Price}
    (resting : ComesToRest m side price state seen)
    (step : Step state events next) : ComesToRest m side price next (seen ++ events) := by
  have free := step.stopFree resting.free
  have idle {m' : Market} (levels : ∀ s px, m'.levels s px ≠ [] → m.levels s px ≠ [] ∨
      (s = side ∧ px = price)) (free : m'.StopFree) (new : List Event)
      (silent : ∀ t, .trade t ∉ new) : ComesToRest m side price (m', .idle) (seen ++ new) :=
    ⟨free, fun _ taking => (nomatch taking), fun _ stopped => (nomatch stopped),
      fun _ crossing => (nomatch crossing), levels, fun t member =>
        (List.mem_append.mp member).elim (resting.trades t) (silent t)⟩
  cases step with
  | fill meets => exact absurd (resting.blocked _ rfl).1 meets.not_blocked
  | cancelMaker meets => exact absurd (resting.blocked _ rfl).1 meets.not_blocked
  | cancelTaker meets => exact absurd (resting.blocked _ rfl).1 meets.not_blocked
  | cancelBoth meets => exact absurd (resting.blocked _ rfl).1 meets.not_blocked
  | killed => exact absurd rfl (resting.going _)
  | stoppedMarket => exact absurd rfl (resting.going _)
  | filled done => exact idle resting.levels free _ (by simp)
  | @rest m₀ t px peak left blocked remains =>
      rcases resting.blocked t rfl with ⟨-, rfl, at'⟩
      have same : px = price := at' px peak remains
      subst same
      refine idle (fun s p occupied => ?_) free _ (by simp)
      rw [Market.setLevel_levels] at occupied
      split at occupied
      · rename_i here
        exact .inr here
      · exact resting.levels s p occupied
  | cancelRemainder => exact idle resting.levels free _ (by simp)
  | discard => exact idle resting.levels free _ (by simp)
  | @fire m₀ front o back next =>
      have none : front ++ o :: back = [] := next.parked.symm.trans resting.free.stops
      simp at none
  | cross => exact absurd rfl (resting.calm _)
  | crossed => exact absurd rfl (resting.calm _)

/-- A limit order below the offers, or above the bids, trades nothing and occupies no level but
its own. -/
theorem Market.Performs.comesToRest {m' : Market} {side : Side} {price : Price} {qty : Qty}
    {owner : OwnerId} {stp : StpPolicy} {ret : Ret} (free : m.StopFree)
    (clear : ¬ m.WouldCross side price)
    (performs : m.Performs (.submitLimit side price qty .gtc owner stp) events m' ret) :
    ComesToRest m side price (m', .idle) events := by
  have quiet {new : List Event} (silent : ∀ t, .trade t ∉ new) :
      ComesToRest m side price (m, .idle) new :=
    ⟨free, fun _ taking => (nomatch taking), fun _ stopped => (nomatch stopped),
      fun _ crossing => (nomatch crossing), fun _ _ occupied => .inl occupied, silent⟩
  cases performs with
  | @intro first later m₁ phase _ _ start steps settled answers =>
      have begun : ComesToRest m side price (m₁, phase) first := by
        cases start with
        | reject => exact quiet (by simp)
        | refuse entry temporary =>
            cases entry
            exact absurd rfl temporary
        | enter entry =>
            cases entry
            refine ⟨⟨free.stops, free.running⟩, fun t taking => ?_,
              fun _ stopped => (nomatch stopped),
              fun _ crossing => (nomatch crossing), fun _ _ occupied => .inl occupied, by simp⟩
            cases taking
            refine ⟨Market.blocked_of_not_wouldCross rfl clear, rfl, fun px peak remains => ?_⟩
            cases remains
            rfl
        | decline target => cases target
        | cancel target => cases target
        | cancelStop target => cases target
        | erase target => cases target
        | reduce target => cases target
        | trigger stop => cases stop
        | park stop => cases stop
      have kept (state : Market × Phase) (new : List Event) (next : Market × Phase)
          (seen : List Event) (resting : ComesToRest m side price state (first ++ seen))
          (step : Step state new next) :
          ComesToRest m side price next (first ++ (seen ++ new)) := by
        rw [← List.append_assoc]
        exact resting.step step
      exact steps.recorded kept (by rw [List.append_nil]; exact begun)

theorem Market.Performs.removes {m' : Market} {target : OrderId} {ret : Ret} (valid : m.Valid)
    (free : m.StopFree) (performs : m.Performs (.cancel target) events m' ret) :
    m'.StopFree ∧ m.nextId ≤ m'.nextId ∧ (∀ t, .trade t ∉ events) ∧
      ∀ other, m'.IsOpen other → m.IsOpen other ∧ other ≠ target := by
  have ordered := performs.nextId_le
  by_cases isOpen : m.IsOpen target
  · rcases performs.withdraws valid free.settled isOpen with ⟨rfl, withdraws⟩
    refine ⟨⟨?_, withdraws.halted.trans free.running⟩, ordered, by simp,
      fun other => (withdraws.isOpen other).mp⟩
    apply List.eq_nil_iff_forall_not_mem.mpr
    intro o member
    have before := withdraws.stops o member
    rw [free.stops] at before
    exact absurd before List.not_mem_nil
  · cases performs with
    | intro start steps settled answers =>
        rcases start.order_cases valid .cancel with ⟨-, same, -⟩ | ⟨accepted, -⟩
        · cases same
          rcases free.settled.still steps with ⟨rfl, same⟩
          cases same
          refine ⟨free, Nat.le_refl _, by simp, fun other stays => ⟨stays, ?_⟩⟩
          rintro rfl
          exact isOpen stays
        · exact absurd isOpen accepted

end sweeps

end Matchbook
