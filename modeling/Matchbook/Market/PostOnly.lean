import Matchbook.Market.Register

namespace Matchbook

open Transitions

/-! # PostOnly orders

The time in force is an argument of the submission and is not kept with the order.
An order that `modify` enters again is an ordinary one. -/

def Op.IsPostOnly : Op → Prop
  | .submitLimit _ _ _ tif _ _ => tif = .postOnly
  | .submitIceberg _ _ _ _ tif _ _ => tif = .postOnly
  | _ => False

namespace Register

def PostOnly (register : Register) (id : OrderId) : Prop :=
  ∃ op ∈ register.entry id, op.IsPostOnly

/-- A trade outside an auction has no PostOnly order for its taker. -/
def Passive (register : Register) : Entry → Prop
  | .seen (.trade trade) => register.calling ≠ some .uncross → ¬ register.PostOnly trade.taker
  | _ => True

end Register

namespace Market

def Reenters (m : Market) (o : RO) (newPrice : Price) (newQty : Qty) : Prop :=
  newQty ≠ 0 ∧ m.inBand newPrice ∧ ¬ (newPrice = o.price ∧ newQty ≤ o.total)

def StaysPassive (m : Market) (register : Register) (op : Op) : Prop :=
  ∀ side px, ∀ o ∈ m.levels side px, ∀ newPrice newQty, op = .modify o.id newPrice newQty →
    m.Reenters o newPrice newQty → register.PostOnly o.id →
      m.halted = true ∨ ¬ m.WouldCross o.side newPrice

theorem blocked_of_not_wouldCross {m : Market} {t : Taker} {price : Price}
    (limit : t.limit = some price) (clear : ¬ m.WouldCross t.side price) : t.Blocked m := by
  right
  intro px occupied within
  rw [limit] at within
  exact clear ⟨px, occupied, within⟩

/-- An id is accepted when it is issued, and again when its order is entered again. -/
theorem Performs.accepts {m m' : Market} {op : Op} {events : List Event} {ret : Ret}
    (performs : m.Performs op events m' ret) {id : OrderId} {side : Side} {price : Price}
    {qty : Qty} (accepted : .accept id side price qty ∈ events) :
    op.IsSubmit ∨ ∃ side px, ∃ o ∈ m.levels side px, ∃ newPrice newQty,
      op = .modify id newPrice newQty ∧ o.id = id ∧ m.Reenters o newPrice newQty := by
  cases performs with
  | intro start steps settled answers =>
      rcases List.mem_append.mp accepted with first | later
      · cases start with
        | refuse entry => exact .inl (by cases entry <;> trivial)
        | enter entry => exact .inl (by cases entry <;> trivial)
        | market => exact .inl trivial
        | trigger entry => exact .inl (by cases entry <;> trivial)
        | park entry => exact .inl (by cases entry <;> trivial)
        | @replace side px front o back newPrice newQty place nonzero inside moved =>
            have same : id = o.id := by simp at first; exact first.1
            have member : o ∈ m.levels side px := by simp [place]
            refine .inr ⟨side, px, o, member, newPrice, newQty, by rw [same], same.symm, ?_⟩
            exact ⟨nonzero, inside, moved⟩
        | _ => simp at first
      · exact absurd later (Step.run_not_accept steps)

end Market

open Market

structure Unaggressive (state : Market × Phase) (register : Register) : Prop where
  parked : ∀ o ∈ state.1.stops, ¬ register.PostOnly o.id
  taking : ∀ t, state.2 = .taking t → register.PostOnly t.id → t.Blocked state.1
  crossing : ∀ clearing, state.2 = .crossing clearing → register.calling = some .uncross

namespace Unaggressive

variable {state next : Market × Phase} {register : Register}

theorem new (band : Band) : Unaggressive (Market.new band, .idle) .start where
  parked _ member := absurd member List.not_mem_nil
  taking _ taking := nomatch taking
  crossing _ crossing := nomatch crossing

theorem not_meets {m : Market} {t : Taker} {px : Price} {o : RO} {rest : List RO}
    (unaggressive : Unaggressive (m, .taking t) register) (meets : t.Meets m px o rest) :
    ¬ register.PostOnly t.id :=
  fun postOnly => meets.not_blocked (unaggressive.taking t rfl postOnly)

theorem step {events : List Event} (unaggressive : Unaggressive state register)
    (step : Step state events next) : Unaggressive next register := by
  constructor
  case parked => exact fun o member => unaggressive.parked o (step.stops_origin.subset member)
  case taking =>
      intro t' taking postOnly
      cases step with
      | fill meets other amount =>
          cases taking
          exact absurd postOnly (unaggressive.not_meets meets)
      | cancelMaker meets own policy =>
          cases taking
          exact absurd postOnly (unaggressive.not_meets meets)
      | @fire m front o back next =>
          cases taking
          have parked : o ∈ m.stops := by simp [next.parked]
          rw [RO.fired_id] at postOnly
          exact absurd postOnly (unaggressive.parked o parked)
      | _ => cases taking
  case crossing =>
      intro clearing crossing
      cases step <;> cases crossing
      exact unaggressive.crossing _ rfl

theorem passive {events : List Event} (unaggressive : Unaggressive state register)
    (step : Step state events next) : ∀ entry ∈ events.map Entry.seen, register.Passive entry := by
  intro entry member
  rcases List.mem_map.mp member with ⟨event, isEvent, rfl⟩
  cases event with
  | trade trade =>
      intro notAuction
      cases step with
      | fill meets other amount =>
          rcases List.mem_cons.mp isEvent with same | clip
          · cases same
            exact unaggressive.not_meets meets
          · rcases mem_consume_events clip with ⟨o, -, same, -⟩
            cases same
      | cross => exact absurd (unaggressive.crossing _ rfl) notAuction
      | _ => simp at isEvent
  | _ => trivial

theorem begin {m : Market} {op : Op} {ret : Ret} {events : List Event} (valid : m.Valid)
    (unaggressive : Unaggressive (m, .idle) register) (stays : m.StaysPassive register op)
    (start : m.Begin op events next ret) :
    Unaggressive next (register.begun op ret events) := by
  have old {id : OrderId} (isOpen : m.IsOpen id) :
      (register.begun op ret events).PostOnly id ↔ register.PostOnly id := by
    have ne : id ≠ m.nextId := by
      rintro rfl
      exact valid.fresh isOpen
    rw [Register.PostOnly, Register.begun_entry start register ne]
    exact Iff.rfl
  have parked : ∀ o ∈ m.stops, ¬ (register.begun op ret events).PostOnly o.id :=
    fun o member => (old (isOpen_of_stop member)).not.mpr (unaggressive.parked o member)
  have fresh {side : Side} {price : Price} {qty : Qty}
      (submit : op.IsSubmit) (accepts : events = [.accept m.nextId side price qty])
      (postOnly : (register.begun op ret events).PostOnly m.nextId) : op.IsPostOnly := by
    rcases postOnly with ⟨op', entered, postOnly⟩
    rw [accepts, Register.begun_issued submit [] (by simp)] at entered
    cases entered
    exact postOnly
  have calling := register.begun_calling op ret events
  cases start with
  | @enter op side price qty tif owner stp peak entry nonzero inside admitted =>
      refine ⟨parked, ?_, fun _ crossing => nomatch crossing⟩
      intro t taking postOnly
      cases taking
      have submit : op.IsSubmit := by cases entry <;> trivial
      have isPostOnly : tif = .postOnly := by
        have := fresh submit rfl postOnly
        cases entry <;> exact this
      subst isPostOnly
      apply blocked_of_not_wouldCross rfl
      intro crosses
      exact admitted (.inr crosses)
  | market running =>
      refine ⟨parked, ?_, fun _ crossing => nomatch crossing⟩
      intro t taking postOnly
      cases taking
      exact absurd (fresh trivial rfl postOnly) not_false
  | @trigger op o entry nonzero inside limit running armed =>
      refine ⟨parked, ?_, fun _ crossing => nomatch crossing⟩
      intro t taking postOnly
      cases taking
      have submit : op.IsSubmit := by cases entry <;> trivial
      rw [RO.fired_id, entry.id_eq] at postOnly
      have isPostOnly := fresh submit rfl postOnly
      cases entry <;> exact isPostOnly.elim
  | @park op o entry nonzero inside limit waits =>
      refine ⟨?_, fun _ taking => (nomatch taking), fun _ crossing => nomatch crossing⟩
      intro other member postOnly
      rcases List.mem_append.mp member with before | new
      · exact parked other before postOnly
      · have submit : op.IsSubmit := by cases entry <;> trivial
        rw [List.mem_singleton.mp new, entry.id_eq] at postOnly
        have isPostOnly := fresh submit rfl postOnly
        cases entry <;> exact isPostOnly.elim
  | @replace side px front o back newPrice newQty place nonzero inside moved =>
      refine ⟨parked, ?_, fun _ crossing => nomatch crossing⟩
      intro t taking postOnly
      cases taking
      have member : o ∈ m.levels side px := by simp [place]
      have before := (old (isOpen_of_mem member)).mp postOnly
      rcases stays side px o member newPrice newQty rfl ⟨nonzero, inside, moved⟩ before with
        halted | clear
      · exact .inl halted
      · apply blocked_of_not_wouldCross rfl
        rintro ⟨p, occupied, reaches⟩
        exact clear ⟨p, Market.thins_setLevel _ (by simp [place]) _ _ occupied, reaches⟩
  | cancelStop cancels place =>
      refine ⟨fun o member => parked o ?_, fun _ taking => (nomatch taking),
        fun _ crossing => nomatch crossing⟩
      rw [place]
      exact ((List.sublist_cons_self _ _).append_left _).subset member
  | uncross bestBid bestAsk low high =>
      exact ⟨parked, fun _ taking => (nomatch taking), fun _ _ => calling⟩
  | _ => exact ⟨parked, fun _ taking => (nomatch taking), fun _ crossing => nomatch crossing⟩

end Unaggressive

end Matchbook
