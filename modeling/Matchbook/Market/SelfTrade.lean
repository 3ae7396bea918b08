import Matchbook.Market.Origins

namespace Matchbook

open Transitions

/-! # Self-trade prevention

Who an order belongs to is what its submission said; no later operation on the
order changes that. -/

def Op.owner? : Op → Option OwnerId
  | .submitLimit _ _ _ _ owner _ => some owner
  | .submitMarket _ _ owner _ => some owner
  | .submitIceberg _ _ _ _ _ owner _ => some owner
  | .submitStop _ _ _ owner _ => some owner
  | .submitStopLimit _ _ _ _ owner _ => some owner
  | _ => none

/-- The operation under way, and the owner each id was submitted with. -/
structure Submissions where
  calling : Option Op
  owner : OrderId → OwnerId

namespace Submissions

def start : Submissions where
  calling := none
  owner _ := 0

def see (submissions : Submissions) : Entry → Submissions
  | .called op _ => { submissions with calling := some op }
  | .seen (.accept id _ _ _) =>
      match submissions.calling.bind Op.owner? with
      | some owner => { submissions with owner := Function.update submissions.owner id owner }
      | none => submissions
  | .seen _ => submissions

/-- A trade outside an auction is between different owners, unless they are 0. -/
def Fair (submissions : Submissions) : Entry → Prop
  | .seen (.trade trade) => submissions.calling ≠ some .uncross →
      submissions.owner trade.taker ≠ submissions.owner trade.maker ∨
        (submissions.owner trade.taker = 0 ∧ submissions.owner trade.maker = 0)
  | _ => True

end Submissions

structure Attributed (state : Market × Phase) (submissions : Submissions) : Prop where
  resting : ∀ side px, ∀ o ∈ state.1.levels side px, submissions.owner o.id = o.owner
  parked : ∀ o ∈ state.1.stops, submissions.owner o.id = o.owner
  taking : ∀ t, state.2 = .taking t ∨ state.2 = .stopped t → submissions.owner t.id = t.owner
  crossing : ∀ clearing, state.2 = .crossing clearing → submissions.calling = some .uncross

/-- What self-trade prevention makes of a taker that meets its own order, and of
one it has stopped. -/
structure Prevented (before : Market × Phase) (entries : List Entry) (after : Market × Phase) :
    Prop where
  move : Market.Move before entries after
  cancelTaker : ∀ t px o rest, before.2 = .taking t → t.Meets before.1 px o rest → t.Owns o →
    t.stp = .cancelTaker → entries = [] ∧ after = (before.1, .stopped t)
  cancelMaker : ∀ t px o rest, before.2 = .taking t → t.Meets before.1 px o rest → t.Owns o →
    t.stp = .cancelMaker → entries = [.seen (.cancel o.id)] ∧
      after = (before.1.setLevel t.maker px rest, .taking t)
  cancelBoth : ∀ t px o rest, before.2 = .taking t → t.Meets before.1 px o rest → t.Owns o →
    t.stp = .cancelBoth → entries = [.seen (.cancel o.id)] ∧
      after = (before.1.setLevel t.maker px rest, .stopped t)
  stopped : ∀ t, before.2 = .stopped t → after = (before.1, .idle) ∧
    entries = if t.remainder = .discard then [] else [.seen (.cancel t.id)]

/-! ## Meeting an own order -/

/-- A taker that meets its own order is dealt with by its policy. -/
theorem Step.own {m : Market} {t : Taker} {events : List Event} {next : Market × Phase}
    {px : Price} {o : RO} {rest : List RO} (step : Step (m, .taking t) events next)
    (meets : t.Meets m px o rest) (own : t.Owns o) :
    (t.stp = .cancelTaker ∧ events = [] ∧ next = (m, .stopped t)) ∨
    (t.stp = .cancelMaker ∧ events = [.cancel o.id] ∧
      next = (m.setLevel t.maker px rest, .taking t)) ∨
    (t.stp = .cancelBoth ∧ events = [.cancel o.id] ∧
      next = (m.setLevel t.maker px rest, .stopped t)) := by
  cases step with
  | fill meets' other amount =>
      rcases meets.unique meets' with ⟨-, rfl, -⟩
      exact absurd own other
  | cancelTaker meets' own' policy => exact .inl ⟨policy, rfl, rfl⟩
  | cancelMaker meets' own' policy =>
      rcases meets.unique meets' with ⟨rfl, rfl, rfl⟩
      exact .inr (.inl ⟨policy, rfl, rfl⟩)
  | cancelBoth meets' own' policy =>
      rcases meets.unique meets' with ⟨rfl, rfl, rfl⟩
      exact .inr (.inr ⟨policy, rfl, rfl⟩)
  | filled done => exact absurd done meets.hungry
  | rest left blocked rests => exact absurd blocked meets.not_blocked
  | cancelRemainder left blocked cancels => exact absurd blocked meets.not_blocked
  | discard left blocked discards => exact absurd blocked meets.not_blocked

theorem Step.prevented {state next : Market × Phase} {events : List Event}
    (step : Step state events next) : Prevented state (events.map .seen) next := by
  have own {t : Taker} {px : Price} {o : RO} {rest : List RO} (taking : state.2 = .taking t)
      (meets : t.Meets state.1 px o rest) (owns : t.Owns o) :=
    Step.own (taking ▸ step : Step (state.1, .taking t) events next) meets owns
  constructor
  case move => exact .step step
  case cancelTaker =>
      intro t px o rest taking meets owns policy
      rcases own taking meets owns with ⟨-, rfl, rfl⟩ | ⟨other, -⟩ | ⟨other, -⟩
      · exact ⟨rfl, rfl⟩
      · rw [policy] at other
        contradiction
      · rw [policy] at other
        contradiction
  case cancelMaker =>
      intro t px o rest taking meets owns policy
      rcases own taking meets owns with ⟨other, -⟩ | ⟨-, rfl, rfl⟩ | ⟨other, -⟩
      · rw [policy] at other
        contradiction
      · exact ⟨rfl, rfl⟩
      · rw [policy] at other
        contradiction
  case cancelBoth =>
      intro t px o rest taking meets owns policy
      rcases own taking meets owns with ⟨other, -⟩ | ⟨other, -⟩ | ⟨-, rfl, rfl⟩
      · rw [policy] at other
        contradiction
      · rw [policy] at other
        contradiction
      · exact ⟨rfl, rfl⟩
  case stopped =>
      intro t stopped
      cases step <;> cases stopped
      · rename_i announced
        exact ⟨rfl, (if_neg announced).symm⟩
      · rename_i silent
        exact ⟨rfl, (if_pos silent).symm⟩

theorem Market.Move.prevented {state next : Market × Phase} {entries : List Entry}
    (move : Move state entries next) : Prevented state entries next := by
  have isMove := move
  cases move with
  | step taken => exact taken.prevented
  | begin settled start =>
      refine ⟨isMove, ?_, ?_, ?_, ?_⟩
      · intro t px o rest taking
        cases taking
      · intro t px o rest taking
        cases taking
      · intro t px o rest taking
        cases taking
      · intro t stopped
        cases stopped

/-! ## Owners -/

theorem Op.Limit.owner {op : Op} {side : Side} {price : Price} {qty : Qty} {tif : TimeInForce}
    {owner : OwnerId} {stp : StpPolicy} {peak : Qty}
    (entry : op.Limit side price qty tif owner stp peak) : op.owner? = some owner := by
  cases entry <;> rfl

theorem Op.Stop.owner {op : Op} {id : OrderId} {o : RO} (entry : op.Stop id o) :
    op.owner? = some o.owner := by
  cases entry <;> rfl

namespace Submissions

theorem see_seen {submissions : Submissions} {event : Event}
    (notAccept : ∀ id side price qty, event ≠ .accept id side price qty) :
    submissions.see (.seen event) = submissions := by
  cases event with
  | accept id side price qty => exact absurd rfl (notAccept id side price qty)
  | _ => rfl

theorem see_step {state next : Market × Phase} {events : List Event}
    (step : Step state events next) (submissions : Submissions) :
    ∀ entry ∈ events.map Entry.seen, submissions.see entry = submissions := by
  intro entry member
  rcases List.mem_map.mp member with ⟨event, isEvent, rfl⟩
  exact see_seen fun id side price qty same => step.not_accept (same ▸ isEvent)

end Submissions

namespace Attributed

variable {state next : Market × Phase} {submissions : Submissions}

/-- The book keeps its owners while orders stay or leave. -/
theorem of_shrinks {m m' : Market} {phase phase' : Phase}
    (attributed : Attributed (m, phase) submissions) (shrinks : m.Shrinks m')
    (stops : m'.stops ⊆ m.stops)
    (taking : ∀ t, phase' = .taking t ∨ phase' = .stopped t → submissions.owner t.id = t.owner)
    (crossing : ∀ clearing, phase' = .crossing clearing → submissions.calling = some .uncross) :
    Attributed (m', phase') submissions where
  resting side px o' member := by
    rcases shrinks side px o' member with ⟨o, before, continues⟩
    rw [continues.id, continues.owner]
    exact attributed.resting side px o before
  parked o member := attributed.parked o (stops member)
  taking := taking
  crossing := crossing

theorem step {events : List Event} (attributed : Attributed state submissions)
    (step : Step state events next) : Attributed next submissions := by
  constructor
  case resting =>
      intro side px o' member
      rcases step.resting_origin member with ⟨o, before, continues⟩ |
        ⟨t, price, peak, taking, -, rfl, -⟩
      · rw [continues.id, continues.owner]
        exact attributed.resting side px o before
      · rw [Taker.resting_id, Taker.resting_owner]
        exact attributed.taking t (.inl taking)
  case parked => exact fun o member => attributed.parked o (step.stops_origin.subset member)
  case taking =>
      intro t' taking
      rcases step.taker_origin taking with ⟨t, before, same⟩ | ⟨-, o, parked, rfl⟩
      · rw [same]
        exact attributed.taking t (.inl before)
      · rw [RO.fired_id, RO.fired_owner]
        exact attributed.parked o parked
  case crossing =>
      intro clearing crossing
      cases step <;> cases crossing
      exact attributed.crossing _ rfl

theorem fair {events : List Event} (attributed : Attributed state submissions)
    (step : Step state events next) :
    ∀ entry ∈ events.map Entry.seen, submissions.Fair entry := by
  intro entry member
  rcases List.mem_map.mp member with ⟨event, isEvent, rfl⟩
  cases event with
  | trade trade =>
      intro notAuction
      cases step with
      | @fill m t px o rest fill meets other amount =>
          rcases List.mem_cons.mp isEvent with same | clip
          · cases same
            have taker := attributed.taking t (.inl rfl)
            have maker := attributed.resting t.maker px o (by simp [meets.head])
            rw [taker, maker]
            by_cases same : t.owner = o.owner
            · by_cases zero : t.owner = 0
              · exact .inr ⟨zero, same ▸ zero⟩
              · exact absurd ⟨zero, same.symm⟩ other
            · exact .inl same
          · rcases mem_consume_events clip with ⟨o, -, same, -⟩
            cases same
      | cross bestBid bestAsk bidHead askHead low high amount =>
          exact absurd (attributed.crossing _ rfl) notAuction
      | _ => simp at isEvent
  | _ => trivial

theorem called {m : Market} (attributed : Attributed (m, .idle) submissions) (op : Op) (ret : Ret) :
    Attributed (m, .idle) (submissions.see (.called op ret)) where
  resting := attributed.resting
  parked := attributed.parked
  taking := attributed.taking
  crossing _ crossing := nomatch crossing

theorem accepted {m : Market} (valid : m.Valid) {op : Op}
    (attributed : Attributed (m, .idle) submissions) (calling : submissions.calling = some op)
    {owner : OwnerId} (named : op.owner? = some owner) (side : Side) (price : Price) (qty : Qty) :
    let told := submissions.see (.seen (.accept m.nextId side price qty))
    told.owner m.nextId = owner ∧ Attributed ({ m with nextId := m.nextId + 1 }, .idle) told := by
  have told : submissions.see (.seen (.accept m.nextId side price qty)) =
      { submissions with owner := Function.update submissions.owner m.nextId owner } := by
    simp [Submissions.see, calling, named]
  have other {id : OrderId} (isOpen : m.IsOpen id) :
      Function.update submissions.owner m.nextId owner id = submissions.owner id := by
    apply Function.update_of_ne
    intro same
    rw [same] at isOpen
    exact valid.fresh isOpen
  rw [told]
  refine ⟨Function.update_self .., ?_, ?_, ?_, ?_⟩
  · intro s p o member
    have resting : o ∈ m.levels s p := member
    exact (other (Market.isOpen_of_mem resting)).trans (attributed.resting s p o resting)
  · intro o member
    have parked : o ∈ m.stops := member
    exact (other (Market.isOpen_of_stop parked)).trans (attributed.parked o parked)
  · intro t taking
    rcases taking with same | same <;> cases same
  · exact fun _ crossing => nomatch crossing

theorem begin {m : Market} {op : Op} {ret : Ret} {events : List Event} (valid : m.Valid)
    (attributed : Attributed (m, .idle) submissions) (start : m.Begin op events next ret) :
    Attributed next ((.called op ret :: events.map Entry.seen).foldl Submissions.see submissions)
      := by
  have called := attributed.called op ret
  have accepted {owner : OwnerId} (named : op.owner? = some owner) (side : Side) (price : Price)
      (qty : Qty) := called.accepted valid rfl named side price qty
  have calling : (submissions.see (.called op ret)).calling = some op := rfl
  rw [List.foldl_cons]
  generalize submissions.see (.called op ret) = told at called accepted calling
  have idle {m' : Market} (shrinks : m.Shrinks m') (stops : m'.stops ⊆ m.stops) :
      Attributed (m', .idle) told := by
    apply called.of_shrinks shrinks stops
    · intro t taking
      rcases taking with same | same <;> cases same
    · exact fun _ crossing => nomatch crossing
  have taking {m₁ m' : Market} {told : Submissions} {t : Taker}
      (attributed : Attributed (m₁, .idle) told) (shrinks : m₁.Shrinks m')
      (stops : m'.stops ⊆ m₁.stops) (owner : told.owner t.id = t.owner) :
      Attributed (m', .taking t) told := by
    apply attributed.of_shrinks shrinks stops
    · intro t' taking
      rcases taking with same | same <;> cases same
      exact owner
    · exact fun _ crossing => nomatch crossing
  have shrinks := start.shrinks
  cases start with
  | @refuse op side price qty tif owner stp peak entry temporary =>
      exact (accepted entry.owner side price qty).2
  | @enter op side price qty tif owner stp peak entry nonzero inside resting =>
      have accepted := accepted entry.owner side price qty
      exact taking accepted.2 (.of_eq rfl) (List.Subset.refl _) accepted.1
  | @market side qty owner stp ret running =>
      have accepted := accepted rfl side 0 qty
      exact taking accepted.2 (.of_eq rfl) (List.Subset.refl _) accepted.1
  | @trigger op o entry nonzero inside limit running armed =>
      have accepted := accepted entry.owner o.side o.price o.qty
      apply taking accepted.2 (.of_eq rfl) (List.Subset.refl _)
      rw [RO.fired_id, RO.fired_owner, entry.id_eq]
      exact accepted.1
  | @park op o entry nonzero inside limit waits =>
      have accepted := accepted entry.owner o.side o.price o.qty
      refine ⟨accepted.2.resting, ?_, accepted.2.taking, accepted.2.crossing⟩
      intro other member
      rcases List.mem_append.mp member with old | new
      · exact accepted.2.parked other old
      · rw [List.mem_singleton.mp new, entry.id_eq]
        exact accepted.1
  | @replace side px front o back newPrice newQty place nonzero inside moved =>
      have owner := called.resting side px o (by simp [place])
      have kept : ([Event.cancel o.id, .accept o.id o.side newPrice newQty].map
          Entry.seen).foldl Submissions.see told = told := by
        simp [Submissions.see, calling, Op.owner?]
      rw [kept]
      exact taking called shrinks (List.Subset.refl _) owner
  | cancel cancels place => exact idle shrinks (List.Subset.refl _)
  | @cancelStop op front o back cancels place =>
      apply idle shrinks
      rw [place]
      exact ((List.sublist_cons_self o back).append_left front).subset
  | erase reduces place all => exact idle shrinks (List.Subset.refl _)
  | reduce reduces place some => exact idle shrinks (List.Subset.refl _)
  | reject submit answer => exact idle shrinks (List.Subset.refl _)
  | decline target cancel => exact idle shrinks (List.Subset.refl _)
  | halt => exact idle shrinks (List.Subset.refl _)
  | resume => exact idle shrinks (List.Subset.refl _)
  | flat => exact idle shrinks (List.Subset.refl _)
  | uncross bestBid bestAsk low high =>
      apply called.of_shrinks shrinks (List.Subset.refl _)
      · intro t taking
        rcases taking with same | same <;> cases same
      · exact fun _ _ => calling

theorem new (band : Band) : Attributed (Market.new band, .idle) .start where
  resting _ _ _ member := absurd member List.not_mem_nil
  parked _ member := absurd member List.not_mem_nil
  taking t taking := by rcases taking with same | same <;> cases same
  crossing _ crossing := nomatch crossing

end Attributed

/-- Throughout a history every trade outside an auction is fair. -/
theorem Run.fair {state next : Market × Phase} {log : List Entry} {submissions : Submissions}
    (run : Run Market.Move state log next) (valid : ValidState state)
    (attributed : Attributed state submissions) :
    Throughout Submissions.see Submissions.Fair submissions log ∧
      Attributed next (log.foldl Submissions.see submissions) := by
  have kept : ∀ state entries next submissions, ValidState state ∧ Attributed state submissions →
      Market.Move state entries next →
      Throughout Submissions.see Submissions.Fair submissions entries ∧
        ValidState next ∧ Attributed next (entries.foldl Submissions.see submissions) := by
    intro state entries next submissions good move
    have valid := move.valid good.1
    cases move with
    | begin settled start =>
        refine ⟨throughout_of_forall ?_, valid, good.2.begin good.1.1 start⟩
        intro submissions entry member
        rcases List.mem_cons.mp member with rfl | seen
        · trivial
        · rcases List.mem_map.mp seen with ⟨event, isEvent, rfl⟩
          cases event with
          | trade trade => exact absurd isEvent start.not_trade
          | _ => trivial
    | step taken =>
        have ignored := Submissions.see_step taken submissions
        refine ⟨throughout_ignored ignored (good.2.fair taken), valid, ?_⟩
        rw [foldl_ignored ignored]
        exact good.2.step taken
  have both := run.throughout kept ⟨valid, attributed⟩
  exact ⟨both.1, both.2.2⟩

end Matchbook
