import Matchbook.Market.Origins

namespace Matchbook

open Transitions

/-! # The market leaves no choice

Which step comes next, what it shows and where it leads is settled by the state. The
operations are those on orders. -/

/-! ## Places -/

theorem place_cases {front back front' back' : List α} {o o' : α}
    (same : front ++ o :: back = front' ++ o' :: back') :
    (front = front' ∧ o = o' ∧ back = back') ∨ o ∈ front' ∨ o' ∈ front := by
  rcases List.append_eq_append_iff.mp same with ⟨middle, isFront, isBack⟩ |
    ⟨middle, isFront, isBack⟩
  · cases middle with
    | nil =>
        rcases List.cons.inj isBack with ⟨rfl, rfl⟩
        exact .inl ⟨by simpa using isFront.symm, rfl, rfl⟩
    | cons first middle =>
        rcases List.cons.inj isBack with ⟨rfl, -⟩
        exact .inr (.inl (by simp [isFront]))
  · cases middle with
    | nil =>
        rcases List.cons.inj isBack with ⟨rfl, rfl⟩
        exact .inl ⟨by simpa using isFront, rfl, rfl⟩
    | cons first middle =>
        rcases List.cons.inj isBack with ⟨rfl, -⟩
        exact .inr (.inr (by simp [isFront]))

theorem place_unique {front back front' back' : List RO} {o o' : RO}
    (nodup : ((front ++ o :: back).map RO.id).Nodup)
    (place : front ++ o :: back = front' ++ o' :: back') (same : o.id = o'.id) :
    front = front' ∧ o = o' ∧ back = back' := by
  have twice {front back : List RO} {o other : RO}
      (nodup : ((front ++ o :: back).map RO.id).Nodup) (same : other.id = o.id) :
      other ∉ front := by
    intro member
    rw [List.map_append, List.map_cons] at nodup
    have unique := List.nodup_cons.mp (List.perm_middle.nodup_iff.mp nodup)
    exact unique.1 (List.mem_append_left _ (same ▸ List.mem_map_of_mem member))
  rcases place_cases place with unique | before | after
  · exact unique
  · exact absurd before (twice (place ▸ nodup) same)
  · exact absurd after (twice nodup same.symm)

theorem Market.NextStop.unique {m : Market} {front back front' back' : List RO} {o o' : RO}
    (next : m.NextStop front o back) (next' : m.NextStop front' o' back') :
    front = front' ∧ o = o' ∧ back = back' := by
  have parked : o ∈ m.stops := by simp [next.parked]
  have parked' : o' ∈ m.stops := by simp [next'.parked]
  rcases place_cases (next.parked.symm.trans next'.parked) with unique | before | after
  · exact unique
  · exact absurd (next'.fifo o before next.armed) (next.first o' parked' next'.armed)
  · exact absurd (next.fifo o' after next'.armed) (next'.first o parked next.armed)

/-! ## Steps -/

namespace Taker

instance (t : Taker) (o : RO) : Decidable (t.Owns o) := by
  unfold Owns
  exact inferInstance

def meeting (t : Taker) (m : Market) (px : Price) (o : RO) (rest : List RO) :
    List Event × Market × Phase :=
  if t.Owns o then
    match t.stp with
    | .cancelMaker => ([.cancel o.id], m.setLevel t.maker px rest, .taking t)
    | .cancelTaker => ([], m, .stopped t)
    | .cancelBoth => ([.cancel o.id], m.setLevel t.maker px rest, .stopped t)
  else
    let fill := if t.qty < o.qty then t.qty else o.qty
    (.trade ⟨t.id, o.id, px, fill, t.side⟩ :: (consume px fill (o :: rest)).2,
      { m.setLevel t.maker px (consume px fill (o :: rest)).1 with last := some px },
      .taking (t.withQty (t.qty - fill)))

def leaving (t : Taker) (m : Market) : List Event × Market × Phase :=
  match t.remainder with
  | .rest price peak => ([.rest t.id t.side price (t.resting price peak).qty],
      m.setLevel t.side price (m.levels t.side price ++ [t.resting price peak]), .idle)
  | .cancel => ([.cancel t.id], m, .idle)
  | .discard => ([], m, .idle)

end Taker

section steps

variable {m : Market} {t : Taker} {state next next' : Market × Phase} {events events' : List Event}

theorem Step.taking_cases (step : Step (m, .taking t) events next) :
    (∃ px o rest, t.Meets m px o rest ∧ (events, next) = t.meeting m px o rest) ∨
      (t.qty = 0 ∧ (events, next) = ([], m, .idle)) ∨
      (t.qty ≠ 0 ∧ t.Blocked m ∧ (events, next) = t.leaving m) := by
  cases step with
  | @fill _ _ px o rest fill meets other amount =>
      subst amount
      exact .inl ⟨px, o, rest, meets, (if_neg other).symm⟩
  | @cancelMaker _ _ px o rest meets own policy =>
      refine .inl ⟨px, o, rest, meets, ?_⟩
      rw [Taker.meeting, if_pos own, policy]
  | @cancelTaker _ _ px o rest meets own policy =>
      refine .inl ⟨px, o, rest, meets, ?_⟩
      rw [Taker.meeting, if_pos own, policy]
  | @cancelBoth _ _ px o rest meets own policy =>
      refine .inl ⟨px, o, rest, meets, ?_⟩
      rw [Taker.meeting, if_pos own, policy]
  | filled done => exact .inr (.inl ⟨done, rfl⟩)
  | rest left blocked rests =>
      refine .inr (.inr ⟨left, blocked, ?_⟩)
      rw [Taker.leaving, rests]
  | cancelRemainder left blocked cancels =>
      refine .inr (.inr ⟨left, blocked, ?_⟩)
      rw [Taker.leaving, cancels]
  | discard left blocked discards =>
      refine .inr (.inr ⟨left, blocked, ?_⟩)
      rw [Taker.leaving, discards]

theorem Step.deterministic (step : Step state events next) (step' : Step state events' next') :
    events = events' ∧ next = next' := by
  rcases state with ⟨m, phase⟩
  cases phase with
  | idle =>
      cases step with
      | fire fires =>
          cases step' with
          | fire fires' =>
              rcases fires.unique fires' with ⟨rfl, rfl, rfl⟩
              exact ⟨rfl, rfl⟩
  | taking t =>
      have exclusive {px : Price} {o : RO} {rest : List RO} (meets : t.Meets m px o rest) :
          t.qty ≠ 0 ∧ ¬ t.Blocked m := ⟨meets.hungry, meets.not_blocked⟩
      apply Prod.mk.inj
      rcases step.taking_cases with ⟨px, o, rest, meets, same⟩ | ⟨done, same⟩ |
          ⟨left, blocked, same⟩ <;>
        rcases step'.taking_cases with ⟨px', o', rest', meets', same'⟩ | ⟨done', same'⟩ |
          ⟨left', blocked', same'⟩
      · rcases meets.unique meets' with ⟨rfl, rfl, rfl⟩
        exact same.trans same'.symm
      · exact absurd done' (exclusive meets).1
      · exact absurd blocked' (exclusive meets).2
      · exact absurd done (exclusive meets').1
      · exact same.trans same'.symm
      · exact absurd done left'
      · exact absurd blocked (exclusive meets').2
      · exact absurd done' left
      · exact same.trans same'.symm
  | stopped t =>
      cases step with
      | killed announced =>
          cases step' with
          | killed announced' => exact ⟨rfl, rfl⟩
          | stoppedMarket silent => exact absurd silent announced
      | stoppedMarket silent =>
          cases step' with
          | killed announced => exact absurd silent announced
          | stoppedMarket silent' => exact ⟨rfl, rfl⟩
  | crossing clearing =>
      cases step with
      | cross bestBid bestAsk bidHead askHead low high amount =>
          cases step' with
          | cross bestBid' bestAsk' bidHead' askHead' low' high' amount' =>
              cases bestBid.unique bestBid'
              cases bestAsk.unique bestAsk'
              cases bidHead.symm.trans bidHead'
              cases askHead.symm.trans askHead'
              rw [amount, amount']
              exact ⟨rfl, rfl⟩
          | crossed apart => exact absurd ⟨low, high⟩ (apart _ _ bestBid bestAsk)
      | crossed apart =>
          cases step' with
          | cross bestBid bestAsk bidHead askHead low high amount =>
              exact absurd ⟨low, high⟩ (apart _ _ bestBid bestAsk)
          | crossed apart' => exact ⟨rfl, rfl⟩

theorem Market.Settled.stuck (settled : m.Settled) : ¬ Step (m, .idle) events next := by
  intro step
  cases step with
  | @fire _ front o back fires =>
      rcases settled with halted | unarmed
      · rw [fires.running] at halted
        contradiction
      · exact unarmed o (by simp [fires.parked]) fires.armed

end steps

/-! ## Operations -/

namespace Market

def Continuous : Op → Prop
  | .halt | .resume | .uncross => False
  | _ => True

section first

variable (m : Market)

noncomputable def entering (side : Side) (price : Price) (qty : Qty) (tif : TimeInForce)
    (owner : OwnerId) (stp : StpPolicy) (peak : Qty) : List Event × Market × Phase :=
  open Classical in
  if m.Refuses side price qty tif then
    ([.accept m.nextId side price qty, .cancel m.nextId], { m with nextId := m.nextId + 1 }, .idle)
  else ([.accept m.nextId side price qty], { m with nextId := m.nextId + 1 },
    .taking (.ofLimit m.nextId side price qty tif owner stp peak))

noncomputable def stopping (o : RO) : List Event × Market × Phase :=
  open Classical in
  if m.halted = false ∧ m.Armed o then
    ([.accept m.nextId o.side o.price o.qty], { m with nextId := m.nextId + 1 }, .taking o.fired)
  else ([.accept m.nextId o.side o.price o.qty],
    { m with nextId := m.nextId + 1, stops := m.stops ++ [o] }, .idle)

noncomputable def admitting : Op → List Event × Market × Phase
  | .submitLimit side price qty tif owner stp => m.entering side price qty tif owner stp 0
  | .submitIceberg side price qty display tif owner stp =>
      m.entering side price qty tif owner stp display
  | .submitMarket side qty owner stp => ([.accept m.nextId side 0 qty],
      { m with nextId := m.nextId + 1 }, .taking (.ofMarket m.nextId side qty owner stp))
  | .submitStop side price qty owner stp =>
      m.stopping { id := m.nextId, side, price, qty, owner, stp, stopMarket := true }
  | .submitStopLimit side price stopLimit qty owner stp =>
      m.stopping { id := m.nextId, side, price, qty, owner, stp, stopLimit }
  | _ => ([], m, .idle)

def takingOff (side : Side) (px : Price) (front : List RO) (o : RO) (back : List RO)
    (delta : Qty) : List Event × Market × Phase :=
  if o.total ≤ delta then ([], m.setLevel side px (front ++ back), .idle)
  else ([], m.setLevel side px (front ++ o.reduced delta :: back), .idle)

def acting (op : Op) (side : Side) (px : Price) (front : List RO) (o : RO) (back : List RO) :
    List Event × Market × Phase :=
  match op with
  | .reduce _ delta => m.takingOff side px front o back delta
  | .modify _ price qty =>
      if qty = 0 then ([.cancel o.id], m.setLevel side px (front ++ back), .idle)
      else if price = o.price ∧ qty ≤ o.total then
        m.takingOff side px front o back (o.total - qty)
      else ([.cancel o.id, .accept o.id o.side price qty], m.setLevel side px (front ++ back),
        .taking (.ofLimit o.id o.side price qty .gtc o.owner o.stp o.peak))
  | _ => ([.cancel o.id], m.setLevel side px (front ++ back), .idle)

end first

variable {m : Market} {op : Op} {events events' : List Event} {next next' : Market × Phase}
  {ret ret' : Ret}

theorem entering_limit {side : Side} {price : Price} {qty : Qty} {tif : TimeInForce}
    {owner : OwnerId} {stp : StpPolicy} {peak : Qty}
    (entry : op.Limit side price qty tif owner stp peak) :
    m.admitting op = m.entering side price qty tif owner stp peak := by
  cases entry <;> rfl

theorem stopping_stop {o : RO} (entry : op.Stop m.nextId o) :
    m.admitting op = m.stopping o := by
  cases entry <;> rfl

/-- A submission is rejected or accepted. -/
theorem Begin.submit_cases (submit : op.IsSubmit) (start : m.Begin op events next ret) :
    (m.Rejects op ∧ (events, next) = ([.reject invalidOrderId], m, .idle) ∧
        ret = op.rejection) ∨
      (¬ m.Rejects op ∧ (events, next) = m.admitting op ∧
        ((∃ side qty owner stp, op = .submitMarket side qty owner stp) ∨ ret = .id m.nextId)) := by
  cases start with
  | reject submit answer bad => exact .inl ⟨bad, rfl, answer⟩
  | refuse entry temporary nonzero inside refused =>
      refine .inr ⟨?_, ?_, .inr rfl⟩
      · cases entry <;> simp_all [Rejects]
      · rw [entering_limit entry, entering, if_pos refused]
  | enter entry nonzero inside admitted =>
      refine .inr ⟨?_, ?_, .inr rfl⟩
      · cases entry <;> simp_all [Rejects]
      · rw [entering_limit entry, entering, if_neg admitted]
  | market running =>
      refine .inr ⟨?_, rfl, .inl ⟨_, _, _, _, rfl⟩⟩
      rw [Rejects, running]
      exact Bool.false_ne_true
  | trigger entry nonzero inside limit running armed =>
      refine .inr ⟨?_, ?_, .inr rfl⟩
      · cases entry <;> simp_all [Rejects]
      · rw [stopping_stop entry, stopping, if_pos ⟨running, armed⟩]
  | park entry nonzero inside limit waits =>
      refine .inr ⟨?_, ?_, .inr rfl⟩
      · cases entry <;> simp_all [Rejects]
      · rw [stopping_stop entry, stopping, if_neg]
        rintro ⟨running, armed⟩
        rcases waits with halted | unarmed
        · rw [running] at halted
          contradiction
        · exact unarmed armed
  | decline target => cases target <;> cases submit
  | cancel cancels => cases cancels <;> cases submit
  | cancelStop cancels => cases cancels <;> cases submit
  | erase reduces => cases reduces <;> cases submit
  | reduce reduces => cases reduces <;> cases submit
  | replace => cases submit
  | halt => cases submit
  | resume => cases submit
  | flat => cases submit
  | uncross => cases submit

/-- An operation on an order finds none to act on, or acts on it where it is. -/
theorem Begin.order_cases (valid : m.Valid) {id : OrderId} (target : op.OnOrder id)
    (start : m.Begin op events next ret) :
    (m.Declines op ∧ (events, next) = ([], m, .idle) ∧ ret = .ok false) ∨
      (¬ m.Declines op ∧ ret = .ok true ∧
        ((∃ side px front o back, m.levels side px = front ++ o :: back ∧ o.id = id ∧
            (events, next) = m.acting op side px front o back) ∨
          ∃ front o back, m.stops = front ++ o :: back ∧ o.id = id ∧
            (events, next) = ([.cancel id], { m with stops := front ++ back }, .idle))) := by
  have rests {side : Side} {px : Price} {front back : List RO} {o : RO}
      (place : m.levels side px = front ++ o :: back) : m.Rests o.id :=
    ⟨side, px, o, by simp [place], rfl⟩
  have inside {side : Side} {px : Price} {front back : List RO} {o : RO}
      (place : m.levels side px = front ++ o :: back) : m.inBand o.price := by
    have member : o ∈ m.levels side px := by simp [place]
    rw [(valid.home side px o member).2]
    exact valid.inside side px (List.ne_nil_of_mem member)
  have resting {side : Side} {px : Price} {front back : List RO} {o : RO}
      (place : m.levels side px = front ++ o :: back) (accepted : ¬ m.Declines op)
      (answer : ret = .ok true) (same : o.id = id)
      (effect : (events, next) = m.acting op side px front o back) :
      (m.Declines op ∧ (events, next) = ([], m, .idle) ∧ ret = .ok false) ∨
        (¬ m.Declines op ∧ ret = .ok true ∧
          ((∃ side px front o back, m.levels side px = front ++ o :: back ∧ o.id = id ∧
              (events, next) = m.acting op side px front o back) ∨
            ∃ front o back, m.stops = front ++ o :: back ∧ o.id = id ∧
              (events, next) = ([.cancel id], { m with stops := front ++ back }, .idle))) :=
    .inr ⟨accepted, answer, .inl ⟨side, px, front, o, back, place, same, effect⟩⟩
  cases start with
  | decline target declined => exact .inl ⟨declined, rfl, rfl⟩
  | @cancel _ side px front o back cancels place =>
      have found : m.IsOpen o.id := .inl (rests place)
      cases cancels with
      | cancel =>
          cases target
          exact resting place (not_not_intro found) rfl rfl rfl
      | modify =>
          cases target
          apply resting place ?_ rfl rfl
          · rw [acting, if_pos rfl]
          · rw [Declines, if_pos rfl]
            exact not_not_intro found
  | @cancelStop _ front o back cancels place =>
      have found : m.IsOpen o.id := .inr ⟨o, by simp [place], rfl⟩
      have same : o.id = id := by cases cancels <;> cases target <;> rfl
      refine .inr ⟨?_, rfl, .inr ⟨front, o, back, place, same, by rw [same]⟩⟩
      cases cancels with
      | cancel => exact not_not_intro found
      | modify =>
          rw [Declines, if_pos rfl]
          exact not_not_intro found
  | @erase _ side px front o back delta reduces place all =>
      cases reduces with
      | reduce =>
          cases target
          apply resting place (not_not_intro (rests place)) rfl rfl
          rw [acting, takingOff, if_pos all]
      | modify nonzero less =>
          cases target
          apply resting place ?_ rfl rfl
          · rw [acting, if_neg nonzero, if_pos ⟨rfl, less⟩, takingOff, if_pos all]
          · rw [Declines, if_neg nonzero]
            exact not_or_intro (not_not_intro (inside place)) (not_not_intro (rests place))
  | @reduce _ side px front o back delta reduces place some =>
      have notAll : ¬ o.total ≤ delta := UInt64.not_le.mpr some
      cases reduces with
      | reduce =>
          cases target
          apply resting place (not_not_intro (rests place)) rfl rfl
          rw [acting, takingOff, if_neg notAll]
      | modify nonzero less =>
          cases target
          apply resting place ?_ rfl rfl
          · rw [acting, if_neg nonzero, if_pos ⟨rfl, less⟩, takingOff, if_neg notAll]
          · rw [Declines, if_neg nonzero]
            exact not_or_intro (not_not_intro (inside place)) (not_not_intro (rests place))
  | @replace side px front o back newPrice newQty place nonzero inside moved =>
      cases target
      apply resting place ?_ rfl rfl
      · rw [acting, if_neg nonzero, if_neg moved]
      · rw [Declines, if_neg nonzero]
        exact not_or_intro (not_not_intro inside) (not_not_intro (rests place))
  | reject submit => cases target <;> cases submit
  | refuse entry => cases target <;> cases entry
  | enter entry => cases target <;> cases entry
  | market => cases target
  | trigger entry => cases target <;> cases entry
  | park entry => cases target <;> cases entry
  | halt => cases target
  | resume => cases target
  | flat => cases target
  | uncross => cases target

theorem Continuous.cases (continuous : Continuous op) :
    op.IsSubmit ∨ ∃ id, op.OnOrder id := by
  cases op with
  | submitLimit => exact .inl trivial
  | submitMarket => exact .inl trivial
  | submitIceberg => exact .inl trivial
  | submitStop => exact .inl trivial
  | submitStopLimit => exact .inl trivial
  | cancel id => exact .inr ⟨id, .cancel⟩
  | reduce id delta => exact .inr ⟨id, .reduce⟩
  | modify id price qty => exact .inr ⟨id, .modify⟩
  | halt => cases continuous
  | resume => cases continuous
  | uncross => cases continuous

theorem Begin.order_deterministic (valid : m.Valid) {id : OrderId} (target : op.OnOrder id)
    (start : m.Begin op events next ret) (start' : m.Begin op events' next' ret') :
    (events, next) = (events', next') ∧ ret = ret' := by
  rcases start.order_cases valid target with ⟨declines, same, answer⟩ |
      ⟨accepts, answer, found⟩ <;>
    rcases start'.order_cases valid target with ⟨declines', same', answer'⟩ |
      ⟨accepts', answer', found'⟩
  · exact ⟨same.trans same'.symm, answer.trans answer'.symm⟩
  · exact absurd declines accepts'
  · exact absurd declines' accepts
  apply And.intro _ (answer.trans answer'.symm)
  rcases found with ⟨side, px, front, o, back, place, named, same⟩ |
      ⟨front, o, back, place, named, same⟩ <;>
    rcases found' with ⟨side', px', front', o', back', place', named', same'⟩ |
      ⟨front', o', back', place', named', same'⟩
  · have member : o ∈ m.levels side px := by simp [place]
    have member' : o' ∈ m.levels side' px' := by simp [place']
    have sameId := named.trans named'.symm
    rcases valid.place side px side' px' o member o' member' sameId with ⟨rfl, rfl⟩
    have distinct := valid.distinct side px
    rw [place] at distinct
    rcases place_unique distinct (place.symm.trans place') sameId with ⟨rfl, rfl, rfl⟩
    exact same.trans same'.symm
  · have member : o ∈ m.levels side px := by simp [place]
    have parked : o' ∈ m.stops := by simp [place']
    exact absurd (named.trans named'.symm) (valid.apart side px o member o' parked)
  · have parked : o ∈ m.stops := by simp [place]
    have member : o' ∈ m.levels side' px' := by simp [place']
    exact absurd (named'.trans named.symm) (valid.apart side' px' o' member o parked)
  · have distinct := valid.stopDistinct
    rw [place] at distinct
    rcases place_unique distinct (place.symm.trans place') (named.trans named'.symm) with
      ⟨rfl, rfl, rfl⟩
    exact same.trans same'.symm

theorem Begin.submit_deterministic (submit : op.IsSubmit)
    (start : m.Begin op events next ret) (start' : m.Begin op events' next' ret') :
    (events, next) = (events', next') ∧
      ((∃ side qty owner stp, op = .submitMarket side qty owner stp ∧ m.halted = false) ∨
        ret = ret') := by
  rcases start.submit_cases submit with ⟨bad, same, answer⟩ | ⟨good, same, answer⟩ <;>
    rcases start'.submit_cases submit with ⟨bad', same', answer'⟩ | ⟨good', same', answer'⟩
  · exact ⟨same.trans same'.symm, .inr (answer.trans answer'.symm)⟩
  · exact absurd bad good'
  · exact absurd bad' good
  · apply And.intro (same.trans same'.symm)
    rcases answer with ⟨side, qty, owner, stp, rfl⟩ | answer
    · exact .inl ⟨side, qty, owner, stp, rfl, Bool.not_eq_true _ |>.mp good⟩
    · rcases answer' with ⟨side, qty, owner, stp, rfl⟩ | answer'
      · exact .inl ⟨side, qty, owner, stp, rfl, Bool.not_eq_true _ |>.mp good⟩
      · exact .inr (answer.trans answer'.symm)

theorem Performs.deterministic {m₁ m₂ : Market} (valid : m.Valid) (continuous : Continuous op)
    (performs : m.Performs op events m₁ ret) (performs' : m.Performs op events' m₂ ret') :
    events = events' ∧ m₁ = m₂ ∧ ret = ret' := by
  cases performs with
  | @intro first later middle phase _ _ start steps settled answers =>
  cases performs' with
  | @intro first' later' middle' phase' _ _ start' steps' settled' answers' =>
  have begins : (first, (middle, phase)) = (first', (middle', phase')) ∧
      ((∃ side qty owner stp, op = .submitMarket side qty owner stp ∧ m.halted = false) ∨
        ret = ret') := by
    rcases continuous.cases with submit | ⟨id, target⟩
    · exact start.submit_deterministic submit start'
    · have both := start.order_deterministic valid target start'
      exact ⟨both.1, .inr both.2⟩
  rcases begins with ⟨same, answer⟩
  cases same
  have stuck (state : Market × Phase) (labels : List Event) (next : Market × Phase)
      (done : state.1.Settled ∧ state.2 = .idle) : ¬ Step state labels next := by
    rcases state with ⟨m, phase⟩
    rcases done with ⟨settled, rfl⟩
    exact settled.stuck
  have ends : later = later' ∧ (m₁, Phase.idle) = (m₂, Phase.idle) :=
    steps.unique (fun _ _ _ _ _ step step' => step.deterministic step') stuck steps'
      ⟨settled, rfl⟩ ⟨settled', rfl⟩
  rcases ends with ⟨rfl, sameEnd⟩
  cases sameEnd
  refine ⟨rfl, rfl, ?_⟩
  rcases answer with ⟨side, qty, owner, stp, rfl, running⟩ | answer
  · rcases answers running with ⟨left, rfl, total⟩
    rcases answers' running with ⟨left', rfl, total'⟩
    have same : left.toNat = left'.toNat := by omega
    rw [UInt64.toNat_inj.mp same]
  · exact answer

end Market

end Matchbook
