import Matchbook.Feed.RebuiltSteps

namespace Matchbook

open Transitions

/-! # The rebuilt book over a session

An operation is told by its events, or is an amend in place, or a change of the trading state,
that its wrapper tells. -/

def RO.keeps (o : RO) (delta : Qty) : Option RO :=
  if o.total ≤ delta then none else some (o.reduced delta)

namespace RO

variable {o o' : RO} {delta : Qty}

theorem id_of_keeps (kept : o' ∈ o.keeps delta) : o'.id = o.id := by
  rw [keeps] at kept
  split at kept
  · cases kept
  · cases kept
    rfl

theorem qty_of_keeps (kept : o' ∈ o.keeps delta) : o'.qty ≤ o.qty := by
  rw [keeps] at kept
  split at kept
  case isTrue => cases kept
  case isFalse less =>
    cases kept
    exact RO.reduced_qty_le (UInt64.not_le.mp less)

end RO

namespace Market

variable {m : Market} {op : Op} {events : List Event} {next : Market × Phase} {ret : Ret}

def Amended (m : Market) (op : Op) (o : RO) (m' : Market) : Prop :=
  ∃ delta side px front back, op.Reduces o delta ∧ m.levels side px = front ++ o :: back ∧
    m' = m.setLevel side px (front ++ (o.keeps delta).toList ++ back)

theorem Begin.told (start : m.Begin op events next ret) : Announces op events ret ∨
    ∃ o m', m.Amended op o m' ∧ events = [] ∧ ret = .ok true ∧ next = (m', .idle) := by
  cases start with
  | reject submit => exact .inl (announces_of_submit submit)
  | refuse entry => exact .inl (announces_of_submit entry.isSubmit)
  | enter entry => exact .inl (announces_of_submit entry.isSubmit)
  | market => exact .inl (announces_of_submit trivial)
  | trigger entry => exact .inl (announces_of_submit entry.isSubmit)
  | park entry => exact .inl (announces_of_submit entry.isSubmit)
  | decline => exact .inl fun id target answer => by cases answer
  | cancel cancels =>
      left
      intro id target _
      rw [target.unique cancels.onOrder]
      exact List.mem_cons_self
  | cancelStop cancels =>
      left
      intro id target _
      rw [target.unique cancels.onOrder]
      exact List.mem_cons_self
  | replace =>
      left
      intro id target _
      rw [target.unique Op.OnOrder.modify]
      exact List.mem_cons_self
  | @erase _ side px front o back delta reduces place all =>
      have left : o.keeps delta = none := if_pos all
      refine .inr ⟨o, _, ⟨delta, side, px, front, back, reduces, place, rfl⟩, rfl, rfl, ?_⟩
      simp [left]
  | @reduce _ side px front o back delta reduces place less =>
      have left : o.keeps delta = some (o.reduced delta) := if_neg (UInt64.not_le.mpr less)
      refine .inr ⟨o, _, ⟨delta, side, px, front, back, reduces, place, rfl⟩, rfl, rfl, ?_⟩
      simp [left]
  | halt => exact .inl fun id target => by cases target
  | resume => exact .inl fun id target => by cases target
  | flat => exact .inl fun id target => by cases target
  | uncross => exact .inl fun id target => by cases target

end Market

namespace Itch

open Market

section first

variable {stock : Stock} {sink sink' : Sink} {m m' : Market} {b : BookBuilder}
  {e : MatchingEngine Tape} {copy : Market} {op : Op} {events : List Event}
  {next : Market × Phase} {ret : Ret}

theorem Fits.begin (fits : Fits (m, .idle)) (start : m.Begin op events next ret)
    (admitted : op.Admitted (.below (2 ^ 32))) : Fits next where
  valid := start.valid fits.valid.1
  capped := (start.capped fits.capped admitted).1
  phase := (start.capped fits.capped admitted).2
  narrow := by
    have narrow := fits.narrow
    cases start <;> exact narrow

theorem Rebuilds.begin (rebuilds : Rebuilds sink m b e copy) (valid : m.Valid)
    (announces : Announces op events ret) (trading : op ≠ .halt ∧ op ≠ .resume)
    (start : m.Begin op events next ret) :
    Leads stock sink b e (Handler.onAll sink events) next.1 := by
  have untold {o : RO} {delta : Qty} (reduces : op.Reduces o delta) (answer : ret = .ok true)
      (silent : events = []) : False := by
    have told := announces o.id reduces.onOrder answer
    rw [silent] at told
    cases told
  cases start with
  | reject => exact rebuilds.leads
  | refuse =>
      have closed : ¬ m.Rests m.nextId := fun rests => valid.fresh rests.isOpen
      exact (rebuilds.evCancel_hidden closed).congr rfl rfl rfl rfl
  | enter => exact rebuilds.leads.congr rfl rfl rfl rfl
  | market => exact rebuilds.leads.congr rfl rfl rfl rfl
  | trigger => exact rebuilds.leads.congr rfl rfl rfl rfl
  | park => exact rebuilds.leads.congr rfl rfl rfl rfl
  | decline => exact rebuilds.leads
  | cancel cancels place => exact rebuilds.evCancel valid place
  | @cancelStop op front o back cancels place =>
      have closed : ¬ m.Rests o.id := by
        rintro ⟨side, px, other, member, same⟩
        exact valid.apart side px other member o (by simp [place]) same
      exact (rebuilds.evCancel_hidden closed).congr rfl rfl rfl rfl
  | replace place => exact rebuilds.evCancel valid place
  | erase reduces => exact (untold reduces rfl rfl).elim
  | reduce reduces => exact (untold reduces rfl rfl).elim
  | halt => exact absurd rfl trading.1
  | resume => exact absurd rfl trading.2
  | flat => exact rebuilds.leads
  | uncross => exact rebuilds.leads

theorem Rebuilds.publish (rebuilds : Rebuilds sink m b e copy) {message : Nat → Publication}
    (silent : (message sink.seq).posting = none)
    (read : b.read e ((message sink.seq).encoding stock).body = some (b, e)) :
    Leads stock sink b e (sink.publish message) m := by
  apply leads_of_read rfl
  intro wide
  refine ⟨b, e, copy, read, silent_of_eq rfl, ?_⟩
  exact rebuilds.setSink rfl fun earlier _ tells => ⟨earlier, tells.publish message silent⟩

theorem Rebuilds.emitAction (rebuilds : Rebuilds sink m b e copy) (state : UInt8) (halted : Bool)
    (action : state = if halted then 'H'.toUInt8 else 'T'.toUInt8) :
    Leads stock sink b e (sink.emitAction state) { m with halted } := by
  apply leads_of_read rfl
  intro wide
  rcases rebuilds.tells with ⟨earlier, screen, tells, onScreen⟩
  rcases rebuilds.act state halted action sink.seq with ⟨e', copy', read, silent, copies⟩
  refine ⟨b, e', copy', read, silent, ?_⟩
  have acted : Rebuilds sink { m with halted } b e' copy' :=
    ⟨copies, earlier, screen, tells, onScreen.of_levels rfl⟩
  exact acted.setSink rfl fun earlier _ tells => ⟨earlier, tells.publish (.action · state) rfl⟩

end first

namespace Publisher

section operations

variable {stock : Stock} {p : Publisher} {m m' : Market} {b : BookBuilder}
  {e : MatchingEngine Tape} {copy : Market} {op : Op} {events : List Event}
  {next : Market × Phase} {ret : Ret} {engine : MatchingEngine Sink} {o : RO}

theorem rebuilds_opened (rebuilds : Rebuilds p.sink m b e copy) (valid : m.Valid)
    (announces : Announces op events ret) (start : m.Begin op events next ret) :
    Leads stock p.sink b e (Handler.onAll (p.opened op).sink events) next.1 := by
  cases op with
  | halt =>
      rcases start.action (.inl rfl) with ⟨rfl, rfl⟩
      exact rebuilds.emitAction _ true rfl
  | resume =>
      rcases start.action (.inr rfl) with ⟨rfl, rfl⟩
      exact rebuilds.emitAction _ false rfl
  | modify =>
      have flagged := rebuilds.flags p.sink.matchNumber p.sink.inCross false
      exact flagged.begin valid announces ⟨Op.noConfusion, Op.noConfusion⟩ start
  | uncross =>
      have flagged := rebuilds.flags p.sink.matchNumber true p.sink.sawBookEvent
      exact flagged.begin valid announces ⟨Op.noConfusion, Op.noConfusion⟩ start
  | _ => exact rebuilds.begin valid announces ⟨Op.noConfusion, Op.noConfusion⟩ start

theorem rebuilds_publishShrink (rebuilds : Rebuilds p.sink m b e copy) (fits : Fits (m, .idle))
    (amended : m.Amended op o m') (holds : p.engine.Holds m') :
    Leads stock p.sink b e (p.publishShrink o.id o.qty).sink m' := by
  rcases amended with ⟨delta, side, px, front, back, reduces, place, rfl⟩
  have member : o ∈ m.levels side px := by simp [place]
  have small : o.total < 2 ^ 32 := fits.capped.resting _ _ o member
  have displayed := (rebuilds.shown member).2.1
  rw [publishShrink, rebuilds.slot member]
  simp only []
  cases kept : o.keeps delta with
  | none =>
      rw [kept] at holds
      have gone : p.engine.orderQty o.id = 0 := by
        apply holds.orderQty_eq_zero
        rintro ⟨s, p, other, present, same⟩
        rw [Option.toList_none, List.append_nil] at present
        exact fits.valid.1.not_isOpen_remove place (same ▸ isOpen_of_mem present)
      rw [if_pos gone]
      apply leads_of_read rfl
      intro wide
      rw [Option.toList_none, List.append_nil]
      exact rebuilds.delete fits.valid.1 place wide rfl rfl rfl rfl
  | some o' =>
      rw [kept] at holds
      have here : o' ∈ (m.setLevel side px (front ++ (some o').toList ++ back)).levels side px := by
        simp
      have sameId : o'.id = o.id := RO.id_of_keeps kept
      have after : p.engine.orderQty o.id = o'.qty := sameId ▸ holds.orderQty_of_mem here
      have positive := (holds.valid.shape side px o' here).positive
      have nonzero : o'.qty ≠ 0 := UInt64.pos_iff_ne_zero.mp positive
      have less : o'.qty ≤ o.qty := RO.qty_of_keeps kept
      rw [after, if_neg nonzero]
      split
      case isTrue =>
          have within : o.qty - o'.qty ≤ o.qty := RO.sub_le_of_le less
          have left : o.qty - (o.qty - o'.qty) = o'.qty := sub_sub_cancel o.qty o'.qty
          have fits' : o.qty - o'.qty < 2 ^ 32 :=
            UInt64.lt_of_le_of_lt (UInt64.le_trans within
              (fits.valid.1.shape side px o member).qty_le_total) small
          have shadow : (p.sink.refAt o.id).less (o.qty - o'.qty) =
              { p.sink.refAt o.id with displayed := o'.qty } := by
            rw [Ref.less, displayed, left]
            simp only [nonzero, if_false]
          apply leads_of_read rfl
          intro wide
          rw [← shadow]
          refine ⟨b, rebuilds.draw fits.valid.1 place within fits' (by simpa using sameId) ?_ rfl
            rfl rfl rfl⟩
          rw [left, if_neg nonzero]
          rfl
      case isFalse same =>
          have equal : o'.qty = o.qty := UInt64.le_antisymm less (UInt64.not_lt.mp same)
          rw [Option.toList_some, List.append_assoc, List.singleton_append]
          exact (rebuilds.hide fits.valid.1 place sameId equal).leads

theorem rebuilds_amended (rebuilds : Rebuilds p.sink m b e copy) (fits : Fits (m, .idle))
    (holds : p.engine.Holds m) (amended : m.Amended op o m') (holds' : engine.Holds m')
    (told : engine.h = (p.opened op).sink) :
    Leads stock p.sink b e (p.closed engine op (.ok true)).sink m' := by
  have seen : p.engine.orderQty o.id = o.qty := by
    rcases amended with ⟨delta, side, px, front, back, -, place, -⟩
    have member : o ∈ m.levels side px := by simp [place]
    exact holds.orderQty_of_mem member
  have positive : 0 < p.engine.orderQty o.id := by
    rcases amended with ⟨delta, side, px, front, back, -, place, -⟩
    have member : o ∈ m.levels side px := by simp [place]
    rw [seen]
    exact (fits.valid.1.shape side px o member).positive
  have shrunk (rebuilds' : Rebuilds engine.h m b e copy) :
      Leads stock engine.h b e (({ engine } : Publisher).publishShrink o.id o.qty).sink m' :=
    rebuilds_publishShrink rebuilds' fits amended holds'
  rcases amended with ⟨delta, side, px, front, back, reduces, place, -⟩
  cases reduces with
  | reduce =>
      have same : engine.h = p.sink := told
      have leads := shrunk (same.symm ▸ rebuilds)
      rw [same] at leads
      rw [closed, if_pos positive, seen]
      exact leads
  | modify nonzero less =>
      have same : engine.h = { p.sink with sawBookEvent := false } := told
      have flagged := rebuilds.flags p.sink.matchNumber p.sink.inCross false
      have leads := shrunk (same.symm ▸ flagged)
      have unseen : ¬ engine.h.sawBookEvent := by
        rw [same]
        exact Bool.false_ne_true
      rw [closed, if_pos ⟨unseen, positive⟩, seen]
      rw [same] at leads
      exact leads

theorem rebuilds_uncrossed {total : Qty} (rebuilds : Rebuilds engine.h m b e copy) :
    Leads stock engine.h b e (p.closed engine .uncross (.qty total)).sink m := by
  have flagged := rebuilds.flags engine.h.matchNumber false engine.h.sawBookEvent
  rw [closed]
  split
  case isTrue =>
      have numbered := flagged.flags (engine.h.matchNumber + 1) false engine.h.sawBookEvent
      exact numbered.publish rfl BookBuilder.read_cross
  case isFalse => exact flagged.leads

structure Follows (p : Publisher) (m : Market) (b : BookBuilder) (e : MatchingEngine Tape)
    (copy : Market) : Prop where
  holds : p.engine.Holds m
  fits : Fits (m, .idle)
  calm : p.sink.inCross = false
  rebuilds : Rebuilds p.sink m b e copy

theorem Follows.step (follows : p.Follows m b e copy) (stock : Stock) (op : Op)
    (admitted : op.Admitted (.below (2 ^ 32))) (shields : m.Shields op) :
    ∃ p' ret m' events, p.step op = some (p', ret) ∧ m.Performs op events m' ret ∧
      p'.engine.Holds m' ∧ Fits (m', .idle) ∧ p'.sink.inCross = false ∧
      Leads stock p.sink b e p'.sink m' := by
  rcases follows.rebuilds.tells with ⟨earlier, screen, tells, onScreen⟩
  have tracks : p.Tracks earlier m screen := ⟨follows.holds, onScreen, tells, follows.calm⟩
  have valid := follows.fits.valid.1
  rcases tracks.step op with ⟨engine, ret, m', events, screen', stepped, did, tracks'⟩
  refine ⟨_, ret, m', events, stepped, did.performs, tracks'.holds, ?_, tracks'.calm, ?_⟩
  · cases did.performs with
    | intro start steps => exact (follows.fits.begin start admitted).run steps
  have told : engine.h = Handler.onAll (p.opened op).sink events := did.told
  cases did.performs with
  | @intro first more m₁ phase _ _ start steps settled answers =>
      rcases start.told with announces | ⟨o, m₂, amended, rfl, rfl, same⟩
      · have mode : phase.continuous = false →
            (Handler.onAll (p.opened op).sink first).inCross = true := by
          intro crossing
          rw [Sink.onAll_inCross, (tracks.opened op).2.2, decide_eq_true_eq]
          by_contra calm
          exact Bool.false_ne_true (crossing.symm.trans (start.continuous calm))
        have whole : Leads stock p.sink b e engine.h m' := by
          rw [told, Handler.onAll_append]
          apply (rebuilds_opened follows.rebuilds valid announces start).trans
            (Sink.nextRef_onAll_le _ _)
          intro b₁ e₁ copy₁ rebuilds₁
          exact rebuilds₁.run (follows.fits.begin start admitted) mode
            (fun labels middle run => shields _ _ _ labels middle start run) steps
        by_cases auction : op = .uncross
        · subst auction
          rcases did.performs.uncross_answer with ⟨total, rfl⟩
          refine whole.trans ?_ fun b₁ e₁ copy₁ rebuilds₁ => rebuilds_uncrossed rebuilds₁
          rw [closed]
          split <;> exact Nat.le_refl _
        · rw [closed_told (tracks.opened op).1 did announces.append auction]
          exact whole
      · cases same
        have settled₁ : m₁.Settled := by
          rcases amended with ⟨delta, side, px, front, back, -, -, rfl⟩
          exact follows.holds.settled
        rcases settled₁.still steps with ⟨rfl, same⟩
        cases same
        exact rebuilds_amended follows.rebuilds follows.fits follows.holds amended did.holds told

end operations

/-! ## Sessions -/

section sessions

variable {stock : Stock} {p p' : Publisher} {m m' : Market} {b : BookBuilder}
  {e : MatchingEngine Tape} {copy : Market} {now : Call} {calls : List Call}
  {taken earlier : List Publication} {screen : Screen}

theorem nextRef_publishShrink (p : Publisher) (id : OrderId) (before : Qty) :
    (p.publishShrink id before).sink.nextRef = p.sink.nextRef := by
  rw [publishShrink]
  cases p.sink.slot id with
  | none => rfl
  | some r =>
      dsimp only
      split
      · rfl
      · split <;> rfl

theorem nextRef_closed (p : Publisher) (engine : MatchingEngine Sink) (op : Op) (ret : Ret) :
    (p.closed engine op ret).sink.nextRef = engine.h.nextRef := by
  unfold closed
  split
  · split
    · exact nextRef_publishShrink { engine } _ _
    · rfl
  · split
    · exact nextRef_publishShrink { engine } _ _
    · rfl
  · dsimp only
    split <;> rfl
  · rfl

theorem nextRef_closed_le {engine : MatchingEngine Sink} {ret : Ret} {events : List Event} {op : Op}
    (did : (p.opened op).engine.Did m op engine m' ret events) :
    p.sink.nextRef ≤ (p.closed engine op ret).sink.nextRef := by
  have told : engine.h = Handler.onAll (p.opened op).sink events := did.told
  have opened : (p.opened op).sink.nextRef = p.sink.nextRef := by cases op <;> rfl
  rw [nextRef_closed, told, ← opened]
  exact Sink.nextRef_onAll_le _ _

theorem Tracks.nextRef_le (tracks : p.Tracks earlier m screen)
    (ran : p.run calls = some (p', taken)) : p.sink.nextRef ≤ p'.sink.nextRef := by
  let Invariant (later : Publisher) (_ : List Publication) (_ : Market) : Prop :=
    p.sink.nextRef ≤ later.sink.nextRef
  have operates (q : Publisher) (earlier : List Publication) (m : Market) (screen : Screen)
      (op : Op) (engine : MatchingEngine Sink) (ret : Ret) (m' : Market) (events : List Event)
      (_ : q.Tracks earlier m screen) (did : (q.opened op).engine.Did m op engine m' ret events)
      (_ : .op op ∈ calls) (before : Invariant q earlier m) :
      Invariant (q.closed engine op ret) earlier m' := Nat.le_trans before (nextRef_closed_le did)
  rcases tracks.session operates (fun _ _ _ before => before) (Nat.le_refl _) ran with
    ⟨m', screen', -, grown⟩
  exact grown

/-- Every operation of the session meets a condition on the publisher before it. -/
def Along (Before : Publisher → Op → Prop) (p : Publisher) : List Call → Prop
  | [] => True
  | call :: calls => (∀ op, call = .op op → Before p op) ∧
      ∀ p' taken, p.call call = some (p', taken) → p'.Along Before calls

theorem Follows.tracks (follows : p.Follows m b e copy) :
    ∃ earlier screen, p.Tracks earlier m screen := by
  rcases follows.rebuilds.tells with ⟨earlier, screen, tells, onScreen⟩
  exact ⟨earlier, screen, follows.holds, onScreen, tells, follows.calm⟩

theorem Follows.call (follows : p.Follows m b e copy) (stock : Stock)
    (called : p.call now = some (p', taken))
    (admitted : ∀ op, now = .op op → op.Admitted (.below (2 ^ 32)))
    (shields : ∀ op, now = .op op → m.Shields op) (wide : p'.sink.nextRef ≤ 2 ^ 64) :
    ∃ m' more b' e' copy', taken ++ p'.sink.out = p.sink.out ++ more ∧
      b.readAll e (bodies stock more) = some (b', e') ∧ Silent e e' ∧ p'.Follows m' b' e' copy' ∧
      (m' = m ∨ ∃ op events ret, now = .op op ∧ m.Performs op events m' ret) := by
  cases now with
  | op op =>
      have done := follows.step stock op (admitted op rfl) (shields op rfl)
      rcases done with ⟨p₁, ret, m', events, stepped, performs, holds, fits, calm, leads⟩
      rw [Publisher.call, stepped] at called
      cases called
      rcases leads wide with ⟨more, b', e', copy', out, read, silent, rebuilds⟩
      exact ⟨m', more, b', e', copy', out, read, silent, ⟨holds, fits, calm, rebuilds⟩,
        .inr ⟨op, events, ret, rfl, performs⟩⟩
  | drain =>
      cases called
      refine ⟨m, [], b, e, copy, rfl, rfl, silent_of_eq rfl, ?_, .inl rfl⟩
      refine ⟨follows.holds.setHandler _, follows.fits, follows.calm, ?_⟩
      exact follows.rebuilds.setSink (by rfl) fun earlier screen tells => ⟨_, tells_drained tells⟩

/-- A session, under an invariant that shields its operations. -/
theorem Follows.run {Invariant : Market → Prop} {Before : Publisher → Op → Prop}
    (shields : ∀ p m op, p.engine.Holds m → Invariant m → Before p op → m.Shields op)
    (kept : ∀ p m op events m' ret, p.engine.Holds m → Invariant m → Before p op →
      m.Performs op events m' ret → Invariant m')
    (follows : p.Follows m b e copy) (stock : Stock) (invariant : Invariant m)
    (along : p.Along Before calls)
    (admitted : ∀ op, .op op ∈ calls → op.Admitted (.below (2 ^ 32)))
    (ran : p.run calls = some (p', taken)) (wide : p'.sink.nextRef ≤ 2 ^ 64) :
    ∃ m' more b' e' copy', taken ++ p'.sink.out = p.sink.out ++ more ∧
      b.readAll e (bodies stock more) = some (b', e') ∧ Silent e e' ∧
        p'.Follows m' b' e' copy' := by
  induction calls generalizing p m b e copy taken with
  | nil =>
      cases ran
      exact ⟨m, [], b, e, copy, (List.append_nil _).symm, rfl, silent_of_eq rfl, follows⟩
  | cons call calls induction =>
      rw [Publisher.run] at ran
      rcases Option.bind_eq_some_iff.mp ran with ⟨⟨p₁, now⟩, called, rest⟩
      rcases Option.bind_eq_some_iff.mp rest with ⟨⟨p₂, later⟩, ran', same⟩
      cases same
      have grows : p₁.sink.nextRef ≤ p'.sink.nextRef := by
        rcases follows.tracks with ⟨earlier, screen, tracks⟩
        rcases tracks.call call with ⟨p₂, now', m₂, screen₂, called', tracks₂, -⟩
        rw [called] at called'
        cases called'
        exact tracks₂.nextRef_le ran'
      have now := follows.call stock called (fun op same => admitted op (same ▸ List.mem_cons_self))
        (fun op same => shields p m op follows.holds invariant (along.1 op same))
        (Nat.le_trans grows wide)
      rcases now with ⟨m₁, first, b₁, e₁, copy₁, out, read, silent, follows₁, change⟩
      have invariant₁ : Invariant m₁ := by
        rcases change with rfl | ⟨op, events, ret, same, performs⟩
        · exact invariant
        · exact kept p m op events m₁ ret follows.holds invariant (along.1 op same) performs
      rcases induction follows₁ invariant₁ (along.2 _ _ called)
        (fun op member => admitted op (List.mem_cons_of_mem _ member)) ran' with
        ⟨m', second, b', e', copy', out', read', silent', follows'⟩
      refine ⟨m', first ++ second, b', e', copy', ?_, ?_, silent.trans silent', follows'⟩
      · rw [List.append_assoc, out', ← List.append_assoc, out, List.append_assoc]
      · rw [bodies, List.map_append]
        exact (BookBuilder.readAll_append read).trans read'

end sessions

end Publisher

end Itch

end Matchbook
