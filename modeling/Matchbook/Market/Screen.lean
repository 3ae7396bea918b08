import Matchbook.Market.Caps
import Matchbook.Market.Frame
import Matchbook.Market.Withdrawals

namespace Matchbook

open Transitions

/-! # The displayed book

What a screen shows of every order that rests, and how the events of the market change
it. A fill takes of what is displayed on both sides, for a reserve is not displayed. -/

abbrev Screen := OrderId → Option Qty

namespace Screen

def take (screen : Screen) (id : OrderId) (q : Qty) : Screen :=
  match screen id with
  | none => screen
  | some shown =>
      let left := shown - (if q < shown then q else shown)
      Function.update screen id (if left = 0 then none else some left)

def after (screen : Screen) : Event → Screen
  | .rest id _ _ displayed => Function.update screen id (some displayed)
  | .trade t => (screen.take t.taker t.qty).take t.maker t.qty
  | .cancel id => Function.update screen id none
  | _ => screen

def Proper (continuous : Bool) (screen : Screen) : Event → Prop
  | .rest id _ _ displayed => screen id = none ∧ displayed ≠ 0
  | .trade t => continuous = true →
      screen t.taker = none ∧ ∃ shown, screen t.maker = some shown ∧ t.qty ≤ shown
  | _ => True

inductive Plays (continuous : Bool) : Screen → List Event → Screen → Prop
  | nil {screen} : Plays continuous screen [] screen
  | cons {screen event events screen'} (proper : screen.Proper continuous event)
      (later : Plays continuous (screen.after event) events screen') :
      Plays continuous screen (event :: events) screen'

variable {continuous : Bool} {screen screen' screen'' : Screen} {events more : List Event}
  {id : OrderId}

theorem Plays.append (first : Plays continuous screen events screen')
    (second : Plays continuous screen' more screen'') :
    Plays continuous screen (events ++ more) screen'' := by
  induction first with
  | nil => exact second
  | cons proper later induction => exact .cons proper (induction second)

theorem Plays.at_event {event : Event}
    (plays : Plays continuous screen (events ++ event :: more) screen') :
    ∃ middle, Plays continuous screen events middle ∧ middle.Proper continuous event := by
  induction events generalizing screen with
  | nil =>
      cases plays with
      | cons proper later => exact ⟨screen, .nil, proper⟩
  | cons first events induction =>
      cases plays with
      | cons proper later =>
          rcases induction later with ⟨middle, before, found⟩
          exact ⟨middle, .cons proper before, found⟩

theorem Proper.relax {event : Event} (proper : screen.Proper continuous event) :
    screen.Proper false event := by
  cases event with
  | rest id side price displayed => exact proper
  | trade t => exact nofun
  | _ => trivial

theorem Plays.relax (plays : Plays continuous screen events screen') :
    Plays false screen events screen' := by
  induction plays with
  | nil => exact .nil
  | cons proper later induction => exact .cons proper.relax induction

theorem take_none {q : Qty} (hidden : screen id = none) : screen.take id q = screen := by
  rw [take, hidden]

theorem take_some {q : Qty} {o : RO} (shown : screen o.id = some o.qty) :
    screen.take o.id q = Function.update screen o.id
      (if (o.consumed q).qty = 0 then none else some (o.consumed q).qty) := by
  rw [take, shown]
  rfl

theorem plays_cancel (continuous : Bool) (screen : Screen) (id : OrderId) :
    Plays continuous screen [.cancel id] (Function.update screen id none) :=
  .cons trivial .nil

end Screen

def RO.shownAfter (o : RO) (f : Qty) : Option Qty :=
  let left := o.consumed f
  if left.qty = 0 ∧ 0 < left.reserve then some left.clip
  else if left.qty = 0 then none
  else some left.qty

/-- A new clip shows up where the old one is gone. -/
theorem Screen.plays_consume (continuous : Bool) {screen : Screen} {px : Price} {f : Qty} {o : RO}
    {rest : List RO} (shape : o.Shape) (within : f ≤ o.total)
    (shown : screen o.id = if (o.consumed f).qty = 0 then none else some (o.consumed f).qty) :
    Screen.Plays continuous screen (consume px f (o :: rest)).2
      (Function.update screen o.id (o.shownAfter f)) := by
  rcases consume_cases px f o rest with ⟨left, equal⟩ | ⟨out, spent, equal⟩ | ⟨out, hidden, equal⟩
  · have same : o.shownAfter f = screen o.id := by simp [RO.shownAfter, left, shown]
    rw [equal, same, Function.update_eq_self]
    exact .nil
  · have same : o.shownAfter f = screen o.id := by simp [RO.shownAfter, out, spent, shown]
    rw [equal, same, Function.update_eq_self]
    exact .nil
  · have clip : o.shownAfter f = some (o.consumed f).clip := by
      simp [RO.shownAfter, out, hidden]
    rw [equal, clip]
    rw [if_pos out] at shown
    exact .cons ⟨shown, UInt64.pos_iff_ne_zero.mp (shape.replenished within hidden).positive⟩ .nil

namespace Market

variable {m m' : Market} {screen : Screen} {side : Side} {px : Price} {id : OrderId} {q : Qty}
  {o : RO} {level front rest back : List RO}

def Displays (m : Market) (id : OrderId) (q : Qty) : Prop :=
  ∃ side px, ∃ o ∈ m.levels side px, o.id = id ∧ o.qty = q

def OnScreen (m : Market) (screen : Screen) : Prop :=
  ∀ id q, screen id = some q ↔ m.Displays id q

theorem OnScreen.of_levels (onScreen : m.OnScreen screen) (same : m'.levels = m.levels) :
    m'.OnScreen screen := by
  intro id q
  rw [Displays, same]
  exact onScreen id q

theorem OnScreen.shows (onScreen : m.OnScreen screen) (member : o ∈ m.levels side px) :
    screen o.id = some o.qty :=
  (onScreen o.id o.qty).mpr ⟨side, px, o, member, rfl, rfl⟩

theorem OnScreen.hides (onScreen : m.OnScreen screen) (closed : ¬ m.Rests id) :
    screen id = none := by
  apply Option.eq_none_iff_forall_ne_some.mpr
  intro q shown
  rcases (onScreen id q).mp shown with ⟨side, px, o, member, same, -⟩
  exact closed ⟨side, px, o, member, same⟩

theorem Rests.isOpen (rests : m.Rests id) : m.IsOpen id := .inl rests

/-- A new queue in the only place of an order. -/
theorem OnScreen.setLevel (onScreen : m.OnScreen screen) {shown : Option Qty}
    (home : ∀ s p, ∀ o ∈ m.levels s p, o.id = id → s = side ∧ p = px)
    (others : ∀ o, o.id ≠ id → (o ∈ level ↔ o ∈ m.levels side px))
    (own : ∀ q, shown = some q ↔ ∃ o ∈ level, o.id = id ∧ o.qty = q) :
    (m.setLevel side px level).OnScreen (Function.update screen id shown) := by
  intro other q
  by_cases same : other = id
  · rw [same, Function.update_self, own]
    constructor
    · rintro ⟨o, member, isOwn, qty⟩
      exact ⟨side, px, o, by simpa using member, isOwn, qty⟩
    · rintro ⟨s, p, o, member, isOwn, qty⟩
      rw [setLevel_levels] at member
      split at member
      · exact ⟨o, member, isOwn, qty⟩
      · rename_i elsewhere
        exact absurd (home s p o member isOwn) elsewhere
  · have levels (s : Side) (p : Price) (o : RO) (isOther : o.id = other) :
        o ∈ (m.setLevel side px level).levels s p ↔ o ∈ m.levels s p := by
      rw [setLevel_levels]
      split
      · rename_i place
        rw [place.1, place.2]
        exact others o (isOther ▸ same)
      · rfl
    rw [Function.update_of_ne same, onScreen]
    constructor
    · rintro ⟨s, p, o, member, isOther, qty⟩
      exact ⟨s, p, o, (levels s p o isOther).mpr member, isOther, qty⟩
    · rintro ⟨s, p, o, member, isOther, qty⟩
      exact ⟨s, p, o, (levels s p o isOther).mp member, isOther, qty⟩

theorem Valid.apart_of_place (valid : m.Valid) (place : m.levels side px = front ++ o :: back) :
    ∀ other ∈ front ++ back, other.id ≠ o.id := by
  have distinct := valid.distinct side px
  rw [place, List.map_append, List.map_cons] at distinct
  have unique := List.nodup_cons.mp (List.perm_middle.nodup_iff.mp distinct)
  intro other member same
  rw [← List.map_append] at unique
  exact unique.1 (same ▸ List.mem_map_of_mem member)

section valid

variable (valid : m.Valid) (onScreen : m.OnScreen screen)
include valid onScreen

/-- A queue in which at most one order with the id of `o` is left of `o`. -/
theorem Valid.onScreen_replace (place : m.levels side px = front ++ o :: back)
    (left : Option RO) (sameId : ∀ o' ∈ left, o'.id = o.id)
    (members : ∀ o', o' ∈ level ↔ o' ∈ front ++ back ∨ o' ∈ left) :
    (m.setLevel side px level).OnScreen
      (Function.update screen o.id (left.map RO.qty)) := by
  have apart := valid.apart_of_place place
  have member : o ∈ m.levels side px := by simp [place]
  apply onScreen.setLevel
  · intro s p other present same
    exact valid.place _ _ _ _ other present o member same
  · intro other isOther
    rw [members, place]
    constructor
    · rintro (behind | isLeft)
      · rcases List.mem_append.mp behind with inFront | inBack
        · exact List.mem_append_left _ inFront
        · exact List.mem_append_right _ (List.mem_cons_of_mem _ inBack)
      · exact absurd (sameId other isLeft) isOther
    · intro present
      rcases List.mem_append.mp present with inFront | inRest
      · exact .inl (List.mem_append_left _ inFront)
      · rcases List.mem_cons.mp inRest with rfl | inBack
        · exact absurd rfl isOther
        · exact .inl (List.mem_append_right _ inBack)
  · intro q
    constructor
    · intro shown
      rcases Option.map_eq_some_iff.mp shown with ⟨o', isLeft, qty⟩
      exact ⟨o', (members o').mpr (.inr isLeft), sameId o' isLeft, qty⟩
    · rintro ⟨o', present, same, rfl⟩
      rcases (members o').mp present with behind | isLeft
      · exact absurd same (apart o' behind)
      · exact Option.map_eq_some_iff.mpr ⟨o', isLeft, rfl⟩

theorem Valid.onScreen_remove (place : m.levels side px = front ++ o :: back) :
    (m.setLevel side px (front ++ back)).OnScreen (Function.update screen o.id none) :=
  valid.onScreen_replace onScreen place none (by simp) (by simp)

theorem Valid.onScreen_consume (announced : Price) (f : Qty) (head : m.levels side px = o :: rest) :
    (m.setLevel side px (consume announced f (o :: rest)).1).OnScreen
      (Function.update screen o.id (o.shownAfter f)) := by
  have place : m.levels side px = [] ++ o :: rest := head
  rcases consume_cases announced f o rest with ⟨left, equal⟩ | ⟨out, spent, equal⟩ |
    ⟨out, hidden, equal⟩
  · have shown : o.shownAfter f = (some (o.consumed f)).map RO.qty := by
      simp [RO.shownAfter, left]
    rw [equal, shown]
    apply valid.onScreen_replace onScreen place
    · simp
    · intro o'
      simp [or_comm, eq_comm]
  · have shown : o.shownAfter f = (none : Option RO).map RO.qty := by
      simp [RO.shownAfter, out, spent]
    rw [equal, shown]
    exact valid.onScreen_replace onScreen place none (by simp) (by simp)
  · have shown : o.shownAfter f = (some (o.consumed f).replenished).map RO.qty := by
      simp [RO.shownAfter, out, hidden]
    rw [equal, shown]
    apply valid.onScreen_replace onScreen place
    · simp
    · intro o'
      simp [eq_comm]

omit valid in
theorem OnScreen.append (fresh : ¬ m.IsOpen o.id) :
    (m.setLevel side px (m.levels side px ++ [o])).OnScreen
      (Function.update screen o.id (some o.qty)) := by
  have absent (s : Side) (p : Price) (other : RO) (member : other ∈ m.levels s p) :
      other.id ≠ o.id := fun same => fresh (same ▸ isOpen_of_mem member)
  apply onScreen.setLevel
  · intro s p other member same
    exact absurd same (absent s p other member)
  · intro other isOther
    rw [List.mem_append, List.mem_singleton]
    constructor
    · rintro (present | rfl)
      · exact present
      · exact absurd rfl isOther
    · exact .inl
  · intro q
    constructor
    · intro shown
      exact ⟨o, by simp, rfl, Option.some.inj shown⟩
    · rintro ⟨other, member, same, rfl⟩
      rcases List.mem_append.mp member with present | new
      · exact absurd same (absent _ _ other present)
      · rw [List.mem_singleton.mp new]

end valid

end Market

/-! ## Steps -/

section steps

variable {state next : Market × Phase} {events : List Event} {screen : Screen}

def Phase.continuous : Phase → Bool
  | .crossing _ => false
  | _ => true

theorem Taker.Valid.hidden {m : Market} {t : Taker} (valid : t.Valid m)
    (onScreen : m.OnScreen screen) : screen t.id = none :=
  onScreen.hides fun rests => valid.fresh rests.isOpen

theorem Screen.plays_fill {continuous : Bool} {px : Price} {f : Qty} {o : RO} (rest : List RO)
    (shape : o.Shape) (within : f ≤ o.total) (shown : screen o.id = some o.qty) :
    Screen.Plays continuous (screen.take o.id f) (consume px f (o :: rest)).2
      (Function.update screen o.id (o.shownAfter f)) := by
  have taken := Screen.take_some (q := f) shown
  have left : screen.take o.id f o.id =
      if (o.consumed f).qty = 0 then none else some (o.consumed f).qty := by
    rw [taken, Function.update_self]
  have plays : Screen.Plays continuous _ (consume px f (o :: rest)).2 _ :=
    Screen.plays_consume continuous shape within left
  rw [taken] at plays ⊢
  rwa [Function.update_idem] at plays

theorem Step.plays (step : Step state events next) (valid : ValidState state)
    (onScreen : state.1.OnScreen screen) :
    ∃ screen', Screen.Plays state.2.continuous screen events screen' ∧ next.1.OnScreen screen' := by
  have validM : state.1.Valid := valid.1
  cases step with
  | @fill m t px o rest fill meets other amount =>
      have hidden : screen t.id = none := Taker.Valid.hidden valid.2 onScreen
      have atHead : o ∈ m.levels t.maker px := by simp [meets.head]
      have shape := validM.shape _ _ o atHead
      have shown : screen o.id = some o.qty := onScreen.shows atHead
      have within : fill ≤ o.qty := by grind
      have filled := validM.onScreen_consume onScreen px fill meets.head
      refine ⟨_, .cons (fun _ => ⟨hidden, o.qty, shown, within⟩) ?_, filled.of_levels rfl⟩
      have maker : screen.after (.trade ⟨t.id, o.id, px, fill, t.side⟩) =
          screen.take o.id fill := by
        rw [Screen.after, Screen.take_none hidden]
      rw [maker]
      exact Screen.plays_fill rest shape (UInt64.le_trans within shape.qty_le_total) shown
  | @cancelMaker m t px o rest meets own policy =>
      have place : m.levels t.maker px = [] ++ o :: rest := meets.head
      exact ⟨_, Screen.plays_cancel _ _ o.id, validM.onScreen_remove onScreen place⟩
  | cancelTaker meets own policy => exact ⟨screen, .nil, onScreen⟩
  | @cancelBoth m t px o rest meets own policy =>
      have place : m.levels t.maker px = [] ++ o :: rest := meets.head
      exact ⟨_, Screen.plays_cancel _ _ o.id, validM.onScreen_remove onScreen place⟩
  | @killed m t announced =>
      have hidden : screen t.id = none := Taker.Valid.hidden valid.2 onScreen
      refine ⟨screen, ?_, onScreen⟩
      have kill := Screen.plays_cancel true screen t.id
      rwa [← hidden, Function.update_eq_self] at kill
  | stoppedMarket silent => exact ⟨screen, .nil, onScreen⟩
  | filled done => exact ⟨screen, .nil, onScreen⟩
  | @rest m t price peak left blocked rests =>
      have fresh : ¬ m.IsOpen (t.resting price peak).id := by
        rw [Taker.resting_id]
        exact valid.2.fresh
      have resting : (m.setLevel t.side price
          (m.levels t.side price ++ [t.resting price peak])).OnScreen _ := onScreen.append fresh
      rw [Taker.resting_id] at resting
      have shape : (t.resting price peak).Shape := t.resting_shape left
      have displayed := shape.positive
      exact ⟨_, .cons ⟨Taker.Valid.hidden valid.2 onScreen,
        UInt64.pos_iff_ne_zero.mp displayed⟩ .nil,
        resting⟩
  | @cancelRemainder m t left blocked cancels =>
      have hidden : screen t.id = none := Taker.Valid.hidden valid.2 onScreen
      refine ⟨screen, ?_, onScreen⟩
      have kill := Screen.plays_cancel true screen t.id
      rwa [← hidden, Function.update_eq_self] at kill
  | discard left blocked discards => exact ⟨screen, .nil, onScreen⟩
  | @fire m front o back next => exact ⟨screen, .nil, onScreen.of_levels rfl⟩
  | @cross m clearing bpx apx b a bids asks f bestBid bestAsk bidHead askHead bidReaches askReaches
      amount =>
      have askHead' : (m.setLevel .buy bpx (consume clearing f (b :: bids)).1).levels .sell apx =
          a :: asks := by
        rw [Market.setLevel_levels_side _ _ _ _ _ _ (by decide), askHead]
      have bid : b ∈ m.levels .buy bpx := by simp [bidHead]
      have ask : a ∈ m.levels .sell apx := by simp [askHead]
      have apart : a.id ≠ b.id := fun same =>
        absurd (validM.place _ _ _ _ a ask b bid same).1 (by decide)
      rcases le_total_of_min amount with ⟨within, askWithin⟩
      have onBids := validM.onScreen_consume onScreen clearing f bidHead
      have onBoth := (validM.fillHead clearing bidHead within).onScreen_consume onBids clearing f
        askHead'
      refine ⟨_, .cons nofun ?_, onBoth.of_levels rfl⟩
      have bidShown := onScreen.shows bid
      have askShown := onScreen.shows ask
      have bidTaken := Screen.take_some (q := f) bidShown
      have askLeft : (screen.take b.id f) a.id = some a.qty := by
        rw [bidTaken, Function.update_of_ne apart, askShown]
      have askTaken := Screen.take_some (q := f) askLeft
      -- The fill takes of both, then each shows its next clip.
      have bidLeft : ((screen.take b.id f).take a.id f) b.id =
          if (b.consumed f).qty = 0 then none else some (b.consumed f).qty := by
        rw [askTaken, Function.update_of_ne apart.symm, bidTaken, Function.update_self]
      have bidClip : Screen.Plays false _ (consume clearing f (b :: bids)).2 _ :=
        Screen.plays_consume false (validM.shape _ _ b bid) within bidLeft
      have askStill : Function.update ((screen.take b.id f).take a.id f) b.id
          (b.shownAfter f) a.id =
          if (a.consumed f).qty = 0 then none else some (a.consumed f).qty := by
        rw [Function.update_of_ne apart, askTaken, Function.update_self]
      have askClip : Screen.Plays false _ (consume clearing f (a :: asks)).2 _ :=
        Screen.plays_consume false (validM.shape _ _ a ask) askWithin askStill
      have final : Function.update (Function.update ((screen.take b.id f).take a.id f) b.id
          (b.shownAfter f)) a.id (a.shownAfter f) =
          Function.update (Function.update screen b.id (b.shownAfter f)) a.id (a.shownAfter f) := by
        rw [askTaken, bidTaken, Function.update_comm apart, Function.update_idem,
          Function.update_idem]
      rw [final] at askClip
      exact bidClip.append askClip
  | crossed apart => exact ⟨screen, .nil, onScreen⟩

theorem Step.continuous (step : Step state events next) (calm : state.2.continuous = true) :
    next.2.continuous = true := by
  cases step with
  | cross => exact absurd calm Bool.false_ne_true
  | crossed => exact absurd calm Bool.false_ne_true
  | _ => rfl

theorem Step.run_plays (run : Run Step state events next) (valid : ValidState state)
    (onScreen : state.1.OnScreen screen) (calm : state.2.continuous = true) :
    ∃ screen', Screen.Plays true screen events screen' ∧ next.1.OnScreen screen' := by
  have whole : ∃ screen', Screen.Plays true screen events screen' ∧ next.1.OnScreen screen' ∧
      next.2.continuous = true := by
    induction run with
    | refl => exact ⟨screen, .nil, onScreen, calm⟩
    | snoc run last induction =>
        rcases induction with ⟨middle, before, shown, still⟩
        rcases Step.plays last (Run.valid run valid) shown with ⟨screen', now, shown'⟩
        rw [still] at now
        exact ⟨screen', before.append now, shown', Step.continuous last still⟩
  rcases whole with ⟨screen', plays, shown, -⟩
  exact ⟨screen', plays, shown⟩

theorem Step.run_plays_any (run : Run Step state events next) (valid : ValidState state)
    (onScreen : state.1.OnScreen screen) :
    ∃ screen', Screen.Plays false screen events screen' ∧ next.1.OnScreen screen' := by
  induction run with
  | refl => exact ⟨screen, .nil, onScreen⟩
  | snoc run last induction =>
      rcases induction with ⟨middle, before, shown⟩
      rcases Step.plays last (Run.valid run valid) shown with ⟨screen', now, shown'⟩
      exact ⟨screen', before.append now.relax, shown'⟩

end steps

/-! ## Operations -/

namespace Market

variable {m m' : Market} {op : Op} {events : List Event} {next : Market × Phase} {ret : Ret}
  {screen : Screen}

def Amends (m : Market) (screen : Screen) (op : Op) (m' : Market) : Prop :=
  ∃ o delta shown, op.Reduces o delta ∧ screen o.id = some o.qty ∧ (∀ q ∈ shown, q ≤ o.qty) ∧
    m'.OnScreen (Function.update screen o.id shown) ∧ (m.Settled → m'.Settled)

def Announces (op : Op) (events : List Event) (ret : Ret) : Prop :=
  ∀ id, op.OnOrder id → ret = .ok true → .cancel id ∈ events

theorem announces_of_submit (submit : op.IsSubmit) : Announces op events ret := by
  intro id target
  cases target <;> exact submit.elim

theorem Announces.append {more : List Event} (announces : Announces op events ret) :
    Announces op (events ++ more) ret := fun id target answer =>
  List.mem_append_left more (announces id target answer)

theorem Performs.reduce_silent {id : OrderId} {delta : Qty}
    (performs : m.Performs (.reduce id delta) events m' ret) (settled : m.Settled) :
    events = [] := by
  cases performs with
  | @intro first more m₁ phase m' ret start steps settled' answers =>
      have silent : first = [] ∧ phase = .idle ∧ m₁.Settled := by
        cases start with
        | reject submit => exact submit.elim
        | refuse entry => cases entry
        | enter entry => cases entry
        | trigger entry => cases entry
        | park entry => cases entry
        | decline => exact ⟨rfl, rfl, settled⟩
        | cancel cancels => cases cancels
        | cancelStop cancels => cases cancels
        | erase => exact ⟨rfl, rfl, settled⟩
        | reduce => exact ⟨rfl, rfl, settled⟩
      rcases silent with ⟨rfl, rfl, settled₁⟩
      exact (settled₁.still steps).1

theorem Performs.uncross_answer (performs : m.Performs .uncross events m' ret) :
    ∃ total, ret = .qty total := by
  cases performs with
  | intro start steps settled answers =>
      cases start with
      | reject submit => exact submit.elim
      | refuse entry => cases entry
      | enter entry => cases entry
      | trigger entry => cases entry
      | park entry => cases entry
      | decline target => cases target
      | cancel cancels => cases cancels
      | cancelStop cancels => cases cancels
      | erase reduces => cases reduces
      | reduce reduces => cases reduces
      | flat => exact ⟨0, rfl⟩
      | uncross => exact ⟨_, rfl⟩

theorem Begin.continuous (start : m.Begin op events next ret) (calm : op ≠ .uncross) :
    next.2.continuous = true := by
  cases start with
  | uncross => exact absurd rfl calm
  | _ => rfl

/-- The first step of an operation either shows what it does or amends an order in place. -/
theorem Begin.plays (start : m.Begin op events next ret) (valid : m.Valid)
    (onScreen : m.OnScreen screen) :
    (∃ screen', Screen.Plays true screen events screen' ∧ next.1.OnScreen screen' ∧
      Announces op events ret) ∨
    (events = [] ∧ next.2 = .idle ∧ ret = .ok true ∧ m.Amends screen op next.1) := by
  have unseen {id : OrderId} (closed : ¬ m.Rests id) :
      Screen.Plays true screen [.cancel id] screen := by
    have cancel := Screen.plays_cancel true screen id
    rwa [← onScreen.hides closed, Function.update_eq_self] at cancel
  have untold : Announces op events (.ok false) := fun id target answer => by cases answer
  cases start with
  | reject submit => exact .inl ⟨screen, .cons trivial .nil, onScreen, announces_of_submit submit⟩
  | refuse entry =>
      have closed : ¬ m.Rests m.nextId := fun rests => valid.fresh rests.isOpen
      exact .inl ⟨screen, .cons trivial (unseen closed), onScreen.of_levels rfl,
        announces_of_submit entry.isSubmit⟩
  | enter entry =>
      exact .inl ⟨screen, .cons trivial .nil, onScreen.of_levels rfl,
        announces_of_submit entry.isSubmit⟩
  | market =>
      exact .inl ⟨screen, .cons trivial .nil, onScreen.of_levels rfl, announces_of_submit trivial⟩
  | trigger entry =>
      exact .inl ⟨screen, .cons trivial .nil, onScreen.of_levels rfl,
        announces_of_submit entry.isSubmit⟩
  | park entry =>
      exact .inl ⟨screen, .cons trivial .nil, onScreen.of_levels rfl,
        announces_of_submit entry.isSubmit⟩
  | decline => exact .inl ⟨screen, .nil, onScreen, untold⟩
  | @cancel op side px front o back cancels place =>
      refine .inl ⟨_, Screen.plays_cancel _ _ o.id, valid.onScreen_remove onScreen place, ?_⟩
      intro id target _
      rw [target.unique cancels.onOrder]
      exact List.mem_cons_self
  | @cancelStop op front o back cancels place =>
      have closed : ¬ m.Rests o.id := by
        rintro ⟨side, px, other, member, same⟩
        exact valid.apart side px other member o (by simp [place]) same
      refine .inl ⟨screen, unseen closed, onScreen.of_levels rfl, ?_⟩
      intro id target _
      rw [target.unique cancels.onOrder]
      exact List.mem_cons_self
  | @erase op side px front o back delta reduces place all =>
      have member : o ∈ m.levels side px := by simp [place]
      refine .inr ⟨rfl, rfl, rfl, o, delta, none, reduces, onScreen.shows member, ?_,
        valid.onScreen_remove onScreen place, id⟩
      simp
  | @reduce op side px front o back delta reduces place some =>
      have member : o ∈ m.levels side px := by simp [place]
      refine .inr ⟨rfl, rfl, rfl, o, delta, Option.some (o.reduced delta).qty, reduces,
        onScreen.shows member, ?_, ?_, id⟩
      · intro q isLeft
        rw [← Option.some.inj isLeft]
        exact RO.reduced_qty_le some
      · apply valid.onScreen_replace onScreen place (Option.some (o.reduced delta))
        · simp
        · intro o'
          simp only [List.mem_append, List.mem_cons, Option.mem_some_iff]
          grind
  | @replace side px front o back newPrice newQty place nonzero inside moved =>
      refine .inl ⟨_, .cons trivial (.cons trivial .nil), valid.onScreen_remove onScreen place, ?_⟩
      intro id target _
      rw [target.unique Op.OnOrder.modify]
      exact List.mem_cons_self
  | halt => exact .inl ⟨screen, .nil, onScreen.of_levels rfl, by rintro id ⟨⟩⟩
  | resume => exact .inl ⟨screen, .nil, onScreen.of_levels rfl, by rintro id ⟨⟩⟩
  | flat => exact .inl ⟨screen, .nil, onScreen, by rintro id ⟨⟩⟩
  | uncross => exact .inl ⟨screen, .nil, onScreen, by rintro id ⟨⟩⟩

/-- A whole operation either shows what it does or amends an order in place. -/
theorem Performs.plays (performs : m.Performs op events m' ret) (valid : m.Valid)
    (settled : m.Settled) (onScreen : m.OnScreen screen) :
    (∃ screen', Screen.Plays (op ≠ .uncross) screen events screen' ∧ m'.OnScreen screen' ∧
      Announces op events ret) ∨
    (events = [] ∧ ret = .ok true ∧ m.Amends screen op m') := by
  cases performs with
  | @intro first more m₁ phase m' ret start steps settled' answers =>
      have validNext := start.valid valid
      rcases start.plays valid onScreen with ⟨middle, begun, shown, announces⟩ |
        ⟨rfl, idle, answer, o, delta, shown, amends⟩
      · by_cases auction : op = .uncross
        · rcases Step.run_plays_any steps validNext shown with ⟨screen', plays, shown'⟩
          have whole := begun.relax.append plays
          exact .inl ⟨screen', by simpa [auction] using whole, shown', announces.append⟩
        · have calm : phase.continuous = true := start.continuous auction
          rcases Step.run_plays steps validNext shown calm with ⟨screen', plays, shown'⟩
          have whole := begun.append plays
          exact .inl ⟨screen', by simpa [auction] using whole, shown', announces.append⟩
      · have idle : phase = .idle := idle
        subst idle
        rcases (amends.2.2.2.2 settled).still steps with ⟨rfl, same⟩
        cases same
        exact .inr ⟨rfl, answer, o, delta, shown, amends⟩

end Market

/-! ## What is displayed is no more than what comes in -/

/-- Nothing as large as `bound`. -/
def Cap.below (bound : Qty) : Cap where
  Admits _ qty := qty < bound
  mono less admits := UInt64.lt_of_le_of_lt less admits

def RestsBelow (bound : Qty) (events : List Event) : Prop :=
  ∀ id side px displayed, .rest id side px displayed ∈ events → displayed < bound

section bounds

variable {m m' : Market} {op : Op} {state next : Market × Phase} {events : List Event} {ret : Ret}
  {bound : Qty}

theorem RestsBelow.append {more : List Event} (first : RestsBelow bound events)
    (second : RestsBelow bound more) : RestsBelow bound (events ++ more) := by
  intro id side px displayed member
  rcases List.mem_append.mp member with before | later
  · exact first id side px displayed before
  · exact second id side px displayed later

theorem RO.Shape.clip_le_total {o : RO} {f : Qty} (shape : o.Shape) (within : f ≤ o.total) :
    (o.consumed f).clip ≤ o.total := by
  have clip := UInt64.le_iff_toNat_le.mp (RO.clip_le_reserve (o := o.consumed f))
  have reserve := shape.consumed_reserve within
  have total := shape.total_toNat
  rw [UInt64.le_iff_toNat_le]
  omega

theorem restsBelow_consume {px : Price} {f : Qty} {o : RO} {rest : List RO} (shape : o.Shape)
    (within : f ≤ o.total) (capped : o.total < bound) :
    RestsBelow bound (consume px f (o :: rest)).2 := by
  intro id side announced displayed member
  rcases consume_cases px f o rest with ⟨-, equal⟩ | ⟨-, -, equal⟩ | ⟨-, -, equal⟩ <;>
    rw [equal] at member
  · exact absurd member List.not_mem_nil
  · exact absurd member List.not_mem_nil
  · cases List.mem_singleton.mp member
    exact UInt64.lt_of_le_of_lt (shape.clip_le_total within) capped

theorem restsBelow_trade {t : Trade} (later : RestsBelow bound events) :
    RestsBelow bound (.trade t :: events) := by
  intro id side px displayed member
  rcases List.mem_cons.mp member with same | rest
  · cases same
  · exact later id side px displayed rest

theorem Step.restsBelow (step : Step state events next) (valid : ValidState state)
    (market : state.1.Capped (.below bound)) (phase : state.2.Capped (.below bound)) :
    RestsBelow bound events := by
  have validM : state.1.Valid := valid.1
  cases step with
  | @fill m t px o rest fill meets other amount =>
      have atHead : o ∈ m.levels t.maker px := by simp [meets.head]
      have shape := validM.shape _ _ o atHead
      have shown := shape.qty_le_total
      have within : fill ≤ o.total := by grind
      exact restsBelow_trade (restsBelow_consume shape within (market.resting _ _ o atHead))
  | @rest m t price peak left blocked rests =>
      intro id side px displayed member
      cases List.mem_singleton.mp member
      exact UInt64.lt_of_le_of_lt (Taker.resting_qty_le price peak) phase
  | @cross m clearing bpx apx b a bids asks f bestBid bestAsk bidHead askHead bidReaches askReaches
      amount =>
      have bid : b ∈ m.levels .buy bpx := by simp [bidHead]
      have ask : a ∈ m.levels .sell apx := by simp [askHead]
      rcases le_total_of_min amount with ⟨bidWithin, askWithin⟩
      apply restsBelow_trade
      apply RestsBelow.append
      · exact restsBelow_consume (validM.shape _ _ b bid) bidWithin (market.resting _ _ b bid)
      · exact restsBelow_consume (validM.shape _ _ a ask) askWithin (market.resting _ _ a ask)
  | _ => simp [RestsBelow]

theorem Step.run_restsBelow (run : Run Step state events next) (valid : ValidState state)
    (market : state.1.Capped (.below bound)) (phase : state.2.Capped (.below bound)) :
    RestsBelow bound events := by
  induction run with
  | refl => simp [RestsBelow]
  | snoc run last induction =>
      rcases Step.run_capped run valid market phase with ⟨market', phase'⟩
      exact induction.append (Step.restsBelow last (Run.valid run valid) market' phase')

theorem Market.Performs.restsBelow (performs : m.Performs op events m' ret) (valid : m.Valid)
    (capped : m.Capped (.below bound)) (admitted : op.Admitted (.below bound)) :
    RestsBelow bound events := by
  cases performs with
  | intro start steps settled answers =>
      rcases start.capped capped admitted with ⟨market, phase⟩
      apply RestsBelow.append
      · intro id side px displayed member
        exact absurd member start.not_rest
      · exact Step.run_restsBelow steps (start.valid valid) market phase

def TradesBelow (bound : Qty) (events : List Event) : Prop :=
  ∀ t, .trade t ∈ events → t.qty < bound

theorem Step.tradesBelow (step : Step state events next)
    (market : state.1.Capped (.below bound)) (phase : state.2.Capped (.below bound)) :
    TradesBelow bound events := by
  intro trade member
  cases step with
  | @fill m t px o rest fill meets other amount =>
      rcases List.mem_cons.mp member with same | clip
      · cases same
        have within : fill ≤ t.qty := by grind
        exact UInt64.lt_of_le_of_lt within phase
      · rcases mem_consume_events clip with ⟨o, -, same, -⟩
        cases same
  | @cross m clearing bpx apx b a bids asks f bestBid bestAsk bidHead askHead bidReaches askReaches
      amount =>
      rcases List.mem_cons.mp member with same | clips
      · cases same
        have bid : b ∈ m.levels .buy bpx := by simp [bidHead]
        exact UInt64.lt_of_le_of_lt (le_total_of_min amount).1 (market.resting _ _ b bid)
      rcases List.mem_append.mp clips with clip | clip <;>
        rcases mem_consume_events clip with ⟨o, -, same, -⟩ <;>
        cases same
  | _ => simp at member

theorem Step.run_tradesBelow (run : Run Step state events next) (valid : ValidState state)
    (market : state.1.Capped (.below bound)) (phase : state.2.Capped (.below bound)) :
    TradesBelow bound events := by
  induction run with
  | refl => exact fun trade member => absurd member List.not_mem_nil
  | snoc run last induction =>
      rcases Step.run_capped run valid market phase with ⟨market', phase'⟩
      intro trade member
      rcases List.mem_append.mp member with before | now
      · exact induction trade before
      · exact Step.tradesBelow last market' phase' trade now

theorem Market.Performs.tradesBelow (performs : m.Performs op events m' ret) (valid : m.Valid)
    (capped : m.Capped (.below bound)) (admitted : op.Admitted (.below bound)) :
    TradesBelow bound events := by
  cases performs with
  | intro start steps settled answers =>
      rcases start.capped capped admitted with ⟨market, phase⟩
      intro trade member
      rcases List.mem_append.mp member with first | later
      · exact absurd first start.not_trade
      · exact Step.run_tradesBelow steps (start.valid valid) market phase trade later

end bounds

end Matchbook
