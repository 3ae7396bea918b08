import Matchbook.Feed.Shadow

namespace Matchbook

open NumberedAccounts

/-! # The publisher in operation

Every wrapper does something before its call of the engine and something after it. The
shadow is exact again when the wrapper returns, whether events told the change or not. -/

section shown

variable {H : Type} {s : MatchingEngine H} {m : Market} {screen : Screen}

namespace MatchingEngine

theorem Holds.orderQty_eq (holds : s.Holds m) (onScreen : m.OnScreen screen) (id : OrderId) :
    s.orderQty id = (screen id).getD 0 := by
  cases seen : screen id with
  | none =>
      apply holds.orderQty_eq_zero
      rintro ⟨side, px, o, member, rfl⟩
      rw [onScreen.shows member] at seen
      cases seen
  | some q =>
      rcases (onScreen id q).mp seen with ⟨side, px, o, member, rfl, rfl⟩
      exact holds.orderQty_of_mem member

theorem Holds.rests_iff_shown (holds : s.Holds m) (onScreen : m.OnScreen screen) (id : OrderId) :
    s.Rests id ↔ screen id ≠ none := by
  rw [holds.rests_iff, Option.ne_none_iff_exists']
  constructor
  · rintro ⟨side, px, o, member, rfl⟩
    exact ⟨o.qty, onScreen.shows member⟩
  · rintro ⟨q, seen⟩
    rcases (onScreen id q).mp seen with ⟨side, px, o, member, same, -⟩
    exact ⟨side, px, o, member, same⟩

end MatchingEngine

end shown

namespace Itch

namespace Publisher

variable {p : Publisher} {earlier : List Publication} {m m' : Market} {screen screen' : Screen}
  {id : OrderId} {op : Op} {events : List Event} {ret : Ret} {engine : MatchingEngine Sink}

/-! ## Wrappers -/

def opened (p : Publisher) : Op → Publisher
  | .modify .. => p.setSink { p.sink with sawBookEvent := false }
  | .halt => p.setSink (p.sink.emitAction 'H'.toUInt8)
  | .resume => p.setSink (p.sink.emitAction 'T'.toUInt8)
  | .uncross => p.setSink { p.sink with inCross := true }
  | _ => p

def closed (p : Publisher) (engine : MatchingEngine Sink) : Op → Ret → Publisher
  | .modify id _ _, .ok true =>
      if ¬ engine.h.sawBookEvent ∧ 0 < p.engine.orderQty id then
        ({ engine } : Publisher).publishShrink id (p.engine.orderQty id)
      else { engine }
  | .reduce id _, .ok true =>
      if 0 < p.engine.orderQty id then
        ({ engine } : Publisher).publishShrink id (p.engine.orderQty id)
      else { engine }
  | .uncross, .qty total =>
      let p := ({ engine } : Publisher).setSink { engine.h with inCross := false }
      if 0 < total then p.emitCross total else p
  | _, _ => { engine }

theorem step_done {s s' : MatchingEngine Sink} (calm : op = .halt ∨ op = .resume)
    (called : s.step op = some (s', ret)) : ret = .done := by
  rcases calm with rfl | rfl
  · have ⟨_, body⟩ := MatchingEngine.run_inv (fun s => some ({ s with halted := true }, _)) called
    exact (congrArg Prod.snd (Option.some.inj body)).symm
  · have ⟨_, body⟩ := MatchingEngine.run_inv (fun s => some ({ s with halted := false }, _)) called
    exact (congrArg Prod.snd (Option.some.inj body)).symm

theorem map_done {call : Option (MatchingEngine Sink × Ret)}
    (returns : ∀ {engine ret}, call = some (engine, ret) → ret = Ret.done) :
    ((call.map Prod.fst).bind fun engine => some ({ engine } : Publisher)).map (·, Ret.done) =
      call.map fun (engine, ret) => ({ engine }, ret) := by
  cases called : call with
  | none => rfl
  | some next => rw [Option.map_some, ← returns called]; rfl

theorem step_eq (p : Publisher) (op : Op) :
    p.step op = ((p.opened op).engine.step op).map fun (engine, ret) =>
      (p.closed engine op ret, ret) := by
  cases op with
  | modify id newPrice newQty =>
      show Option.map _ (((p.opened (.modify id newPrice newQty)).engine.modify id newPrice
        newQty).bind _) = Option.map _ (((p.opened (.modify id newPrice newQty)).engine.modify id
          newPrice newQty).map _)
      cases (p.opened (.modify id newPrice newQty)).engine.modify id newPrice newQty with
      | none => rfl
      | some next =>
          rcases next with ⟨engine, ok⟩
          cases ok <;> simp [closed]
  | reduce id delta =>
      show Option.map _ ((p.engine.reduce id delta).bind _) =
        Option.map _ ((p.engine.reduce id delta).map _)
      cases p.engine.reduce id delta with
      | none => rfl
      | some next =>
          rcases next with ⟨engine, ok⟩
          cases ok <;> simp [closed]
  | halt => exact map_done (step_done (.inl rfl))
  | resume => exact map_done (step_done (.inr rfl))
  | uncross =>
      show Option.map _ (((p.opened .uncross).engine.uncross).bind _) =
        Option.map _ (((p.opened .uncross).engine.uncross).map _)
      cases (p.opened .uncross).engine.uncross with
      | none => rfl
      | some next => rfl
  | _ => rfl

/-! ## What is exact between two operations -/

structure Tracks (p : Publisher) (earlier : List Publication) (m : Market) (screen : Screen) :
    Prop where
  holds : p.engine.Holds m
  onScreen : m.OnScreen screen
  tells : p.sink.Tells earlier screen
  calm : p.sink.inCross = false

/-- The shadow after a silent amend, when the wrapper has compared the two quantities. -/
theorem tracks_shrink {before : Qty} {shown : Option Qty} (holds : p.engine.Holds m)
    (tells : p.sink.Tells earlier screen) (calm : p.sink.inCross = false)
    (seen : screen id = some before) (less : ∀ q ∈ shown, q ≤ before)
    (onScreen : m.OnScreen (Function.update screen id shown)) :
    (p.publishShrink id before).Tracks earlier m (Function.update screen id shown) := by
  have after : p.engine.orderQty id = shown.getD 0 := by
    rw [holds.orderQty_eq onScreen, Function.update_self]
  have positive (q : Qty) (isLeft : shown = some q) : q ≠ 0 := by
    have found : m.Displays id q := (onScreen id q).mp (by rw [Function.update_self, isLeft])
    rcases found with ⟨side, px, o, member, -, rfl⟩
    exact UInt64.pos_iff_ne_zero.mp (holds.valid.shape side px o member).positive
  rw [publishShrink, tells.slot_some seen]
  simp only [after]
  cases shown with
  | none =>
      rw [Option.getD_none, if_pos rfl]
      exact ⟨holds.setHandler _, onScreen, tells.delete seen rfl rfl rfl rfl, calm⟩
  | some q =>
      have nonzero := positive q rfl
      rw [Option.getD_some, if_neg nonzero]
      split
      · rename_i shrunk
        have within : before - q ≤ before := RO.sub_le_of_le (less q rfl)
        have left : before - (before - q) = q := sub_sub_cancel before q
        let told := p.sink.publish (.cancel · (p.sink.refAt id).ref (before - q))
        have refs : told.refAt = p.sink.refAt := rfl
        have drawn := tells.draw seen within refs rfl rfl rfl
        have shadow : (p.sink.refAt id).less (before - q) =
            { p.sink.refAt id with displayed := q } := by
          rw [Ref.less, (tells.shown id before seen).2.1, left]
          simp only [nonzero, if_false]
        rw [left, if_neg nonzero, shadow] at drawn
        exact ⟨holds.setHandler _, onScreen, drawn, calm⟩
      · rename_i same
        have equal : q = before := UInt64.le_antisymm (less q rfl) (UInt64.not_lt.mp same)
        rw [equal, ← seen, Function.update_eq_self] at onScreen ⊢
        exact ⟨holds, onScreen, tells, calm⟩

theorem opened_engine (p : Publisher) (op : Op) :
    (p.opened op).engine = { p.engine with h := (p.opened op).sink } := by
  cases op <;> rfl

theorem Tracks.opened (tracks : p.Tracks earlier m screen) (op : Op) :
    (p.opened op).engine.Holds m ∧ (p.opened op).sink.Tells earlier screen ∧
      (p.opened op).sink.inCross = decide (op = .uncross) := by
  have calm := tracks.calm
  constructor
  · rw [opened_engine]
    exact tracks.holds.setHandler _
  · cases op with
    | modify => exact ⟨tracks.tells.flags _ _ _, calm⟩
    | halt =>
        have tells := tracks.tells.publish (.action · 'H'.toUInt8) rfl
        exact ⟨tells, calm⟩
    | resume =>
        have tells := tracks.tells.publish (.action · 'T'.toUInt8) rfl
        exact ⟨tells, calm⟩
    | uncross => exact ⟨tracks.tells.flags _ _ _, rfl⟩
    | _ => exact ⟨tracks.tells, calm⟩

theorem Tracks.emitCross (tracks : p.Tracks earlier m screen) (total : Qty) :
    (p.emitCross total).Tracks earlier m screen := by
  have numbered := tracks.tells.flags (p.sink.matchNumber + 1) p.sink.inCross p.sink.sawBookEvent
  have printed := numbered.publish (.cross · total p.engine.lastPx (p.sink.matchNumber + 1)) rfl
  exact ⟨tracks.holds.setHandler _, tracks.onScreen, printed, tracks.calm⟩

theorem closed_plain (p : Publisher) (engine : MatchingEngine Sink) (op : Op)
    (unchanged : ret ≠ .ok true) (calm : op ≠ .uncross) : p.closed engine op ret = { engine } := by
  unfold closed
  split
  · exact absurd rfl unchanged
  · exact absurd rfl unchanged
  · exact absurd rfl calm
  · rfl

theorem closed_told (holds : (p.opened op).engine.Holds m)
    (did : (p.opened op).engine.Did m op engine m' ret events)
    (announces : Market.Announces op events ret) (calm : op ≠ .uncross) :
    p.closed engine op ret = { engine } := by
  by_cases changed : ret = .ok true
  case neg => exact closed_plain p engine op changed calm
  cases op with
  | modify id newPrice newQty =>
      have saw := Sink.onAll_sawBookEvent (p.opened (.modify id newPrice newQty)).sink
        (.inr (announces id .modify changed))
      have told : engine.h = Handler.onAll (p.opened (.modify id newPrice newQty)).sink events :=
        did.told
      rw [← told] at saw
      rw [changed, Publisher.closed, if_neg fun silent => silent.1 saw]
  | reduce id delta =>
      have announced := announces id .reduce changed
      rw [did.performs.reduce_silent holds.settled] at announced
      cases announced
  | uncross => exact absurd rfl calm
  | _ => rfl

theorem Tracks.closed (tracks : p.Tracks earlier m screen)
    (did : (p.opened op).engine.Did m op engine m' ret events) :
    ∃ screen', (p.closed engine op ret).Tracks earlier m' screen' := by
  rcases tracks.opened op with ⟨holds, tells, cross⟩
  have told : engine.h = Handler.onAll (p.opened op).sink events := did.told
  rcases did.performs.plays holds.valid holds.settled tracks.onScreen with
    ⟨screen', plays, onScreen, announces⟩ |
    ⟨rfl, rfl, o, delta, shown, reduces, seen, less, onScreen, -⟩
  · have mode : decide (op ≠ .uncross) = !(p.opened op).sink.inCross := by rw [cross, decide_not]
    rw [mode] at plays
    rcases tells.onAll plays with ⟨tells', cross'⟩
    rw [← told] at tells' cross'
    rw [cross] at cross'
    refine ⟨screen', ?_⟩
    by_cases auction : op = .uncross
    · subst auction
      rcases did.performs.uncross_answer with ⟨total, rfl⟩
      have quiet : (({ engine } : Publisher).setSink { engine.h with inCross := false }).Tracks
          earlier m' screen' :=
        ⟨did.holds.setHandler _, onScreen, tells'.flags _ _ _, rfl⟩
      rw [Publisher.closed]
      split
      · exact quiet.emitCross total
      · exact quiet
    · rw [closed_told holds did announces auction]
      exact ⟨did.holds, onScreen, tells', by rw [sink, cross', decide_eq_false auction]⟩
  · have seen' : p.engine.orderQty o.id = o.qty := by
      rw [tracks.holds.orderQty_eq tracks.onScreen, seen]
      rfl
    have positive : 0 < p.engine.orderQty o.id := by
      rw [seen']
      exact UInt64.pos_iff_ne_zero.mpr (tells.shown o.id o.qty seen).2.2
    have calm : engine.h.inCross = false := by
      rw [told]
      exact cross.trans (decide_eq_false (by cases reduces <;> exact Op.noConfusion))
    have still : engine.h.Tells earlier screen := told ▸ tells
    have shrunk := tracks_shrink (p := { engine }) did.holds still calm seen less onScreen
    rw [← seen'] at shrunk
    refine ⟨Function.update screen o.id shown, ?_⟩
    cases reduces with
    | reduce =>
        rw [Publisher.closed, if_pos positive]
        exact shrunk
    | modify nonzero within =>
        have unseen : ¬ engine.h.sawBookEvent := by
          rw [told]
          exact Bool.false_ne_true
        rw [Publisher.closed, if_pos ⟨unseen, positive⟩]
        exact shrunk

theorem Tracks.step (tracks : p.Tracks earlier m screen) (op : Op) :
    ∃ engine ret m' events screen', p.step op = some (p.closed engine op ret, ret) ∧
      (p.opened op).engine.Did m op engine m' ret events ∧
      (p.closed engine op ret).Tracks earlier m' screen' := by
  rcases (tracks.opened op).1.step op with ⟨engine, ret, m', events, called, did⟩
  rcases tracks.closed did with ⟨screen', tracks'⟩
  refine ⟨engine, ret, m', events, screen', ?_, did, tracks'⟩
  rw [step_eq, called]
  rfl

/-! ## What is published stays -/

section grows

variable {Small : Nat → Prop}

theorem grows_opened (p : Publisher) (op : Op) :
    Sink.Grows Small p.sink.out (p.opened op).sink.out := by
  cases op with
  | halt => exact Sink.grows_concat nofun
  | resume => exact Sink.grows_concat nofun
  | _ => exact .refl _

theorem grows_publishShrink (p : Publisher) (id : OrderId) (before : Qty) :
    Sink.Grows Small p.sink.out (p.publishShrink id before).sink.out := by
  rw [publishShrink]
  cases p.sink.slot id with
  | none => exact .refl _
  | some r =>
      dsimp only
      split
      · exact Sink.grows_concat nofun
      · split
        · exact Sink.grows_concat nofun
        · exact .refl _

theorem grows_closed (p : Publisher) (engine : MatchingEngine Sink) (op : Op) (ret : Ret) :
    Sink.Grows Small engine.h.out (p.closed engine op ret).sink.out := by
  unfold closed
  split
  · split
    · exact grows_publishShrink { engine } _ _
    · exact .refl _
  · split
    · exact grows_publishShrink { engine } _ _
    · exact .refl _
  · dsimp only
    split
    · exact Sink.grows_concat nofun
    · exact .refl _
  · exact .refl _

theorem grows_step (did : (p.opened op).engine.Did m op engine m' ret events)
    (small : ∀ id side px displayed, .rest id side px displayed ∈ events → Small displayed.toNat) :
    Sink.Grows Small p.sink.out (p.closed engine op ret).sink.out := by
  have told : engine.h = Handler.onAll (p.opened op).sink events := did.told
  have grows := (grows_opened p op).trans (Sink.grows_onAll small)
  rw [← told] at grows
  exact grows.trans (grows_closed p engine op ret)

end grows

structure Bounded (p : Publisher) (earlier : List Publication) (m : Market) (bound : Qty) :
    Prop where
  capped : m.Capped (.below bound)
  adds : ∀ ref amount, .opened ref amount ∈ postings (earlier ++ p.sink.out) → amount < bound.toNat

theorem Bounded.closed {bound : Qty} (bounded : p.Bounded earlier m bound) (valid : m.Valid)
    (did : (p.opened op).engine.Did m op engine m' ret events)
    (admitted : op.Admitted (.below bound)) :
    (p.closed engine op ret).Bounded earlier m' bound := by
  constructor
  · exact did.performs.capped valid bounded.capped admitted
  · have small := did.performs.restsBelow valid bounded.capped admitted
    have grows : Sink.Grows (· < bound.toNat) p.sink.out (p.closed engine op ret).sink.out :=
      grows_step did fun id side px displayed member =>
        UInt64.lt_iff_toNat_lt.mp (small id side px displayed member)
    rcases grows with ⟨more, out, below⟩
    intro ref amount member
    rw [out, ← List.append_assoc, postings, List.filterMap_append] at member
    rcases List.mem_append.mp member with before | new
    · exact bounded.adds ref amount before
    · exact below ref amount new

/-! ## Sessions -/

theorem tells_drained (tells : p.sink.Tells earlier screen) :
    p.drain.1.sink.Tells (earlier ++ p.sink.out) screen where
  hidden := tells.hidden
  shown := tells.shown
  kept := by
    show Kept (postings (earlier ++ p.sink.out ++ [])) p.sink.nextRef p.sink.held
    rw [List.append_nil]
    exact tells.kept
  started := tells.started

theorem Tracks.drained (tracks : p.Tracks earlier m screen) :
    p.drain.1.Tracks (earlier ++ p.sink.out) m screen :=
  ⟨tracks.holds.setHandler _, tracks.onScreen, tells_drained tracks.tells, tracks.calm⟩

theorem Tracks.call (tracks : p.Tracks earlier m screen) (call : Call) :
    ∃ p' taken m' screen', p.call call = some (p', taken) ∧
      p'.Tracks (earlier ++ taken) m' screen' ∧ p.sink.out <+: taken ++ p'.sink.out ∧
      ∀ bound, p.Bounded earlier m bound → (∀ op, call = .op op → op.Admitted (.below bound)) →
        p'.Bounded (earlier ++ taken) m' bound := by
  cases call with
  | op op =>
      rcases tracks.step op with ⟨engine, ret, m', events, screen', stepped, did, tracks'⟩
      refine ⟨p.closed engine op ret, [], m', screen', ?_, ?_, ?_, ?_⟩
      · rw [Publisher.call, stepped]
        rfl
      · rw [List.append_nil]
        exact tracks'
      · have grows : Sink.Grows (fun _ => True) p.sink.out (p.closed engine op ret).sink.out :=
          grows_step did fun _ _ _ _ _ => trivial
        rcases grows with ⟨more, out, -⟩
        exact ⟨more, out.symm⟩
      · intro bound bounded admitted
        rw [List.append_nil]
        exact bounded.closed tracks.holds.valid did (admitted op rfl)
  | drain =>
      refine ⟨p.drain.1, p.sink.out, m, screen, rfl, tracks.drained, List.prefix_append .., ?_⟩
      · intro bound bounded _
        refine ⟨bounded.capped, ?_⟩
        show ∀ ref amount, .opened ref amount ∈ postings (earlier ++ p.sink.out ++ []) → _
        rw [List.append_nil]
        exact bounded.adds

theorem Tracks.run (tracks : p.Tracks earlier m screen) (calls : List Call) :
    ∃ p' taken m' screen', p.run calls = some (p', taken) ∧
      p'.Tracks (earlier ++ taken) m' screen' ∧ p.sink.out <+: taken ++ p'.sink.out ∧
      ∀ bound, p.Bounded earlier m bound →
        (∀ op, .op op ∈ calls → op.Admitted (.below bound)) →
        p'.Bounded (earlier ++ taken) m' bound := by
  induction calls generalizing p earlier m screen with
  | nil =>
      refine ⟨p, [], m, screen, rfl, ?_, List.prefix_rfl, ?_⟩ <;> rw [List.append_nil]
      · exact tracks
      · exact fun _ bounded _ => bounded
  | cons call calls induction =>
      rcases tracks.call call with ⟨p₁, now, m₁, screen₁, called, tracks₁, grows₁, bounded₁⟩
      rcases induction tracks₁ with ⟨p', later, m', screen', run, tracks', grows', bounded'⟩
      refine ⟨p', now ++ later, m', screen', ?_, ?_, ?_, ?_⟩
      · simp only [Publisher.run, called, run, Option.bind_eq_bind, Option.bind_some]
      · rw [← List.append_assoc]
        exact tracks'
      · rw [List.append_assoc]
        exact grows₁.trans ((List.prefix_append_right_inj now).mpr grows')
      · intro bound bounded admitted
        rw [← List.append_assoc]
        apply bounded' bound
        · apply bounded₁ bound bounded
          rintro op rfl
          exact admitted op List.mem_cons_self
        · exact fun op member => admitted op (List.mem_cons_of_mem call member)

/-- What every operation and every drain of a session keep, the session keeps. -/
theorem Tracks.session {Invariant : Publisher → List Publication → Market → Prop}
    {p' : Publisher} {taken : List Publication} {calls : List Call}
    (operates : ∀ p earlier m screen op engine ret m' events, p.Tracks earlier m screen →
      (p.opened op).engine.Did m op engine m' ret events → .op op ∈ calls →
      Invariant p earlier m → Invariant (p.closed engine op ret) earlier m')
    (drains : ∀ p earlier m, Invariant p earlier m →
      Invariant p.drain.1 (earlier ++ p.sink.out) m)
    (tracks : p.Tracks earlier m screen) (initial : Invariant p earlier m)
    (ran : p.run calls = some (p', taken)) :
    ∃ m' screen', p'.Tracks (earlier ++ taken) m' screen' ∧
      Invariant p' (earlier ++ taken) m' := by
  induction calls generalizing p earlier m screen taken with
  | nil =>
      cases ran
      rw [List.append_nil]
      exact ⟨m, screen, tracks, initial⟩
  | cons call calls induction =>
      have rest : ∀ p earlier m screen op engine ret m' events, p.Tracks earlier m screen →
          (p.opened op).engine.Did m op engine m' ret events → .op op ∈ calls →
          Invariant p earlier m → Invariant (p.closed engine op ret) earlier m' :=
        fun p earlier m screen op engine ret m' events tracks did member =>
          operates p earlier m screen op engine ret m' events tracks did
            (List.mem_cons_of_mem call member)
      rw [Publisher.run] at ran
      rcases Option.bind_eq_some_iff.mp ran with ⟨⟨p₁, now⟩, called, last⟩
      rcases Option.bind_eq_some_iff.mp last with ⟨⟨p₂, later⟩, ran', same⟩
      cases same
      rw [← List.append_assoc]
      cases call with
      | op op =>
          rcases tracks.step op with ⟨engine, ret, m₁, events, screen₁, stepped, did, tracks₁⟩
          have kept := operates p earlier m screen op engine ret m₁ events tracks did
            List.mem_cons_self initial
          rw [Publisher.call, stepped] at called
          cases called
          rw [List.append_nil]
          exact induction rest tracks₁ kept ran'
      | drain =>
          cases called
          exact induction rest tracks.drained (drains p earlier m initial) ran'

theorem tracks_new (band : Band) (stock : List UInt8) (expectedOrders : Nat) :
    (new band stock expectedOrders).Tracks [] (.new band) fun _ => none := by
  have unseen (id : OrderId) : (new band stock expectedOrders).sink.refAt id = {} := by
    show #[({} : Ref)].getD id {} = {}
    cases id <;> rfl
  have held : (new band stock expectedOrders).sink.held = fun _ => none := by
    funext id
    rw [Sink.held, Sink.slot, unseen]
    rfl
  constructor
  · exact MatchingEngine.holds_new ..
  · intro id q
    constructor
    · intro seen
      cases seen
    · rintro ⟨side, px, o, member, -⟩
      cases member
  · refine ⟨fun id _ => unseen id, fun id q seen => ?_, ?_, Nat.one_pos⟩
    · cases seen
    · rw [held]
      exact kept_nil
  · rfl

end Publisher

end Itch

end Matchbook
