import Matchbook.Engine.CrossAndPump
import Matchbook.Feed.ShadowRuns

namespace Matchbook

open NumberedAccounts

namespace Market

variable {m m₁ : Market} {cross : List Event} {crossed : Qty} {screen : Screen}

theorem Crosses.plays (crosses : m.Crosses cross m₁ crossed) (valid : m.Valid)
    (onScreen : m.OnScreen screen) :
    m₁.Valid ∧ ∃ screen', Screen.Plays false screen cross screen' ∧ m₁.OnScreen screen' := by
  cases crosses with
  | still => exact ⟨valid, screen, .nil, onScreen⟩
  | @crossed clearing _ _ run =>
      have begun : ValidState (m, .crossing clearing) := ⟨valid, trivial⟩
      exact ⟨(Run.valid run begun).1, Step.run_plays_any run begun onScreen⟩

end Market

namespace Itch

/-! # The shadow is exact

After any session the publisher knows of every order what is displayed of it, so every
fill outside an auction finds its maker, and the shares of a reference add up. -/

/-! ## Shares -/

def Publication.sharesOff (of : Nat) : Publication → Nat
  | .execute _ ref qty _ => if ref = of then qty.toUInt32.toNat else 0
  | .executePx _ ref part _ _ => if ref = of then part.toUInt32.toNat else 0
  | .cancel _ ref qty => if ref = of then qty.toUInt32.toNat else 0
  | _ => 0

def sharesOff (published : List Publication) (of : Nat) : Nat :=
  (published.map (Publication.sharesOff of)).sum

variable {published : List Publication} {of : Nat}

theorem toUInt32_of_small {q : Qty} (small : q.toNat < 2 ^ 32) : q.toUInt32.toNat = q.toNat := by
  rw [UInt64.toNat_toUInt32]
  exact Nat.mod_eq_of_lt small

theorem share_of_small {ref : Nat} {q : Qty} (small : (if ref = of then q.toNat else 0) < 2 ^ 32) :
    (if ref = of then q.toUInt32.toNat else 0) = if ref = of then q.toNat else 0 := by
  split
  · rename_i same
    rw [if_pos same] at small
    exact toUInt32_of_small small
  · rfl

theorem sharesOff_eq_spent (small : spent (postings published) of < 2 ^ 32) :
    sharesOff published of = spent (postings published) of := by
  induction published with
  | nil => rfl
  | cons message published induction =>
      have sum : spent (postings (message :: published)) of =
          (message.posting.map (Posting.debit of)).getD 0 + spent (postings published) of := by
        cases posting : message.posting <;> simp [postings, spent, posting]
      have first : message.sharesOff of = (message.posting.map (Posting.debit of)).getD 0 := by
        rw [sum] at small
        have least : (message.posting.map (Posting.debit of)).getD 0 < 2 ^ 32 := by omega
        cases message with
        | execute => exact share_of_small least
        | executePx => exact share_of_small least
        | cancel => exact share_of_small least
        | _ => rfl
      have rest := induction (by omega)
      rw [sum, ← first, ← rest]
      rfl

def references (published : List Publication) : List Nat :=
  published.filterMap fun
    | .add _ ref _ _ _ => some ref
    | _ => none

theorem references_eq (published : List Publication) :
    references published = numbers (postings published) := by
  rw [references, numbers, postings, List.filterMap_filterMap]
  apply List.filterMap_congr
  intro message _
  cases message <;> rfl

namespace Publisher

variable {p : Publisher} {earlier : List Publication} {m : Market} {screen : Screen}

/-! ## What the shadow is -/

def Shows (p : Publisher) (ref : Nat) : Prop := ref ≠ 0 ∧ ∃ id, (p.sink.refAt id).ref = ref

/-- What is recorded of every order is what the engine displays of it, and every reference
was published once. -/
structure Exact (p : Publisher) (published : List Publication) : Prop where
  live : ∀ id, (p.sink.refAt id).ref ≠ 0 ↔ p.engine.Rests id
  displayed : ∀ id, (p.sink.refAt id).displayed = p.engine.orderQty id
  distinct : ∀ id id', (p.sink.refAt id).ref ≠ 0 →
    (p.sink.refAt id).ref = (p.sink.refAt id').ref → id = id'
  added : ∀ ref, p.Shows ref → ref ∈ references published
  once : (references published).Nodup

def CoversFill (sink : Sink) (t : Trade) : Prop :=
  ∃ r, sink.slot t.maker = some r ∧ t.qty ≤ r.displayed

/-- The sink goes through the events of the operation, and finds the maker of every fill
that is not one of an auction, unless the counter of references wraps meanwhile. -/
def CoversFills (p : Publisher) (op : Op) : Prop :=
  ∃ engine ret, (p.opened op).engine.step op = some (engine, ret) ∧
    engine.h = Handler.onAll (p.opened op).sink (p.engine.tells op) ∧
    (engine.h.nextRef ≤ 2 ^ 64 → ∀ before t after, p.engine.tells op = before ++ .trade t :: after →
      (op = .uncross → p.engine.tellsAuction <+: before) →
      CoversFill (Handler.onAll (p.opened op).sink before) t)

/-- The shares of every reference add up. -/
def Balanced (p : Publisher) (published : List Publication) : Prop :=
  ∀ seq ref side displayed price, .add seq ref side displayed price ∈ published →
    sharesOff published ref ≤ displayed.toUInt32.toNat ∧
    (¬ p.Shows ref → (∀ seq, .delete seq ref ∉ published) →
      sharesOff published ref = displayed.toUInt32.toNat)

/-! ## Why it is exact -/

theorem Tracks.refAt (tracks : p.Tracks earlier m screen) (id : OrderId) :
    (screen id = none ∧ p.sink.refAt id = {}) ∨
      ∃ q, screen id = some q ∧ (p.sink.refAt id).ref ≠ 0 ∧ (p.sink.refAt id).displayed = q := by
  cases seen : screen id with
  | none => exact .inl ⟨rfl, tracks.tells.hidden id seen⟩
  | some q =>
      rcases tracks.tells.shown id q seen with ⟨live, displayed, -⟩
      exact .inr ⟨q, rfl, live, displayed⟩

theorem shows_of_held {id : OrderId} {ref left : Nat}
    (held : p.sink.held id = some (ref, left)) : p.Shows ref := by
  rcases Option.map_eq_some_iff.mp held with ⟨r, slot, same⟩
  cases same
  rw [Sink.slot] at slot
  split at slot
  · rename_i live
    cases slot
    exact ⟨live, id, rfl⟩
  · cases slot

theorem Tracks.held_of_live (tracks : p.Tracks earlier m screen) {id : OrderId}
    (live : (p.sink.refAt id).ref ≠ 0) : ∃ left, left ≠ 0 ∧
      p.sink.held id = some ((p.sink.refAt id).ref, left) := by
  cases seen : screen id with
  | none =>
      rw [tracks.tells.hidden id seen] at live
      exact absurd rfl live
  | some q =>
      have nonzero : q.toNat ≠ 0 := fun zero =>
        (tracks.tells.shown id q seen).2.2 (UInt64.toNat_inj.mp zero)
      exact ⟨q.toNat, nonzero, tracks.tells.held_some seen⟩

theorem Tracks.exact (tracks : p.Tracks earlier m screen) : p.Exact (earlier ++ p.sink.out) where
  live id := by
    rw [tracks.holds.rests_iff_shown tracks.onScreen]
    rcases tracks.refAt id with ⟨unseen, hidden⟩ | ⟨q, seen, live, -⟩
    · simp [unseen, hidden]
    · simp [seen, live]
  displayed id := by
    rw [tracks.holds.orderQty_eq tracks.onScreen]
    rcases tracks.refAt id with ⟨unseen, hidden⟩ | ⟨q, seen, -, displayed⟩
    · rw [unseen, hidden]
      rfl
    · rw [seen, displayed]
      rfl
  distinct id id' live same := by
    rcases tracks.held_of_live live with ⟨left, -, held⟩
    rcases tracks.held_of_live (same ▸ live) with ⟨left', -, held'⟩
    rw [← same] at held'
    exact tracks.tells.kept.apart _ _ _ _ _ held held'
  added ref shows := by
    rcases shows with ⟨live, id, rfl⟩
    rcases tracks.held_of_live live with ⟨left, nonzero, held⟩
    have sum := (tracks.tells.kept.left _ _ _ held).1
    rw [references_eq]
    by_contra unopened
    rw [given_of_not_mem unopened] at sum
    omega
  once := by
    rw [references_eq]
    exact tracks.tells.kept.once

theorem Tracks.balanced (tracks : p.Tracks earlier m screen)
    (bounded : p.Bounded earlier m (2 ^ 32)) : p.Balanced (earlier ++ p.sink.out) := by
  intro seq ref side displayed price member
  have opened : .opened ref displayed.toNat ∈ postings (earlier ++ p.sink.out) :=
    List.mem_filterMap.mpr ⟨_, member, rfl⟩
  have kept := tracks.tells.kept
  have small : displayed.toNat < 2 ^ 32 := bounded.adds ref displayed.toNat opened
  have amount := given_of_opened kept.once opened
  have covered : spent (postings (earlier ++ p.sink.out)) ref ≤ displayed.toNat := by
    by_cases shows : p.Shows ref
    · rcases shows with ⟨live, id, rfl⟩
      rcases tracks.held_of_live live with ⟨left, -, held⟩
      have sum := (kept.left _ _ _ held).1
      omega
    · have shut := kept.shut ref fun id left held => shows (shows_of_held held)
      exact amount ▸ shut.covered
  rw [toUInt32_of_small small, sharesOff_eq_spent (Nat.lt_of_le_of_lt covered small)]
  refine ⟨covered, fun dead undeleted => ?_⟩
  have shut := kept.shut ref fun id left held => dead (shows_of_held held)
  rw [← amount]
  apply shut.whole
  intro closed
  rcases List.mem_filterMap.mp closed with ⟨message, present, posting⟩
  cases message with
  | delete seq ref' =>
      cases posting
      exact undeleted seq present
  | _ => cases posting

/-! ## Fills -/

theorem coversFill {sink : Sink} {t : Trade} (tells : sink.Tells earlier screen)
    (proper : screen.Proper true (.trade t)) : CoversFill sink t := by
  rcases proper rfl with ⟨-, shown, seen, within⟩
  refine ⟨sink.refAt t.maker, tells.slot_some seen, ?_⟩
  rw [(tells.shown _ _ seen).2.1]
  exact within

theorem Tracks.coversFills (tracks : p.Tracks earlier m screen) (op : Op) : p.CoversFills op := by
  rcases tracks.opened op with ⟨holds, tells, cross⟩
  have same : (p.opened op).engine.tells op = p.engine.tells op := by
    rw [opened_engine]
    rfl
  rcases holds.did op with ⟨engine, ret, m', called, did⟩
  rw [same] at did
  refine ⟨engine, ret, called, did.told, ?_⟩
  intro _ before t after told auction
  by_cases uncross : op = .uncross
  · subst uncross
    rcases tracks.holds.uncrossed with ⟨_, _, _, parts, split⟩
    rcases parts.pumped with ⟨m₁, crosses, run⟩
    rcases auction rfl with ⟨before', rfl⟩
    have later : p.engine.tellsPump = before' ++ .trade t :: after := by
      rw [split, List.append_assoc] at told
      exact List.append_cancel_left told
    rcases crosses.plays tracks.holds.valid tracks.onScreen with ⟨valid₁, screen₁, first, onScreen₁⟩
    rcases Step.run_plays run ⟨valid₁, trivial⟩ onScreen₁ rfl with ⟨screen', second, -⟩
    rw [later] at second
    rcases second.at_event with ⟨middle, second', proper⟩
    have plays := first.append second'.relax
    have mode : false = !(p.opened .uncross).sink.inCross := by rw [cross]; rfl
    rw [mode] at plays
    exact coversFill (tells.onAll plays).1 proper
  · rcases did.performs.plays tracks.holds.valid tracks.holds.settled tracks.onScreen with
      ⟨screen', plays, -⟩ | ⟨silent, -⟩
    · rw [told] at plays
      rcases plays.at_event with ⟨middle, first, proper⟩
      have mode : decide (op ≠ .uncross) = !(p.opened op).sink.inCross := by rw [cross, decide_not]
      rw [mode] at first
      rw [decide_eq_true uncross] at proper
      exact coversFill (tells.onAll first).1 proper
    · rw [told] at silent
      simp at silent

/-! ## Sessions -/

/-- A reference that is gone does not come back, unless the counter of references wraps. -/
def Retires (p : Publisher) (published : List Publication) : Prop :=
  ∀ more, ∃ p' later, p.run more = some (p', later) ∧ (p'.sink.nextRef ≤ 2 ^ 64 →
    ∀ ref ∈ references published, ¬ p.Shows ref → ¬ p'.Shows ref)

theorem Tracks.retires (tracks : p.Tracks earlier m screen) :
    p.Retires (earlier ++ p.sink.out) := by
  intro more
  rcases tracks.run more with ⟨p', later, m', screen', run, tracks', ⟨new, grows⟩, -⟩
  refine ⟨p', later, run, ?_⟩
  intro _ ref known gone shows'
  rcases shows' with ⟨live, id, rfl⟩
  rcases tracks'.held_of_live live with ⟨left, nonzero, held⟩
  have kept' := tracks'.tells.kept
  rw [List.append_assoc, ← grows, ← List.append_assoc, postings, List.filterMap_append] at kept'
  rw [references_eq] at known
  exact nonzero (tracks.tells.kept.never_again kept' known
    (fun id left held => gone (shows_of_held held)) held)

theorem bounded_new (band : Band) (stock : List UInt8) (expectedOrders : Nat) (bound : Qty) :
    (new band stock expectedOrders).Bounded [] (.new band) bound where
  capped := ⟨nofun, nofun⟩
  adds := nofun

/-- After every session that uses fewer than `2 ^ 64` references the shadow of the
displayed book is exact. -/
theorem run_shadow (band : Band) (stock : List UInt8) (expectedOrders : Nat) (calls : List Call) :
    ∃ p taken, (new band stock expectedOrders).run calls = some (p, taken) ∧
      (p.sink.nextRef ≤ 2 ^ 64 →
        p.Exact (taken ++ p.sink.out) ∧ p.Retires (taken ++ p.sink.out) ∧
        (∀ op, p.CoversFills op) ∧
        ((∀ op, .op op ∈ calls → op.Admitted (.below (2 ^ 32))) →
          p.Balanced (taken ++ p.sink.out))) := by
  rcases (tracks_new band stock expectedOrders).run calls with
    ⟨p, taken, m, screen, run, tracks, -, bounded⟩
  refine ⟨p, taken, run, fun _ => ?_⟩
  refine ⟨tracks.exact, tracks.retires, tracks.coversFills, fun admitted => ?_⟩
  exact tracks.balanced (bounded _ (bounded_new band stock expectedOrders _) admitted)

/-- A clip of two of ten trades, and the next one comes up under another reference. -/
theorem run_shadow_iceberg :
    let band : Band := ⟨95, 105, by decide, by decide, by decide⟩
    let calls : List Call :=
      [.op (.submitIceberg .sell 100 10 2 .gtc 1 .cancelTaker), .drain,
        .op (.submitLimit .buy 100 3 .ioc 2 .cancelTaker)]
    ∃ p taken, (new band [] 16).run calls = some (p, taken) ∧
      p.Exact (taken ++ p.sink.out) ∧ p.Balanced (taken ++ p.sink.out) := by
  intro band calls
  have seen : ((new band [] 16).run calls).map (fun run => run.1.sink.nextRef) = some 3 := by
    decide +kernel
  rcases run_shadow band [] 16 calls with ⟨p, taken, run, shadow⟩
  rw [run, Option.map_some, Option.some.injEq] at seen
  rcases shadow (by rw [seen]; decide) with ⟨exact', -, -, balanced⟩
  refine ⟨p, taken, run, exact', balanced fun op member => ?_⟩
  have small : op = .submitIceberg .sell 100 10 2 .gtc 1 .cancelTaker ∨
      op = .submitLimit .buy 100 3 .ioc 2 .cancelTaker := by
    simpa [calls] using member
  rcases small with rfl | rfl
  · exact show (10 : Qty) < 2 ^ 32 by decide
  · exact show (3 : Qty) < 2 ^ 32 by decide

end Publisher

end Itch

end Matchbook
