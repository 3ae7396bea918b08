import Matchbook.Feed.Numbering
import Matchbook.Feed.OwnPriceAuctions

namespace Matchbook

/-! # The round trip of the book

A consumer that reads all that was published and applies it to an empty engine has the displayed
book of the publisher, as long as no clip that comes up misleads it. -/

namespace MatchingEngine

variable {s : MatchingEngine H} {m : Market}

theorem Holds.uncrossed_iff (holds : s.Holds m) : s.Uncrossed ↔ m.Uncrossed := by
  rcases holds with ⟨band, r, simulates, rfl⟩
  exact simulates.uncrossed_iff

end MatchingEngine

namespace Market

variable {s s' : MatchingEngine H} {m m' : Market}

theorem Bare.of_queues (bare : m.Bare) (holds : s.Holds m) (holds' : s'.Holds m')
    (same : ∀ (side : Side) px, s'.queue side.book px = s.queue side.book px) : m'.Bare := by
  intro side px o member
  rw [← holds'.shows.levels, same, holds.shows.levels] at member
  exact bare side px o member

theorem Clear.of_queues (clear : Clear m) (holds : s.Holds m) (holds' : s'.Holds m')
    (same : ∀ (side : Side) px, s'.queue side.book px = s.queue side.book px)
    (flag : s'.halted = s.halted) : Clear m' := by
  have levels (side : Side) (px : Price) : m'.levels side px = m.levels side px := by
    rw [← holds'.shows.levels, same, holds.shows.levels]
  have halted : m'.halted = m.halted := by
    rw [← holds'.shows.halted, flag, holds.shows.halted]
  unfold Clear ReservesClear WouldCross at clear ⊢
  simp only [levels, halted]
  exact clear

end Market

namespace Itch

namespace Publisher

open Market

variable {p : Publisher} {m copy : Market} {b : BookBuilder} {e : MatchingEngine Tape} {op : Op}
  {calls : List Call}

/-- At every price the consumer has the orders that are displayed there, in their queue, and it
knows them by their references. -/
def SameBook (p : Publisher) (b : BookBuilder) (e : MatchingEngine Tape) : Prop :=
  ∀ (side : Side) px,
    List.Forall₂ (Copied p.sink b) (p.engine.queue side.book px) (e.queue side.book px)

theorem Follows.sameBook (follows : p.Follows m b e copy) : p.SameBook b e := by
  intro side px
  rw [follows.holds.shows.levels, follows.rebuilds.holds.shows.levels]
  exact follows.rebuilds.levels side px

theorem Follows.sameFlag (follows : p.Follows m b e copy) : e.halted = p.engine.halted := by
  rw [follows.holds.shows.halted, follows.rebuilds.holds.shows.halted]
  exact follows.rebuilds.halted

/-- The operation brings up no clip that misleads the consumer. -/
def Shields (p : Publisher) (op : Op) : Prop := ∀ m, p.engine.Holds m → m.Shields op

/-- Neither an auction nor the end of a call phase that left the book locked or crossed. -/
def Enters (p : Publisher) (op : Op) : Prop :=
  op ≠ .uncross ∧ (op = .resume → p.engine.Uncrossed)

section new

variable (band : Band) (stock : List UInt8) (expectedOrders expectedOrders' : Nat)

theorem copies_new (sink : Sink) : Copies sink (.new band) {}
    (.new band ([] : Tape) expectedOrders') (.new band) where
  holds := MatchingEngine.holds_new ..
  plain := ⟨fun _ _ _ member => absurd member List.not_mem_nil, rfl⟩
  levels _ _ := .nil
  band := ⟨rfl, rfl⟩
  halted := rfl

theorem follows_new (narrow : 0 ≤ band.min ∧ band.max < 2 ^ 32) :
    (new band stock expectedOrders).Follows (.new band) {}
      (.new band ([] : Tape) expectedOrders') (.new band) := by
  have tracks := tracks_new band stock expectedOrders
  constructor
  case holds => exact tracks.holds
  case fits => exact (session_new band stock expectedOrders narrow).fits
  case calm => rfl
  case rebuilds => exact ⟨copies_new band expectedOrders' _, [], _, tracks.tells, tracks.onScreen⟩

/-- Whoever reads all that was published has the book, under the same flag, and has printed no
trade. The references fit their 64 bits. -/
def Reread (p : Publisher) (published : List Publication) : Prop :=
  p.sink.nextRef ≤ 2 ^ 64 → ∃ b e, BookBuilder.readAll {} (.new band ([] : Tape) expectedOrders')
      (bodies (.ofBytes stock) published) = some (b, e) ∧
    p.SameBook b e ∧ e.halted = p.engine.halted ∧ ∀ t, .trade t ∉ e.h

/-- A session under an invariant that shields its operations is read back. -/
theorem run_reread {Invariant : Market → Prop} {Before : Publisher → Op → Prop}
    (shields : ∀ p m op, p.engine.Holds m → Invariant m → Before p op → m.Shields op)
    (kept : ∀ p m op events m' ret, p.engine.Holds m → Invariant m → Before p op →
      m.Performs op events m' ret → Invariant m')
    (initial : Invariant (.new band)) (narrow : 0 ≤ band.min ∧ band.max < 2 ^ 32)
    (along : (new band stock expectedOrders).Along Before calls)
    (admitted : ∀ op, .op op ∈ calls → op.Admitted (.below (2 ^ 32))) :
    ∃ p taken, (new band stock expectedOrders).run calls = some (p, taken) ∧
      p.Reread band stock expectedOrders' (taken ++ p.sink.out) := by
  rcases (tracks_new band stock expectedOrders).run calls with ⟨p, taken, -, -, ran, -⟩
  refine ⟨p, taken, ran, fun wide => ?_⟩
  have follows := follows_new band stock expectedOrders expectedOrders' narrow
  rcases follows.run shields kept (.ofBytes stock) initial along admitted ran wide with
    ⟨m, more, b, e, copy, out, read, silent, follows'⟩
  have whole : taken ++ p.sink.out = more := out
  rw [whole]
  exact ⟨b, e, read, follows'.sameBook, follows'.sameFlag, fun t traded =>
    List.not_mem_nil (silent t traded)⟩

/-- Order entry, halts and resumptions of an uncrossed book are read back. -/
theorem run_enters (narrow : 0 ≤ band.min ∧ band.max < 2 ^ 32)
    (enters : (new band stock expectedOrders).Along Enters calls)
    (admitted : ∀ op, .op op ∈ calls → op.Admitted (.below (2 ^ 32))) :
    ∃ p taken, (new band stock expectedOrders).run calls = some (p, taken) ∧
      p.Reread band stock expectedOrders' (taken ++ p.sink.out) := by
  have resumes {p : Publisher} {m : Market} {op : Op} (holds : p.engine.Holds m)
      (enters : p.Enters op) : op = .resume → m.ReservesClear := fun resume =>
    (holds.uncrossed_iff.mp (enters.2 resume)).reservesClear
  have shields (p : Publisher) (m : Market) (op : Op) (holds : p.engine.Holds m) (clear : Clear m)
      (enters : p.Enters op) : m.Shields op :=
    clear.shields holds.valid enters.1 (resumes holds enters)
  have kept (p : Publisher) (m : Market) (op : Op) (events : List Event) (m' : Market) (ret : Ret)
      (holds : p.engine.Holds m) (clear : Clear m) (enters : p.Enters op)
      (performs : m.Performs op events m' ret) : Clear m' :=
    performs.clear holds.valid clear (resumes holds enters)
  have initial : Clear (.new band) := .inr fun _ _ _ member => absurd member List.not_mem_nil
  exact run_reread _ _ _ _ shields kept initial narrow enters admitted

/-- A session over any overlap is read back if no clip comes up that misleads. -/
theorem run_shielded (narrow : 0 ≤ band.min ∧ band.max < 2 ^ 32)
    (shielded : (new band stock expectedOrders).Along Shields calls)
    (admitted : ∀ op, .op op ∈ calls → op.Admitted (.below (2 ^ 32))) :
    ∃ p taken, (new band stock expectedOrders).run calls = some (p, taken) ∧
      p.Reread band stock expectedOrders' (taken ++ p.sink.out) := by
  have shields (p : Publisher) (m : Market) (op : Op) (holds : p.engine.Holds m) (_ : True)
      (shields : p.Shields op) : m.Shields op := shields m holds
  exact run_reread _ _ _ _ shields (fun _ _ _ _ _ _ _ _ _ _ => trivial) trivial narrow shielded
    admitted

end new

/-- A call phase over orders and stops that waits for the resumption of an uncrossed book. -/
theorem run_enters_round :
    let band : Band := ⟨5, 15, by decide, by decide, by decide⟩
    let calls : List Call :=
      [.op (.submitIceberg .sell 10 4 2 .gtc 1 .cancelTaker),
        .op (.submitLimit .buy 10 3 .gtc 2 .cancelTaker), .drain, .op .halt,
        .op (.submitStop .buy 11 2 3 .cancelTaker)]
    ∃ p taken, (new band [] 16).run calls = some (p, taken) ∧
      p.Reread band [] 16 (taken ++ p.sink.out) := by
  intro band calls
  have enters : (new band [] 16).Along Enters calls := by
    simp [calls, Along, Enters]
  have admitted : ∀ op, .op op ∈ calls → op.Admitted (.below (2 ^ 32)) := by
    intro op member
    simp only [calls, List.mem_cons, Call.op.injEq, List.not_mem_nil, or_false, false_or,
      reduceCtorEq] at member
    rcases member with rfl | rfl | rfl | rfl
    · exact show (4 : Qty) < 2 ^ 32 by decide
    · exact show (3 : Qty) < 2 ^ 32 by decide
    · trivial
    · exact show (2 : Qty) < 2 ^ 32 by decide
  exact run_enters band [] 16 16 (by decide) enters admitted

/-! ## An overlap -/

/-- A bid at 10 and an offer at 9 that hides two of four stand when trading resumes. A buy takes
what the offer displays, and the next clip trades in the consumer. -/
theorem not_reread_overlap :
    let band : Band := ⟨5, 15, by decide, by decide, by decide⟩
    let calls : List Call :=
      [.op .halt, .op (.submitLimit .buy 10 5 .gtc 1 .cancelTaker),
        .op (.submitIceberg .sell 9 4 2 .gtc 2 .cancelTaker), .op .resume,
        .op (.submitLimit .buy 9 2 .gtc 3 .cancelTaker)]
    ∃ p taken, (new band [] 16).run calls = some (p, taken) ∧
      ¬ p.Reread band [] 16 (taken ++ p.sink.out) := by
  intro band calls
  have seen : ((new band [] 16).run calls).map (fun run =>
      (decide (run.1.sink.nextRef ≤ 2 ^ 64),
        (BookBuilder.readAll {} (.new band ([] : Tape) 16)
          (bodies (.ofBytes []) (run.2 ++ run.1.sink.out))).map fun read =>
            decide (.trade ⟨3, 1, 10, 2, .sell⟩ ∈ read.2.h))) = some (true, some true) := by
    decide +kernel
  rcases Option.map_eq_some_iff.mp seen with ⟨⟨p, taken⟩, ran, result⟩
  rw [Prod.mk.injEq, decide_eq_true_eq] at result
  refine ⟨p, taken, ran, fun reread => ?_⟩
  rcases reread result.1 with ⟨b, e, read, -, -, untraded⟩
  rw [read, Option.map_some, Option.some.injEq, decide_eq_true_eq] at result
  exact untraded _ result.2

theorem along_append {Before : Publisher → Op → Prop} {more : List Call}
    (first : p.Along Before calls)
    (second : ∀ p' taken, p.run calls = some (p', taken) → p'.Along Before more) :
    p.Along Before (calls ++ more) := by
  induction calls generalizing p with
  | nil => exact second p [] rfl
  | cons call calls induction =>
      refine ⟨first.1, fun p₁ now called => induction (first.2 p₁ now called) ?_⟩
      intro p' later ran
      refine second p' (now ++ later) ?_
      rw [run, called]
      show (p₁.run calls).bind _ = _
      rw [ran]
      rfl

theorem Along.imp {Before After : Publisher → Op → Prop} (along : p.Along Before calls)
    (weaker : ∀ p op, Before p op → After p op) : p.Along After calls := by
  induction calls generalizing p with
  | nil => trivial
  | cons call calls induction =>
      exact ⟨fun op same => weaker p op (along.1 op same), fun p' taken called =>
        induction (along.2 p' taken called)⟩

/-- Operations that are shielded under an invariant are shielded all along. -/
theorem along_shields {Invariant : Market → Prop} {Before : Publisher → Op → Prop}
    {earlier : List Publication} {screen : Screen}
    (shields : ∀ p m op, p.engine.Holds m → Invariant m → Before p op → m.Shields op)
    (kept : ∀ p m op events m' ret, p.engine.Holds m → Invariant m → .op op ∈ calls →
      Before p op → m.Performs op events m' ret → Invariant m')
    (same : ∀ (p p' : Publisher) m m', p.engine.Holds m → p'.engine.Holds m' →
      (∀ (side : Side) px, p'.engine.queue side.book px = p.engine.queue side.book px) →
      p'.engine.halted = p.engine.halted → Invariant m → Invariant m')
    (tracks : p.Tracks earlier m screen) (initial : Invariant m) (along : p.Along Before calls) :
    p.Along Shields calls := by
  induction calls generalizing p m earlier screen with
  | nil => trivial
  | cons call calls induction =>
      have kept' (p : Publisher) (m : Market) (op : Op) (events : List Event) (m' : Market)
          (ret : Ret) (holds : p.engine.Holds m) (before : Invariant m) (member : .op op ∈ calls) :=
        kept p m op events m' ret holds before (List.mem_cons_of_mem call member)
      constructor
      · rintro op rfl m' holds
        have initial' := same p p m m' tracks.holds holds (fun _ _ => rfl) rfl initial
        exact shields p m' op holds initial' (along.1 op rfl)
      · intro p' taken called
        have along' := along.2 p' taken called
        cases call with
        | op op =>
            rcases tracks.step op with ⟨engine, ret, m', events, screen', stepped, did, tracks'⟩
            rw [Publisher.call, stepped] at called
            cases called
            exact induction kept' tracks' (kept p m op events m' ret tracks.holds initial
              List.mem_cons_self (along.1 op rfl) did.performs) along'
        | drain =>
            rcases tracks.call .drain with ⟨p₁, out, m', screen', called', tracks', -⟩
            cases called
            cases called'
            exact induction kept' tracks' (same p p.drain.1 m m' tracks.holds tracks'.holds
              (fun _ _ => rfl) rfl initial) along'

theorem along_bare {earlier : List Publication} {screen : Screen}
    (tracks : p.Tracks earlier m screen) (bare : m.Bare)
    (shows : ∀ op, .op op ∈ calls → ¬ op.Hides) : p.Along Shields calls := by
  have along (p : Publisher) (rest : List Call) (sub : rest ⊆ calls) :
      p.Along (fun _ op => ¬ op.Hides) rest := by
    induction rest generalizing p with
    | nil => trivial
    | cons call rest induction =>
        rw [List.cons_subset] at sub
        exact ⟨fun op same => shows op (same ▸ sub.1), fun p' _ _ => induction p' sub.2⟩
  have shields (p : Publisher) (m : Market) (op : Op) (holds : p.engine.Holds m) (bare : m.Bare)
      (shows : ¬ op.Hides) : m.Shields op := bare.shields holds.valid shows
  have kept (p : Publisher) (m : Market) (op : Op) (events : List Event) (m' : Market) (ret : Ret)
      (_ : p.engine.Holds m) (bare : m.Bare) (_ : .op op ∈ calls) (shows : ¬ op.Hides)
      (performs : m.Performs op events m' ret) : m'.Bare := performs.bare bare shows
  exact along_shields shields kept
    (fun _ _ _ _ holds holds' same _ bare => bare.of_queues holds holds' same)
    tracks bare (along p calls (List.Subset.refl calls))

theorem along_enters {earlier : List Publication} {screen : Screen}
    (tracks : p.Tracks earlier m screen) (clear : Clear m)
    (along : p.Along (fun p op => p.Enters op ∨ (op = .uncross ∧ p.engine.RenewsInPlace)) calls) :
    p.Along Shields calls := by
  have resumes {p : Publisher} {m : Market} {op : Op} (holds : p.engine.Holds m)
      (before : p.Enters op ∨ (op = .uncross ∧ p.engine.RenewsInPlace)) :
      op = .resume → m.ReservesClear := by
    rintro rfl
    rcases before with enters | ⟨uncross, -⟩
    · exact (holds.uncrossed_iff.mp (enters.2 rfl)).reservesClear
    · cases uncross
  have shields (p : Publisher) (m : Market) (op : Op) (holds : p.engine.Holds m) (clear : Clear m)
      (before : p.Enters op ∨ (op = .uncross ∧ p.engine.RenewsInPlace)) : m.Shields op := by
    rcases before with enters | ⟨rfl, renews⟩
    · exact clear.shields holds.valid enters.1 (resumes holds (.inl enters))
    · exact (holds.inPlace renews).shields holds.valid
  have kept (p : Publisher) (m : Market) (op : Op) (events : List Event) (m' : Market) (ret : Ret)
      (holds : p.engine.Holds m) (clear : Clear m) (_ : .op op ∈ calls)
      (before : p.Enters op ∨ (op = .uncross ∧ p.engine.RenewsInPlace))
      (performs : m.Performs op events m' ret) : Clear m' :=
    performs.clear holds.valid clear (resumes holds before)
  exact along_shields shields kept
    (fun _ _ _ _ holds holds' same flag clear => clear.of_queues holds holds' same flag)
    tracks clear along

/-- An offer at 8 that hides eight of ten is crossed by a bid at 10. -/
theorem run_shielded_auction :
    let band : Band := ⟨5, 15, by decide, by decide, by decide⟩
    let calls : List Call :=
      [.op .halt, .op (.submitIceberg .sell 8 10 2 .gtc 1 .cancelTaker),
        .op (.submitLimit .buy 10 5 .gtc 2 .cancelTaker)]
    let more : List Call := [.op .uncross, .drain]
    ∃ p taken, (new band [] 16).run (calls ++ more) = some (p, taken) ∧
      p.Reread band [] 16 (taken ++ p.sink.out) := by
  intro band calls more
  have clear : Clear (.new band) := .inr fun _ _ _ member => absurd member List.not_mem_nil
  have along : (new band [] 16).Along
      (fun p op => p.Enters op ∨ (op = .uncross ∧ p.engine.RenewsInPlace)) (calls ++ more) := by
    apply along_append
    · simp [calls, Along, Enters]
    · intro p taken ran
      have seen : ((new band [] 16).run calls).map (fun run =>
          (run.1.engine.halted, ([.buy, .sell] : List Side).all fun side =>
            (run.1.engine.ladder side).all fun px => (run.1.engine.queue side.book px).all fun o =>
              o.reserve = 0 ∨ px = run.1.engine.clearingPrice)) = some (true, true) := by
        decide +kernel
      rw [ran, Option.map_some, Option.some.injEq, Prod.mk.injEq] at seen
      have renews := MatchingEngine.renewsInPlace_of seen.1 seen.2
      simp [more, Along, Enters, renews]
  have admitted : ∀ op, .op op ∈ calls ++ more → op.Admitted (.below (2 ^ 32)) := by
    intro op member
    simp only [calls, more, List.cons_append, List.nil_append, List.mem_cons, Call.op.injEq,
      List.not_mem_nil, or_false, reduceCtorEq] at member
    rcases member with rfl | rfl | rfl | rfl
    · trivial
    · exact show (10 : Qty) < 2 ^ 32 by decide
    · exact show (5 : Qty) < 2 ^ 32 by decide
    · trivial
  exact run_shielded band [] 16 16 (by decide) (along_enters (tracks_new band [] 16) clear along)
    admitted

end Publisher

end Itch

end Matchbook
