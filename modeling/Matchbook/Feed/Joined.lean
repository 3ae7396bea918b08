import Matchbook.Feed.AuctionRoundTrip
import Matchbook.Feed.LateJoin

namespace Matchbook

/-! # After joining

The joiner has the book of the snapshot under the references of the live stream, so it goes on
as a consumer that was there from the start. -/

namespace Itch

open Mold

namespace Publisher

variable {p p' : Publisher} {m : Market} {screen : Screen} {taken : List Publication}
  {b : BookBuilder} {e : MatchingEngine Tape} {calls : List Call}

/-- Whoever shows the displayed book of a session after messages of its own copies it. -/
theorem Tracks.copies (tracks : p.Tracks taken m screen) {band : Band}
    (session : Session band p taken m) {stock : Stock} {messages : List Publication}
    {expectedOrders : Nat}
    (read : BookBuilder.readAll {} (.new band ([] : Tape) expectedOrders)
      (bodies stock messages) = some (b, e))
    (same : p.SameBook b e) (flag : e.halted = p.engine.halted) :
    ∃ copy, Copies p.sink m b e copy := by
  have plain : (Market.new band).Plain := (copies_new band expectedOrders p.sink).plain
  have start : BookBuilder.Trails (.new band ([] : Tape) expectedOrders) band.min band.max false :=
    ⟨⟨.new band, MatchingEngine.holds_new .., plain, rfl, rfl⟩, rfl⟩
  rcases BookBuilder.readAll_trails (b := {}) start stock messages with ⟨b₁, e₁, read₁, trails⟩
  rw [read] at read₁
  cases read₁
  have halted : e.halted = m.halted := flag.trans tracks.holds.shows.halted
  rw [← trails.halted, halted, ← session.band.1, ← session.band.2] at trails
  exact copies_of_sameBook tracks.holds trails same

/-- What a joiner has after the wire of a longer session: the book of the publisher under its
flag, and no trade. -/
def Keeps (p : Publisher) (stock : Stock) (session : List UInt8) (number : Nat)
    (b : BookBuilder) (e : MatchingEngine Tape) (published : List Publication) : Prop :=
  ∃ b' e', b.readAll e (listenAll { expected := UInt64.ofNat number }
      (wireFrom session 1 (bodies stock published))).2 = some (b', e') ∧
    p.SameBook b' e' ∧ e'.halted = p.engine.halted ∧ ∀ t, .trade t ∉ e'.h

/-- A joiner keeps the book of the publisher through every session that goes on from the
snapshot, as long as no clip that comes up misleads it. -/
theorem run_joined (band : Band) (stock : List UInt8) (expectedOrders expectedOrders' : Nat)
    (session : List UInt8) (calls : List Call) (taken : List Publication)
    (narrow : 0 ≤ band.min ∧ band.max < 2 ^ 32)
    (admitted : ∀ op, .op op ∈ calls → op.Admitted (.below (2 ^ 32)))
    (ran : (new band stock expectedOrders).run calls = some (p, taken))
    (settled : p.engine.halted = true ∨ p.engine.Uncrossed) (wide : p.sink.nextRef ≤ 2 ^ 64) :
    ∃ messages number b e, p.snapshot = some (messages, number) ∧
      BookBuilder.readAll {} (.new band ([] : Tape) expectedOrders')
        (bodies (.ofBytes stock) messages) = some (b, e) ∧
      ∀ more, p.Along Shields more →
        (∀ op, .op op ∈ more → op.Admitted (.below (2 ^ 32))) →
        ∃ p' later, p.run more = some (p', later) ∧
          (p'.sink.nextRef ≤ 2 ^ 64 → (taken ++ later ++ p'.sink.out).length + 1 < 2 ^ 64 →
            p'.Keeps (.ofBytes stock) session number b e (taken ++ later ++ p'.sink.out)) := by
  rcases session_run (tracks_new band stock expectedOrders)
    (session_new band stock expectedOrders narrow) admitted ran with ⟨m, screen, tracks, known⟩
  rw [List.nil_append] at tracks known
  rcases tracks.snapshot known (.ofBytes stock) expectedOrders' settled wide with
    ⟨messages, snapped, b, e, read, same, flag, untraded⟩
  rcases tracks.copies known read same flag with ⟨copy, copies⟩
  have follows : p.Follows m b e copy :=
    ⟨tracks.holds, known.fits, tracks.calm, copies, taken, screen, tracks.tells, tracks.onScreen⟩
  refine ⟨messages, p.sink.seq, b, e, snapped, read, fun more shielded admitted' => ?_⟩
  rcases tracks.run more with ⟨p', later, -, -, ran', -⟩
  refine ⟨p', later, ran', fun wide' few => ?_⟩
  have shields (p : Publisher) (m : Market) (op : Op) (holds : p.engine.Holds m) (_ : True)
      (shields : p.Shields op) : m.Shields op := shields m holds
  rcases follows.run shields (fun _ _ _ _ _ _ _ _ _ _ => trivial) (.ofBytes stock) trivial
    shielded admitted' ran' wide' with ⟨m', live, b', e', copy', out, read', silent, follows'⟩
  have whole : taken ++ later ++ p'.sink.out = taken ++ p.sink.out ++ live := by
    rw [List.append_assoc, out, List.append_assoc]
  have streams := streams_run tracks known.streams ran'
  rw [whole] at streams few
  rw [whole, known.streams.next]
  have heard := ((streams.splices session (.ofBytes stock)).through few).1
  refine ⟨b', e', ?_, follows'.sameBook, follows'.sameFlag, fun t traded => ?_⟩
  · rw [heard]
    exact read'
  · exact untraded t (silent t traded)

theorem Tracks.bare_run (tracks : p.Tracks taken m screen) (bare : m.Bare)
    (shows : ∀ op, .op op ∈ calls → ¬ op.Hides) {later : List Publication}
    (ran : p.run calls = some (p', later)) :
    ∃ m' screen', p'.Tracks (taken ++ later) m' screen' ∧ m'.Bare := by
  let Invariant (_ : Publisher) (_ : List Publication) (m : Market) : Prop := m.Bare
  have operates (q : Publisher) (earlier : List Publication) (m : Market) (screen : Screen)
      (op : Op) (engine : MatchingEngine Sink) (ret : Ret) (m' : Market) (events : List Event)
      (_ : q.Tracks earlier m screen) (did : (q.opened op).engine.Did m op engine m' ret events)
      (member : .op op ∈ calls) (before : Invariant q earlier m) :
      Invariant (q.closed engine op ret) earlier m' := did.performs.bare before (shows op member)
  exact tracks.session operates (fun _ _ _ before => before) bare ran

/-- A call phase over a bid at 10 and an offer at 8, that the joiner gets, and its auction. -/
theorem run_joined_auction :
    let band : Band := ⟨5, 15, by decide, by decide, by decide⟩
    let calls : List Call :=
      [.op .halt, .op (.submitLimit .buy 10 5 .gtc 1 .cancelTaker), .drain,
        .op (.submitLimit .sell 8 4 .gtc 2 .cancelTaker)]
    let more : List Call := [.op .uncross, .drain, .op .resume, .op (.modify 1 9 3)]
    ∃ p taken messages number b e, (new band [] 16).run calls = some (p, taken) ∧
      p.snapshot = some (messages, number) ∧
      BookBuilder.readAll {} (.new band ([] : Tape) 16) (bodies (.ofBytes []) messages) =
        some (b, e) ∧
      ∃ p' later, p.run more = some (p', later) ∧
        (p'.sink.nextRef ≤ 2 ^ 64 → (taken ++ later ++ p'.sink.out).length + 1 < 2 ^ 64 →
          p'.Keeps (.ofBytes []) [] number b e (taken ++ later ++ p'.sink.out)) := by
  intro band calls more
  have bare : (Market.new band).Bare := fun _ _ _ member => absurd member List.not_mem_nil
  have shows : ∀ op, .op op ∈ calls → ¬ op.Hides := by
    simp [calls, Op.Hides]
  have shows' : ∀ op, .op op ∈ more → ¬ op.Hides := by
    simp [more, Op.Hides]
  have admitted : ∀ op, .op op ∈ calls → op.Admitted (.below (2 ^ 32)) := by
    intro op member
    simp only [calls, List.mem_cons, Call.op.injEq, List.not_mem_nil, or_false, false_or,
      reduceCtorEq] at member
    rcases member with rfl | rfl | rfl
    · trivial
    · exact show (5 : Qty) < 2 ^ 32 by decide
    · exact show (4 : Qty) < 2 ^ 32 by decide
  have admitted' : ∀ op, .op op ∈ more → op.Admitted (.below (2 ^ 32)) := by
    intro op member
    simp only [more, List.mem_cons, Call.op.injEq, List.not_mem_nil, or_false, false_or,
      reduceCtorEq] at member
    rcases member with rfl | rfl | rfl
    · trivial
    · trivial
    · exact fun _ => show (3 : Qty) < 2 ^ 32 by decide
  have seen : ((new band [] 16).run calls).map (fun run =>
      (run.1.engine.halted, run.1.sink.nextRef)) = some (true, 3) := by
    decide +kernel
  rcases Option.map_eq_some_iff.mp seen with ⟨⟨p, taken⟩, ran, result⟩
  rw [Prod.mk.injEq] at result
  rcases (tracks_new band [] 16).bare_run bare shows ran with ⟨m, screen, tracks, bare'⟩
  rcases run_joined band [] 16 16 [] calls taken (by decide) admitted ran (.inl result.1)
    (by rw [result.2]; decide) with ⟨messages, number, b, e, snapped, read, joined⟩
  exact ⟨p, taken, messages, number, b, e, ran, snapped, read,
    joined more (along_bare tracks bare' shows') admitted'⟩

end Publisher

end Itch

end Matchbook
