import Matchbook.Feed.BookRoundTrip
import Matchbook.Feed.Isolation

namespace Matchbook

/-! # The round trip of an auction

Whatever a consumer has read of a publisher, its engine is plain and under the same flag. If it
has the displayed book before an auction, it has it afterwards. -/

namespace Itch

namespace BookBuilder

variable {b : BookBuilder} {e e' : MatchingEngine Tape} {copy copy' : Market} {op : Op}
  {ret : Ret} {events : List Event}

structure Trails (e : MatchingEngine Tape) (min max : Price) (halted : Bool) : Prop where
  market : ∃ copy, e.Holds copy ∧ copy.Plain ∧ copy.min = min ∧ copy.max = max
  halted : e.halted = halted

variable {min max : Price} {halted : Bool}

theorem trails_of_did (did : e.Did copy op e' copy' ret events) (plain : copy.Plain)
    (holds : e.Holds copy) (shows : ¬ op.Hides) (passes : ¬ op.Parks) :
    Trails e' copy.min copy.max (op.haltedAfter e.halted) := by
  have band := did.performs.band
  refine ⟨⟨copy', did.holds, did.performs.plain plain shows passes, band.1, band.2⟩, ?_⟩
  rw [did.holds.shows.halted, did.performs.halted, holds.shows.halted]

theorem apply_trails (trails : Trails e min max halted) (m : Message) :
    ∃ b' e', b.apply e m = some (b', e') ∧ Trails e' min max (haltedAfter halted m) := by
  rcases trails with ⟨⟨copy, holds, plain, rfl, rfl⟩, rfl⟩
  have still : Trails e copy.min copy.max e.halted := ⟨⟨copy, holds, plain, rfl, rfl⟩, rfl⟩
  unfold apply haltedAfter
  cases kind : m.type with
  | add =>
      rcases holds.submitLimit m.side m.price m.qty .gtc 0 .cancelTaker with
        ⟨e', id, copy', events, called, did⟩
      exact ⟨_, e', by rw [called]; rfl, trails_of_did did plain holds nofun nofun⟩
  | execute | cancel =>
      cases known : b.refmap m.ref with
      | none => exact ⟨b, e, by simp, still⟩
      | some id =>
          rcases holds.reduce id m.qty with ⟨e', ok, copy', events, called, did⟩
          exact ⟨_, e', by simp only [called]; rfl, trails_of_did did plain holds nofun nofun⟩
  | delete =>
      cases known : b.refmap m.ref with
      | none => exact ⟨b, e, by simp, still⟩
      | some id =>
          rcases holds.cancel id with ⟨e', ok, copy', events, called, did⟩
          exact ⟨_, e', by simp only [called]; rfl, trails_of_did did plain holds nofun nofun⟩
  | replace =>
      cases known : b.refmap m.ref with
      | none => exact ⟨b, e, by simp, still⟩
      | some id =>
          rcases holds.modify id m.price m.qty with ⟨e', ok, copy', events, called, did⟩
          exact ⟨_, e', by simp only [called]; rfl, trails_of_did did plain holds nofun nofun⟩
  | action =>
      by_cases halts : m.state = 'H'.toUInt8
      · rcases holds.halts plain with ⟨e', called, holds', -⟩
        refine ⟨b, e', by simp [halts, called], ⟨_, holds', ?_, rfl, rfl⟩, ?_⟩
        · exact ⟨plain.shown, plain.unparked⟩
        · simpa [halts] using holds'.shows.halted
      by_cases trades : m.state = 'T'.toUInt8
      · have differ : 'T'.toUInt8 ≠ 'H'.toUInt8 := by decide
        rcases holds.resumes plain with ⟨e', called, holds', -⟩
        refine ⟨b, e', by simp [trades, differ, called], ⟨_, holds', ?_, rfl, rfl⟩, ?_⟩
        · exact ⟨plain.shown, plain.unparked⟩
        · simpa [trades, differ] using holds'.shows.halted
      · exact ⟨b, e, by simp [halts, trades], by simpa [halts, trades] using still⟩
  | other => exact ⟨b, e, rfl, still⟩

theorem read_trails (trails : Trails e min max halted) (stock : Stock) (message : Publication) :
    ∃ b' e', b.read e (message.encoding stock).body = some (b', e') ∧
      Trails e' min max (Publication.flag halted message) := by
  rw [read_body]
  cases message with
  | cross => exact ⟨b, e, rfl, trails⟩
  | _ => exact apply_trails trails _

theorem readAll_trails (trails : Trails e min max halted) (stock : Stock)
    (published : List Publication) :
    ∃ b' e', b.readAll e (bodies stock published) = some (b', e') ∧
      Trails e' min max (published.foldl Publication.flag halted) := by
  induction published generalizing b e halted with
  | nil => exact ⟨b, e, rfl, trails⟩
  | cons message published induction =>
      rcases read_trails (b := b) trails stock message with ⟨b₁, e₁, read, trails₁⟩
      rcases induction (b := b₁) trails₁ with ⟨b', e', rest, trails'⟩
      refine ⟨b', e', ?_, trails'⟩
      rw [bodies, List.map_cons, readAll, read]
      exact rest

end BookBuilder

namespace Publisher

open BookBuilder

variable {p : Publisher} {m : Market} {b : BookBuilder} {e : MatchingEngine Tape}

theorem copies_of_sameBook (holds : p.engine.Holds m) (trails : Trails e m.min m.max m.halted)
    (same : p.SameBook b e) : ∃ copy, Copies p.sink m b e copy := by
  rcases trails with ⟨⟨copy, holds', plain, min, max⟩, halted⟩
  refine ⟨copy, holds', plain, fun side px => ?_, ⟨min, max⟩, ?_⟩
  · rw [← holds.shows.levels, ← holds'.shows.levels]
    exact same side px
  · rw [← holds'.shows.halted, halted]

/-- A consumer that has the displayed book before an auction has it afterwards, if no clip comes
up away from its order. -/
theorem uncross_sameBook (band : Band) (stock : List UInt8)
    (expectedOrders expectedOrders' : Nat) (calls : List Call) (taken : List Publication)
    (narrow : 0 ≤ band.min ∧ band.max < 2 ^ 32)
    (admitted : ∀ op, .op op ∈ calls → op.Admitted (.below (2 ^ 32)))
    (ran : (new band stock expectedOrders).run calls = some (p, taken))
    (read : BookBuilder.readAll {} (.new band ([] : Tape) expectedOrders')
      (bodies (.ofBytes stock) (taken ++ p.sink.out)) = some (b, e))
    (same : p.SameBook b e) (shields : p.Shields .uncross) :
    ∃ p' total, p.uncross = some (p', total) ∧ (p'.sink.nextRef ≤ 2 ^ 64 → ∃ more b' e',
      p'.sink.out = p.sink.out ++ more ∧
        b.readAll e (bodies (.ofBytes stock) more) = some (b', e') ∧ p'.SameBook b' e') := by
  rcases session_run (tracks_new band stock expectedOrders)
    (session_new band stock expectedOrders narrow) admitted ran with ⟨m, screen, tracks, session⟩
  rw [List.nil_append] at tracks session
  have start : Trails (.new band ([] : Tape) expectedOrders') band.min band.max false :=
    ⟨⟨.new band, MatchingEngine.holds_new .., (copies_new band expectedOrders' p.sink).plain, rfl,
      rfl⟩, rfl⟩
  rcases readAll_trails (b := {}) start (.ofBytes stock) (taken ++ p.sink.out) with
    ⟨b₁, e₁, read₁, trails⟩
  rw [read] at read₁
  cases read₁
  rw [← session.streams.flag, tracks.holds.shows.halted, ← session.band.1, ← session.band.2]
    at trails
  rcases copies_of_sameBook tracks.holds trails same with ⟨copy, copies⟩
  have follows : p.Follows m b e copy :=
    ⟨tracks.holds, session.fits, tracks.calm, copies, taken, screen, tracks.tells,
      tracks.onScreen⟩
  rcases follows.step (.ofBytes stock) .uncross trivial (shields m tracks.holds) with
    ⟨p', ret, m', events, stepped, performs, holds', fits', calm', leads⟩
  rcases Option.map_eq_some_iff.mp stepped with ⟨⟨p₁, total⟩, called, answer⟩
  cases answer
  refine ⟨p₁, total, called, fun wide => ?_⟩
  rcases leads wide with ⟨more, b', e', copy', out, read', -, rebuilds⟩
  have follows' : p₁.Follows m' b' e' copy' := ⟨holds', fits', calm', rebuilds⟩
  exact ⟨more, b', e', out, read', follows'.sameBook⟩

/-- A bid at 10 that hides eight of ten, and an offer of five at 8. The auction clears at 8, and
there the consumer gets the next clip of the bid. -/
theorem not_uncross_sameBook :
    let band : Band := ⟨5, 15, by decide, by decide, by decide⟩
    let calls : List Call :=
      [.op .halt, .op (.submitIceberg .buy 10 10 2 .gtc 1 .cancelTaker),
        .op (.submitLimit .sell 8 5 .gtc 2 .cancelTaker)]
    ∃ p taken b e, (new band [] 16).run calls = some (p, taken) ∧ p.engine.halted = true ∧
      BookBuilder.readAll {} (.new band ([] : Tape) 16)
        (bodies (.ofBytes []) (taken ++ p.sink.out)) = some (b, e) ∧ p.SameBook b e ∧
      ∃ p' total more b' e', p.uncross = some (p', total) ∧ p'.sink.out = p.sink.out ++ more ∧
        b.readAll e (bodies (.ofBytes []) more) = some (b', e') ∧ ¬ p'.SameBook b' e' := by
  intro band calls
  let Before (_ : Publisher) (op : Op) : Prop := op ≠ .uncross ∧ op ≠ .resume
  have along : (new band [] 16).Along Before calls := by
    simp [calls, Along, Before]
  have admitted : ∀ op, .op op ∈ calls → op.Admitted (.below (2 ^ 32)) := by
    intro op member
    simp only [calls, List.mem_cons, Call.op.injEq, List.not_mem_nil, or_false] at member
    rcases member with rfl | rfl | rfl
    · trivial
    · exact show (10 : Qty) < 2 ^ 32 by decide
    · exact show (5 : Qty) < 2 ^ 32 by decide
  have shields (p : Publisher) (m : Market) (op : Op) (holds : p.engine.Holds m)
      (clear : m.Clear) (before : Before p op) : m.Shields op :=
    clear.shields holds.valid before.1 fun resume => absurd resume before.2
  have kept (p : Publisher) (m : Market) (op : Op) (events : List Event) (m' : Market) (ret : Ret)
      (holds : p.engine.Holds m) (clear : m.Clear) (before : Before p op)
      (performs : m.Performs op events m' ret) : m'.Clear :=
    performs.clear holds.valid clear fun resume => absurd resume before.2
  have initial : (Market.new band).Clear := .inr fun _ _ _ member => absurd member List.not_mem_nil
  rcases run_reread band [] 16 16 shields kept initial (by decide) along admitted with
    ⟨p, taken, ran, reread⟩
  have seen : ((new band [] 16).run calls).bind (fun run => run.1.uncross.bind fun after =>
      let more := after.1.sink.out.drop run.1.sink.out.length
      (BookBuilder.readAll {} (.new band ([] : Tape) 16)
        (bodies (.ofBytes []) (run.2 ++ run.1.sink.out))).bind fun read =>
          (read.1.readAll read.2 (bodies (.ofBytes []) more)).map fun again =>
            (run.1.sink.nextRef, run.1.engine.halted,
              decide (after.1.sink.out = run.1.sink.out ++ more),
              (after.1.engine.queue Side.buy.book 10).length,
              (again.2.queue Side.buy.book 10).length)) = some (3, true, true, 1, 0) := by
    decide +kernel
  rw [ran, Option.bind_some] at seen
  rcases Option.bind_eq_some_iff.mp seen with ⟨⟨p', total⟩, called, seen⟩
  rcases Option.bind_eq_some_iff.mp seen with ⟨⟨b, e⟩, read, seen⟩
  rcases Option.map_eq_some_iff.mp seen with ⟨⟨b', e'⟩, again, result⟩
  simp only [Prod.mk.injEq, decide_eq_true_eq] at result
  rcases result with ⟨refs, halted, out, source, consumer⟩
  rcases reread (by rw [refs]; decide) with ⟨b₁, e₁, read₁, same, -⟩
  rw [read] at read₁
  cases read₁
  refine ⟨p, taken, b, e, ran, halted, read, same, p', total, _, b', e', called, out, again, ?_⟩
  intro same'
  have lengths := (same' .buy 10).length_eq
  rw [source, consumer] at lengths
  cases lengths

/-- An offer at 8 that hides eight of ten is crossed by a bid at 10. The auction clears at 8, and
there the next clip comes up. -/
theorem uncross_sameBook_iceberg :
    let band : Band := ⟨5, 15, by decide, by decide, by decide⟩
    let calls : List Call :=
      [.op .halt, .op (.submitIceberg .sell 8 10 2 .gtc 1 .cancelTaker), .drain,
        .op (.submitLimit .buy 10 5 .gtc 2 .cancelTaker)]
    ∃ p taken b e, (new band [] 16).run calls = some (p, taken) ∧ p.SameBook b e ∧
      ∃ p' total, p.uncross = some (p', total) ∧ (p'.sink.nextRef ≤ 2 ^ 64 → ∃ more b' e',
        p'.sink.out = p.sink.out ++ more ∧
          b.readAll e (bodies (.ofBytes []) more) = some (b', e') ∧ p'.SameBook b' e') := by
  intro band calls
  have enters : (new band [] 16).Along Enters calls := by
    simp [calls, Along, Enters]
  have admitted : ∀ op, .op op ∈ calls → op.Admitted (.below (2 ^ 32)) := by
    intro op member
    simp only [calls, List.mem_cons, Call.op.injEq, List.not_mem_nil, or_false, false_or,
      reduceCtorEq] at member
    rcases member with rfl | rfl | rfl
    · trivial
    · exact show (10 : Qty) < 2 ^ 32 by decide
    · exact show (5 : Qty) < 2 ^ 32 by decide
  have clear : (Market.new band).Clear := .inr fun _ _ _ member => absurd member List.not_mem_nil
  have shields (p : Publisher) (m : Market) (op : Op) (holds : p.engine.Holds m) (_ : True)
      (shields : p.Shields op) : m.Shields op := shields m holds
  rcases run_reread band [] 16 16 shields (fun _ _ _ _ _ _ _ _ _ _ => trivial) trivial (by decide)
    (along_enters (tracks_new band [] 16) clear (enters.imp fun _ _ => .inl)) admitted with
    ⟨p, taken, ran, reread⟩
  have seen : ((new band [] 16).run calls).map (fun run =>
      (run.1.sink.nextRef, run.1.engine.halted, ([.buy, .sell] : List Side).all fun side =>
        (run.1.engine.ladder side).all fun px => (run.1.engine.queue side.book px).all fun o =>
          o.reserve = 0 ∨ px = run.1.engine.clearingPrice)) = some (3, true, true) := by
    decide +kernel
  rw [ran, Option.map_some, Option.some.injEq, Prod.mk.injEq, Prod.mk.injEq] at seen
  rcases seen with ⟨refs, halted, all⟩
  rcases reread (by rw [refs]; decide) with ⟨b, e, read, same, -⟩
  have renews := MatchingEngine.renewsInPlace_of halted all
  exact ⟨p, taken, b, e, ran, same, uncross_sameBook band [] 16 16 calls taken (by decide) admitted
    ran read same fun m holds => (holds.inPlace renews).shields holds.valid⟩

end Publisher

end Itch

end Matchbook
