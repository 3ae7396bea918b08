import Matchbook.Feed.BookRoundTrip
import Matchbook.Feed.Isolation
import Matchbook.Feed.McastDelivery
import Matchbook.Feed.Pipeline

namespace Matchbook

/-! # From the publisher to a book

A publisher writes its file, a sender frames it in packets, the network loses, repeats and
reorders them, a receiver parses what is new, and a ring hands it to the thread with the book. -/

namespace Itch

def frames (stock : Stock) (published : List Publication) : List UInt8 :=
  (bodies stock published).flatMap frame

namespace Sink

variable {sink : Sink}

theorem stock_on (sink : Sink) (event : Event) : (Handler.on sink event).stock = sink.stock := by
  have execCross (sink : Sink) (id : OrderId) (fill : Qty) (px : Price) :
      (sink.execCross id fill px).stock = sink.stock := by
    rw [Sink.execCross]
    cases sink.slot id with
    | none => rfl
    | some r =>
        dsimp only
        generalize (if fill < r.displayed then fill else r.displayed) = part
        split <;> rfl
  cases event with
  | accept => rfl
  | reject => rfl
  | trade t =>
      show (sink.evTrade t).stock = sink.stock
      rw [evTrade]
      split
      · rw [execCross, execCross]
      · cases sink.slot t.maker <;> rfl
  | cancel id =>
      show (sink.evCancel id).stock = sink.stock
      rw [evCancel]
      split <;> rfl
  | rest => rfl

theorem stock_onAll (sink : Sink) (events : List Event) :
    (Handler.onAll sink events).stock = sink.stock := by
  induction events generalizing sink with
  | nil => rfl
  | cons event events induction => exact (induction _).trans (sink.stock_on event)

end Sink

namespace Publisher

variable {p p' : Publisher} {m m' : Market} {earlier taken : List Publication} {screen : Screen}
  {op : Op} {calls : List Call}

theorem stock_publishShrink (p : Publisher) (id : OrderId) (before : Qty) :
    (p.publishShrink id before).sink.stock = p.sink.stock := by
  rw [publishShrink]
  cases p.sink.slot id with
  | none => rfl
  | some r =>
      dsimp only
      split
      · rfl
      · split <;> rfl

theorem stock_closed (p : Publisher) (engine : MatchingEngine Sink) (op : Op) (ret : Ret) :
    (p.closed engine op ret).sink.stock = engine.h.stock := by
  unfold closed
  split
  · split
    · exact stock_publishShrink { engine } _ _
    · rfl
  · split
    · exact stock_publishShrink { engine } _ _
    · rfl
  · dsimp only
    split <;> rfl
  · rfl

theorem stock_did {engine : MatchingEngine Sink} {ret : Ret} {events : List Event}
    (did : (p.opened op).engine.Did m op engine m' ret events) :
    (p.closed engine op ret).sink.stock = p.sink.stock := by
  have told : engine.h = Handler.onAll (p.opened op).sink events := did.told
  have opened : (p.opened op).sink.stock = p.sink.stock := by cases op <;> rfl
  rw [stock_closed, told, Sink.stock_onAll, opened]

/-! ## The file of a session -/

def fileCall (p : Publisher) : Call → Option (Publisher × List UInt8)
  | .op op => (p.step op).map (·.map id fun _ => [])
  | .drain => some p.appendStream

def fileRun (p : Publisher) : List Call → Option (Publisher × List UInt8)
  | [] => some (p, [])
  | call :: calls => do
      let (p, written) ← p.fileCall call
      let (p, later) ← p.fileRun calls
      some (p, written ++ later)

theorem fileRun_eq (tracks : p.Tracks earlier m screen) :
    p.fileRun calls = (p.run calls).map (·.map id (frames p.sink.stock)) := by
  induction calls generalizing p m earlier screen with
  | nil => rfl
  | cons call calls induction =>
      cases call with
      | op op =>
          rcases tracks.step op with ⟨engine, ret, m', events, screen', stepped, did, tracks'⟩
          rw [fileRun, run, fileCall, Publisher.call, stepped]
          simp only [Option.map_some, Option.bind_eq_bind, Option.bind_some, Prod.map_apply, id_eq,
            induction tracks', stock_did did]
          cases (p.closed engine op ret).run calls <;> rfl
      | drain =>
          have stays : p.appendStream = (p.drain.1, frames p.sink.stock p.sink.out) := by
            rw [frames, bodies, List.flatMap_map]
            rfl
          have same : p.drain.1.sink.stock = p.sink.stock := rfl
          have later := induction tracks.drained
          rw [same] at later
          rw [fileRun, run, fileCall, Publisher.call, stays]
          simp only [Option.bind_eq_bind, Option.bind_some, later]
          cases p.drain.1.run calls with
          | none => rfl
          | some after =>
              have split : frames p.sink.stock (p.sink.out ++ after.2) =
                  frames p.sink.stock p.sink.out ++ frames p.sink.stock after.2 := by
                rw [frames, bodies, List.map_append, List.flatMap_append]
                rfl
              exact congrArg (fun file => some (after.1, file)) split.symm

theorem readFrames_frames (stock : Stock) (published : List Publication) :
    readFrames (frames stock published) = bodies stock published := by
  have read := (readFrames_parsesBack (published.map (Publication.encoding stock))).1
  rw [List.flatMap_map, List.map_map] at read
  rw [frames, bodies, List.flatMap_map]
  exact read

end Publisher

/-! ## Reading it back -/

section reading

variable {b : BookBuilder} {e : MatchingEngine Tape} {stock : Stock} {published : List Publication}

theorem BookBuilder.readAll_eq (received : List (List UInt8)) :
    b.readAll e received = b.applyAll e (received.filterMap fun body => parse body {}) := by
  induction received generalizing b e with
  | nil => rfl
  | cons body received induction =>
      rw [readAll, read, List.filterMap_cons]
      cases parse body {} with
      | none => exact induction
      | some m =>
          rw [applyAll]
          simp only [Option.bind_eq_bind, induction]

theorem wanted_bodies (m : Message)
    (member : m ∈ (bodies stock published).filterMap fun body => parse body {}) :
    Mcast.wanted stock.bytes m = true := by
  rcases List.mem_filterMap.mp member with ⟨body, isBody, parsed⟩
  rcases List.mem_map.mp isBody with ⟨message, -, rfl⟩
  rw [(Encoding.parsesBack _ _).whole] at parsed
  cases message <;> cases parsed <;> simp [Mcast.wanted]

end reading

end Itch

/-! ## The wire -/

namespace Mcast

open Mold Itch

variable {sent : List (List UInt8)} {receiver : Receiver} {reception : Reception}

theorem Receives.complete (receives : Receives sent receiver reception)
    (fits : sent.length + 1 < 2 ^ 64) (ended : receiver.eos = true)
    (gapless : receiver.tracker.gapMsgs = 0) : receiver.applied.map Prod.snd = sent := by
  have expected := receives.ended ended
  have balance := reception.balance
  have missed : reception.missed = 0 := by
    have gaps := congrArg UInt64.toNat (receives.tracks.gapMsgs.symm.trans gapless)
    rwa [UInt64.toNat_ofNat_of_lt' (by change reception.missed < 2 ^ 64; omega)] at gaps
  rw [receives.applied, reception.taken_of_complete missed, expected, List.map_map,
    Nat.add_sub_cancel]
  apply List.ext_getElem
  · simp
  · intro i inside inside'
    simp [entry, inside']

end Mcast

namespace Itch

namespace Publisher

open Mcast

variable {p : Publisher} {calls : List Call} {b : BookBuilder} {e : MatchingEngine Tape}

section session

variable (band : Band) (stock : List UInt8) (expectedOrders expectedOrders' : Nat)

/-- Messages that lead a new engine to the book of the publisher under its flag, without a
trade. -/
def Builds (p : Publisher) (feed : List Message) : Prop :=
  ∃ b e, BookBuilder.applyAll {} (.new band ([] : Tape) expectedOrders') feed = some (b, e) ∧
    p.SameBook b e ∧ e.halted = p.engine.halted ∧ ∀ t, .trade t ∉ e.h

/-- What a session has put behind its file builds its book, if all that it published is there
and no clip that came up misleads. -/
theorem run_replayed (narrow : 0 ≤ band.min ∧ band.max < 2 ^ 32)
    (shielded : (new band stock expectedOrders).Along Shields calls)
    (admitted : ∀ op, .op op ∈ calls → op.Admitted (.below (2 ^ 32))) :
    ∃ p file, (new band stock expectedOrders).fileRun calls = some (p, file) ∧
      (p.sink.out = [] → p.sink.nextRef ≤ 2 ^ 64 →
        p.Builds band expectedOrders'
          ((readFrames file).filterMap fun body => parse body {})) := by
  have shields (p : Publisher) (m : Market) (op : Op) (holds : p.engine.Holds m) (_ : True)
      (shields : p.Shields op) : m.Shields op := shields m holds
  rcases run_reread band stock expectedOrders expectedOrders' shields
    (fun _ _ _ _ _ _ _ _ _ _ => trivial) trivial narrow shielded admitted with
    ⟨p, taken, ran, reread⟩
  have wrote : (new band stock expectedOrders).fileRun calls = _ :=
    fileRun_eq (tracks_new band stock expectedOrders)
  rw [ran] at wrote
  refine ⟨p, frames (.ofBytes stock) taken, wrote, fun written wide => ?_⟩
  rcases reread wide with ⟨b, e, read, same, flag, untraded⟩
  rw [written, List.append_nil, BookBuilder.readAll_eq] at read
  rw [readFrames_frames]
  exact ⟨b, e, read, same, flag, untraded⟩

/-- However the network loses, repeats and reorders the packets, and however the two threads of
the receiver take turns: a receiver that saw the end of the session and counted no gap has the
book of the publisher. -/
theorem run_multicast (narrow : 0 ≤ band.min ∧ band.max < 2 ^ 32)
    (shielded : (new band stock expectedOrders).Along Shields calls)
    (admitted : ∀ op, .op op ∈ calls → op.Admitted (.below (2 ^ 32))) :
    ∃ p file, (new band stock expectedOrders).fileRun calls = some (p, file) ∧
      (p.sink.out = [] → p.sink.nextRef ≤ 2 ^ 64 → (readFrames file).length + 1 < 2 ^ 64 →
        ∀ deliveries, (∀ pkt ∈ deliveries, pkt ∈ runSend (readFrames file)) →
          ∀ receiver, receiver = Receiver.receive (padSymbol stock) {} deliveries →
            receiver.eos = true → receiver.tracker.gapMsgs = 0 →
            ∀ (capacity : CapacityPow2) (buf : Vector Message capacity.size)
              (schedule : List Pipeline.Turn) (pipeline : Pipeline Message capacity),
              pipeline = (Pipeline.start receiver.pushed buf).run schedule →
              pipeline.loop = .exited → p.Builds band expectedOrders' pipeline.applied) := by
  rcases run_replayed band stock expectedOrders expectedOrders' narrow shielded admitted with
    ⟨p, file, wrote, builds⟩
  refine ⟨p, file, wrote, ?_⟩
  intro written wide few deliveries drawn receiver received ended gapless capacity buf schedule
    pipeline running exited
  have isFile : ∃ published, readFrames file = bodies (.ofBytes stock) published := by
    have equal : (new band stock expectedOrders).fileRun calls = _ :=
      fileRun_eq (tracks_new band stock expectedOrders)
    rw [wrote] at equal
    rcases Option.map_eq_some_iff.mp equal.symm with ⟨⟨p₁, taken⟩, -, same⟩
    cases same
    exact ⟨taken, readFrames_frames _ _⟩
  rcases isFile with ⟨published, isFile⟩
  have short : ∀ body ∈ readFrames file, body.length ≤ 65535 := by
    rw [isFile]
    intro body member
    rcases List.mem_map.mp member with ⟨message, -, rfl⟩
    exact Nat.le_of_lt_succ (message.encoding _).short_body
  rcases runSend_eq (readFrames file) short with ⟨batches, flat, sendable, onWire⟩
  rcases (receives_start batches.flatten).run (padSymbol stock) sendable (by rw [flat]; exact few)
    deliveries (fun pkt member => (onWire pkt).mp (drawn pkt member)) with ⟨reception, receives⟩
  rw [flat, ← received] at receives
  have whole := receives.complete few ended gapless
  have filtered := Receiver.receive_filtered (padSymbol stock) deliveries
  rw [← received] at filtered
  have parsed : (receiver.applied.filterMap fun block => parse block.2 {}) =
      (readFrames file).filterMap fun body => parse body {} := by
    rw [← whole, List.filterMap_map]
    rfl
  have pushed : receiver.pushed = (readFrames file).filterMap fun body => parse body {} := by
    rw [filtered, parsed, isFile, List.filter_eq_self]
    exact fun m member => wanted_bodies m member
  have applied := (Pipeline.run_exactlyOnce receiver.pushed buf schedule).2.2.1
  rw [← running] at applied
  rw [applied exited, pushed]
  exact builds written wide

end session

/-- Two bids, a partial fill and a halt, in one packet that comes twice. -/
theorem run_multicast_twice :
    let band : Band := ⟨5, 15, by decide, by decide, by decide⟩
    let calls : List Call :=
      [.op (.submitLimit .buy 10 5 .gtc 1 .cancelTaker),
        .op (.submitLimit .buy 9 3 .gtc 2 .cancelTaker), .drain,
        .op (.submitLimit .sell 10 2 .gtc 3 .cancelTaker), .op .halt, .drain]
    ∃ p file, (new band mbtest 16).fileRun calls = some (p, file) ∧
      ∃ (capacity : CapacityPow2) (buf : Vector Message capacity.size)
        (schedule : List Pipeline.Turn),
        p.Builds band 16 ((Pipeline.start (Receiver.receive (padSymbol mbtest) {}
          ((runSend (readFrames file)).take 1 ++ runSend (readFrames file))).pushed
            buf).run schedule).applied := by
  intro band calls
  have bare : (Market.new band).Bare := fun _ _ _ member => absurd member List.not_mem_nil
  have shows : ∀ op, .op op ∈ calls → ¬ op.Hides := by
    simp [calls, Op.Hides]
  have admitted : ∀ op, .op op ∈ calls → op.Admitted (.below (2 ^ 32)) := by
    intro op member
    simp only [calls, List.mem_cons, Call.op.injEq, List.not_mem_nil, or_false, false_or,
      reduceCtorEq] at member
    rcases member with rfl | rfl | rfl | rfl
    · exact show (5 : Qty) < 2 ^ 32 by decide
    · exact show (3 : Qty) < 2 ^ 32 by decide
    · exact show (2 : Qty) < 2 ^ 32 by decide
    · trivial
  let capacity : CapacityPow2 := ⟨1, by decide⟩
  let buf : Vector Message capacity.size := Vector.replicate _ {}
  let schedule := (List.replicate 80 [Pipeline.Turn.feeder, .loop true]).flatten
  let heard (file : List UInt8) : Receiver := Receiver.receive (padSymbol mbtest) {}
    ((runSend (readFrames file)).take 1 ++ runSend (readFrames file))
  have seen : ((new band mbtest 16).fileRun calls).map (fun run =>
      (run.1.sink.out.length, run.1.sink.nextRef, (readFrames run.2).length, (heard run.2).eos,
        (heard run.2).tracker.gapMsgs,
        decide (((Pipeline.start (heard run.2).pushed buf).run schedule).loop = .exited))) =
      some (0, 3, 4, true, 0, true) := by
    decide +kernel
  rcases run_multicast band mbtest 16 16 (by decide) (along_bare (tracks_new band mbtest 16) bare
    shows) admitted with ⟨p, file, wrote, builds⟩
  rw [wrote, Option.map_some, Option.some.injEq] at seen
  simp only [Prod.mk.injEq, decide_eq_true_eq, List.length_eq_zero_iff] at seen
  rcases seen with ⟨written, refs, count, ended, gapless, exited⟩
  have twice : ∀ pkt ∈ (runSend (readFrames file)).take 1 ++ runSend (readFrames file),
      pkt ∈ runSend (readFrames file) := fun pkt member =>
    (List.mem_append.mp member).elim List.mem_of_mem_take id
  exact ⟨p, file, wrote, capacity, buf, schedule, builds written (by rw [refs]; decide)
    (by rw [count]; decide) _ twice (heard file) rfl ended gapless capacity buf schedule _ rfl
    exited⟩

end Publisher

end Itch

end Matchbook
