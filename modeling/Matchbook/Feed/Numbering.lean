import Matchbook.Engine.FillOrKill
import Matchbook.Feed.RebuiltRuns

namespace Matchbook

/-! # The numbers of the live stream

Every message of a session takes the next sequence number, and what the actions among them say
is the trading state of the engine. -/

namespace Itch

namespace Publication

def seq : Publication → Nat
  | add seq .. | execute seq .. | executePx seq .. | cancel seq .. | delete seq .. | cross seq ..
  | action seq _ => seq

def flag (halted : Bool) : Publication → Bool
  | action _ state =>
      if state = 'H'.toUInt8 then true else if state = 'T'.toUInt8 then false else halted
  | _ => halted

def Calm : Publication → Prop
  | action .. => False
  | _ => True

theorem flag_of_calm {message : Publication} (calm : message.Calm) (halted : Bool) :
    flag halted message = halted := by
  cases message with
  | action => exact calm.elim
  | _ => rfl

theorem foldl_flag_of_calm {more : List Publication} (calm : ∀ message ∈ more, message.Calm)
    (halted : Bool) : more.foldl flag halted = halted := by
  induction more generalizing halted with
  | nil => rfl
  | cons message more induction =>
      rw [List.foldl_cons, flag_of_calm (calm message List.mem_cons_self)]
      exact induction (fun other member => calm other (List.mem_cons_of_mem _ member)) halted

end Publication

namespace Sink

variable {sink sink₁ sink' : Sink} {more later : List Publication} {message : Publication}

structure Numbers (sink sink' : Sink) (more : List Publication) : Prop where
  out : sink'.out = sink.out ++ more
  seq : sink'.seq = sink.seq + more.length
  numbered : more.map Publication.seq = List.range' sink.seq more.length

theorem Numbers.trans (first : sink.Numbers sink₁ more) (second : sink₁.Numbers sink' later) :
    sink.Numbers sink' (more ++ later) where
  out := by rw [second.out, first.out, List.append_assoc]
  seq := by rw [second.seq, first.seq, List.length_append, Nat.add_assoc]
  numbered := by
    rw [List.map_append, first.numbered, second.numbered, first.seq, List.length_append,
      ← List.range'_append_1]

def Quiet (sink sink' : Sink) : Prop :=
  ∃ more, sink.Numbers sink' more ∧ ∀ message ∈ more, message.Calm

theorem quiet_of_same (out : sink'.out = sink.out) (seq : sink'.seq = sink.seq) :
    sink.Quiet sink' :=
  ⟨[], ⟨by rw [out, List.append_nil], seq, rfl⟩, nofun⟩

theorem numbers_one (out : sink'.out = sink.out ++ [message]) (seq : sink'.seq = sink.seq + 1)
    (number : message.seq = sink.seq) : sink.Numbers sink' [message] :=
  ⟨out, seq, congrArg (fun n => [n]) number⟩

theorem quiet_of_one (out : sink'.out = sink.out ++ [message]) (seq : sink'.seq = sink.seq + 1)
    (number : message.seq = sink.seq) (calm : message.Calm) : sink.Quiet sink' :=
  ⟨[message], numbers_one out seq number, fun _ member => List.mem_singleton.mp member ▸ calm⟩

theorem Quiet.trans (first : sink.Quiet sink₁) (second : sink₁.Quiet sink') :
    sink.Quiet sink' := by
  rcases first with ⟨more, numbers, calm⟩
  rcases second with ⟨later, numbers', calm'⟩
  refine ⟨more ++ later, numbers.trans numbers', fun message member => ?_⟩
  exact (List.mem_append.mp member).elim (calm message) (calm' message)

theorem quiet_execCross (sink : Sink) (id : OrderId) (fill : Qty) (px : Price) :
    sink.Quiet (sink.execCross id fill px) := by
  rw [execCross]
  cases sink.slot id with
  | none => exact quiet_of_same rfl rfl
  | some r =>
      dsimp only
      generalize (if fill < r.displayed then fill else r.displayed) = part
      split
      · exact quiet_of_same rfl rfl
      · exact quiet_of_one rfl rfl rfl trivial

theorem quiet_on (sink : Sink) (event : Event) : sink.Quiet (Handler.on sink event) := by
  cases event with
  | accept => exact quiet_of_same rfl rfl
  | reject => exact quiet_of_same rfl rfl
  | trade t =>
      show sink.Quiet (sink.evTrade t)
      rw [evTrade]
      split
      · exact (sink.quiet_execCross ..).trans (quiet_execCross ..)
      · cases sink.slot t.maker with
        | none => exact quiet_of_same rfl rfl
        | some r => exact quiet_of_one rfl rfl rfl trivial
  | cancel id =>
      show sink.Quiet (sink.evCancel id)
      rw [evCancel]
      split
      · exact quiet_of_same rfl rfl
      · exact quiet_of_one rfl rfl rfl trivial
  | rest => exact quiet_of_one rfl rfl rfl trivial

theorem quiet_onAll (sink : Sink) (events : List Event) :
    sink.Quiet (Handler.onAll sink events) := by
  induction events generalizing sink with
  | nil => exact quiet_of_same rfl rfl
  | cons event events induction => exact (sink.quiet_on event).trans (induction _)

end Sink

namespace Publisher

variable {p p' : Publisher} {earlier taken : List Publication} {m m' : Market} {screen : Screen}
  {op : Op}

theorem quiet_publishShrink (p : Publisher) (id : OrderId) (before : Qty) :
    p.sink.Quiet (p.publishShrink id before).sink := by
  rw [publishShrink]
  cases p.sink.slot id with
  | none => exact Sink.quiet_of_same rfl rfl
  | some r =>
      dsimp only
      split
      · exact Sink.quiet_of_one rfl rfl rfl trivial
      · split
        · exact Sink.quiet_of_one rfl rfl rfl trivial
        · exact Sink.quiet_of_same rfl rfl

theorem quiet_closed (p : Publisher) (engine : MatchingEngine Sink) (op : Op) (ret : Ret) :
    engine.h.Quiet (p.closed engine op ret).sink := by
  unfold closed
  split
  · split
    · exact quiet_publishShrink { engine } _ _
    · exact Sink.quiet_of_same rfl rfl
  · split
    · exact quiet_publishShrink { engine } _ _
    · exact Sink.quiet_of_same rfl rfl
  · dsimp only
    split
    · exact Sink.quiet_of_one rfl rfl rfl trivial
    · exact Sink.quiet_of_same rfl rfl
  · exact Sink.quiet_of_same rfl rfl

theorem numbers_opened (p : Publisher) (op : Op) : ∃ more, p.sink.Numbers (p.opened op).sink more ∧
    ∀ halted, more.foldl Publication.flag halted = op.haltedAfter halted := by
  cases op with
  | halt => exact ⟨_, Sink.numbers_one rfl rfl rfl, fun _ => rfl⟩
  | resume => exact ⟨_, Sink.numbers_one rfl rfl rfl, fun _ => rfl⟩
  | _ => exact ⟨[], ⟨(List.append_nil _).symm, rfl, rfl⟩, fun _ => rfl⟩

structure Streams (p : Publisher) (published : List Publication) : Prop where
  next : p.sink.seq = published.length + 1
  numbered : published.map Publication.seq = List.range' 1 published.length
  flag : p.engine.halted = published.foldl Publication.flag false

theorem Streams.closed (streams : p.Streams (earlier ++ p.sink.out))
    (tracks : p.Tracks earlier m screen) {engine : MatchingEngine Sink} {ret : Ret}
    {events : List Event} (did : (p.opened op).engine.Did m op engine m' ret events) :
    (p.closed engine op ret).Streams (earlier ++ (p.closed engine op ret).sink.out) := by
  rcases tracks.closed did with ⟨screen', tracks'⟩
  have told : engine.h = Handler.onAll (p.opened op).sink events := did.told
  rcases numbers_opened p op with ⟨first, opens, acts⟩
  have quiet : (p.opened op).sink.Quiet (p.closed engine op ret).sink :=
    (Sink.quiet_onAll _ events).trans (told ▸ quiet_closed p engine op ret)
  rcases quiet with ⟨second, closes, calm⟩
  have numbers := opens.trans closes
  have grown : earlier ++ (p.closed engine op ret).sink.out =
      (earlier ++ p.sink.out) ++ (first ++ second) := by
    rw [numbers.out, List.append_assoc]
  have count : ((earlier ++ p.sink.out) ++ (first ++ second)).length =
      (earlier ++ p.sink.out).length + (first ++ second).length := List.length_append
  rw [grown]
  constructor
  case next =>
      rw [numbers.seq, streams.next, count]
      omega
  case numbered =>
      rw [List.map_append, numbers.numbered, streams.numbered, streams.next, count,
        ← List.range'_append_1, Nat.add_comm]
  case flag =>
      rw [tracks'.holds.shows.halted, did.performs.halted, List.foldl_append, List.foldl_append,
        ← streams.flag, acts, Publication.foldl_flag_of_calm calm, tracks.holds.shows.halted]

theorem Streams.drained (streams : p.Streams (earlier ++ p.sink.out)) :
    p.drain.1.Streams (earlier ++ p.sink.out ++ p.drain.1.sink.out) := by
  show p.drain.1.Streams (earlier ++ p.sink.out ++ [])
  rw [List.append_nil]
  exact ⟨streams.next, streams.numbered, streams.flag⟩

theorem streams_run {calls : List Call} (tracks : p.Tracks earlier m screen)
    (streams : p.Streams (earlier ++ p.sink.out)) (ran : p.run calls = some (p', taken)) :
    p'.Streams (earlier ++ taken ++ p'.sink.out) := by
  let Invariant (q : Publisher) (earlier : List Publication) (_ : Market) : Prop :=
    q.Streams (earlier ++ q.sink.out)
  have operates (q : Publisher) (earlier : List Publication) (m : Market) (screen : Screen)
      (op : Op) (engine : MatchingEngine Sink) (ret : Ret) (m' : Market) (events : List Event)
      (tracks : q.Tracks earlier m screen)
      (did : (q.opened op).engine.Did m op engine m' ret events) (_ : .op op ∈ calls)
      (before : Invariant q earlier m) : Invariant (q.closed engine op ret) earlier m' :=
    before.closed tracks did
  have drains (q : Publisher) (earlier : List Publication) (m : Market)
      (before : Invariant q earlier m) : Invariant q.drain.1 (earlier ++ q.sink.out) m :=
    before.drained
  rcases tracks.session operates drains streams ran with ⟨m', screen', -, after⟩
  exact after

structure Session (band : Band) (p : Publisher) (earlier : List Publication) (m : Market) :
    Prop where
  fits : Fits (m, .idle)
  band : m.min = band.min ∧ m.max = band.max
  streams : p.Streams (earlier ++ p.sink.out)

theorem Session.closed {band : Band} (session : Session band p earlier m)
    (tracks : p.Tracks earlier m screen) {engine : MatchingEngine Sink} {ret : Ret}
    {events : List Event} (did : (p.opened op).engine.Did m op engine m' ret events)
    (admitted : op.Admitted (.below (2 ^ 32))) :
    Session band (p.closed engine op ret) earlier m' where
  fits := by
    cases did.performs with
    | intro start steps => exact (session.fits.begin start admitted).run steps
  band := by
    rw [did.performs.band.1, did.performs.band.2]
    exact session.band
  streams := session.streams.closed tracks did

theorem session_run {band : Band} {calls : List Call} (tracks : p.Tracks earlier m screen)
    (session : Session band p earlier m)
    (admitted : ∀ op, .op op ∈ calls → op.Admitted (.below (2 ^ 32)))
    (ran : p.run calls = some (p', taken)) :
    ∃ m' screen', p'.Tracks (earlier ++ taken) m' screen' ∧
      Session band p' (earlier ++ taken) m' := by
  apply tracks.session ?_ ?_ session ran
  · intro q earlier m screen op engine ret m' events tracks did member before
    exact before.closed tracks did (admitted op member)
  · intro q earlier m before
    exact ⟨before.fits, before.band, before.streams.drained⟩

theorem session_new (band : Band) (stock : List UInt8) (expectedOrders : Nat)
    (narrow : 0 ≤ band.min ∧ band.max < 2 ^ 32) :
    Session band (new band stock expectedOrders) [] (.new band) where
  fits := by
    have valid := (tracks_new band stock expectedOrders).holds.valid
    exact ⟨⟨valid, trivial⟩, ⟨nofun, nofun⟩, trivial, narrow⟩
  band := ⟨rfl, rfl⟩
  streams := ⟨rfl, rfl, rfl⟩

end Publisher

end Itch

end Matchbook
