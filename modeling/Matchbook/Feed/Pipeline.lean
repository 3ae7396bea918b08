import Matchbook.Feed.SpscRing

namespace Matchbook

/-! # What the pipeline delivers

The ring carries a bounded queue: `head` and `tail` count what was sent and
received, a cached index is a count of the past. Every control point knows what
its call has seen of the queue. -/

variable {T : Type u} {capacity : CapacityPow2}

def SeenTail (queue : BoundedQueue T capacity.size) (free : Nat) (word : UInt64) : Prop :=
  ∃ count, word = .ofNat count ∧ count ≤ queue.received ∧
    queue.sent.length + free ≤ count + capacity.size

def SeenHead (queue : BoundedQueue T capacity.size) (ready : Nat) (word : UInt64) : Prop :=
  ∃ count, word = .ofNat count ∧ queue.received + ready ≤ count ∧ count ≤ queue.sent.length

variable {queue : BoundedQueue T capacity.size} {value out : T} {head tail : UInt64}

theorem seenTail_now : SeenTail queue 0 (.ofNat queue.received) :=
  ⟨queue.received, rfl, Nat.le_refl _, queue.fits⟩

theorem seenHead_now : SeenHead queue 0 (.ofNat queue.sent.length) :=
  ⟨queue.sent.length, rfl, queue.received_le, Nat.le_refl _⟩

theorem sub_eq_word_iff {count : Nat} (past : count ≤ queue.received)
    (fits : queue.sent.length ≤ count + capacity.size) :
    .ofNat queue.sent.length - .ofNat count = capacity.word ↔
      queue.sent.length = count + capacity.size := by
  have size_lt := capacity.size_lt
  have received_le := queue.received_le
  exact UInt64.ofNat_sub_eq_iff (by omega) (by omega) size_lt

theorem received_eq_iff {count : Nat} (future : queue.received ≤ count)
    (sent : count ≤ queue.sent.length) :
    UInt64.ofNat queue.received = .ofNat count ↔ queue.received = count := by
  have size_lt := capacity.size_lt
  have fits := queue.fits
  exact UInt64.ofNat_inj_of_close future (by omega)

theorem SeenTail.free_of_ne (seen : SeenTail queue 0 tail)
    (notFull : .ofNat queue.sent.length - tail ≠ capacity.word) : SeenTail queue 1 tail := by
  rcases seen with ⟨count, rfl, past, fits⟩
  have apart : queue.sent.length ≠ count + capacity.size := by
    intro full
    exact notFull ((sub_eq_word_iff past fits).2 full)
  exact ⟨count, rfl, past, by omega⟩

theorem SeenHead.ready_of_ne (seen : SeenHead queue 0 head)
    (notEmpty : .ofNat queue.received ≠ head) : SeenHead queue 1 head := by
  rcases seen with ⟨count, rfl, future, sent⟩
  have apart : queue.received ≠ count := by
    intro empty
    exact notEmpty ((received_eq_iff future sent).2 empty)
  exact ⟨count, rfl, by omega, sent⟩

theorem SeenTail.room (seen : SeenTail queue 1 tail) :
    queue.sent.length < queue.received + capacity.size := by
  rcases seen with ⟨count, -, past, fits⟩
  omega

theorem SeenHead.waiting (seen : SeenHead queue 1 head) :
    queue.received < queue.sent.length := by
  rcases seen with ⟨count, -, future, sent⟩
  omega

theorem SeenTail.send (seen : SeenTail queue 1 tail)
    (room : queue.sent.length < queue.received + capacity.size) :
    SeenTail (queue.send value room) 0 tail := by
  rcases seen with ⟨count, rfl, past, fits⟩
  exact ⟨count, rfl, past, by simpa [BoundedQueue.send] using fits⟩

theorem SeenHead.receive (seen : SeenHead queue 1 head)
    (waiting : queue.received < queue.sent.length) :
    SeenHead (queue.receive waiting) 0 head := by
  rcases seen with ⟨count, rfl, future, sent⟩
  exact ⟨count, rfl, future, sent⟩

/-! ## One side's view while the other side moves on -/

theorem SeenTail.receive {free : Nat} (seen : SeenTail queue free tail)
    (waiting : queue.received < queue.sent.length) :
    SeenTail (queue.receive waiting) free tail := by
  rcases seen with ⟨count, rfl, past, fits⟩
  exact ⟨count, rfl, Nat.le_succ_of_le past, fits⟩

theorem SeenHead.send {ready : Nat} (seen : SeenHead queue ready head)
    (room : queue.sent.length < queue.received + capacity.size) :
    SeenHead (queue.send value room) ready head := by
  rcases seen with ⟨count, rfl, future, sent⟩
  refine ⟨count, rfl, future, ?_⟩
  simp only [BoundedQueue.send, List.length_append, List.length_singleton]
  omega

/-! ## The calls -/

structure SpscRing.Carries (ring : SpscRing T capacity)
    (queue : BoundedQueue T capacity.size) : Prop where
  head : ring.head = .ofNat queue.sent.length
  tail : ring.tail = .ofNat queue.received
  laid : queue.LaidIn ring.buf

def TryPush.Sound (ring : SpscRing T capacity) (queue : BoundedQueue T capacity.size)
    (value : T) : TryPush → Prop
  | .loadHead | .returned _ => SeenTail queue 0 ring.cachedTail
  | .check head | .loadTail head | .recheck head =>
    head = .ofNat queue.sent.length ∧ SeenTail queue 0 ring.cachedTail
  | .cacheTail head tail => head = .ofNat queue.sent.length ∧ SeenTail queue 0 tail
  | .write head => head = .ofNat queue.sent.length ∧ SeenTail queue 1 ring.cachedTail
  | .storeHead head =>
    head = .ofNat queue.sent.length ∧ SeenTail queue 1 ring.cachedTail ∧
      ring.buf.get ⟨_, capacity.mod_size_lt queue.sent.length⟩ = value

def TryPop.Sound (ring : SpscRing T capacity) (queue : BoundedQueue T capacity.size) :
    TryPop T → Prop
  | .loadTail | .returned _ => SeenHead queue 0 ring.cachedHead
  | .check tail | .loadHead tail | .recheck tail =>
    tail = .ofNat queue.received ∧ SeenHead queue 0 ring.cachedHead
  | .cacheHead tail head => tail = .ofNat queue.received ∧ SeenHead queue 0 head
  | .read tail => tail = .ofNat queue.received ∧ SeenHead queue 1 ring.cachedHead
  | .storeTail tail out =>
    tail = .ofNat queue.received ∧ SeenHead queue 1 ring.cachedHead ∧
      queue.sent[queue.received]? = some out

variable {ring : SpscRing T capacity}

theorem SpscRing.get_slot (ring : SpscRing T capacity) (count : Nat) :
    ring.buf.get ⟨_, capacity.and_mask_lt (.ofNat count)⟩ =
      ring.buf.get ⟨_, capacity.mod_size_lt count⟩ := by
  congr 1
  exact Fin.ext (capacity.toNat_and_mask count)

theorem SpscRing.Carries.tryPush {call : TryPush} (carries : ring.Carries queue)
    (sound : call.Sound ring queue value) (unsent : ∀ head, call ≠ .storeHead head) :
    (ring.tryPush value call).1.Carries queue ∧
      (ring.tryPush value call).2.Sound (ring.tryPush value call).1 queue value := by
  cases call with
  | loadHead => exact ⟨carries, carries.head, sound⟩
  | check head =>
      refine ⟨carries, ?_⟩
      simp only [SpscRing.tryPush]
      split
      case isTrue => exact sound
      case isFalse notFull =>
          rw [sound.1] at notFull
          exact ⟨sound.1, sound.2.free_of_ne notFull⟩
  | loadTail head =>
      refine ⟨carries, sound.1, ?_⟩
      rw [carries.tail]
      exact seenTail_now
  | cacheTail head tail => exact ⟨⟨carries.head, carries.tail, carries.laid⟩, sound⟩
  | recheck head =>
      refine ⟨carries, ?_⟩
      simp only [SpscRing.tryPush]
      split
      case isTrue => exact sound.2
      case isFalse notFull =>
          rw [sound.1] at notFull
          exact ⟨sound.1, sound.2.free_of_ne notFull⟩
  | write head =>
      rcases sound with ⟨rfl, seen⟩
      have written : (ring.tryPush value (.write (.ofNat queue.sent.length))).1.buf =
          ring.buf.set (queue.sent.length % capacity.size) value
            (capacity.mod_size_lt queue.sent.length) := by
        simp [SpscRing.tryPush, capacity.toNat_and_mask]
      refine ⟨⟨carries.head, carries.tail, ?_⟩, rfl, seen, ?_⟩
      · rw [written]
        exact carries.laid.write value seen.room _
      · rw [written]
        exact Vector.getElem_set_self _
  | storeHead head => exact absurd rfl (unsent head)
  | returned pushed => exact ⟨carries, sound⟩

theorem SpscRing.Carries.storeHead (carries : ring.Carries queue)
    (sound : (TryPush.storeHead head).Sound ring queue value) :
    ∃ room, (ring.tryPush value (.storeHead head)).1.Carries (queue.send value room) ∧
      SeenTail (queue.send value room) 0 ring.cachedTail := by
  rcases sound with ⟨rfl, seen, written⟩
  refine ⟨seen.room, ⟨?_, carries.tail, ?_⟩, seen.send seen.room⟩
  · simp only [SpscRing.tryPush, BoundedQueue.send, List.length_append, List.length_singleton]
    exact (UInt64.ofNat_add queue.sent.length 1).symm
  · exact carries.laid.send seen.room (capacity.mod_size_lt queue.sent.length) written

theorem SpscRing.tryPush_ne_pushed {call : TryPush} (called : call ≠ .returned true)
    (unsent : ∀ head, call ≠ .storeHead head) :
    (ring.tryPush value call).2 ≠ .returned true := by
  cases call with
  | storeHead head => exact absurd rfl (unsent head)
  | returned pushed => exact called
  | check head =>
      simp only [SpscRing.tryPush]
      split <;> simp
  | recheck head =>
      simp only [SpscRing.tryPush]
      split <;> simp
  | _ => simp [SpscRing.tryPush]

theorem SpscRing.Carries.tryPop {call : TryPop T} (carries : ring.Carries queue)
    (sound : call.Sound ring queue) (unread : ∀ tail out, call ≠ .storeTail tail out) :
    (ring.tryPop call).1.Carries queue ∧
      (ring.tryPop call).2.Sound (ring.tryPop call).1 queue := by
  cases call with
  | loadTail => exact ⟨carries, carries.tail, sound⟩
  | check tail =>
      refine ⟨carries, ?_⟩
      simp only [SpscRing.tryPop]
      split
      case isTrue => exact sound
      case isFalse notEmpty =>
          rw [sound.1] at notEmpty
          exact ⟨sound.1, sound.2.ready_of_ne notEmpty⟩
  | loadHead tail =>
      refine ⟨carries, sound.1, ?_⟩
      rw [carries.head]
      exact seenHead_now
  | cacheHead tail head => exact ⟨⟨carries.head, carries.tail, carries.laid⟩, sound⟩
  | recheck tail =>
      refine ⟨carries, ?_⟩
      simp only [SpscRing.tryPop]
      split
      case isTrue => exact sound.2
      case isFalse notEmpty =>
          rw [sound.1] at notEmpty
          exact ⟨sound.1, sound.2.ready_of_ne notEmpty⟩
  | read tail =>
      rcases sound with ⟨rfl, seen⟩
      refine ⟨carries, rfl, seen, ?_⟩
      rw [SpscRing.get_slot, List.getElem?_eq_getElem seen.waiting]
      exact congrArg some
        (carries.laid queue.received (capacity.mod_size_lt _) (Nat.le_refl _) seen.waiting).symm
  | storeTail tail out => exact absurd rfl (unread tail out)
  | returned popped => exact ⟨carries, sound⟩

/-- The store of `tail_` is where a message is received. -/
theorem SpscRing.Carries.storeTail (carries : ring.Carries queue)
    (sound : (TryPop.storeTail tail out).Sound ring queue) :
    ∃ waiting : queue.received < queue.sent.length,
      (ring.tryPop (.storeTail tail out)).1.Carries (queue.receive waiting) ∧
        SeenHead (queue.receive waiting) 0 ring.cachedHead ∧
        queue.sent[queue.received] = out := by
  rcases sound with ⟨rfl, seen, read⟩
  refine ⟨seen.waiting, ⟨carries.head, ?_, carries.laid.receive seen.waiting⟩,
    seen.receive seen.waiting, ?_⟩
  · exact (UInt64.ofNat_add queue.received 1).symm
  · rw [List.getElem?_eq_getElem seen.waiting] at read
    exact Option.some.inj read

/-! ## The other side's knowledge is kept -/

theorem TryPop.Sound.tryPush {call : TryPop T} (sound : call.Sound ring queue) (value : T)
    (push : TryPush) :
    call.Sound (ring.tryPush value push).1 queue := by
  have same : (ring.tryPush value push).1.cachedHead = ring.cachedHead := by
    cases push <;> rfl
  cases call <;> simpa [TryPop.Sound, same] using sound

theorem TryPop.Sound.send {call : TryPop T} (sound : call.Sound ring queue)
    (room : queue.sent.length < queue.received + capacity.size) :
    call.Sound ring (queue.send value room) := by
  cases call with
  | loadTail => exact SeenHead.send sound room
  | check tail => exact ⟨sound.1, sound.2.send room⟩
  | loadHead tail => exact ⟨sound.1, sound.2.send room⟩
  | cacheHead tail head => exact ⟨sound.1, sound.2.send room⟩
  | recheck tail => exact ⟨sound.1, sound.2.send room⟩
  | read tail => exact ⟨sound.1, sound.2.send room⟩
  | storeTail tail out =>
      refine ⟨sound.1, sound.2.1.send room, ?_⟩
      rw [← sound.2.2]
      exact List.getElem?_append_left sound.2.1.waiting
  | returned popped => exact SeenHead.send sound room

theorem TryPush.Sound.tryPop {call : TryPush} (sound : call.Sound ring queue value)
    (pop : TryPop T) : call.Sound (ring.tryPop pop).1 queue value := by
  have sameTail : (ring.tryPop pop).1.cachedTail = ring.cachedTail := by
    cases pop <;> rfl
  have sameBuf : (ring.tryPop pop).1.buf = ring.buf := by
    cases pop <;> rfl
  cases call <;> simpa [TryPush.Sound, sameTail, sameBuf] using sound

theorem TryPush.Sound.receive {call : TryPush} (sound : call.Sound ring queue value)
    (waiting : queue.received < queue.sent.length) :
    call.Sound ring (queue.receive waiting) value := by
  cases call with
  | loadHead => exact SeenTail.receive sound waiting
  | check head => exact ⟨sound.1, sound.2.receive waiting⟩
  | loadTail head => exact ⟨sound.1, sound.2.receive waiting⟩
  | cacheTail head tail => exact ⟨sound.1, sound.2.receive waiting⟩
  | recheck head => exact ⟨sound.1, sound.2.receive waiting⟩
  | write head => exact ⟨sound.1, sound.2.receive waiting⟩
  | storeHead head => exact ⟨sound.1, sound.2.1.receive waiting, sound.2.2⟩
  | returned pushed => exact SeenTail.receive sound waiting

def TryPush.SawFull (ring : SpscRing T capacity) : TryPush → Prop
  | .cacheTail head tail => head - tail = capacity.word
  | .recheck head => head - ring.cachedTail = capacity.word
  | .returned false => True
  | _ => False

theorem SpscRing.sawFull_tryPush {call : TryPush}
    (saw : (ring.tryPush value call).2.SawFull (ring.tryPush value call).1) :
    call.SawFull ring ∨ ∃ head, call = .loadTail head ∧ head - ring.tail = capacity.word := by
  cases call with
  | loadTail head => exact .inr ⟨head, rfl, saw⟩
  | cacheTail head tail => exact .inl saw
  | check head =>
      simp only [SpscRing.tryPush] at saw
      split at saw <;> exact absurd saw id
  | recheck head =>
      simp only [SpscRing.tryPush] at saw
      split at saw
      case isTrue full => exact .inl full
      case isFalse => exact absurd saw id
  | returned pushed => exact .inl saw
  | _ => exact absurd saw id

/-! ## The two threads -/

/-- The messages whose store of `head_` has been made. -/
def Feeder.published (feeder : Feeder T) : List T :=
  match feeder.call, feeder.rest with
  | .returned true, message :: _ => feeder.pushed ++ [message]
  | _, _ => feeder.pushed

def MatchingLoop.inHand : MatchingLoop T → List T
  | .popping (.returned (some message)) => [message]
  | _ => []

def Pipeline.popped (pipeline : Pipeline T capacity) : List T :=
  pipeline.applied ++ pipeline.loop.inHand

def MatchingLoop.Sound (ring : SpscRing T capacity) (queue : BoundedQueue T capacity.size)
    (done : Bool) : MatchingLoop T → Prop
  | .popping call => call.Sound ring queue
  | .loadDone => SeenHead queue 0 ring.cachedHead
  | .sizing head tail =>
    SeenHead queue 0 ring.cachedHead ∧ done = true ∧
      (∀ word ∈ head, word = .ofNat queue.sent.length) ∧
      ∀ word ∈ tail, word = .ofNat queue.received
  | .exited => done = true ∧ queue.received = queue.sent.length

theorem Feeder.published_of_ne {feeder : Feeder T} (notPushed : feeder.call ≠ .returned true) :
    feeder.published = feeder.pushed := by
  rcases feeder with ⟨rest, call, pushed⟩
  cases call with
  | returned result =>
      cases result with
      | true => exact absurd rfl notPushed
      | false => cases rest <;> rfl
  | _ => cases rest <;> rfl

theorem SpscRing.inHand_tryPop {call : TryPop T} (called : ∀ result, call ≠ .returned result)
    (unread : ∀ tail out, call ≠ .storeTail tail out) :
    (MatchingLoop.popping (ring.tryPop call).2).inHand = [] := by
  cases call with
  | returned result => exact absurd rfl (called result)
  | storeTail tail out => exact absurd rfl (unread tail out)
  | check tail =>
      simp only [SpscRing.tryPop]
      split <;> rfl
  | recheck tail =>
      simp only [SpscRing.tryPop]
      split <;> rfl
  | _ => rfl

theorem MatchingLoop.Sound.finish {loop : MatchingLoop T} {done : Bool}
    (sound : loop.Sound ring queue done) : loop.Sound ring queue true := by
  cases loop with
  | popping call => exact sound
  | loadDone => exact sound
  | sizing head tail => exact ⟨sound.1, rfl, sound.2.2⟩
  | exited => exact ⟨rfl, sound.2⟩

theorem MatchingLoop.Sound.tryPush {loop : MatchingLoop T} {done : Bool}
    (sound : loop.Sound ring queue done) (value : T) (push : TryPush) :
    loop.Sound (ring.tryPush value push).1 queue done := by
  have same : (ring.tryPush value push).1.cachedHead = ring.cachedHead := by
    cases push <;> rfl
  cases loop with
  | popping call => exact TryPop.Sound.tryPush sound value push
  | loadDone => simpa [MatchingLoop.Sound, same] using sound
  | sizing head tail => simpa [MatchingLoop.Sound, same] using sound
  | exited => exact sound

theorem MatchingLoop.Sound.send {loop : MatchingLoop T} (sound : loop.Sound ring queue false)
    (room : queue.sent.length < queue.received + capacity.size) :
    loop.Sound ring (queue.send value room) false := by
  cases loop with
  | popping call => exact TryPop.Sound.send sound room
  | loadDone => exact SeenHead.send sound room
  | sizing head tail => exact absurd sound.2.1 Bool.false_ne_true
  | exited => exact absurd sound.1 Bool.false_ne_true

namespace Pipeline

structure Delivers (messages : List T) (pipeline : Pipeline T capacity)
    (queue : BoundedQueue T capacity.size) : Prop where
  carries : pipeline.ring.Carries queue
  sent : queue.sent = pipeline.feeder.published
  feed : pipeline.feeder.pushed ++ pipeline.feeder.rest = messages
  finished : pipeline.done = true → pipeline.feeder.rest = []
  feeder : ∀ message ∈ pipeline.feeder.rest.head?,
    pipeline.feeder.call.Sound pipeline.ring queue message
  popped : queue.output = pipeline.popped
  loop : pipeline.loop.Sound pipeline.ring queue pipeline.done

variable {messages rest : List T} {message : T} {pipeline : Pipeline T capacity}

theorem delivers_start (messages : List T) (buf : Vector T capacity.size) :
    (start messages buf).Delivers messages .empty where
  carries := ⟨rfl, rfl, BoundedQueue.laidIn_empty buf⟩
  sent := by cases messages <;> rfl
  feed := rfl
  finished := nofun
  feeder := fun _ _ => ⟨0, rfl, Nat.le_refl 0, Nat.zero_le _⟩
  popped := rfl
  loop := ⟨0, rfl, Nat.le_refl 0, Nat.zero_le _⟩

theorem stepFeeder_call (pushing : pipeline.feeder.rest = message :: rest)
    (called : ∀ result, pipeline.feeder.call ≠ .returned result) :
    pipeline.stepFeeder =
      { pipeline with
        ring := (pipeline.ring.tryPush message pipeline.feeder.call).1
        feeder := { pipeline.feeder with
          call := (pipeline.ring.tryPush message pipeline.feeder.call).2 } } := by
  unfold stepFeeder
  rw [pushing]
  cases call : pipeline.feeder.call with
  | returned result => exact absurd call (called result)
  | _ => rfl

theorem stepLoop_call {call : TryPop T} (popping : pipeline.loop = .popping call)
    (called : ∀ result, call ≠ .returned result) (tailFirst : Bool) :
    pipeline.stepLoop tailFirst =
      { pipeline with
        ring := (pipeline.ring.tryPop call).1
        loop := .popping (pipeline.ring.tryPop call).2 } := by
  unfold stepLoop
  rw [popping]
  cases call with
  | returned result => exact absurd rfl (called result)
  | _ => rfl

theorem Delivers.running (delivers : pipeline.Delivers messages queue)
    (pushing : pipeline.feeder.rest = message :: rest) : pipeline.done = false := by
  cases finished : pipeline.done with
  | false => rfl
  | true => simp [delivers.finished finished] at pushing

theorem Delivers.next (delivers : pipeline.Delivers messages queue)
    (pushing : pipeline.feeder.rest = message :: rest)
    (called : pipeline.feeder.call = .returned true) :
    pipeline.stepFeeder.Delivers messages queue := by
  have seen := delivers.feeder message (by simp [pushing])
  have sent := delivers.sent
  have feed := delivers.feed
  rw [called] at seen
  rw [stepFeeder, pushing, called]
  refine ⟨delivers.carries, ?_, ?_, ?_, fun _ _ => seen, delivers.popped, delivers.loop⟩
  · rw [sent, Feeder.published, called, pushing]
    cases rest <;> rfl
  · simpa [pushing] using feed
  · simp [delivers.running pushing]

theorem Delivers.retry (delivers : pipeline.Delivers messages queue)
    (pushing : pipeline.feeder.rest = message :: rest)
    (called : pipeline.feeder.call = .returned false) :
    pipeline.stepFeeder.Delivers messages queue := by
  have seen := delivers.feeder message (by simp [pushing])
  rw [called] at seen
  rw [stepFeeder, pushing, called]
  refine ⟨delivers.carries, ?_, delivers.feed, delivers.finished, fun _ _ => seen,
    delivers.popped, delivers.loop⟩
  rw [delivers.sent, Feeder.published_of_ne (by simp [called]), Feeder.published_of_ne (by simp)]

theorem Delivers.storeHead (delivers : pipeline.Delivers messages queue)
    (pushing : pipeline.feeder.rest = message :: rest)
    (called : pipeline.feeder.call = .storeHead head) :
    ∃ room, pipeline.stepFeeder.Delivers messages (queue.send message room) := by
  have sound := delivers.feeder message (by simp [pushing])
  have loop := delivers.loop
  rw [called] at sound
  rw [delivers.running pushing] at loop
  rw [stepFeeder_call pushing (by simp [called]), called]
  rcases delivers.carries.storeHead sound with ⟨room, carries, seen⟩
  refine ⟨room, carries, ?_, delivers.feed, delivers.finished, ?_, ?_, ?_⟩
  · have sent := delivers.sent
    rw [Feeder.published_of_ne (by simp [called])] at sent
    simp [BoundedQueue.send, SpscRing.tryPush, Feeder.published, sent, pushing]
  · intro _ _
    exact seen
  · rw [BoundedQueue.output_send]
    exact delivers.popped
  · have kept := loop.tryPush message (.storeHead head)
    rw [delivers.running pushing]
    exact kept.send room

theorem Delivers.tryPush (delivers : pipeline.Delivers messages queue)
    (pushing : pipeline.feeder.rest = message :: rest)
    (called : ∀ result, pipeline.feeder.call ≠ .returned result)
    (unsent : ∀ head, pipeline.feeder.call ≠ .storeHead head) :
    pipeline.stepFeeder.Delivers messages queue := by
  have sound := delivers.feeder message (by simp [pushing])
  have stepped := delivers.carries.tryPush sound unsent
  rw [stepFeeder_call pushing called]
  refine ⟨stepped.1, ?_, delivers.feed, delivers.finished, ?_, delivers.popped, ?_⟩
  · rw [delivers.sent, Feeder.published_of_ne (called true), Feeder.published_of_ne]
    exact SpscRing.tryPush_ne_pushed (called true) unsent
  · intro value first
    have same : message = value := by simpa [pushing] using first
    rw [← same]
    exact stepped.2
  · exact delivers.loop.tryPush message pipeline.feeder.call

theorem Delivers.stepFeeder (delivers : pipeline.Delivers messages queue) :
    ∃ queue, pipeline.stepFeeder.Delivers messages queue := by
  cases pushing : pipeline.feeder.rest with
  | nil =>
      rw [Pipeline.stepFeeder, pushing]
      exact ⟨queue, delivers.carries, delivers.sent, delivers.feed, fun _ => pushing,
        delivers.feeder, delivers.popped, delivers.loop.finish⟩
  | cons message rest =>
      cases called : pipeline.feeder.call with
      | returned result =>
          cases result with
          | true => exact ⟨queue, delivers.next pushing called⟩
          | false => exact ⟨queue, delivers.retry pushing called⟩
      | storeHead head =>
          rcases delivers.storeHead pushing called with ⟨room, sent⟩
          exact ⟨_, sent⟩
      | _ => exact ⟨queue, delivers.tryPush pushing (by simp [called]) (by simp [called])⟩

/-- The loop moves on by itself, without touching the ring. -/
theorem Delivers.goOn {loop : MatchingLoop T} {applied : List T}
    (delivers : pipeline.Delivers messages queue)
    (same : applied ++ loop.inHand = pipeline.popped)
    (sound : loop.Sound pipeline.ring queue pipeline.done) :
    Delivers messages { pipeline with loop, applied } queue where
  carries := delivers.carries
  sent := delivers.sent
  feed := delivers.feed
  finished := delivers.finished
  feeder := delivers.feeder
  popped := delivers.popped.trans same.symm
  loop := sound

theorem Delivers.storeTail (delivers : pipeline.Delivers messages queue)
    (popping : pipeline.loop = .popping (.storeTail tail out)) (tailFirst : Bool) :
    ∃ waiting, (pipeline.stepLoop tailFirst).Delivers messages (queue.receive waiting) := by
  have sound := delivers.loop
  rw [popping] at sound
  rcases delivers.carries.storeTail sound with ⟨waiting, carries, seen, read⟩
  rw [stepLoop_call popping (by simp)]
  refine ⟨waiting, carries, delivers.sent, delivers.feed, delivers.finished, ?_, ?_, seen⟩
  · intro message first
    exact ((delivers.feeder message first).tryPop (.storeTail tail out)).receive waiting
  · rw [BoundedQueue.output_receive, read, delivers.popped]
    simp [Pipeline.popped, popping, MatchingLoop.inHand, SpscRing.tryPop]

theorem Delivers.tryPop {call : TryPop T} (delivers : pipeline.Delivers messages queue)
    (popping : pipeline.loop = .popping call) (called : ∀ result, call ≠ .returned result)
    (unread : ∀ tail out, call ≠ .storeTail tail out) (tailFirst : Bool) :
    (pipeline.stepLoop tailFirst).Delivers messages queue := by
  have sound := delivers.loop
  rw [popping] at sound
  have stepped := delivers.carries.tryPop sound unread
  rw [stepLoop_call popping called]
  refine ⟨stepped.1, delivers.sent, delivers.feed, delivers.finished, ?_, ?_, stepped.2⟩
  · intro message first
    exact (delivers.feeder message first).tryPop call
  · rw [delivers.popped]
    simp only [Pipeline.popped, popping]
    rw [SpscRing.inHand_tryPop called unread]
    cases call with
    | returned result => exact absurd rfl (called result)
    | _ => rfl

theorem Delivers.exited (delivers : pipeline.Delivers messages queue)
    (sizing : pipeline.loop = .sizing (some head) (some tail)) (empty : head - tail = 0) :
    queue.received = queue.sent.length := by
  have sound := delivers.loop
  have size_lt := capacity.size_lt
  have fits := queue.fits
  rw [sizing] at sound
  have isHead : head = .ofNat queue.sent.length := sound.2.2.1 head rfl
  have isTail : tail = .ofNat queue.received := sound.2.2.2 tail rfl
  rw [isHead, isTail] at empty
  have same : UInt64.ofNat queue.sent.length - UInt64.ofNat queue.received = UInt64.ofNat 0 := empty
  exact ((UInt64.ofNat_sub_eq_iff queue.received_le (by omega) (by omega)).1 same).symm

theorem Delivers.stepLoop (delivers : pipeline.Delivers messages queue) (tailFirst : Bool) :
    ∃ queue, (pipeline.stepLoop tailFirst).Delivers messages queue := by
  have sound := delivers.loop
  cases popping : pipeline.loop with
  | popping call =>
      rw [popping] at sound
      cases call with
      | returned result =>
          cases result with
          | some message =>
              have applied : (pipeline.applied ++ [message]) ++ [] = pipeline.popped := by
                simp [Pipeline.popped, popping, MatchingLoop.inHand]
              rw [Pipeline.stepLoop, popping]
              exact ⟨queue, delivers.goOn applied sound⟩
          | none =>
              have applied : pipeline.applied ++ [] = pipeline.popped := by
                simp [Pipeline.popped, popping, MatchingLoop.inHand]
              rw [Pipeline.stepLoop, popping]
              exact ⟨queue, delivers.goOn applied sound⟩
      | storeTail tail out =>
          rcases delivers.storeTail popping tailFirst with ⟨waiting, received⟩
          exact ⟨_, received⟩
      | _ => exact ⟨queue, delivers.tryPop popping (by simp) (by simp) tailFirst⟩
  | loadDone =>
      have applied : pipeline.applied ++ [] = pipeline.popped := by
        simp [Pipeline.popped, popping, MatchingLoop.inHand]
      rw [popping] at sound
      rw [Pipeline.stepLoop, popping]
      refine ⟨queue, ?_⟩
      simp only
      split
      case isTrue finished => exact delivers.goOn applied ⟨sound, finished, nofun, nofun⟩
      case isFalse => exact delivers.goOn applied sound
  | sizing headWord tailWord =>
      have applied : pipeline.applied ++ [] = pipeline.popped := by
        simp [Pipeline.popped, popping, MatchingLoop.inHand]
      have isHead := delivers.carries.head
      have isTail := delivers.carries.tail
      rw [popping] at sound
      rcases sound with ⟨seen, finished, headRead, tailRead⟩
      rw [Pipeline.stepLoop, popping]
      refine ⟨queue, ?_⟩
      cases headWord with
      | none =>
          cases tailWord with
          | none =>
              cases tailFirst with
              | true => exact delivers.goOn applied ⟨seen, finished, nofun, by simpa using isTail⟩
              | false => exact delivers.goOn applied ⟨seen, finished, by simpa using isHead, nofun⟩
          | some tail =>
              exact delivers.goOn applied ⟨seen, finished, by simpa using isHead, tailRead⟩
      | some head =>
          cases tailWord with
          | none => exact delivers.goOn applied ⟨seen, finished, headRead, by simpa using isTail⟩
          | some tail =>
              simp only
              split
              case isTrue empty =>
                  exact delivers.goOn applied ⟨finished, delivers.exited popping empty⟩
              case isFalse => exact delivers.goOn applied seen
  | exited =>
      rw [Pipeline.stepLoop, popping]
      exact ⟨queue, delivers⟩

theorem Delivers.step (delivers : pipeline.Delivers messages queue) (turn : Turn) :
    ∃ queue, (pipeline.step turn).Delivers messages queue := by
  cases turn with
  | feeder => exact delivers.stepFeeder
  | loop tailFirst => exact delivers.stepLoop tailFirst

theorem Delivers.run (delivers : pipeline.Delivers messages queue) (schedule : List Turn) :
    ∃ queue, (pipeline.run schedule).Delivers messages queue := by
  induction schedule generalizing pipeline queue with
  | nil => exact ⟨queue, delivers⟩
  | cons turn schedule induction =>
      rcases delivers.step turn with ⟨next, stepped⟩
      exact induction stepped

theorem delivers_run (messages : List T) (buf : Vector T capacity.size) (schedule : List Turn) :
    ∃ queue, ((start messages buf).run schedule).Delivers messages queue :=
  (delivers_start messages buf).run schedule

theorem Delivers.popped_prefix (delivers : pipeline.Delivers messages queue) :
    pipeline.popped <+: pipeline.feeder.published := by
  rw [← delivers.popped, ← delivers.sent]
  exact queue.output_prefix

theorem Delivers.published_prefix (delivers : pipeline.Delivers messages queue) :
    pipeline.feeder.published <+: messages := by
  rw [← delivers.feed]
  unfold Feeder.published
  split
  case h_1 message rest called pushing => simp [pushing]
  case h_2 => exact List.prefix_append _ _

theorem Delivers.published_all (delivers : pipeline.Delivers messages queue)
    (finished : pipeline.done = true) : pipeline.feeder.published = messages := by
  have feed := delivers.feed
  have emptied := delivers.finished finished
  rw [emptied, List.append_nil] at feed
  rw [← feed]
  unfold Feeder.published
  split
  case h_1 message rest called pushing => simp [pushing] at emptied
  case h_2 => rfl

theorem Delivers.applied_all (delivers : pipeline.Delivers messages queue)
    (exited : pipeline.loop = .exited) : pipeline.applied = messages := by
  have sound := delivers.loop
  have popped := delivers.popped
  rw [exited] at sound
  simp only [Pipeline.popped, exited, MatchingLoop.inHand, List.append_nil] at popped
  rw [← popped, BoundedQueue.output, sound.2, List.take_length, delivers.sent]
  exact delivers.published_all sound.1

/-! ## A push fails on a full ring only -/

/-- The ring holds as many messages as it has slots. -/
def Full (pipeline : Pipeline T capacity) : Prop :=
  pipeline.feeder.published.length = pipeline.popped.length + capacity.size

theorem Delivers.full_of_sub (delivers : pipeline.Delivers messages queue)
    (sub : pipeline.ring.head - pipeline.ring.tail = capacity.word) : pipeline.Full := by
  rw [delivers.carries.head, delivers.carries.tail,
    sub_eq_word_iff (Nat.le_refl _) queue.fits] at sub
  unfold Full
  rw [← delivers.sent, ← delivers.popped, BoundedQueue.output_length]
  exact sub

theorem stepLoop_feeder (tailFirst : Bool) :
    (pipeline.stepLoop tailFirst).feeder = pipeline.feeder := by
  unfold stepLoop
  repeat' split
  all_goals rfl

theorem stepLoop_cachedTail (tailFirst : Bool) :
    (pipeline.stepLoop tailFirst).ring.cachedTail = pipeline.ring.cachedTail := by
  have kept : ∀ call, (pipeline.ring.tryPop call).1.cachedTail = pipeline.ring.cachedTail := by
    intro call
    cases call <;> rfl
  unfold stepLoop
  split
  case h_3 call _ _ _ => exact kept call
  all_goals rfl

theorem Delivers.sawFull_step (delivers : pipeline.Delivers messages queue) (turn : Turn)
    (saw : (pipeline.step turn).feeder.call.SawFull (pipeline.step turn).ring) :
    pipeline.feeder.call.SawFull pipeline.ring ∨ pipeline.Full := by
  cases turn with
  | loop tailFirst =>
      have sameCall : (pipeline.step (.loop tailFirst)).feeder = pipeline.feeder :=
        stepLoop_feeder tailFirst
      have sameTail : (pipeline.step (.loop tailFirst)).ring.cachedTail =
          pipeline.ring.cachedTail := stepLoop_cachedTail tailFirst
      rw [sameCall] at saw
      unfold TryPush.SawFull at saw ⊢
      rw [sameTail] at saw
      exact .inl saw
  | feeder =>
      change pipeline.stepFeeder.feeder.call.SawFull pipeline.stepFeeder.ring at saw
      cases pushing : pipeline.feeder.rest with
      | nil =>
          rw [Pipeline.stepFeeder, pushing] at saw
          exact .inl saw
      | cons message rest =>
          cases called : pipeline.feeder.call with
          | returned result =>
              rw [Pipeline.stepFeeder, pushing, called] at saw
              cases result <;> exact absurd saw id
          | _ =>
              have sound := delivers.feeder message (by simp [pushing])
              rw [stepFeeder_call pushing (by simp [called])] at saw
              rcases SpscRing.sawFull_tryPush saw with before | ⟨head, loading, sub⟩
              · rw [called] at before
                exact .inl before
              · rw [loading] at sound
                rw [sound.1, ← delivers.carries.head] at sub
                exact .inr (delivers.full_of_sub sub)

theorem full_during (messages : List T) (buf : Vector T capacity.size)
    (before during : List Turn)
    (entered : ((start messages buf).run before).feeder.call = .loadHead)
    (saw : ((start messages buf).run (before ++ during)).feeder.call.SawFull
      ((start messages buf).run (before ++ during)).ring) :
    ∃ first second, during = first ++ second ∧
      ((start messages buf).run (before ++ first)).Full := by
  induction during using List.reverseRecOn with
  | nil =>
      rw [List.append_nil, entered] at saw
      exact absurd saw id
  | append_singleton during turn induction =>
      rw [← List.append_assoc, run_append, run_singleton] at saw
      rcases delivers_run messages buf (before ++ during) with ⟨queue, delivers⟩
      rcases delivers.sawFull_step turn saw with earlier | full
      · rcases induction earlier with ⟨first, second, rfl, full⟩
        exact ⟨first, second ++ [turn], by simp, full⟩
      · exact ⟨during, [turn], rfl, full⟩

/-- Every interleaving of the two threads delivers the messages once and in
order, refuses a push on a full ring only, and stops when all is delivered. -/
theorem run_exactlyOnce (messages : List T) (buf : Vector T capacity.size)
    (schedule : List Turn) :
    ((start messages buf).run schedule).popped <+:
        ((start messages buf).run schedule).feeder.published ∧
      ((start messages buf).run schedule).feeder.published <+: messages ∧
      (((start messages buf).run schedule).loop = .exited →
        ((start messages buf).run schedule).applied = messages) ∧
      ∀ before during, schedule = before ++ during →
        ((start messages buf).run before).feeder.call = .loadHead →
        ((start messages buf).run schedule).feeder.call = .returned false →
        ∃ first second, during = first ++ second ∧
          ((start messages buf).run (before ++ first)).Full := by
  rcases delivers_run messages buf schedule with ⟨queue, delivers⟩
  refine ⟨delivers.popped_prefix, delivers.published_prefix, delivers.applied_all, ?_⟩
  intro before during split entered failed
  subst split
  apply full_during messages buf before during entered
  rw [failed]
  trivial

end Pipeline

end Matchbook
