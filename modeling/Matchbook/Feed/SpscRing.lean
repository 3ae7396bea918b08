import Matchbook.Foundation.BoundedQueue

namespace Matchbook

/-! # The single-producer single-consumer ring

Every load and store of a `try_push` or `try_pop` is one step. The control
points stand between the steps and hold what the call has in its registers. -/

/-- A power of two that a 64-bit size can hold. -/
structure CapacityPow2 where
  log2 : Nat
  fits : log2 < 64

namespace CapacityPow2

def size (capacity : CapacityPow2) : Nat := 2 ^ capacity.log2

def word (capacity : CapacityPow2) : UInt64 := UInt64.ofNat capacity.size

def mask (capacity : CapacityPow2) : UInt64 := capacity.word - 1

variable (capacity : CapacityPow2)

theorem size_pos : 0 < capacity.size := Nat.two_pow_pos capacity.log2

theorem size_lt : capacity.size < 2 ^ 64 :=
  Nat.pow_lt_pow_right (by decide) capacity.fits

theorem mod_size_lt (count : Nat) : count % capacity.size < capacity.size :=
  Nat.mod_lt _ capacity.size_pos

theorem toNat_and_mask (count : Nat) :
    (UInt64.ofNat count &&& capacity.mask).toNat = count % capacity.size :=
  UInt64.toNat_ofNat_and_mask count capacity.fits

theorem and_mask_lt (index : UInt64) : (index &&& capacity.mask).toNat < capacity.size := by
  have counted := capacity.toNat_and_mask index.toNat
  rw [UInt64.ofNat_toNat] at counted
  rw [counted]
  exact capacity.mod_size_lt _

end CapacityPow2

structure SpscRing (T : Type u) (capacity : CapacityPow2) where
  head : UInt64
  cachedTail : UInt64
  tail : UInt64
  cachedHead : UInt64
  buf : Vector T capacity.size

/-- Control points of `try_push`, each named by the access that comes next. -/
inductive TryPush
  | loadHead
  | check (head : UInt64)
  | loadTail (head : UInt64)
  | cacheTail (head tail : UInt64)
  | recheck (head : UInt64)
  | write (head : UInt64)
  | storeHead (head : UInt64)
  | returned (pushed : Bool)
deriving DecidableEq, Repr

inductive TryPop (T : Type u)
  | loadTail
  | check (tail : UInt64)
  | loadHead (tail : UInt64)
  | cacheHead (tail head : UInt64)
  | recheck (tail : UInt64)
  | read (tail : UInt64)
  | storeTail (tail : UInt64) (out : T)
  | returned (popped : Option T)
deriving DecidableEq, Repr

namespace SpscRing

variable {T : Type u} {capacity : CapacityPow2}

def new (buf : Vector T capacity.size) : SpscRing T capacity where
  head := 0
  cachedTail := 0
  tail := 0
  cachedHead := 0
  buf

def tryPush (ring : SpscRing T capacity) (value : T) :
    TryPush → SpscRing T capacity × TryPush
  | .loadHead => (ring, .check ring.head)
  | .check head =>
    (ring, if head - ring.cachedTail = capacity.word then .loadTail head else .write head)
  | .loadTail head => (ring, .cacheTail head ring.tail)
  | .cacheTail head tail => ({ ring with cachedTail := tail }, .recheck head)
  | .recheck head =>
    (ring, if head - ring.cachedTail = capacity.word then .returned false else .write head)
  | .write head =>
    ({ ring with
        buf := ring.buf.set (head &&& capacity.mask).toNat value (capacity.and_mask_lt head) },
      .storeHead head)
  | .storeHead head => ({ ring with head := head + 1 }, .returned true)
  | .returned pushed => (ring, .returned pushed)

def tryPop (ring : SpscRing T capacity) : TryPop T → SpscRing T capacity × TryPop T
  | .loadTail => (ring, .check ring.tail)
  | .check tail => (ring, if tail = ring.cachedHead then .loadHead tail else .read tail)
  | .loadHead tail => (ring, .cacheHead tail ring.head)
  | .cacheHead tail head => ({ ring with cachedHead := head }, .recheck tail)
  | .recheck tail => (ring, if tail = ring.cachedHead then .returned none else .read tail)
  | .read tail =>
    (ring, .storeTail tail (ring.buf.get ⟨_, capacity.and_mask_lt tail⟩))
  | .storeTail tail out => ({ ring with tail := tail + 1 }, .returned (some out))
  | .returned popped => (ring, .returned popped)

end SpscRing

/-! ## The feed thread and the matching thread

`feed_thread` pushes its messages, spinning on a full ring, and then sets the
flag. The matching loop pops until the flag was set and the ring looks empty. -/

structure Feeder (T : Type u) where
  /-- The messages from the one being pushed on. -/
  rest : List T
  call : TryPush
  pushed : List T

inductive MatchingLoop (T : Type u)
  | popping (call : TryPop T)
  | loadDone
  /-- The two loads of `size_approx`, which the language leaves in either order. -/
  | sizing (head tail : Option UInt64)
  | exited
deriving DecidableEq, Repr

structure Pipeline (T : Type u) (capacity : CapacityPow2) where
  ring : SpscRing T capacity
  done : Bool
  feeder : Feeder T
  loop : MatchingLoop T
  /-- What the matching loop has applied to the book. -/
  applied : List T

namespace Pipeline

/-- Who takes the next step. -/
inductive Turn
  | feeder
  | loop (tailFirst : Bool)
deriving DecidableEq, Repr

variable {T : Type u} {capacity : CapacityPow2}

def start (messages : List T) (buf : Vector T capacity.size) : Pipeline T capacity where
  ring := .new buf
  done := false
  feeder := { rest := messages, call := .loadHead, pushed := [] }
  loop := .popping .loadTail
  applied := []

def stepFeeder (pipeline : Pipeline T capacity) : Pipeline T capacity :=
  match pipeline.feeder.rest with
  | [] => { pipeline with done := true }
  | message :: rest =>
    match pipeline.feeder.call with
    | .returned true =>
      { pipeline with
        feeder := { rest, call := .loadHead, pushed := pipeline.feeder.pushed ++ [message] } }
    | .returned false =>
      -- backpressure
      { pipeline with feeder := { pipeline.feeder with call := .loadHead } }
    | call =>
      let (ring, call) := pipeline.ring.tryPush message call
      { pipeline with ring, feeder := { pipeline.feeder with call } }

def stepLoop (tailFirst : Bool) (pipeline : Pipeline T capacity) : Pipeline T capacity :=
  match pipeline.loop with
  | .popping (.returned (some message)) =>
    { pipeline with applied := pipeline.applied ++ [message], loop := .popping .loadTail }
  | .popping (.returned none) => { pipeline with loop := .loadDone }
  | .popping call =>
    let (ring, call) := pipeline.ring.tryPop call
    { pipeline with ring, loop := .popping call }
  | .loadDone =>
    { pipeline with
      loop := if pipeline.done then .sizing none none else .popping .loadTail }
  | .sizing none none =>
    { pipeline with
      loop := if tailFirst then .sizing none (some pipeline.ring.tail)
        else .sizing (some pipeline.ring.head) none }
  | .sizing (some head) none =>
    { pipeline with loop := .sizing (some head) (some pipeline.ring.tail) }
  | .sizing none (some tail) =>
    { pipeline with loop := .sizing (some pipeline.ring.head) (some tail) }
  | .sizing (some head) (some tail) =>
    { pipeline with loop := if head - tail = 0 then .exited else .popping .loadTail }
  | .exited => pipeline

def step (pipeline : Pipeline T capacity) : Turn → Pipeline T capacity
  | .feeder => pipeline.stepFeeder
  | .loop tailFirst => pipeline.stepLoop tailFirst

/-- The state after the two threads took their steps in the order of `schedule`. -/
def run (pipeline : Pipeline T capacity) (schedule : List Turn) : Pipeline T capacity :=
  schedule.foldl step pipeline

@[simp] theorem run_nil (pipeline : Pipeline T capacity) : pipeline.run [] = pipeline := rfl

@[simp] theorem run_append (pipeline : Pipeline T capacity) (first second : List Turn) :
    pipeline.run (first ++ second) = (pipeline.run first).run second := by
  simp [run]

@[simp] theorem run_singleton (pipeline : Pipeline T capacity) (turn : Turn) :
    pipeline.run [turn] = pipeline.step turn := rfl

end Pipeline

end Matchbook
