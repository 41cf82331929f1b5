import Mathlib.Data.List.Forall2
import Kungfu.Common.Record
import Kungfu.Lib.BitMask

/-!
The ring queue of `cache/ringqueue.h`, its calls, and the single steps of one producer and one
consumer.
-/

namespace Kungfu.Yijinjing.Cache

open Kungfu.Lib Kungfu.Common

/-- `ringqueue<state<T>>`. The slots are addressed by masked indices. -/
structure Ringqueue (S : Schema) where
  capacityMask : UInt64
  queue : Nat → State S
  popValue : State S
  capacity : UInt64
  tail : UInt64
  head : UInt64

/-- A value that may be pushed: an object without `std::string`, as `memset` presupposes, whose
char arrays hold a NUL, as `strlen` does. -/
structure Item (S : Schema) where
  state : State S
  fixed : S.sizeFixed = true := by decide
  terminated : state.data.Terminated := by decide

namespace Ringqueue

variable {S : Schema}

/-- The loop of the constructor, `i` running over the powers of two up to 32. -/
def fillMask (mask : UInt64) : UInt64 :=
  [(1 : UInt64), 2, 4, 8, 16, 32].foldl (fun mask i => mask ||| mask >>> i) mask

def sizeofPointer : UInt64 := 8

def fillLoop : Nat → UInt64 → UInt64 → Option UInt64
  | 0, _, _ => none
  | fuel + 1, i, mask =>
    if i ≤ sizeofPointer * 4 then fillLoop fuel (i <<< 1) (mask ||| mask >>> i) else some mask

theorem fillLoop_eq_fillMask (fuel : Nat) (mask : UInt64) :
    fillLoop (fuel + 7) 1 mask = some (fillMask mask) :=
  rfl

/-- A new queue; its slots and `pop_value_` are whatever the memory holds. -/
def new (capacity : UInt64) (queue : Nat → State S) (popValue : State S) : Ringqueue S where
  capacityMask := fillMask (capacity - 1)
  queue := queue
  popValue := popValue
  capacity := fillMask (capacity - 1) + 1
  tail := 0
  head := 0

def slot (q : Ringqueue S) (i : UInt64) : Nat := (i &&& q.capacityMask).toNat

def size (q : Ringqueue S) : UInt64 := q.tail - q.head

/-- `memset` and placement `new` on the slot of an index. -/
def write (q : Ringqueue S) (i : UInt64) (x : State S) : Ringqueue S :=
  { q with queue := Function.update q.queue (q.slot i) x }

/-- `memset` of `pop_value_` and assignment of the slot of an index. -/
def read (q : Ringqueue S) (i : UInt64) : Ringqueue S :=
  { q with popValue := State.assign ⟨0, 0, 0, .fresh S.fields⟩ (q.queue (q.slot i)) }

def push (q : Ringqueue S) (x : State S) : Bool × Ringqueue S :=
  let tail := q.tail
  let head := q.head
  let q := q.write tail x
  (true, if tail - head < q.capacity - 1 then { q with tail := q.tail + 1 } else q)

def pop (q : Ringqueue S) : Option (State S) × Ringqueue S :=
  let head := q.head
  let tail := q.tail
  if tail ≤ head then (none, q)
  else
    let q := q.read head
    (some q.popValue, { q with head := q.head + 1 })

end Ringqueue

inductive Producer (S : Schema)
  | idle
  | tailLoaded (x : Item S) (tail : UInt64)
  | headLoaded (x : Item S) (tail head : UInt64)
  | written (x : Item S) (tail head : UInt64)

inductive Consumer
  | idle
  | headLoaded (head : UInt64)
  | tailLoaded (head tail : UInt64)
  | reading (head : UInt64)
  | copied (head : UInt64)

/-- The queue between two threads, with the history of the run: how often `push` was called,
whose values advanced the tail, and what `pop` has handed out. -/
structure Machine (S : Schema) where
  queue : Ringqueue S
  producer : Producer S
  consumer : Consumer
  pushes : Nat
  accepted : List (State S)
  popped : List (State S)

inductive Action (S : Schema)
  | push (x : Item S)
  | producer
  | pop
  | consumer

namespace Machine

variable {S : Schema}

def start (q : Ringqueue S) : Machine S where
  queue := q
  producer := .idle
  consumer := .idle
  pushes := 0
  accepted := []
  popped := []

def stepProducer (m : Machine S) : Producer S → Option (Machine S)
  | .idle => none
  | .tailLoaded x tail => some { m with producer := .headLoaded x tail m.queue.head }
  | .headLoaded x tail head =>
    some { m with queue := m.queue.write tail x.state, producer := .written x tail head }
  | .written x tail head =>
    if tail - head < m.queue.capacity - 1 then
      some { m with
        queue := { m.queue with tail := m.queue.tail + 1 }
        producer := .idle
        accepted := m.accepted ++ [x.state] }
    else some { m with producer := .idle }

def stepConsumer (m : Machine S) : Consumer → Option (Machine S)
  | .idle => none
  | .headLoaded head => some { m with consumer := .tailLoaded head m.queue.tail }
  | .tailLoaded head tail =>
    some { m with consumer := if tail ≤ head then .idle else .reading head }
  | .reading head => some { m with queue := m.queue.read head, consumer := .copied head }
  | .copied _ =>
    some { m with
      queue := { m.queue with head := m.queue.head + 1 }
      consumer := .idle
      popped := m.popped ++ [m.queue.popValue] }

/-- One step of one thread; a call can start when the thread is in none. -/
def step (m : Machine S) : Action S → Option (Machine S)
  | .push x =>
    match m.producer with
    | .idle => some { m with producer := .tailLoaded x m.queue.tail, pushes := m.pushes + 1 }
    | _ => none
  | .producer => m.stepProducer m.producer
  | .pop =>
    match m.consumer with
    | .idle => some { m with consumer := .headLoaded m.queue.head }
    | _ => none
  | .consumer => m.stepConsumer m.consumer

def run (m : Machine S) (actions : List (Action S)) : Option (Machine S) := actions.foldlM step m

theorem run_push (m : Machine S) (x : Item S) (h : m.producer = .idle) :
    m.run [.push x, .producer, .producer, .producer] = some { m with
      queue := (m.queue.push x.state).2
      pushes := m.pushes + 1
      accepted := if m.queue.tail - m.queue.head < m.queue.capacity - 1
        then m.accepted ++ [x.state] else m.accepted } := by
  obtain ⟨q, producer, consumer, pushes, accepted, popped⟩ := m
  cases h
  by_cases hroom : q.tail - q.head < q.capacity - 1
  · simp [run, step, stepProducer, Ringqueue.push, Ringqueue.write, hroom]
  · simp [run, step, stepProducer, Ringqueue.push, Ringqueue.write, hroom]

theorem run_pop (m : Machine S) (h : m.consumer = .idle) (hne : ¬ m.queue.tail ≤ m.queue.head) :
    m.run [.pop, .consumer, .consumer, .consumer, .consumer] = some { m with
      queue := m.queue.pop.2
      popped := m.popped ++ m.queue.pop.1.toList } := by
  obtain ⟨q, producer, consumer, pushes, accepted, popped⟩ := m
  cases h
  simp [run, step, stepConsumer, Ringqueue.pop, Ringqueue.read, hne]

end Machine

namespace Ringqueue

variable {S : Schema}

def slotCount (q : Ringqueue S) : Nat := q.capacityMask.toNat + 1

structure Masked (q : Ringqueue S) : Prop where
  mask : ∃ k ≤ 64, q.capacityMask.toNat = 2 ^ k - 1
  capacity : q.capacity = q.capacityMask + 1

theorem toNat_fillMask (mask : UInt64) :
    (fillMask mask).toNat = [1, 2, 4, 8, 16, 32].foldl BitMask.spread mask.toNat := by
  simp [fillMask, BitMask.spread]

theorem toNat_fillMask_eq (mask : UInt64) : (fillMask mask).toNat = 2 ^ mask.toNat.size - 1 := by
  rw [toNat_fillMask]
  exact (BitMask.window_fill 6 mask.toNat).eq_size mask.toNat_lt

theorem masked_new (capacity : UInt64) (queue : Nat → State S) (popValue : State S) :
    (new capacity queue popValue).Masked := by
  refine ⟨⟨_, ?_, toNat_fillMask_eq _⟩, rfl⟩
  exact Nat.size_le.mpr (capacity - 1).toNat_lt

variable {q : Ringqueue S}

theorem Masked.slot_eq (h : q.Masked) (i : UInt64) : q.slot i = i.toNat % q.slotCount := by
  obtain ⟨k, -, hk⟩ := h.mask
  have hpos := Nat.two_pow_pos k
  rw [slot, UInt64.toNat_and, slotCount, hk, Nat.and_two_pow_sub_one_eq_mod,
    Nat.sub_add_cancel hpos]

theorem Masked.capacity_sub_one (h : q.Masked) : q.capacity - 1 = q.capacityMask := by
  rw [h.capacity, UInt64.add_sub_cancel]

end Ringqueue

end Kungfu.Yijinjing.Cache
