import Kungfu.Yijinjing.Cache.LastWrite
import Kungfu.Yijinjing.Cache.Ringqueue

namespace Kungfu.Yijinjing.Cache

open Kungfu.Lib Kungfu.Common Kungfu.Longfist

namespace Ringqueue

variable {S : Schema} {q : Ringqueue S} {accepted popped : List (State S)} {x : State S}

/-- The counters count the accepted and the popped values, the slots between them hold the
values that are still to be popped, and those that were popped came out in order. -/
structure Holds (q : Ringqueue S) (accepted popped : List (State S)) : Prop where
  masked : q.Masked
  tail : q.tail.toNat = accepted.length
  head : q.head.toNat = popped.length
  le : popped.length ≤ accepted.length
  room : accepted.length ≤ popped.length + q.capacityMask.toNat
  slots : ∀ i (h : i < accepted.length), popped.length ≤ i → q.queue (i % q.slotCount) = accepted[i]
  fifo : List.Forall₂ State.Eqv popped (accepted.take popped.length)

theorem holds_new (capacity : UInt64) (queue : Nat → State S) (popValue : State S) :
    (new capacity queue popValue).Holds [] [] where
  masked := masked_new ..
  tail := rfl
  head := rfl
  le := Nat.le_refl _
  room := Nat.zero_le _
  slots _ h := absurd h (Nat.not_lt_zero _)
  fifo := .nil

namespace Holds

theorem slot_ne (h : q.Holds accepted popped) {i : Nat} (hi : popped.length ≤ i)
    (hlt : i < accepted.length) : i % q.slotCount ≠ q.slot q.tail := by
  rw [h.masked.slot_eq, h.tail]
  have := h.room
  exact BitMask.mod_ne_of_lt hlt (by rw [slotCount]; omega)

theorem write (h : q.Holds accepted popped) : (q.write q.tail x).Holds accepted popped where
  masked := ⟨h.masked.mask, h.masked.capacity⟩
  tail := h.tail
  head := h.head
  le := h.le
  room := h.room
  slots i hlt hi := (Function.update_of_ne (h.slot_ne hi hlt) ..).trans (h.slots i hlt hi)
  fifo := h.fifo

theorem read (h : q.Holds accepted popped) (i : UInt64) : (q.read i).Holds accepted popped where
  masked := ⟨h.masked.mask, h.masked.capacity⟩
  tail := h.tail
  head := h.head
  le := h.le
  room := h.room
  slots := h.slots
  fifo := h.fifo

theorem advanceTail (h : q.Holds accepted popped) (hx : q.queue (q.slot q.tail) = x)
    (hroom : accepted.length < popped.length + q.capacityMask.toNat)
    (hmax : accepted.length + 1 < 2 ^ 64) :
    Holds { q with tail := q.tail + 1 } (accepted ++ [x]) popped where
  masked := ⟨h.masked.mask, h.masked.capacity⟩
  tail := by
    have := h.tail
    simp only [UInt64.toNat_add, List.length_append, List.length_singleton]
    rw [this]
    exact Nat.mod_eq_of_lt hmax
  head := h.head
  le := by
    have := h.le
    simp only [List.length_append]
    omega
  room := by
    simp only [List.length_append, List.length_singleton]
    omega
  slots i hlt hi := by
    by_cases hold : i < accepted.length
    · rw [List.getElem_append_left hold]
      exact h.slots i hold hi
    · have hi' : i = accepted.length := by
        simp only [List.length_append, List.length_singleton] at hlt
        omega
      subst hi'
      rw [h.masked.slot_eq, h.tail] at hx
      rw [List.getElem_append_right (Nat.le_refl _)]
      exact hx.trans (by simp)
  fifo := by
    rw [List.take_append_of_le_length h.le]
    exact h.fifo

theorem room_of_lt (h : q.Holds accepted popped) {head : UInt64} (hle : head ≤ q.head)
    (hlt : q.tail - head < q.capacity - 1) :
    accepted.length < popped.length + q.capacityMask.toNat := by
  have htail := h.tail
  have hhead := h.head
  have hlen := h.le
  rw [UInt64.le_iff_toNat_le] at hle
  have hsub : head ≤ q.tail := UInt64.le_iff_toNat_le.mpr (by omega)
  rw [h.masked.capacity_sub_one, UInt64.lt_iff_toNat_lt, UInt64.toNat_sub_of_le _ _ hsub] at hlt
  omega

theorem popValue_read (h : q.Holds accepted popped) (hlt : popped.length < accepted.length) :
    ((q.read q.head).popValue).Eqv accepted[popped.length] := by
  have hslot : q.queue (q.slot q.head) = accepted[popped.length] := by
    rw [h.masked.slot_eq, h.head]
    exact h.slots _ hlt (Nat.le_refl _)
  rw [Ringqueue.read, hslot]
  exact ⟨rfl, rfl, rfl, Record.assign_fresh _⟩

theorem advanceHead (h : q.Holds accepted popped) (hlt : popped.length < accepted.length)
    (hx : x.Eqv accepted[popped.length]) :
    Holds { q with head := q.head + 1 } accepted (popped ++ [x]) where
  masked := ⟨h.masked.mask, h.masked.capacity⟩
  tail := h.tail
  head := by
    have htail := q.tail.toNat_lt
    have := h.head
    have := h.tail
    simp only [UInt64.toNat_add, List.length_append, List.length_singleton]
    rw [h.head]
    exact Nat.mod_eq_of_lt (by show popped.length + 1 < 2 ^ 64; omega)
  le := by
    simp only [List.length_append, List.length_singleton]
    omega
  room := by
    have := h.room
    simp only [List.length_append, List.length_singleton]
    omega
  slots i hi hle := h.slots i hi (by
    simp only [List.length_append, List.length_singleton] at hle
    omega)
  fifo := by
    rw [List.length_append, List.length_singleton, ← List.take_concat_get' _ _ hlt]
    exact List.rel_append h.fifo (.cons hx .nil)

end Holds

end Ringqueue

section Threads

variable {S : Schema}

theorem le_add_one {i : UInt64} (h : i.toNat + 1 < 2 ^ 64) : i ≤ i + 1 := by
  rw [UInt64.le_iff_toNat_le, UInt64.toNat_add, UInt64.toNat_one, Nat.mod_eq_of_lt h]
  exact Nat.le_succ _

def Producer.calls : Producer S → Nat
  | .idle => 0
  | _ => 1

/-- What the producer has loaded; only its head may be out of date. -/
def Producer.Sound (q : Ringqueue S) : Producer S → Prop
  | .idle => True
  | .tailLoaded _ tail => tail = q.tail
  | .headLoaded _ tail head => tail = q.tail ∧ head ≤ q.head
  | .written x tail head => tail = q.tail ∧ head ≤ q.head ∧ q.queue (q.slot q.tail) = x.state

def Consumer.Sound (q : Ringqueue S) (accepted popped : List (State S)) : Consumer → Prop
  | .idle => True
  | .headLoaded head => head = q.head
  | .tailLoaded head tail => head = q.head ∧ tail ≤ q.tail
  | .reading head => head = q.head ∧ popped.length < accepted.length
  | .copied head => head = q.head ∧ ∃ h : popped.length < accepted.length,
      q.popValue.Eqv accepted[popped.length]

variable {q : Ringqueue S} {accepted popped : List (State S)}

theorem Producer.sound_read (p : Producer S) (i : UInt64) : p.Sound (q.read i) ↔ p.Sound q := by
  cases p with
  | idle => rfl
  | tailLoaded => rfl
  | headLoaded => rfl
  | written => rfl

theorem Producer.Sound.advanceHead {p : Producer S} (h : p.Sound q) (hlt : q.head < q.tail) :
    p.Sound { q with head := q.head + 1 } := by
  have hle : q.head ≤ q.head + 1 := le_add_one (Nat.lt_of_le_of_lt hlt q.tail.toNat_lt)
  cases p with
  | idle => trivial
  | tailLoaded => exact h
  | headLoaded => exact ⟨h.1, UInt64.le_trans h.2 hle⟩
  | written => exact ⟨h.1, UInt64.le_trans h.2.1 hle, h.2.2⟩

theorem Consumer.sound_write (c : Consumer) (i : UInt64) (x : State S) :
    c.Sound (q.write i x) accepted popped ↔ c.Sound q accepted popped := by
  cases c with
  | idle => rfl
  | headLoaded => rfl
  | tailLoaded => rfl
  | reading => rfl
  | copied => rfl

theorem Consumer.Sound.advanceTail {c : Consumer} (h : c.Sound q accepted popped)
    (hmax : q.tail.toNat + 1 < 2 ^ 64) (x : State S) :
    c.Sound { q with tail := q.tail + 1 } (accepted ++ [x]) popped := by
  cases c with
  | idle => trivial
  | headLoaded => exact h
  | tailLoaded => exact ⟨h.1, UInt64.le_trans h.2 (le_add_one hmax)⟩
  | reading =>
    refine ⟨h.1, ?_⟩
    rw [List.length_append]
    exact Nat.lt_add_right 1 h.2
  | copied =>
    obtain ⟨hhead, hlt, heqv⟩ := h
    refine ⟨hhead, by rw [List.length_append]; exact Nat.lt_add_right 1 hlt, ?_⟩
    rwa [List.getElem_append_left hlt]

end Threads

namespace Machine

variable {S : Schema} {m m' : Machine S}

structure Invariant (m : Machine S) : Prop where
  holds : m.queue.Holds m.accepted m.popped
  calls : m.accepted.length + m.producer.calls ≤ m.pushes
  producer : m.producer.Sound m.queue
  consumer : m.consumer.Sound m.queue m.accepted m.popped

theorem invariant_start (capacity : UInt64) (queue : Nat → State S) (popValue : State S) :
    (start (.new capacity queue popValue)).Invariant :=
  ⟨Ringqueue.holds_new .., Nat.le_refl _, trivial, trivial⟩

theorem Invariant.stepProducer (hi : m.Invariant) (h : m.stepProducer m.producer = some m')
    (hmax : m'.pushes < 2 ^ 64) : m'.Invariant := by
  obtain ⟨hholds, hcalls, hproducer, hconsumer⟩ := hi
  cases hp : m.producer with rw [hp] at h hcalls hproducer
  | idle => cases h
  | tailLoaded x tail =>
    cases h
    exact ⟨hholds, hcalls, ⟨hproducer, UInt64.le_refl _⟩, hconsumer⟩
  | headLoaded x tail head =>
    cases h
    obtain ⟨rfl, hhead⟩ := hproducer
    refine ⟨hholds.write, hcalls, ⟨rfl, hhead, ?_⟩, (m.consumer.sound_write _ _).mpr hconsumer⟩
    exact Function.update_self ..
  | written x tail head =>
    obtain ⟨rfl, hhead, hslot⟩ := hproducer
    change m.accepted.length + 1 ≤ m.pushes at hcalls
    simp only [Machine.stepProducer] at h
    split at h
    next hlt =>
      cases h
      have hlen : m.accepted.length + 1 < 2 ^ 64 := Nat.lt_of_le_of_lt hcalls hmax
      refine ⟨hholds.advanceTail hslot (hholds.room_of_lt hhead hlt) hlen, ?_, trivial,
        hconsumer.advanceTail (hholds.tail ▸ hlen) _⟩
      rw [List.length_append]
      exact hcalls
    next =>
      cases h
      exact ⟨hholds, Nat.le_of_succ_le hcalls, trivial, hconsumer⟩

theorem Invariant.stepConsumer (hi : m.Invariant) (h : m.stepConsumer m.consumer = some m') :
    m'.Invariant := by
  obtain ⟨hholds, hcalls, hproducer, hconsumer⟩ := hi
  cases hc : m.consumer with rw [hc] at h hconsumer
  | idle => cases h
  | headLoaded head =>
    cases h
    exact ⟨hholds, hcalls, hproducer, hconsumer, UInt64.le_refl _⟩
  | tailLoaded head tail =>
    cases h
    obtain ⟨rfl, htail⟩ := hconsumer
    refine ⟨hholds, hcalls, hproducer, ?_⟩
    show Consumer.Sound _ _ _ (if tail ≤ m.queue.head then .idle else .reading m.queue.head)
    split
    next => trivial
    next hempty =>
      -- the tail that was loaded may be old, but it is already past the head
      refine ⟨rfl, ?_⟩
      rw [← hholds.head, ← hholds.tail]
      exact Nat.lt_of_lt_of_le (Nat.lt_of_not_le hempty) htail
  | reading head =>
    cases h
    obtain ⟨rfl, hlt⟩ := hconsumer
    exact ⟨hholds.read _, hcalls, (m.producer.sound_read _).mpr hproducer, rfl, hlt,
      hholds.popValue_read hlt⟩
  | copied head =>
    cases h
    obtain ⟨rfl, hlt, heqv⟩ := hconsumer
    have hcounters : m.queue.head < m.queue.tail := by
      rw [UInt64.lt_iff_toNat_lt, hholds.head, hholds.tail]
      exact hlt
    exact ⟨hholds.advanceHead hlt heqv, hcalls, hproducer.advanceHead hcounters, trivial⟩

theorem step_push_iff {x : Item S} : m.step (.push x) = some m' ↔ m.producer = .idle ∧
    m' = { m with producer := .tailLoaded x m.queue.tail, pushes := m.pushes + 1 } := by
  simp only [step]
  split
  next h => simp [h, eq_comm]
  next h => simpa using fun hidle => absurd hidle h

theorem step_pop_iff : m.step .pop = some m' ↔ m.consumer = .idle ∧
    m' = { m with consumer := .headLoaded m.queue.head } := by
  simp only [step]
  split
  next h => simp [h, eq_comm]
  next h => simpa using fun hidle => absurd hidle h

theorem Invariant.step (hi : m.Invariant) {a : Action S} (h : m.step a = some m')
    (hmax : m'.pushes < 2 ^ 64) : m'.Invariant := by
  cases a with
  | push x =>
    obtain ⟨hidle, rfl⟩ := step_push_iff.mp h
    have hcalls := hi.calls
    rw [hidle] at hcalls
    exact ⟨hi.holds, Nat.succ_le_succ hcalls, rfl, hi.consumer⟩
  | producer => exact hi.stepProducer h hmax
  | pop =>
    obtain ⟨-, rfl⟩ := step_pop_iff.mp h
    exact ⟨hi.holds, hi.calls, hi.producer, rfl⟩
  | consumer => exact hi.stepConsumer h

theorem run_cons {a : Action S} {actions : List (Action S)} :
    m.run (a :: actions) = some m' ↔ ∃ n, m.step a = some n ∧ n.run actions = some m' := by
  simp only [run, List.foldlM_cons, Option.bind_eq_bind, Option.bind_eq_some_iff]

theorem pushes_stepProducer {p : Producer S} (h : m.stepProducer p = some m') :
    m'.pushes = m.pushes := by
  cases p with
  | idle => cases h
  | tailLoaded => cases h; rfl
  | headLoaded => cases h; rfl
  | written =>
    simp only [stepProducer] at h
    split at h
    next => cases h; rfl
    next => cases h; rfl

theorem pushes_stepConsumer {c : Consumer} (h : m.stepConsumer c = some m') :
    m'.pushes = m.pushes := by
  cases c with
  | idle => cases h
  | headLoaded => cases h; rfl
  | tailLoaded => cases h; rfl
  | reading => cases h; rfl
  | copied => cases h; rfl

theorem pushes_le_of_step {a : Action S} (h : m.step a = some m') : m.pushes ≤ m'.pushes := by
  cases a with
  | push x =>
    obtain ⟨-, rfl⟩ := step_push_iff.mp h
    exact Nat.le_succ _
  | producer => exact (pushes_stepProducer h).ge
  | pop =>
    obtain ⟨-, rfl⟩ := step_pop_iff.mp h
    exact Nat.le_refl _
  | consumer => exact (pushes_stepConsumer h).ge

theorem pushes_le_of_run {actions : List (Action S)} (h : m.run actions = some m') :
    m.pushes ≤ m'.pushes := by
  induction actions generalizing m with
  | nil => cases h; exact Nat.le_refl _
  | cons a actions ih =>
    obtain ⟨n, hstep, hrun⟩ := run_cons.mp h
    exact (pushes_le_of_step hstep).trans (ih hrun)

theorem Invariant.run (hi : m.Invariant) {actions : List (Action S)}
    (h : m.run actions = some m') (hmax : m'.pushes < 2 ^ 64) : m'.Invariant := by
  induction actions generalizing m with
  | nil => cases h; exact hi
  | cons a actions ih =>
    obtain ⟨n, hstep, hrun⟩ := run_cons.mp h
    exact ih (hi.step hstep (Nat.lt_of_le_of_lt (pushes_le_of_run hrun) hmax)) hrun

/-- A bounded first-in-first-out queue: at most `capacity_ - 1` values wait, the producer writes
no slot that is read or waits to be, and `pop` returns what was pushed, in order. -/
structure Safe (m : Machine S) : Prop where
  head_le : m.queue.head ≤ m.queue.tail
  bounded : m.queue.tail - m.queue.head ≤ m.queue.capacity - 1
  unread : ∀ x tail head, m.producer = .headLoaded x tail head →
    ∀ i, m.queue.head ≤ i → i < m.queue.tail → m.queue.slot i ≠ m.queue.slot tail
  reading : ∀ x tail head i, m.producer = .headLoaded x tail head → m.consumer = .reading i →
    m.queue.slot i ≠ m.queue.slot tail
  popped_le : m.popped.length ≤ m.accepted.length
  fifo : List.Forall₂ State.Eqv m.popped (m.accepted.take m.popped.length)

theorem Invariant.safe (hi : m.Invariant) : m.Safe := by
  obtain ⟨hholds, -, hproducer, hconsumer⟩ := hi
  have htail := hholds.tail
  have hhead := hholds.head
  have hle := hholds.le
  have hroom := hholds.room
  have hcounters : m.queue.head ≤ m.queue.tail := UInt64.le_iff_toNat_le.mpr (by omega)
  have hunread : ∀ x tail head, m.producer = .headLoaded x tail head →
      ∀ i, m.queue.head ≤ i → i < m.queue.tail → m.queue.slot i ≠ m.queue.slot tail := by
    intro x tail head hp i hi hlt
    rw [hp] at hproducer
    obtain ⟨rfl, -⟩ := hproducer
    rw [UInt64.le_iff_toNat_le, hhead] at hi
    rw [UInt64.lt_iff_toNat_lt, htail] at hlt
    rw [hholds.masked.slot_eq i]
    exact hholds.slot_ne hi hlt
  refine ⟨hcounters, ?_, hunread, ?_, hle, hholds.fifo⟩
  · rw [hholds.masked.capacity_sub_one, UInt64.le_iff_toNat_le,
      UInt64.toNat_sub_of_le _ _ hcounters]
    omega
  · intro x tail head i hp hc
    rw [hc] at hconsumer
    obtain ⟨rfl, hlt⟩ := hconsumer
    refine hunread x tail head hp _ (UInt64.le_refl _) ?_
    rw [UInt64.lt_iff_toNat_lt, hhead, htail]
    exact hlt

theorem safe_run (capacity : UInt64) (queue : Nat → State S) (popValue : State S)
    (actions : List (Action S)) (m : Machine S)
    (hrun : (start (.new capacity queue popValue)).run actions = some m)
    (hpushes : m.pushes < 2 ^ 64) : m.Safe :=
  ((invariant_start capacity queue popValue).run hrun hpushes).safe

/-- An order with an error message, then one without; the second `push` starts while the first
value is being popped. -/
def twoOrders : List (Action Types.order) :=
  [.push ⟨orderWithError [110, 111], rfl, by decide⟩, .producer, .pop, .producer, .producer,
    .consumer, .push ⟨orderWithError [], rfl, by decide⟩, .consumer, .producer, .consumer,
    .producer, .consumer, .producer, .pop, .consumer, .consumer, .consumer, .consumer]

theorem safe_run_twoOrders :
    ∃ m, (start (.new 4 (fun _ => orderWithError []) (orderWithError []))).run twoOrders = some m ∧
      m.popped.length = 2 ∧ m.Safe := by
  obtain ⟨m, hrun, hpushes, hpopped⟩ : ∃ m,
      (start (.new 4 (fun _ => orderWithError []) (orderWithError []))).run twoOrders = some m ∧
        m.pushes = 2 ∧ m.popped.length = 2 := ⟨_, rfl, rfl, rfl⟩
  exact ⟨m, hrun, hpopped, safe_run 4 _ _ twoOrders m hrun (by omega)⟩

end Machine

end Kungfu.Yijinjing.Cache
