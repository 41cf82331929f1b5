import Mathlib.Order.Bounds.Defs
import Kungfu.Yijinjing.Cache.TradingBank

namespace Kungfu.Yijinjing.Cache

open Kungfu.Lib Kungfu.Common Kungfu.Longfist

namespace Ringqueue

variable {S : Schema}

structure Rounded (requested : UInt64) (q : Ringqueue S) : Prop where
  capacity : IsLeast {n | requested.toNat ≤ n ∧ ∃ k, n = 2 ^ k} q.capacity.toNat
  mask : q.capacityMask = q.capacity - 1
  slot : ∀ i : UInt64, i &&& q.capacityMask = i % q.capacity

variable {capacity : UInt64} {queue : Nat → State S} {popValue : State S}

theorem toNat_capacityMask_new (hpos : 1 ≤ capacity.toNat) :
    (new capacity queue popValue).capacityMask.toNat = 2 ^ (capacity.toNat - 1).size - 1 := by
  have hsub : (capacity - 1).toNat = capacity.toNat - 1 :=
    UInt64.toNat_sub_of_le _ _ (UInt64.le_iff_toNat_le.mpr hpos)
  rw [← hsub]
  exact toNat_fillMask_eq _

theorem toNat_capacity_new (hpos : 1 ≤ capacity.toNat) (hle : capacity.toNat ≤ 2 ^ 63) :
    (new capacity queue popValue).capacity.toNat = 2 ^ (capacity.toNat - 1).size := by
  have hsize : (capacity.toNat - 1).size ≤ 63 := Nat.size_le.mpr (by omega)
  have hpow : 2 ^ (capacity.toNat - 1).size ≤ 2 ^ 63 := Nat.pow_le_pow_right (by decide) hsize
  have hone := Nat.two_pow_pos (capacity.toNat - 1).size
  rw [(masked_new ..).capacity, UInt64.toNat_add, toNat_capacityMask_new hpos, UInt64.toNat_one,
    Nat.sub_add_cancel hone]
  omega

theorem rounded_new (capacity : UInt64) (queue : Nat → State S) (popValue : State S)
    (hpos : 1 ≤ capacity.toNat) (hle : capacity.toNat ≤ 2 ^ 63) :
    (new capacity queue popValue).Rounded capacity := by
  have hmasked := masked_new capacity queue popValue
  have hcapacity : (new capacity queue popValue).capacity.toNat =
      2 ^ (capacity.toNat - 1).size := toNat_capacity_new hpos hle
  have hslots : (new capacity queue popValue).slotCount =
      (new capacity queue popValue).capacity.toNat := by
    rw [slotCount, toNat_capacityMask_new hpos, hcapacity, Nat.sub_add_cancel (Nat.two_pow_pos _)]
  refine ⟨⟨⟨?_, _, hcapacity⟩, ?_⟩, hmasked.capacity_sub_one.symm, fun i => ?_⟩
  · have hlt := Nat.lt_size_self (capacity.toNat - 1)
    rw [hcapacity]
    omega
  · rintro _ ⟨hcover, k, rfl⟩
    rw [hcapacity]
    exact Nat.pow_le_pow_right (by decide) (Nat.size_le.mpr (by omega))
  · have hslot := hmasked.slot_eq i
    rw [hslots] at hslot
    exact UInt64.toNat_inj.mp (hslot.trans (UInt64.toNat_mod ..).symm)

theorem rounded_new_trading :
    (new tradingMapRingSize (fun _ => orderWithError []) (orderWithError [])).Rounded 2048 :=
  rounded_new 2048 _ _ (by decide) (by decide)

end Ringqueue

structure Assignable (T : Type) where
  zeroed : T
  assign : T → T → T

/-- `ringqueue<T>` where `size_t` and pointers have `w` bits. -/
structure RingqueueOf (w : Nat) (T : Type) where
  capacityMask : BitVec w
  queue : Nat → T
  popValue : T
  capacity : BitVec w
  tail : BitVec w
  head : BitVec w

namespace RingqueueOf

variable {w : Nat} {T : Type}

def fillMask (mask : BitVec w) : BitVec w :=
  (((List.range w).map (2 ^ ·)).filter (· ≤ w / 2)).foldl (fun mask i => mask ||| mask >>> i) mask

def new (capacity : BitVec w) (queue : Nat → T) (popValue : T) : RingqueueOf w T where
  capacityMask := fillMask (capacity - 1)
  queue := queue
  popValue := popValue
  capacity := fillMask (capacity - 1) + 1
  tail := 0
  head := 0

def slot (q : RingqueueOf w T) (i : BitVec w) : Nat := (i &&& q.capacityMask).toNat

def size (q : RingqueueOf w T) : BitVec w := q.tail - q.head

def push (q : RingqueueOf w T) (x : T) : Bool × RingqueueOf w T :=
  let tail := q.tail
  let head := q.head
  let q := { q with queue := Function.update q.queue (q.slot tail) x }
  (true, if tail - head < q.capacity - 1 then { q with tail := q.tail + 1 } else q)

def pop (a : Assignable T) (q : RingqueueOf w T) : Option T × RingqueueOf w T :=
  let head := q.head
  let tail := q.tail
  if tail ≤ head then (none, q)
  else
    let q := { q with popValue := a.assign a.zeroed (q.queue (q.slot head)) }
    (some q.popValue, { q with head := q.head + 1 })

inductive Call (T : Type)
  | push (x : T)
  | pop

def call (a : Assignable T) (q : RingqueueOf w T) : Call T → RingqueueOf w T
  | .push x => (q.push x).2
  | .pop => (q.pop a).2

def run (a : Assignable T) (q : RingqueueOf w T) (calls : List (Call T)) : RingqueueOf w T :=
  calls.foldl (call a) q

structure Count where
  queued : Nat
  taken : Nat

def Count.call (limit : Nat) (n : Count) : Call T → Count
  | .push _ => if n.queued < limit then ⟨n.queued + 1, n.taken + 1⟩ else n
  | .pop => { n with queued := n.queued - 1 }

def count (limit : Nat) (calls : List (Call T)) : Count := calls.foldl (Count.call limit) ⟨0, 0⟩

structure Consistent (a : Assignable T) (q : RingqueueOf w T) (n : Nat) : Prop where
  push : ∀ x, (q.push x).2.tail = if n < (q.capacity - 1).toNat then q.tail + 1 else q.tail
  size : q.size.toNat = n
  pop : (q.pop a).1.isSome = true ↔ q.size ≠ 0

variable {a : Assignable T} {q : RingqueueOf w T} {n : Count} {x : T}

theorem toNat_add_one (i : BitVec w) : (i + 1).toNat = (i.toNat + 1) % 2 ^ w := by
  simp [BitVec.toNat_add]

theorem push_of_lt (h : q.size < q.capacity - 1) :
    (q.push x).2 = { q with
      queue := Function.update q.queue (q.slot q.tail) x
      tail := q.tail + 1 } :=
  if_pos h

theorem push_of_not_lt (h : ¬ q.size < q.capacity - 1) :
    (q.push x).2 = { q with queue := Function.update q.queue (q.slot q.tail) x } :=
  if_neg h

theorem tail_push (q : RingqueueOf w T) (x : T) : (q.push x).2.tail =
    if q.size.toNat < (q.capacity - 1).toNat then q.tail + 1 else q.tail := by
  by_cases h : q.size < q.capacity - 1
  · rw [push_of_lt h, if_pos (BitVec.lt_def.mp h)]
  · rw [push_of_not_lt h, if_neg (mt BitVec.lt_def.mpr h)]

theorem head_push (q : RingqueueOf w T) (x : T) : (q.push x).2.head = q.head := by
  simp only [push]
  split <;> rfl

theorem pop_of_le (h : q.tail ≤ q.head) : q.pop a = (none, q) := if_pos h

theorem pop_of_lt (h : q.head < q.tail) :
    q.pop a = (some (a.assign a.zeroed (q.queue (q.slot q.head))), { q with
      popValue := a.assign a.zeroed (q.queue (q.slot q.head))
      head := q.head + 1 }) :=
  if_neg (BitVec.not_le.mpr h)

theorem isSome_pop : (q.pop a).1.isSome = true ↔ q.head < q.tail := by
  by_cases h : q.tail ≤ q.head
  · rw [pop_of_le h]
    exact iff_of_false nofun (BitVec.not_lt.mpr h)
  · have hlt := BitVec.not_le.mp h
    rw [pop_of_lt hlt]
    exact iff_of_true rfl hlt

structure Tracks (limit : Nat) (q : RingqueueOf w T) (n : Count) : Prop where
  capacity : (q.capacity - 1).toNat = limit
  taken : q.tail.toNat = n.taken
  popped : q.head.toNat + n.queued = n.taken
  room : n.queued ≤ limit

namespace Tracks

variable {limit : Nat}

theorem size (h : q.Tracks limit n) : q.size.toNat = n.queued := by
  have htaken := h.taken
  have hpopped := h.popped
  have hle : q.head ≤ q.tail := BitVec.le_def.mpr (by omega)
  rw [RingqueueOf.size, BitVec.toNat_sub_of_le hle]
  omega

theorem consistent (h : q.Tracks limit n) : q.Consistent a n.queued where
  push x := by rw [tail_push, h.size]
  size := h.size
  pop := by
    have htaken := h.taken
    have hpopped := h.popped
    have hsize := h.size
    have hzero : q.size = 0 ↔ n.queued = 0 := by
      rw [← hsize, BitVec.toNat_eq]
      rfl
    rw [isSome_pop, BitVec.lt_def, Ne, hzero]
    omega

theorem push (h : q.Tracks limit n) (hmax : (n.call limit (.push x)).taken < 2 ^ w) :
    (q.push x).2.Tracks limit (n.call limit (.push x)) := by
  have hlt : q.size < q.capacity - 1 ↔ n.queued < limit := by
    rw [BitVec.lt_def, h.size, h.capacity]
  by_cases hroom : n.queued < limit
  · rw [Count.call, if_pos hroom] at hmax ⊢
    rw [push_of_lt (hlt.mpr hroom)]
    have htail : (q.tail + 1).toNat = n.taken + 1 := by
      rw [toNat_add_one, h.taken, Nat.mod_eq_of_lt hmax]
    exact ⟨h.capacity, htail, congrArg (· + 1) h.popped, hroom⟩
  · rw [Count.call, if_neg hroom, push_of_not_lt (mt hlt.mp hroom)]
    exact ⟨h.capacity, h.taken, h.popped, h.room⟩

theorem pop (h : q.Tracks limit n) : (q.pop a).2.Tracks limit (n.call limit (.pop : Call T)) := by
  obtain ⟨hcapacity, htaken, hpopped, hroom⟩ := h
  have hqueued : n.queued - 1 ≤ limit := (Nat.sub_le ..).trans hroom
  by_cases hle : q.tail ≤ q.head
  · rw [pop_of_le hle]
    rw [BitVec.le_def] at hle
    exact ⟨hcapacity, htaken, by simp only [Count.call]; omega, hqueued⟩
  · have hlt := BitVec.not_le.mp hle
    rw [pop_of_lt hlt]
    rw [BitVec.lt_def] at hlt
    have hhead : (q.head + 1).toNat = q.head.toNat + 1 := by
      rw [toNat_add_one, Nat.mod_eq_of_lt (Nat.lt_of_le_of_lt hlt q.tail.isLt)]
    exact ⟨hcapacity, htaken, by simp only [Count.call, hhead]; omega, hqueued⟩

/-- A tail that wraps to zero leaves values in the queue that `pop` does not see. -/
theorem not_pop_iff_of_wrap (h : q.Tracks limit n)
    (hwrap : (n.call limit (.push x)).taken = 2 ^ w) :
    ¬ (((q.push x).2.pop a).1.isSome = true ↔ (q.push x).2.size ≠ 0) := by
  intro hpop
  have hpopped := h.popped
  have hlimit := (q.capacity - 1).isLt
  rw [h.capacity] at hlimit
  have hroom : n.queued < limit := by
    by_contra hfull
    have htail := q.tail.isLt
    rw [Count.call, if_neg hfull, ← h.taken] at hwrap
    omega
  have htaken : n.taken + 1 = 2 ^ w := by rwa [Count.call, if_pos hroom] at hwrap
  have hnext : (q.push x).2.tail.toNat = 0 := by
    rw [tail_push, h.size, h.capacity, if_pos hroom, toNat_add_one, h.taken, htaken, Nat.mod_self]
  have hnone : ¬ (q.push x).2.head < (q.push x).2.tail := by
    rw [BitVec.lt_def, hnext]
    exact Nat.not_lt_zero _
  have hsize : (q.push x).2.size.toNat = 2 ^ w - q.head.toNat := by
    rw [RingqueueOf.size, BitVec.toNat_sub, hnext, head_push, Nat.add_zero]
    exact Nat.mod_eq_of_lt (by omega)
  have hzero : (q.push x).2.size = 0 :=
    not_not.mp (mt hpop.mpr (mt isSome_pop.mp hnone))
  rw [hzero, BitVec.ofNat_eq_ofNat, BitVec.toNat_zero] at hsize
  omega

end Tracks

theorem tracks_new (capacity : BitVec w) (queue : Nat → T) (popValue : T) :
    (new capacity queue popValue).Tracks
      ((new capacity queue popValue).capacity - 1).toNat ⟨0, 0⟩ where
  capacity := rfl
  taken := BitVec.toNat_zero
  popped := (Nat.add_zero _).trans BitVec.toNat_zero
  room := Nat.zero_le _

section Run

variable {limit : Nat} {calls before : List (Call T)}

theorem count_concat (c : Call T) : count limit (calls ++ [c]) = (count limit calls).call limit c :=
  List.foldl_concat ..

theorem run_concat (q : RingqueueOf w T) (c : Call T) :
    q.run a (calls ++ [c]) = (q.run a calls).call a c :=
  List.foldl_concat ..

theorem Count.taken_le_call (n : Count) (c : Call T) : n.taken ≤ (n.call limit c).taken := by
  cases c with
  | push x =>
    simp only [Count.call]
    split
    · exact Nat.le_succ _
    · exact Nat.le_refl _
  | pop => exact Nat.le_refl _

theorem Count.taken_le_of_isPrefix (h : before <+: calls) :
    (count limit before).taken ≤ (count limit calls).taken := by
  obtain ⟨after, rfl⟩ := h
  rw [count, count, List.foldl_append]
  generalize before.foldl (Count.call limit) ⟨0, 0⟩ = n
  induction after generalizing n with
  | nil => exact Nat.le_refl _
  | cons c after ih => exact (n.taken_le_call c).trans (ih _)

theorem tracks_run (hq : q.Tracks limit ⟨0, 0⟩) (hmax : (count limit calls).taken < 2 ^ w) :
    (q.run a calls).Tracks limit (count limit calls) := by
  induction calls using List.reverseRecOn with
  | nil => exact hq
  | append_singleton calls c ih =>
    have hbefore : (count limit calls).taken ≤ (count limit (calls ++ [c])).taken :=
      Count.taken_le_of_isPrefix (calls.prefix_append [c])
    have h := ih (Nat.lt_of_le_of_lt hbefore hmax)
    rw [count_concat] at hmax
    rw [run_concat, count_concat]
    cases c with
    | push x => exact h.push hmax
    | pop => exact h.pop

theorem exists_wrap (h : 2 ^ w ≤ (count limit calls).taken) :
    ∃ before x, before ++ [.push x] <+: calls ∧ (count limit before).taken < 2 ^ w ∧
      ((count limit before).call limit (.push x : Call T)).taken = 2 ^ w := by
  induction calls using List.reverseRecOn with
  | nil => exact absurd h (Nat.not_le.mpr (Nat.two_pow_pos w))
  | append_singleton calls c ih =>
    by_cases hold : 2 ^ w ≤ (count limit calls).taken
    · obtain ⟨before, x, hprefix, hwrap⟩ := ih hold
      exact ⟨before, x, hprefix.trans (calls.prefix_append [c]), hwrap⟩
    · rw [count_concat] at h
      cases c with
      | push x =>
        refine ⟨calls, x, List.prefix_rfl, Nat.lt_of_not_le hold, ?_⟩
        simp only [Count.call] at h ⊢
        split at h
        next hroom =>
          rw [if_pos hroom]
          exact Nat.le_antisymm (Nat.lt_of_not_le hold) h
        next => exact absurd h hold
      | pop => exact absurd h hold

theorem exists_not_pop_iff (hq : q.Tracks limit ⟨0, 0⟩) (h : 2 ^ w ≤ (count limit calls).taken) :
    ∃ before, before <+: calls ∧
      ¬ (((q.run a before).pop a).1.isSome = true ↔ (q.run a before).size ≠ 0) := by
  obtain ⟨before, x, hprefix, hlt, hwrap⟩ := exists_wrap h
  refine ⟨_, hprefix, ?_⟩
  rw [run_concat]
  exact (tracks_run hq hlt).not_pop_iff_of_wrap hwrap

theorem consistent_iff (a : Assignable T) (capacity : BitVec w) (queue : Nat → T) (popValue : T)
    (calls : List (Call T)) :
    (∀ before, before <+: calls → ((new capacity queue popValue).run a before).Consistent a
      (count ((new capacity queue popValue).capacity - 1).toNat before).queued) ↔
    (count ((new capacity queue popValue).capacity - 1).toNat calls).taken < 2 ^ w := by
  have hnew := tracks_new capacity queue popValue
  constructor
  · intro h
    by_contra hmax
    obtain ⟨before, hprefix, hnot⟩ := exists_not_pop_iff (a := a) hnew (Nat.not_lt.mp hmax)
    exact hnot (h before hprefix).pop
  · intro hmax before hprefix
    have hbefore := Nat.lt_of_le_of_lt (Count.taken_le_of_isPrefix hprefix) hmax
    exact (tracks_run hnew hbefore).consistent

def alternate (n : Nat) (x : T) : List (Call T) := (List.replicate n [.push x, .pop]).flatten

theorem count_alternate (hlimit : 0 < limit) (n : Nat) (x : T) :
    count limit (alternate n x) = ⟨0, n⟩ := by
  induction n with
  | zero => rfl
  | succ n ih =>
    have hlast : alternate (n + 1) x = alternate n x ++ [.push x] ++ [.pop] := by
      rw [alternate, List.replicate_succ', List.flatten_append, List.append_assoc]
      rfl
    rw [hlast, count_concat, count_concat, ih, Count.call, if_pos hlimit]
    rfl

end Run

end RingqueueOf

def stateAssignable (S : Schema) : Assignable (State S) where
  zeroed := ⟨0, 0, 0, .fresh S.fields⟩
  assign := State.assign

/-- Two slots for orders, and `2 ^ 64` orders that pass through them one by one. -/
theorem RingqueueOf.not_pop_iff_orders :
    let a := stateAssignable Types.order
    let q := new (2 : BitVec 64) (fun _ => orderWithError []) (orderWithError [])
    ¬ ∀ before, before <+: alternate (2 ^ 64) (orderWithError []) →
      (((q.run a before).pop a).1.isSome = true ↔ (q.run a before).size ≠ 0) := by
  intro a q h
  have hlimit : (q.capacity - 1).toNat = 1 := by decide
  have hcount : (count 1 (alternate (2 ^ 64) (orderWithError []))).taken = 2 ^ 64 :=
    congrArg Count.taken (count_alternate Nat.one_pos _ _)
  have hnew : q.Tracks 1 ⟨0, 0⟩ := hlimit ▸ tracks_new ..
  obtain ⟨before, hprefix, hnot⟩ := exists_not_pop_iff (a := a) hnew hcount.ge
  exact hnot (h before hprefix)

namespace Ringqueue

variable {S : Schema}

def toRingqueueOf (q : Ringqueue S) : RingqueueOf 64 (State S) where
  capacityMask := q.capacityMask.toBitVec
  queue := q.queue
  popValue := q.popValue
  capacity := q.capacity.toBitVec
  tail := q.tail.toBitVec
  head := q.head.toBitVec

theorem toBitVec_fillMask (mask : UInt64) :
    (fillMask mask).toBitVec = RingqueueOf.fillMask mask.toBitVec := by
  have hsteps : ((List.range 64).map (2 ^ ·)).filter (· ≤ 64 / 2) = [1, 2, 4, 8, 16, 32] := by
    decide
  rw [RingqueueOf.fillMask, hsteps]
  simp [fillMask]

theorem toRingqueueOf_new (capacity : UInt64) (queue : Nat → State S) (popValue : State S) :
    (new capacity queue popValue).toRingqueueOf = .new capacity.toBitVec queue popValue := by
  have hmask := toBitVec_fillMask (capacity - 1)
  rw [toRingqueueOf, RingqueueOf.new, new, UInt64.toBitVec_add, hmask]
  rfl

theorem size_toRingqueueOf (q : Ringqueue S) : q.toRingqueueOf.size = q.size.toBitVec := rfl

theorem push_toRingqueueOf (q : Ringqueue S) (x : State S) :
    (q.toRingqueueOf.push x).2 = (q.push x).2.toRingqueueOf := by
  have hlt : q.toRingqueueOf.size < q.toRingqueueOf.capacity - 1 ↔
      q.tail - q.head < q.capacity - 1 := UInt64.lt_iff_toBitVec_lt.symm
  by_cases h : q.tail - q.head < q.capacity - 1
  · rw [push_of_lt h, RingqueueOf.push_of_lt (hlt.mpr h)]
    rfl
  · rw [push_of_not_lt h, RingqueueOf.push_of_not_lt (mt hlt.mp h)]
    rfl

theorem pop_toRingqueueOf (q : Ringqueue S) :
    q.toRingqueueOf.pop (stateAssignable S) = (q.pop.1, q.pop.2.toRingqueueOf) := by
  obtain hzero | hpos := Nat.eq_zero_or_pos q.ready
  · have hle := ready_eq_zero_iff.mp hzero
    rw [pop_of_ready_eq_zero hzero, RingqueueOf.pop_of_le (UInt64.le_iff_toBitVec_le.mp hle)]
  · have hlt := ready_pos_iff.mp hpos
    rw [pop_of_ready_pos hpos, RingqueueOf.pop_of_lt (UInt64.lt_iff_toBitVec_lt.mp hlt)]
    rfl

end Ringqueue

def Call.toCall {S : Schema} : Call S → RingqueueOf.Call (State S)
  | .push x => .push x.state
  | .pop => .pop

/-- The 64-bit queue runs as any other. -/
theorem Ledger.run_toRingqueueOf {S : Schema} (l : Ledger S) (calls : List (Call S)) :
    (l.run calls).queue.toRingqueueOf =
      l.queue.toRingqueueOf.run (stateAssignable S) (calls.map Call.toCall) := by
  induction calls generalizing l with
  | nil => rfl
  | cons c calls ih =>
    refine (ih (l.call c)).trans (congrArg (RingqueueOf.run _ · _) ?_)
    cases c with
    | push x => exact (l.queue.push_toRingqueueOf x.state).symm
    | pop => exact (congrArg Prod.snd l.queue.pop_toRingqueueOf).symm

end Kungfu.Yijinjing.Cache
