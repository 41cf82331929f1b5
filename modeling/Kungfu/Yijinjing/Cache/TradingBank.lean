import Mathlib.Data.List.Induction
import Kungfu.Yijinjing.Cache.RingqueueSafety

namespace Kungfu.Yijinjing.Cache

open Kungfu.Lib Kungfu.Common Kungfu.Longfist

inductive Call (S : Schema)
  | push (x : Item S)
  | pop

structure Ledger (S : Schema) where
  queue : Ringqueue S
  sent : List (State S)
  popped : List (State S)

namespace Ledger

variable {S : Schema}

def start (q : Ringqueue S) : Ledger S where
  queue := q
  sent := []
  popped := []

def call (l : Ledger S) : Call S → Ledger S
  | .push x =>
    let result := l.queue.push x.state
    { l with queue := result.2, sent := if result.1 then l.sent ++ [x.state] else l.sent }
  | .pop =>
    let result := l.queue.pop
    { l with queue := result.2, popped := l.popped ++ result.1.toList }

def run (l : Ledger S) (calls : List (Call S)) : Ledger S := calls.foldl call l

@[simp] theorem run_append (l : Ledger S) (before after : List (Call S)) :
    l.run (before ++ after) = (l.run before).run after :=
  List.foldl_append ..

theorem run_concat (l : Ledger S) (calls : List (Call S)) (c : Call S) :
    l.run (calls ++ [c]) = (l.run calls).call c :=
  List.foldl_concat ..

end Ledger

variable {S : Schema}

/-- Once the queue is drained, every value whose `push` returned true has been popped behind it,
once and in order. -/
structure Delivered (q : Ringqueue S) (calls : List (Call S)) : Prop where
  later : ∀ before, before <+: calls →
    ((Ledger.start q).run before).popped.length ≤ ((Ledger.start q).run before).sent.length
  drained : ∃ n, ((Ledger.start q).run (calls ++ .replicate n .pop)).queue.pop.1 = none ∧
    List.Forall₂ State.Eqv ((Ledger.start q).run (calls ++ .replicate n .pop)).popped
      ((Ledger.start q).run (calls ++ .replicate n .pop)).sent

def waiting (calls : List (Call S)) : Nat :=
  calls.foldl (fun n c => match c with | .push _ => n + 1 | .pop => n - 1) 0

def pushes (calls : List (Call S)) : Nat :=
  calls.countP fun c => match c with | .push _ => true | .pop => false

/-- Every `push` comes while fewer values wait than the limit, and the counters do not wrap. -/
structure Fits (limit : Nat) (calls : List (Call S)) : Prop where
  room : ∀ before x, before ++ [.push x] <+: calls → waiting before < limit
  counted : pushes calls < 2 ^ 64

section Counts

variable (calls : List (Call S)) (x : Item S)

@[simp] theorem waiting_push : waiting (calls ++ [.push x]) = waiting calls + 1 :=
  List.foldl_concat ..

@[simp] theorem waiting_pop : waiting (calls ++ [.pop]) = waiting calls - 1 :=
  List.foldl_concat ..

@[simp] theorem pushes_push : pushes (calls ++ [.push x]) = pushes calls + 1 := by
  simp [pushes]

@[simp] theorem pushes_pop : pushes (calls ++ [.pop]) = pushes calls := by
  simp [pushes]

variable {calls x} {limit : Nat}

theorem fits_push : Fits limit (calls ++ [.push x]) ↔
    Fits limit calls ∧ waiting calls < limit ∧ pushes calls + 1 < 2 ^ 64 := by
  constructor
  · intro h
    have hcounted := h.counted
    rw [pushes_push] at hcounted
    refine ⟨⟨fun before y hy => ?_, Nat.lt_of_succ_lt hcounted⟩, h.room calls x List.prefix_rfl,
      hcounted⟩
    exact h.room before y (hy.trans (List.prefix_append ..))
  · rintro ⟨h, hroom, hcounted⟩
    refine ⟨fun before y hy => ?_, (pushes_push calls x).symm ▸ hcounted⟩
    obtain heq | hold := List.prefix_concat_iff.mp hy
    · obtain rfl := (List.append_inj' heq rfl).1
      exact hroom
    · exact h.room before y hold

theorem fits_pop : Fits limit (calls ++ [.pop]) ↔ Fits limit calls := by
  constructor
  · intro h
    exact ⟨fun before y hy => h.room before y (hy.trans (List.prefix_append ..)),
      pushes_pop calls ▸ h.counted⟩
  · intro h
    refine ⟨fun before y hy => ?_, (pushes_pop calls).symm ▸ h.counted⟩
    obtain heq | hold := List.prefix_concat_iff.mp hy
    · cases (List.append_inj' heq rfl).2
    · exact h.room before y hold

end Counts

namespace Ringqueue

variable {q : Ringqueue S} {accepted popped : List (State S)}

def ready (q : Ringqueue S) : Nat := q.tail.toNat - q.head.toNat

theorem ready_eq_zero_iff : q.ready = 0 ↔ q.tail ≤ q.head := by
  rw [UInt64.le_iff_toNat_le, ready, Nat.sub_eq_zero_iff_le]

theorem ready_pos_iff : 0 < q.ready ↔ q.head < q.tail := by
  rw [UInt64.lt_iff_toNat_lt, ready, Nat.sub_pos_iff_lt]

theorem toNat_head_add_one (h : 0 < q.ready) : (q.head + 1).toNat = q.head.toNat + 1 :=
  Nat.mod_eq_of_lt (Nat.lt_of_le_of_lt (Nat.lt_of_sub_pos h) q.tail.toNat_lt)

theorem push_of_lt {x : State S} (h : q.tail - q.head < q.capacity - 1) :
    (q.push x).2 = { q.write q.tail x with tail := q.tail + 1 } :=
  if_pos h

theorem push_of_not_lt {x : State S} (h : ¬ q.tail - q.head < q.capacity - 1) :
    (q.push x).2 = q.write q.tail x :=
  if_neg h

theorem ready_push (q : Ringqueue S) (x : State S) : (q.push x).2.ready ≤ q.ready + 1 := by
  by_cases h : q.tail - q.head < q.capacity - 1
  · have htail : (q.tail + 1).toNat ≤ q.tail.toNat + 1 := Nat.mod_le _ _
    rw [push_of_lt h]
    simp only [ready, write]
    omega
  · rw [push_of_not_lt h]
    exact Nat.le_succ _

theorem pop_of_ready_eq_zero (h : q.ready = 0) : q.pop = (none, q) :=
  if_pos (ready_eq_zero_iff.mp h)

theorem pop_of_ready_pos (h : 0 < q.ready) :
    q.pop = (some (q.read q.head).popValue, { q.read q.head with head := q.head + 1 }) :=
  if_neg (UInt64.not_le.mpr (ready_pos_iff.mp h))

theorem length_pop (q : Ringqueue S) : q.pop.1.toList.length = min 1 q.ready := by
  obtain h | h := Nat.eq_zero_or_pos q.ready
  · rw [pop_of_ready_eq_zero h, h]
    rfl
  · rw [pop_of_ready_pos h, Nat.min_eq_left h]
    rfl

theorem ready_pop (q : Ringqueue S) : q.pop.2.ready = q.ready - 1 := by
  obtain h | h := Nat.eq_zero_or_pos q.ready
  · rw [pop_of_ready_eq_zero h, h]
  · rw [pop_of_ready_pos h]
    simp only [ready, read, toNat_head_add_one h]
    omega

namespace Holds

theorem ready_eq (h : q.Holds accepted popped) : q.ready = accepted.length - popped.length := by
  rw [ready, h.tail, h.head]

theorem push (h : q.Holds accepted popped) (x : State S)
    (hroom : accepted.length < popped.length + q.capacityMask.toNat)
    (hmax : accepted.length + 1 < 2 ^ 64) :
    (q.push x).2.Holds (accepted ++ [x]) popped := by
  have hle : q.head ≤ q.tail := by
    rw [UInt64.le_iff_toNat_le, h.head, h.tail]
    exact h.le
  have hlen := h.le
  have hlt : q.tail - q.head < q.capacity - 1 := by
    rw [h.masked.capacity_sub_one, UInt64.lt_iff_toNat_lt, UInt64.toNat_sub_of_le _ _ hle, h.head,
      h.tail]
    omega
  rw [push_of_lt hlt]
  exact h.write.advanceTail (Function.update_self ..) hroom hmax

theorem pop (h : q.Holds accepted popped) :
    q.pop.2.Holds accepted (popped ++ q.pop.1.toList) := by
  obtain hzero | hpos := Nat.eq_zero_or_pos q.ready
  · rw [pop_of_ready_eq_zero hzero]
    simpa using h
  · rw [pop_of_ready_pos hpos]
    rw [h.ready_eq] at hpos
    have hlt := Nat.lt_of_sub_pos hpos
    exact (h.read _).advanceHead hlt (h.popValue_read hlt)

end Holds

end Ringqueue

namespace Ledger

variable {l : Ledger S} {calls : List (Call S)} {x : Item S}

def Lost (l : Ledger S) : Prop := l.popped.length + l.queue.ready < l.sent.length

theorem Lost.call (h : l.Lost) (c : Call S) : (l.call c).Lost := by
  cases c with
  | push x =>
    have hready := l.queue.ready_push x.state
    have hsent : (l.call (.push x)).sent = l.sent ++ [x.state] := rfl
    simp only [Lost, hsent, List.length_append, List.length_singleton] at h ⊢
    exact Nat.lt_of_le_of_lt (Nat.add_le_add_left hready _) (Nat.succ_lt_succ h)
  | pop =>
    have hlength := l.queue.length_pop
    have hready := l.queue.ready_pop
    simp only [Lost, Ledger.call, List.length_append] at h ⊢
    omega

theorem Lost.run (h : l.Lost) (calls : List (Call S)) : (l.run calls).Lost := by
  induction calls generalizing l with
  | nil => exact h
  | cons c calls ih => exact ih (h.call c)

structure Tracks (l : Ledger S) (calls : List (Call S)) : Prop where
  holds : l.queue.Holds l.sent l.popped
  waiting : l.sent.length = l.popped.length + waiting calls
  pushes : l.sent.length = pushes calls

theorem Tracks.ready_eq (h : l.Tracks calls) : l.queue.ready = Cache.waiting calls := by
  rw [h.holds.ready_eq, h.waiting, Nat.add_sub_cancel_left]

theorem Tracks.push (h : l.Tracks calls) (hroom : Cache.waiting calls < l.queue.capacityMask.toNat)
    (hmax : Cache.pushes calls + 1 < 2 ^ 64) :
    (l.call (.push x)).Tracks (calls ++ [.push x]) where
  holds := by
    refine h.holds.push x.state ?_ (h.pushes ▸ hmax)
    rw [h.waiting]
    exact Nat.add_lt_add_left hroom _
  waiting := by
    rw [waiting_push, ← Nat.add_assoc]
    exact (List.length_append ..).trans (congrArg (· + 1) h.waiting)
  pushes := by
    rw [pushes_push]
    exact (List.length_append ..).trans (congrArg (· + 1) h.pushes)

theorem Tracks.pop (h : l.Tracks calls) : (l.call .pop).Tracks (calls ++ [.pop]) where
  holds := h.holds.pop
  waiting := by
    have hlength := l.queue.length_pop
    have hwaiting := h.waiting
    rw [h.ready_eq] at hlength
    simp only [Ledger.call, List.length_append, waiting_pop]
    omega
  pushes := by
    rw [pushes_pop]
    exact h.pushes

theorem Tracks.lost (h : l.Tracks calls)
    (hready : (l.queue.push x.state).2.ready ≤ l.queue.ready) : (l.call (.push x)).Lost := by
  have hsent : (l.call (.push x)).sent.length = l.sent.length + 1 := List.length_append ..
  rw [Lost, hsent, h.waiting, ← h.ready_eq]
  exact Nat.lt_succ_of_le (Nat.add_le_add_left hready _)

theorem Tracks.lost_of_full (h : l.Tracks calls)
    (hfull : ¬ Cache.waiting calls < l.queue.capacityMask.toNat) : (l.call (.push x)).Lost := by
  apply h.lost
  rw [Ringqueue.push_of_not_lt]
  · exact Nat.le_refl _
  · intro hlt
    have hroom := h.holds.room_of_lt (UInt64.le_refl _) hlt
    rw [h.waiting] at hroom
    exact hfull (Nat.lt_of_add_lt_add_left hroom)

theorem Tracks.lost_of_wrap (h : l.Tracks calls) (hwrap : ¬ Cache.pushes calls + 1 < 2 ^ 64) :
    (l.call (.push x)).Lost := by
  apply h.lost
  by_cases hlt : l.queue.tail - l.queue.head < l.queue.capacity - 1
  · have htail := l.queue.tail.toNat_lt
    rw [h.holds.tail, h.pushes] at htail
    have hlast : Cache.pushes calls + 1 = 2 ^ 64 := Nat.le_antisymm htail (Nat.le_of_not_lt hwrap)
    have hzero : (l.queue.tail + 1).toNat = 0 := by
      rw [UInt64.toNat_add, h.holds.tail, h.pushes, UInt64.toNat_one, hlast]
      exact Nat.mod_self _
    rw [Ringqueue.push_of_lt hlt]
    simp only [Ringqueue.ready, hzero, Nat.zero_sub, Nat.zero_le]
  · rw [Ringqueue.push_of_not_lt hlt]
    exact Nat.le_refl _

@[simp] theorem capacityMask_run (l : Ledger S) (calls : List (Call S)) :
    (l.run calls).queue.capacityMask = l.queue.capacityMask := by
  induction calls generalizing l with
  | nil => rfl
  | cons c calls ih =>
    refine (ih (l.call c)).trans ?_
    cases c with
    | push x =>
      simp only [Ledger.call, Ringqueue.push]
      split <;> rfl
    | pop =>
      simp only [Ledger.call, Ringqueue.pop]
      split <;> rfl

theorem tracks_start {q : Ringqueue S} (h : q.Holds [] []) : (start q).Tracks [] :=
  ⟨h, rfl, rfl⟩

variable {q : Ringqueue S}

theorem tracks_of_fits (hq : q.Holds [] []) (h : Fits q.capacityMask.toNat calls) :
    ((start q).run calls).Tracks calls := by
  induction calls using List.reverseRecOn with
  | nil => exact tracks_start hq
  | append_singleton calls c ih =>
    rw [run_concat]
    cases c with
    | push x =>
      obtain ⟨hfits, hroom, hcounted⟩ := fits_push.mp h
      refine (ih hfits).push ?_ hcounted
      rwa [capacityMask_run]
    | pop => exact (ih (fits_pop.mp h)).pop

theorem lost_of_not_fits (hq : q.Holds [] []) (h : ¬ Fits q.capacityMask.toNat calls) :
    ((start q).run calls).Lost := by
  induction calls using List.reverseRecOn with
  | nil => exact absurd ⟨fun _ _ hx => by simp at hx, Nat.two_pow_pos 64⟩ h
  | append_singleton calls c ih =>
    rw [run_concat]
    -- the first `push` that does not fit loses a value, and nothing brings it back
    by_cases hfits : Fits q.capacityMask.toNat calls
    · have htracks := tracks_of_fits hq hfits
      cases c with
      | push x =>
        rw [fits_push, not_and, Classical.not_and_iff_not_or_not] at h
        obtain hfull | hwrap := h hfits
        · exact htracks.lost_of_full (by rwa [capacityMask_run])
        · exact htracks.lost_of_wrap hwrap
      | pop => exact absurd (fits_pop.mpr hfits) h
    · exact (ih hfits).call c

end Ledger

theorem fits_drain {limit : Nat} {calls : List (Call S)} (h : Fits limit calls) (n : Nat) :
    Fits limit (calls ++ .replicate n .pop) ∧
      waiting (calls ++ .replicate n .pop) = waiting calls - n := by
  induction n with
  | zero => simpa using h
  | succ n ih =>
    rw [List.replicate_succ', ← List.append_assoc]
    exact ⟨fits_pop.mpr ih.1, by rw [waiting_pop, ih.2, Nat.sub_sub]⟩

theorem Fits.of_prefix {limit : Nat} {before calls : List (Call S)} (h : Fits limit calls)
    (hb : before <+: calls) : Fits limit before where
  room b x hx := h.room b x (hx.trans hb)
  counted := Nat.lt_of_le_of_lt (hb.sublist.countP_le) h.counted

theorem not_delivered_of_not_fits {q : Ringqueue S} {calls : List (Call S)} (hq : q.Holds [] [])
    (h : ¬ Fits q.capacityMask.toNat calls) : ¬ Delivered q calls := by
  intro hdelivered
  obtain ⟨n, -, hpopped⟩ := hdelivered.drained
  have hlost := (Ledger.lost_of_not_fits hq h).run (.replicate n .pop)
  rw [Ledger.run_append] at hpopped
  rw [Ledger.Lost, hpopped.length_eq] at hlost
  exact Nat.not_le_of_lt hlost (Nat.le_add_right ..)

theorem delivered_iff_fits (capacity : UInt64) (queue : Nat → State S) (popValue : State S)
    (calls : List (Call S)) :
    Delivered (.new capacity queue popValue) calls ↔
      Fits ((Ringqueue.new capacity queue popValue).capacity - 1).toNat calls := by
  have hholds := Ringqueue.holds_new capacity queue popValue
  rw [hholds.masked.capacity_sub_one]
  generalize Ringqueue.new capacity queue popValue = q at hholds
  constructor
  · intro h
    by_contra hfits
    exact not_delivered_of_not_fits hholds hfits h
  · intro h
    refine ⟨fun before hb => (Ledger.tracks_of_fits hholds (h.of_prefix hb)).holds.le,
      waiting calls, ?_⟩
    obtain ⟨hfits, hwaiting⟩ := fits_drain h (waiting calls)
    rw [Nat.sub_self] at hwaiting
    have htracks := Ledger.tracks_of_fits hholds hfits
    have hempty := Ringqueue.pop_of_ready_eq_zero (htracks.ready_eq.trans hwaiting)
    refine ⟨congrArg Prod.fst hempty, ?_⟩
    have hfifo := htracks.holds.fifo
    have hlength := htracks.waiting
    rw [hwaiting, Nat.add_zero] at hlength
    rwa [← hlength, List.take_length] at hfifo

def tradingMapRingSize : UInt64 := 2048

def TradingBank : Type := (T : TradingType) → Ringqueue T.schema

inductive Use
  | feed (T : TradingType) (x : Feed T.schema)
  | pop (T : TradingType)

def Feed.item {T : TradingType} (x : Feed T.schema) : Item T.schema where
  state := x.toState
  fixed := T.sizeFixed
  terminated := x.toState_data ▸ x.terminated

def Use.callOn (T : TradingType) : Use → Option (Call T.schema)
  | .feed T' x => if h : T' = T then some (.push (h ▸ x).item) else none
  | .pop T' => if T' = T then some .pop else none

namespace TradingBank

def new (queue : (T : TradingType) → Nat → State T.schema)
    (popValue : (T : TradingType) → State T.schema) : TradingBank :=
  fun T => .new tradingMapRingSize (queue T) (popValue T)

def set (b : TradingBank) (T : TradingType) (q : Ringqueue T.schema) : TradingBank :=
  Function.update b T q

theorem set_same (b : TradingBank) (T : TradingType) (q : Ringqueue T.schema) : b.set T q T = q :=
  Function.update_self ..

theorem set_of_ne (b : TradingBank) {T T' : TradingType} (q : Ringqueue T.schema) (h : T' ≠ T) :
    b.set T q T' = b T' :=
  Function.update_of_ne h ..

/-- `trading_bank::operator<<`, either overload; nobody looks at what `push` returns. -/
def feed (b : TradingBank) (T : TradingType) (x : Feed T.schema) : TradingBank :=
  b.set T ((b T).push x.toState).2

def use (b : TradingBank) : Use → TradingBank
  | .feed T x => b.feed T x
  | .pop T => b.set T (b T).pop.2

/-- However a bank is used, each of its queues goes through its own calls. -/
theorem foldl_use_apply (b : TradingBank) (uses : List Use) (T : TradingType) (l : Ledger T.schema)
    (h : b T = l.queue) :
    uses.foldl use b T = (l.run (uses.filterMap (Use.callOn T))).queue := by
  induction uses generalizing b l with
  | nil => exact h
  | cons u uses ih =>
    cases u with
    | feed T' x =>
      by_cases hT : T' = T
      · subst hT
        rw [List.filterMap_cons_some (by simp only [Use.callOn, dif_pos]; rfl)]
        refine ih _ (l.call (.push x.item)) ?_
        rw [use, feed, set_same, h]
        rfl
      · rw [List.filterMap_cons_none (by simp only [Use.callOn, dif_neg hT])]
        exact ih _ l ((b.set_of_ne _ (Ne.symm hT)).trans h)
    | pop T' =>
      by_cases hT : T' = T
      · subst hT
        rw [List.filterMap_cons_some (by simp only [Use.callOn, if_pos]; rfl)]
        refine ih _ (l.call .pop) ?_
        rw [use, set_same, h]
        rfl
      · rw [List.filterMap_cons_none (by simp only [Use.callOn, if_neg hT])]
        exact ih _ l ((b.set_of_ne _ (Ne.symm hT)).trans h)

end TradingBank

theorem waiting_replicate_push (n : Nat) (x : Item S) :
    waiting (.replicate n (.push x)) = n := by
  induction n with
  | zero => rfl
  | succ n ih => rw [List.replicate_succ', waiting_push, ih]

/-- 2048 orders that nobody reads: the last one is reported as pushed and lost. -/
theorem not_delivered_orders :
    ¬ ∃ queue popValue, Delivered (.new tradingMapRingSize queue popValue)
      (.replicate 2048 (.push ⟨orderWithError [], rfl, by decide⟩)) := by
  rintro ⟨queue, popValue, h⟩
  refine not_delivered_of_not_fits (Ringqueue.holds_new ..) (fun hfits => ?_) h
  have hroom := hfits.room (.replicate 2047 (.push ⟨orderWithError [], rfl, by decide⟩)) _
    ⟨[], (List.append_nil _).trans List.replicate_succ'.symm⟩
  rw [waiting_replicate_push] at hroom
  exact Nat.lt_irrefl 2047 hroom

end Kungfu.Yijinjing.Cache
