import Kungfu.Yijinjing.Cache.TradingBank

namespace Kungfu.Yijinjing.Cache

open Kungfu.Lib Kungfu.Common Kungfu.Longfist

/-- What the memory holds where a copy is constructed. Nothing sets `pop_value_` of the copy; it
may still be the address of room for a `T` apart from the slots. -/
structure Storage (S : Schema) where
  queue : Nat → State S
  popValueUsable : Bool

inductive CopyFault
  | intOverflow
  | popValue

structure Copy (S : Schema) where
  queue : Ringqueue S
  initialised : Nat → Bool

namespace Ringqueue

variable {S : Schema}

/-- The loop of the copy constructor from `i` on, with an `int` for `i`. -/
def copySlots (that : Ringqueue S) (i : Nat) (slots : Nat → Option (State S)) :
    Except CopyFault (Nat → Option (State S)) :=
  if i < that.size.toNat then
    let slots := Function.update slots i (some (that.queue i))
    if i + 1 < 2 ^ 31 then that.copySlots (i + 1) slots else .error .intOverflow
  else .ok slots
termination_by that.size.toNat - i

def copy (that : Ringqueue S) (m : Storage S) : Except CopyFault (Copy S) := do
  let slots ← that.copySlots 0 fun _ => none
  if m.popValueUsable then
    return {
      queue := { that with queue := fun i => (slots i).getD (m.queue i) }
      initialised := fun i => (slots i).isSome }
  else throw .popValue

/-- `pop` until it returns false: the slots it reads and the values it hands out. -/
inductive Drains : Ringqueue S → List Nat → List (State S) → Prop
  | empty : q.pop.1 = none → Drains q [] []
  | pop : q.pop.1 = some x → Drains q.pop.2 is xs → Drains q (q.slot q.head :: is) (x :: xs)

/-- The copy is as large as the original, and popping it reads only slots that were initialised
and gives the same values. -/
def CopiesContent (q : Ringqueue S) (m : Storage S) : Prop :=
  ∃ c, q.copy m = .ok c ∧ c.queue.size = q.size ∧
    ∃ is js xs, Drains c.queue is xs ∧ Drains q js xs ∧ ∀ i ∈ is, c.initialised i = true

structure Copyable (q : Ringqueue S) : Prop where
  size : q.size.toNat < 2 ^ 31
  front : q.tail ≤ q.head ∨ q.head &&& q.capacityMask = 0

variable {q that : Ringqueue S} {m : Storage S}

theorem copySlots_eq_ok (h : that.size.toNat < 2 ^ 31) (i : Nat)
    (slots : Nat → Option (State S)) :
    that.copySlots i slots = .ok fun j =>
      if i ≤ j ∧ j < that.size.toNat then some (that.queue j) else slots j := by
  induction hn : that.size.toNat - i generalizing i slots with
  | zero =>
    rw [copySlots, if_neg (by omega)]
    congr 1
    funext j
    rw [if_neg (by omega)]
  | succ n ih =>
    rw [copySlots, if_pos (by omega), if_pos (by omega), ih _ _ (by omega)]
    congr 1
    funext j
    by_cases hj : j = i
    · subst hj
      rw [if_neg (by omega), if_pos (by omega), Function.update_self]
    · rw [Function.update_of_ne hj]
      exact if_congr (by omega) rfl rfl

theorem copySlots_eq_error (h : 2 ^ 31 ≤ that.size.toNat) (i : Nat) (hi : i < 2 ^ 31)
    (slots : Nat → Option (State S)) : that.copySlots i slots = .error .intOverflow := by
  induction hn : that.size.toNat - i generalizing i slots with
  | zero => omega
  | succ n ih =>
    rw [copySlots, if_pos (by omega)]
    by_cases hnext : i + 1 < 2 ^ 31
    · rw [if_pos hnext]
      exact ih _ hnext _ (by omega)
    · rw [if_neg hnext]

def copied (that : Ringqueue S) (m : Storage S) : Ringqueue S :=
  { that with queue := fun i => if i < that.size.toNat then that.queue i else m.queue i }

theorem copy_eq_ok (hsize : that.size.toNat < 2 ^ 31) (hm : m.popValueUsable = true) :
    that.copy m = .ok ⟨that.copied m, fun i => decide (i < that.size.toNat)⟩ := by
  rw [copy, copySlots_eq_ok hsize]
  refine (if_pos hm).trans ?_
  congr 3
  · funext i
    by_cases hi : i < that.size.toNat <;> simp [hi]
  · funext i
    by_cases hi : i < that.size.toNat <;> simp [hi]

theorem copyable_of_copy_eq_ok {c : Copy S} (h : that.copy m = .ok c) :
    m.popValueUsable = true ∧ that.size.toNat < 2 ^ 31 := by
  by_cases hsize : that.size.toNat < 2 ^ 31
  · refine ⟨?_, hsize⟩
    by_contra hm
    rw [copy, copySlots_eq_ok hsize] at h
    have hthrow := (if_neg hm).symm.trans h
    cases hthrow
  · rw [copy, copySlots_eq_error (Nat.not_lt.mp hsize) 0 (Nat.two_pow_pos 31)] at h
    cases h

def unread (q : Ringqueue S) : List Nat :=
  (List.range q.ready).map fun k => (q.head.toNat + k) % q.slotCount

def valueAt (q : Ringqueue S) (i : Nat) : State S :=
  State.assign ⟨0, 0, 0, .fresh S.fields⟩ (q.queue i)

theorem Masked.pop (h : q.Masked) : q.pop.2.Masked := by
  obtain hzero | hpos := Nat.eq_zero_or_pos q.ready
  · rw [pop_of_ready_eq_zero hzero]
    exact h
  · rw [pop_of_ready_pos hpos]
    exact ⟨h.mask, h.capacity⟩

theorem unread_of_ready_pos (h : q.Masked) (hpos : 0 < q.ready) :
    q.unread = q.slot q.head :: q.pop.2.unread := by
  have hready : q.ready = q.pop.2.ready + 1 := by
    rw [ready_pop, Nat.sub_add_cancel hpos]
  rw [unread, hready, List.range_succ_eq_map, List.map_cons, List.map_map, h.slot_eq]
  rw [pop_of_ready_pos hpos, unread]
  congr 1
  apply List.map_congr_left
  intro k _
  rw [Function.comp_apply, toNat_head_add_one hpos, Nat.add_right_comm]
  rfl

theorem valueAt_pop (q : Ringqueue S) : q.pop.2.valueAt = q.valueAt := by
  obtain hzero | hpos := Nat.eq_zero_or_pos q.ready
  · rw [pop_of_ready_eq_zero hzero]
  · rw [pop_of_ready_pos hpos]
    rfl

theorem pop_eq_valueAt (hpos : 0 < q.ready) : q.pop.1 = some (q.valueAt (q.slot q.head)) := by
  rw [pop_of_ready_pos hpos]
  rfl

theorem drains_unread (h : q.Masked) : Drains q q.unread (q.unread.map q.valueAt) := by
  induction hn : q.ready generalizing q with
  | zero =>
    have hnil : q.unread = [] := by
      rw [unread, hn]
      rfl
    rw [hnil]
    exact .empty (by rw [pop_of_ready_eq_zero hn])
  | succ n ih =>
    have hpos : 0 < q.ready := hn ▸ Nat.succ_pos n
    have hready : q.pop.2.ready = n := by rw [ready_pop, hn, Nat.add_sub_cancel]
    rw [unread_of_ready_pos h hpos, List.map_cons]
    refine .pop (pop_eq_valueAt hpos) ?_
    rw [← valueAt_pop]
    exact ih h.pop hready

theorem Drains.unique {is js : List Nat} {xs ys : List (State S)} (h : Drains q is xs)
    (h' : Drains q js ys) : is = js ∧ xs = ys := by
  induction h generalizing js ys with
  | empty hnone =>
    cases h' with
    | empty => exact ⟨rfl, rfl⟩
    | pop hsome => cases hnone.symm.trans hsome
  | pop hsome _ ih =>
    cases h' with
    | empty hnone => cases hnone.symm.trans hsome
    | pop hsome' hrest =>
      obtain ⟨rfl, rfl⟩ := ih hrest
      cases hsome.symm.trans hsome'
      exact ⟨rfl, rfl⟩

structure Bounded (q : Ringqueue S) : Prop where
  masked : q.Masked
  size : q.size.toNat < q.slotCount

theorem size_of_ready_pos (hpos : 0 < q.ready) : q.size.toNat = q.ready :=
  UInt64.toNat_sub_of_le _ _ (UInt64.le_of_lt (ready_pos_iff.mp hpos))

theorem bounded_new (capacity : UInt64) (queue : Nat → State S) (popValue : State S) :
    (new capacity queue popValue).Bounded where
  masked := masked_new ..
  size := by
    have hsize : (new capacity queue popValue).size = 0 := UInt64.sub_self 0
    rw [hsize]
    exact Nat.succ_pos _

theorem Bounded.push (h : q.Bounded) (x : State S) : (q.push x).2.Bounded := by
  by_cases hlt : q.tail - q.head < q.capacity - 1
  · rw [push_of_lt hlt]
    refine ⟨⟨h.masked.mask, h.masked.capacity⟩, ?_⟩
    have hnext : q.tail + 1 - q.head = q.tail - q.head + 1 := by
      rw [UInt64.sub_eq_add_neg, UInt64.sub_eq_add_neg, UInt64.add_assoc, UInt64.add_comm 1,
        UInt64.add_assoc]
    rw [h.masked.capacity_sub_one, UInt64.lt_iff_toNat_lt] at hlt
    show (q.tail + 1 - q.head).toNat < q.capacityMask.toNat + 1
    rw [hnext, UInt64.toNat_add]
    exact Nat.lt_of_le_of_lt (Nat.mod_le ..) (Nat.succ_lt_succ hlt)
  · rw [push_of_not_lt hlt]
    exact ⟨⟨h.masked.mask, h.masked.capacity⟩, h.size⟩

theorem Bounded.pop (h : q.Bounded) : q.pop.2.Bounded := by
  refine ⟨h.masked.pop, ?_⟩
  obtain hzero | hpos := Nat.eq_zero_or_pos q.ready
  · rw [pop_of_ready_eq_zero hzero]
    exact h.size
  · have hsize := h.size
    have hhead := toNat_head_add_one hpos
    rw [size_of_ready_pos hpos] at hsize
    rw [pop_of_ready_pos hpos]
    rw [ready] at hpos hsize
    have hle : q.head + 1 ≤ q.tail := UInt64.le_iff_toNat_le.mpr (by omega)
    show (q.tail - (q.head + 1)).toNat < q.slotCount
    rw [UInt64.toNat_sub_of_le _ _ hle]
    omega

theorem bounded_run (h : q.Bounded) (calls : List (Call S)) :
    ((Ledger.start q).run calls).queue.Bounded := by
  induction calls using List.reverseRecOn with
  | nil => exact h
  | append_singleton calls c ih =>
    rw [Ledger.run_concat]
    cases c with
    | push x => exact ih.push x.state
    | pop => exact ih.pop

theorem Bounded.unread_lt_iff (h : q.Bounded) :
    (∀ i ∈ q.unread, i < q.size.toNat) ↔ q.tail ≤ q.head ∨ q.head &&& q.capacityMask = 0 := by
  have hfront : q.head &&& q.capacityMask = 0 ↔ q.head.toNat % q.slotCount = 0 := by
    rw [← h.masked.slot_eq, slot, ← UInt64.toNat_inj]
    rfl
  have hsize := h.size
  rw [hfront, ← ready_eq_zero_iff, unread, List.forall_mem_map]
  simp only [List.mem_range]
  obtain hzero | hpos := Nat.eq_zero_or_pos q.ready
  · rw [hzero]
    exact iff_of_true (fun k hk => absurd hk (Nat.not_lt_zero k)) (.inl rfl)
  · rw [size_of_ready_pos hpos] at hsize ⊢
    exact BitMask.forall_mod_lt_iff hsize

theorem Bounded.copiesContent_iff_copyable (h : q.Bounded) (m : Storage S) :
    q.CopiesContent m ↔ m.popValueUsable = true ∧ q.Copyable := by
  have hmasked : (q.copied m).Masked := ⟨h.masked.mask, h.masked.capacity⟩
  constructor
  · rintro ⟨c, hcopy, -, is, js, xs, hdrains, -, hinitialised⟩
    obtain ⟨hm, hsize⟩ := copyable_of_copy_eq_ok hcopy
    refine ⟨hm, hsize, h.unread_lt_iff.mp fun i hi => ?_⟩
    obtain rfl := Except.ok.inj ((copy_eq_ok hsize hm).symm.trans hcopy)
    obtain ⟨rfl, -⟩ := hdrains.unique (drains_unread hmasked)
    exact of_decide_eq_true (hinitialised i hi)
  · rintro ⟨hm, hsize, hfront⟩
    have hread := h.unread_lt_iff.mpr hfront
    have hvalues : (q.copied m).unread.map (q.copied m).valueAt = q.unread.map q.valueAt := by
      apply List.map_congr_left
      intro i hi
      exact congrArg (State.assign _) (if_pos (hread i hi))
    refine ⟨_, copy_eq_ok hsize hm, rfl, _, _, _, hvalues ▸ drains_unread hmasked,
      drains_unread h.masked, fun i hi => ?_⟩
    exact decide_eq_true (hread i hi)

theorem copiesContent_iff (capacity : UInt64) (queue : Nat → State S) (popValue : State S)
    (calls : List (Call S)) (m : Storage S) :
    ((Ledger.start (.new capacity queue popValue)).run calls).queue.CopiesContent m ↔
      m.popValueUsable = true ∧
        ((Ledger.start (.new capacity queue popValue)).run calls).queue.Copyable :=
  (bounded_run (bounded_new ..) calls).copiesContent_iff_copyable m

/-- One order is pushed and popped before another: the copy fills the first slot, `pop` reads the
second. -/
theorem not_copiesContent_secondOrder :
    ¬ ∃ m : Storage Types.order,
      ((Ledger.start (.new 2 (fun _ => orderWithError []) (orderWithError []))).run
        [.push ⟨orderWithError [], rfl, by decide⟩, .pop,
          .push ⟨orderWithError [], rfl, by decide⟩]).queue.CopiesContent m := by
  rintro ⟨m, h⟩
  have hcopyable := ((bounded_run (bounded_new ..) _).copiesContent_iff_copyable m).mp h
  exact absurd hcopyable.2.front (by decide)

end Ringqueue

end Kungfu.Yijinjing.Cache
