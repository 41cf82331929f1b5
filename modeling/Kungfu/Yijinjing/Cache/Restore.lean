import Mathlib.Data.List.Induction
import Kungfu.Yijinjing.Cache.Backend
import Kungfu.Yijinjing.Cache.Identity
import Kungfu.Yijinjing.Journal.Writer

namespace Kungfu.Yijinjing.Cache

open Kungfu.Lib Kungfu.Common Kungfu.Longfist Kungfu.Yijinjing.Journal

namespace Shift

def changeAll (s : Shift) (changes : List Change) : Shift := changes.foldl change s

def Change.Overwrites (x : Delivery) : Change → Prop
  | .store T y => T = x.type ∧ y.toState.dest = x.dest ∧ y.row.key = x.row.key
  | .reset T dest => T = x.type ∧ dest = x.dest
  | .restart => False

def LastStored (changes : List Change) (x : Delivery) : Prop :=
  ∃ before y after, changes = before ++ .store x.type y :: after ∧ y.toState.dest = x.dest ∧
    y.row = x.row ∧ ∀ c ∈ after, ¬ c.Overwrites x

def Change.Stores (x : Delivery) (c : Change) : Prop :=
  ∃ y, c = .store x.type y ∧ y.toState.dest = x.dest ∧ y.row = x.row

theorem lastStored_concat {changes : List Change} {c : Change} {x : Delivery} :
    LastStored (changes ++ [c]) x ↔ c.Stores x ∨ LastStored changes x ∧ ¬ c.Overwrites x := by
  constructor
  · rintro ⟨before, y, after, heq, hdest, hrow, hafter⟩
    -- either the last change is the store itself, or the store is in front of it
    obtain rfl | ⟨after, c', rfl⟩ := List.eq_nil_or_concat after
    · obtain ⟨-, hc⟩ := List.append_inj' heq rfl
      exact .inl ⟨y, List.head_eq_of_cons_eq hc, hdest, hrow⟩
    · have heq' : changes ++ [c] = (before ++ .store x.type y :: after) ++ [c'] := by
        simpa using heq
      obtain ⟨rfl, hc⟩ := List.append_inj' heq' rfl
      obtain rfl := List.head_eq_of_cons_eq hc
      rw [List.concat_eq_append] at hafter
      refine .inr ⟨⟨before, y, after, rfl, hdest, hrow, fun c hc => ?_⟩, ?_⟩
      · exact hafter c (List.mem_append_left _ hc)
      · exact hafter c (List.mem_append_right _ (.head _))
  · rintro (⟨y, rfl, hdest, hrow⟩ | ⟨⟨before, y, after, rfl, hdest, hrow, hafter⟩, hc⟩)
    · exact ⟨changes, y, [], rfl, hdest, hrow, fun c hc => nomatch hc⟩
    · refine ⟨before, y, after ++ [c], by simp, hdest, hrow, fun c' hc' => ?_⟩
      obtain hc' | hc' := List.mem_append.mp hc'
      · exact hafter c' hc'
      · exact List.mem_singleton.mp hc' ▸ hc

theorem LastStored.mem {changes : List Change} {x : Delivery} (h : LastStored changes x) :
    ∃ y, .store x.type y ∈ changes := by
  obtain ⟨before, y, after, rfl, -⟩ := h
  exact ⟨y, List.mem_append_right _ (.head _)⟩

theorem not_lastStored_nil {x : Delivery} : ¬ LastStored [] x := by
  rintro ⟨before, y, after, heq, -⟩
  exact List.append_ne_nil_of_right_ne_nil before (List.cons_ne_nil _ after) heq.symm

theorem mem_rows_change (s : Shift) (c : Change) (x : Delivery) :
    x.row ∈ ((s.change c).table x.dest x.type).rows ↔
      c.Stores x ∨ x.row ∈ (s.table x.dest x.type).rows ∧ ¬ c.Overwrites x := by
  obtain ⟨dest, T, row⟩ := x
  cases c with
  | store T' y =>
    by_cases h : T' = T ∧ y.toState.dest = dest
    · obtain ⟨rfl, rfl⟩ := h
      rw [change, table_store_same, KeyedTable.mem_rows_replace]
      simp only [Change.Stores, Change.Overwrites, Change.store.injEq, true_and, heq_eq_eq,
        exists_eq_left', eq_comm, ne_eq]
    · have hstores : ¬ Change.Stores ⟨dest, T, row⟩ (.store T' y) := by
        rintro ⟨y', heq, hdest, -⟩
        cases heq
        exact h ⟨rfl, hdest⟩
      have hkept : ¬ Change.Overwrites ⟨dest, T, row⟩ (.store T' y) :=
        fun hoverwrites => h ⟨hoverwrites.1, hoverwrites.2.1⟩
      rw [change, table_store_of_ne y fun hdest hT => h ⟨hT.symm, hdest.symm⟩]
      simp only [hstores, hkept, false_or, not_false_eq_true, and_true]
  | reset T' dest' =>
    have hstores : ¬ Change.Stores ⟨dest, T, row⟩ (.reset T' dest') := by
      rintro ⟨y, heq, -⟩
      cases heq
    by_cases h : T' = T ∧ dest' = dest
    · have hgone : Change.Overwrites ⟨dest, T, row⟩ (.reset T' dest') := h
      obtain ⟨rfl, rfl⟩ := h
      rw [change, table_reset_same, KeyedTable.rows_empty]
      simp only [hstores, hgone, not_true_eq_false, and_false, or_self, List.not_mem_nil]
    · have hkept : ¬ Change.Overwrites ⟨dest, T, row⟩ (.reset T' dest') := h
      rw [change, table_reset_of_ne fun hdest hT => h ⟨hT.symm, hdest.symm⟩]
      simp only [hstores, hkept, false_or, not_false_eq_true, and_true]
  | restart => simp [change, Change.Stores, Change.Overwrites]

theorem mem_rows_changeAll (locationUid : UInt32) (changes : List Change) (x : Delivery) :
    x.row ∈ (((onDisk locationUid ∅).changeAll changes).table x.dest x.type).rows ↔
      LastStored changes x := by
  induction changes using List.reverseRecOn with
  | nil =>
    rw [changeAll, List.foldl_nil, table_of_notMem (AList.notMem_empty _)]
    exact iff_of_false List.not_mem_nil not_lastStored_nil
  | append_singleton changes c ih =>
    rw [changeAll, List.foldl_concat, mem_rows_change, lastStored_concat]
    exact or_congr_right (and_congr_left fun _ => ih)

end Shift

def Row.Since {S : Schema} (start : Int64) (r : Row S) : Prop :=
  ∀ name ∈ S.timestampKey, ∀ i, r.data.keyValue name = .num i → start.toInt ≤ i

theorem keyValue_int64 {name : String} {fs : List Field}
    (h : ∀ f ∈ fs, f.name = name → f.type = Types.int64) (r : Record fs) :
    ∃ i ≤ Int64.maxValue.toInt, r.keyValue name = .num i := by
  induction fs with
  | nil => exact ⟨0, by decide, rfl⟩
  | cons f fs ih =>
    obtain ⟨type, fname⟩ := f
    rw [Record.keyValue]
    split
    next hname =>
      obtain rfl := h _ (.head _) hname
      refine ⟨IntType.int64.toInt r.1, ?_, rfl⟩
      exact Int.le_of_lt_add_one (BitVec.toInt_lt (x := r.1))
    next => exact ih (fun g hg => h g (.tail _ hg)) r.2

theorem selected_iff_since {T : StateType} {start : Int64} {r : Row T.schema} :
    r.selected start Int64.maxValue = true ↔ r.Since start := by
  rw [Row.selected, Row.Since]
  cases hkey : T.schema.timestampKey with
  | none => simp
  | some name =>
    obtain ⟨i, hle, hi⟩ := keyValue_int64 (timestampKey_int64 T name hkey) r.data
    simp [between, hi, hle]

namespace Shift

end Shift

section Writer

variable (C : Json.Codec) (ops : FrameOps)

variable {C ops} {now : Nat → BitVec 64} {xs : List Delivery}

theorem position_mem_stateDataTypes : DataType.position ∈ stateDataTypes := by decide

/-- Two positions in one database, one of them stored after a restart, and one in another
database that is reset. -/
def positions : List Shift.Change :=
  [.store ⟨.position, position_mem_stateDataTypes⟩ (.state (positionOf 2 0) (by decide)), .restart,
    .store ⟨.position, position_mem_stateDataTypes⟩ (.state (positionOf 3 1) (by decide)),
    .store ⟨.position, position_mem_stateDataTypes⟩
      (.state { positionOf 2 0 with dest := 7 } (by decide)),
    .reset ⟨.position, position_mem_stateDataTypes⟩ 7]

end Writer

end Kungfu.Yijinjing.Cache
