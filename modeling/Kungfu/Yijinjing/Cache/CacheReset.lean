import Kungfu.Yijinjing.Cache.Backend
import Kungfu.Yijinjing.Cache.Identity

namespace Kungfu.Yijinjing.Cache

open Kungfu.Lib Kungfu.Common Kungfu.Longfist

namespace Shift

inductive Op
  | change (c : Change)
  | resetAll (T : StateType)
  | restore

def Op.Stores (T : StateType) : Op → Prop
  | .change (.store T' _) => T' = T
  | _ => False

def step (s : Shift) : Op → Shift
  | .change c => s.change c
  | .resetAll T => s.resetAll T
  | .restore => s.openAll

def run (s : Shift) (ops : List Op) : Shift := ops.foldl step s

/-- Until a record of the type is stored again none is delivered, and the records of the other
types are those of a restore without the reset. -/
structure ResetComplete (s : Shift) (T : StateType) (start : Int64) : Prop where
  gone : ∀ later : List Op, (∀ op ∈ later, ¬ op.Stores T) →
    ∀ order, ((s.resetAll T).run later).Iterates order →
      ∀ x ∈ ((s.resetAll T).run later).restore order start, x.type ≠ T
  others : ∀ order order', s.Iterates order → (s.resetAll T).Iterates order' →
    (((s.resetAll T).restore order' start).filter (·.type ≠ T)).Perm
      ((s.restore order start).filter (·.type ≠ T))

/-- Every database that the object has not opened is without selected rows of the type. -/
def Reached (s : Shift) (T : StateType) (start : Int64) : Prop :=
  ∀ dest ∈ s.disk, dest ∉ s.storageMap → getAll (s.table dest T) start Int64.maxValue = []

variable {s : Shift} {T : StateType} {start : Int64}

theorem getAll_empty {S : Schema} {stop : Int64} :
    getAll (KeyedTable.empty : Table S) start stop = [] := by
  rw [getAll_eq_filter]
  rfl

theorem table_step (s : Shift) (d : UInt32) {op : Op} (h : ¬ op.Stores T) :
    (s.step op).table d T = s.table d T ∨ (s.step op).table d T = .empty := by
  cases op with
  | change c =>
    cases c with
    | store T' x => exact .inl (table_store_of_ne x fun _ hT => h hT.symm)
    | reset T' dest =>
      by_cases heq : d = dest ∧ T = T'
      · obtain ⟨rfl, rfl⟩ := heq
        exact .inr table_reset_same
      · exact .inl (table_reset_of_ne fun hd hT => heq ⟨hd, hT⟩)
    | restart => exact .inl rfl
  | resetAll T' =>
    by_cases heq : d ∈ s.storageMap ∧ T = T'
    · obtain ⟨hd, rfl⟩ := heq
      exact .inr (table_resetAll_of_mem hd)
    · exact .inl (table_resetAll_of_ne fun hd hT => heq ⟨hd, hT⟩)
  | restore => exact .inl table_openAll

theorem getAll_run {ops : List Op} (hops : ∀ op ∈ ops, ¬ op.Stores T)
    (h : ∀ d, getAll (s.table d T) start Int64.maxValue = []) (d : UInt32) :
    getAll ((s.run ops).table d T) start Int64.maxValue = [] := by
  induction ops generalizing s with
  | nil => exact h d
  | cons op ops ih =>
    refine ih (fun op' hop => hops op' (.tail _ hop)) fun d => ?_
    obtain htable | htable := s.table_step d (hops op (.head _))
    · rw [htable]
      exact h d
    · rw [htable]
      exact getAll_empty

theorem Reached.getAll_resetAll (h : s.Reached T start) (d : UInt32) :
    getAll ((s.resetAll T).table d T) start Int64.maxValue = [] := by
  by_cases hopen : d ∈ s.storageMap
  · rw [table_resetAll_of_mem hopen]
    exact getAll_empty
  · rw [table_resetAll_of_ne fun hd => absurd hd hopen]
    by_cases hdisk : d ∈ s.disk
    · exact h d hdisk hopen
    · rw [table_of_notMem hdisk]
      exact getAll_empty

theorem ResetComplete.reached (h : s.ResetComplete T start) : s.Reached T start := by
  intro dest hdisk hopen
  apply List.eq_nil_iff_forall_not_mem.mpr
  intro row hrow
  have horder : (s.resetAll T).Iterates (s.resetAll T).openAll.storageMap := List.Perm.refl _
  have hx : ⟨dest, T, row⟩ ∈ (s.resetAll T).restore (s.resetAll T).openAll.storageMap start := by
    rw [mem_restore horder, table_resetAll_of_ne fun hd => absurd hd hopen]
    exact hrow
  exact h.gone [] (fun _ hop => nomatch hop) _ horder _ hx rfl

theorem resetComplete_iff_reached (s : Shift) (T : StateType) (start : Int64) :
    s.ResetComplete T start ↔ s.Reached T start := by
  constructor
  · exact ResetComplete.reached
  · intro h
    constructor
    · rintro later hlater order horder x hx rfl
      rw [mem_restore horder, getAll_run hlater h.getAll_resetAll] at hx
      cases hx
    · intro order order' horder horder'
      refine (List.perm_ext_iff_of_nodup ((nodup_restore horder').filter _)
        ((nodup_restore horder).filter _)).mpr fun x => ?_
      simp only [List.mem_filter, mem_restore horder, mem_restore horder', decide_eq_true_eq]
      refine and_congr_left fun hx => ?_
      rw [table_resetAll_of_ne fun _ => hx]

theorem not_reached_restart (s : Shift) (x : Feed T.schema)
    (hx : x.row.selected start Int64.maxValue) : ¬ (s.store T x).restart.Reached T start := by
  intro h
  have hnil := h x.toState.dest ((mem_disk_modify (·.replace T x.row)).mpr (.inl rfl))
    List.not_mem_nil
  rw [table_restart, table_store_same, getAll_eq_filter] at hnil
  have hrow : x.row ∈ ((s.table x.toState.dest T).replace x.row).rows :=
    KeyedTable.mem_rows_replace.mpr (.inl rfl)
  exact List.ne_nil_of_mem (List.mem_filter.mpr ⟨hrow, hx⟩) hnil

/-- A position that is stored before a restart outlives the reset behind it. -/
theorem not_resetComplete_position :
    ¬ ∃ start, ResetComplete ((onDisk 0 ∅).store ⟨.position, by decide⟩
      (.state (positionOf 2 0) (by decide))).restart ⟨.position, by decide⟩ start := by
  rintro ⟨start, h⟩
  exact not_reached_restart _ _ rfl h.reached

end Shift

end Kungfu.Yijinjing.Cache
