import Kungfu.Yijinjing.Cache.Cells
import Kungfu.Yijinjing.Cache.Restore

namespace Kungfu.Yijinjing.Cache

open Kungfu.Lib Kungfu.Common Kungfu.Longfist

def CellDatabase : Type := (T : StateType) → CellTable T.schema

inductive Statement
  | replace (T : StateType) (r : Row T.schema)
  | removeAll (T : StateType)

def Statement.Storable : Statement → Prop
  | .replace _ r => r.data.Storable
  | .removeAll _ => True

def Database.execute (db : Database) : Statement → Database
  | .replace T r => db.replace T r
  | .removeAll T => db.removeAll T

namespace CellDatabase

def empty : CellDatabase := fun _ => .empty

def set (cells : CellDatabase) (T : StateType) (t : CellTable T.schema) : CellDatabase :=
  Function.update cells T t

def execute (R : Reals) (cells : CellDatabase) : Statement → CellDatabase
  | .replace T r => cells.set T ((cells T).replace (Cells.bind R r.data))
  | .removeAll T => cells.set T .empty

/-- Every table holds the columns of the records in the other one. -/
def Holds (R : Reals) (cells : CellDatabase) (db : Database) : Prop :=
  ∀ T, (cells T).Holds R (db T)

variable {R : Reals} {cells : CellDatabase} {db : Database}

theorem holds_empty : Holds R empty .empty := fun _ => CellTable.holds_empty

theorem Holds.execute (h : Holds R cells db) {s : Statement} (hs : s.Storable) :
    Holds R (cells.execute R s) (db.execute s) := by
  cases s with
  | replace T r => exact CellTable.holds_update h ((h T).replace hs)
  | removeAll T => exact CellTable.holds_update h CellTable.holds_empty

theorem Holds.run (h : Holds R cells db) {ss : List Statement} (hs : ∀ s ∈ ss, s.Storable) :
    Holds R (ss.foldl (CellDatabase.execute R) cells) (ss.foldl Database.execute db) := by
  induction ss generalizing cells db with
  | nil => exact h
  | cons s ss ih => exact ih (h.execute (hs s (.head _))) fun s' hs' => hs s' (.tail _ hs')

theorem Holds.getAll (h : Holds R cells db) (T : StateType)
    (behind : Cells T.schema.fields → String → Memory) (start stop : Int64) :
    List.Forall₂ (fun (r : T.schema.Data) (row : Row T.schema) => r.Eqv row.data)
      ((cells T).getAll behind start stop) (Cache.getAll (db T) start stop) := by
  have hsub : ∀ r ∈ Cache.getAll (db T) start stop, r ∈ (db T).rows := by
    intro r hr
    rw [getAll_eq_filter] at hr
    exact List.mem_of_mem_filter hr
  have hmap : (cells T).getAll behind start stop = (Cache.getAll (db T) start stop).map
      fun r => (Cells.bind R r.data).object (behind (Cells.bind R r.data)) := by
    rw [CellTable.getAll, Cache.getAll, (h T).rows]
    cases hkey : T.schema.timestampKey with
    | none => exact List.map_map
    | some name =>
      have hcell : ∀ r : Row T.schema,
          (Cells.bind R r.data).keyValue name = r.data.keyValue name := fun r =>
        Cells.keyValue_bind_int64 R (timestampKey_int64 T name hkey) r.data
      simp only [List.filter_map, List.map_map, Function.comp_def, hcell]
  rw [hmap, List.forall₂_map_left_iff, List.forall₂_same]
  exact fun r hr => Cells.object_bind R _ ((h T).storable r (hsub r hr))

end CellDatabase

namespace Shift

def Change.statements (dest : UInt32) : Change → List Statement
  | .store T x => if x.toState.dest = dest then [.replace T x.row] else []
  | .reset T d => if d = dest then [.removeAll T] else []
  | .restart => []

theorem database_change (s : Shift) (c : Change) (dest : UInt32) :
    (s.change c).disk.database dest =
      (c.statements dest).foldl Database.execute (s.disk.database dest) := by
  funext T
  cases c with
  | store T' x =>
    rw [Change.statements, change]
    split
    next h =>
      subst h
      change (s.store T' x).table _ T = (s.disk.database _).replace T' x.row T
      by_cases hT : T = T'
      · subst hT
        rw [table_store_same, Database.replace_same]
        rfl
      · rw [table_store_of_ne x fun _ => hT, Database.replace_of_ne hT]
        rfl
    next h => exact table_store_of_ne x fun hd => absurd hd.symm h
  | reset T' d =>
    rw [Change.statements, change]
    split
    next h =>
      subst h
      change (s.reset T' d).table d T = (s.disk.database d).removeAll T' T
      by_cases hT : T = T'
      · subst hT
        rw [table_reset_same, Database.removeAll_same]
      · rw [table_reset_of_ne fun _ => hT, Database.removeAll_of_ne hT]
        rfl
    next h => exact table_reset_of_ne fun hd => absurd hd.symm h
  | restart => rfl

theorem database_changeAll (s : Shift) (changes : List Change) (dest : UInt32) :
    (s.changeAll changes).disk.database dest =
      (changes.flatMap (Change.statements dest)).foldl Database.execute
        (s.disk.database dest) := by
  induction changes generalizing s with
  | nil => rfl
  | cons c changes ih =>
    rw [changeAll, List.foldl_cons, List.flatMap_cons, List.foldl_append, ← database_change]
    exact ih (s.change c)

/-- The database of a destination after the changes, column by column. -/
def cellDatabase (R : Reals) (changes : List Change) (dest : UInt32) : CellDatabase :=
  (changes.flatMap (Change.statements dest)).foldl (CellDatabase.execute R) .empty

def Change.Storable : Change → Prop
  | .store _ x => x.data.Storable
  | _ => True

theorem Change.storable_statements {c : Change} (h : c.Storable) (dest : UInt32) :
    ∀ s ∈ c.statements dest, s.Storable := by
  intro s hs
  cases c with
  | store T x =>
    rw [statements] at hs
    split at hs
    next => exact List.mem_singleton.mp hs ▸ h
    next => cases hs
  | reset T d =>
    rw [statements] at hs
    split at hs
    next => exact List.mem_singleton.mp hs ▸ trivial
    next => cases hs
  | restart => cases hs

theorem holds_cellDatabase (R : Reals) (locationUid : UInt32) {changes : List Change}
    (h : ∀ c ∈ changes, c.Storable) (dest : UInt32) :
    CellDatabase.Holds R (cellDatabase R changes dest)
      (((onDisk locationUid ∅).changeAll changes).disk.database dest) := by
  have hempty : (onDisk locationUid ∅).disk.database dest = Database.empty :=
    funext fun T => table_of_notMem (AList.notMem_empty dest)
  rw [database_changeAll, hempty, cellDatabase]
  refine CellDatabase.holds_empty.run fun s hs => ?_
  obtain ⟨c, hc, hs⟩ := List.mem_flatMap.mp hs
  exact Change.storable_statements (h c hc) dest s hs

theorem getAll_cellDatabase (R : Reals) (changes : List Change) (h : ∀ c ∈ changes, c.Storable)
    (dest : UInt32) (T : StateType) (behind : Cells T.schema.fields → String → Memory)
    (start : Int64) :
    ∃ rows : List (Row T.schema),
      (rows.map Row.key).Nodup ∧
        (∀ r, r ∈ rows ↔ LastStored changes ⟨dest, T, r⟩ ∧ r.Since start) ∧
        List.Forall₂ (fun (r : T.schema.Data) (row : Row T.schema) => r.Eqv row.data)
          ((cellDatabase R changes dest T).getAll behind start Int64.maxValue) rows := by
  refine ⟨_, ?_, fun r => ?_, (holds_cellDatabase R 0 h dest).getAll T behind start _⟩
  · rw [getAll_eq_filter]
    exact (KeyedTable.nodup_map_key _).sublist (List.filter_sublist.map _)
  · rw [getAll_eq_filter, List.mem_filter, selected_iff_since]
    exact and_congr_left fun _ => mem_rows_changeAll 0 changes ⟨dest, T, r⟩

theorem storable_positionOf (holderUid : BitVec 32) (direction : BitVec 8) :
    (positionOf holderUid direction).data.Storable := by
  have hfresh : (Record.fresh Types.position.fields).Storable := by decide
  exact Record.all_set (Record.all_set hfresh positionHolderUid trivial) positionDirection
    (show IntType.int8.size ≤ 4 by decide)

theorem getAll_cellDatabase_positions :
    ∃ rows : List (Row Types.position),
      (rows.map Row.key).Nodup ∧
        (∀ r, r ∈ rows ↔ LastStored positions ⟨0, ⟨.position, by decide⟩, r⟩ ∧ r.Since 0) ∧
        List.Forall₂ (fun (r : Types.position.Data) (row : Row Types.position) => r.Eqv row.data)
          ((cellDatabase default positions 0 ⟨.position, by decide⟩).getAll (fun _ _ _ => 7) 0
            Int64.maxValue) rows := by
  refine getAll_cellDatabase default positions (fun c hc => ?_) 0 ⟨.position, by decide⟩
    (fun _ _ _ => 7) 0
  simp only [positions, List.mem_cons, List.not_mem_nil, or_false] at hc
  obtain rfl | rfl | rfl | rfl | rfl := hc
  · exact storable_positionOf 2 0
  · trivial
  · exact storable_positionOf 3 1
  · exact storable_positionOf 2 0
  · trivial

end Shift

end Kungfu.Yijinjing.Cache
