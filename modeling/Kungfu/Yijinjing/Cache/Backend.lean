import Kungfu.Yijinjing.Cache.Storage

/-!
`shift` of `cache/backend.h`: the databases of a location, one for every destination, and those
of them that the object at hand has opened.
-/

namespace Kungfu.Yijinjing.Cache

open Kungfu.Lib Kungfu.Common Kungfu.Longfist

abbrev Disk := AList fun _ : UInt32 => Database

def Disk.database (k : Disk) (dest : UInt32) : Database := (k.lookup dest).getD .empty

structure Shift where
  locationUid : UInt32
  disk : Disk
  storageMap : List UInt32
  nodup : storageMap.Nodup
  opened : ∀ dest ∈ storageMap, dest ∈ disk

namespace Shift

def onDisk (locationUid : UInt32) (disk : Disk) : Shift where
  locationUid := locationUid
  disk := disk
  storageMap := []
  nodup := .nil
  opened _ h := nomatch h

def restart (s : Shift) : Shift := onDisk s.locationUid s.disk

def ensureStorage (s : Shift) (dest : UInt32) : Shift :=
  if h : dest ∈ s.storageMap then s
  else { s with
    disk := if dest ∈ s.disk then s.disk else s.disk.insert dest .empty
    storageMap := dest :: s.storageMap
    nodup := s.nodup.cons h
    opened := by
      intro d hd
      split
      next hdest =>
        obtain rfl | hd := List.mem_cons.mp hd
        · exact hdest
        · exact s.opened d hd
      next =>
        rw [AList.mem_insert]
        exact (List.mem_cons.mp hd).imp_right (s.opened d) }

def modify (s : Shift) (dest : UInt32) (f : Database → Database) : Shift where
  locationUid := s.locationUid
  disk := s.disk.insert dest (f (s.disk.database dest))
  storageMap := s.storageMap
  nodup := s.nodup
  opened d hd := (AList.mem_insert _).mpr (.inr (s.opened d hd))

/-- `operator<<`, either overload. -/
def store (s : Shift) (T : StateType) (x : Feed T.schema) : Shift :=
  (s.ensureStorage x.toState.dest).modify x.toState.dest (·.replace T x.row)

/-- `operator-=`. -/
def reset (s : Shift) (T : StateType) (dest : UInt32) : Shift :=
  (s.ensureStorage dest).modify dest (·.removeAll T)

/-- `operator/=`: the databases that are open. -/
def resetAll (s : Shift) (T : StateType) : Shift :=
  -- no `ensure_storage` here, unlike in the other operators
  s.storageMap.foldl (fun s dest => s.modify dest (·.removeAll T)) s

/-- The first loop of `operator>>`, over `list_location_dest_by_db`. -/
def openAll (s : Shift) : Shift := s.disk.keys.foldl ensureStorage s

def table (s : Shift) (dest : UInt32) (T : StateType) : Table T.schema := s.disk.database dest T

end Shift

structure Delivery where
  dest : UInt32
  type : StateType
  row : Row type.schema

namespace Shift

/-- The second loop of `operator>>`: the types, the entries of `storage_map_` in the order of its
iterator, and the rows. -/
def deliveries (s : Shift) (order : List UInt32) (start : Int64) : List Delivery :=
  StateType.all.flatMap fun T => order.flatMap fun dest =>
    (getAll (s.table dest T) start Int64.maxValue).map fun row => ⟨dest, T, row⟩

def restore (s : Shift) (order : List UInt32) (start : Int64) : List Delivery :=
  s.openAll.deliveries order start

def Iterates (s : Shift) (order : List UInt32) : Prop := order.Perm s.openAll.storageMap

variable {s : Shift} {dest d : UInt32} {T T' : StateType}

section Tables

theorem table_of_notMem (h : dest ∉ s.disk) : s.table dest T = .empty := by
  rw [table, Disk.database, AList.lookup_eq_none.mpr h]
  rfl

@[simp] theorem mem_storageMap_ensureStorage :
    d ∈ (s.ensureStorage dest).storageMap ↔ d = dest ∨ d ∈ s.storageMap := by
  rw [ensureStorage]
  split
  next h => exact ⟨.inr, fun hd => hd.elim (· ▸ h) id⟩
  next => exact List.mem_cons

@[simp] theorem table_ensureStorage : (s.ensureStorage dest).table d T = s.table d T := by
  rw [ensureStorage]
  split
  next => rfl
  next =>
    rw [table, table]
    dsimp only
    split
    next => rfl
    next h =>
      by_cases hd : d = dest
      · subst hd
        rw [Disk.database, Disk.database, AList.lookup_insert, AList.lookup_eq_none.mpr h]
        rfl
      · rw [Disk.database, Disk.database, AList.lookup_insert_ne hd]

@[simp] theorem table_modify_same (f : Database → Database) :
    (s.modify dest f).table dest T = f (s.disk.database dest) T := by
  rw [table, modify, Disk.database, AList.lookup_insert]
  rfl

theorem table_modify_of_ne (h : d ≠ dest) (f : Database → Database) :
    (s.modify dest f).table d T = s.table d T := by
  rw [table, modify, Disk.database, AList.lookup_insert_ne h]
  rfl

@[simp] theorem mem_disk_modify (f : Database → Database) :
    d ∈ (s.modify dest f).disk ↔ d = dest ∨ d ∈ s.disk :=
  AList.mem_insert _

@[simp] theorem table_restart : s.restart.table d T = s.table d T := rfl

theorem table_store_same (x : Feed T.schema) :
    (s.store T x).table x.toState.dest T = (s.table x.toState.dest T).replace x.row := by
  rw [store, table_modify_same, Database.replace_same]
  exact congrArg (KeyedTable.replace · x.row) table_ensureStorage

theorem table_store_of_ne (x : Feed T.schema) (h : d = x.toState.dest → T' ≠ T) :
    (s.store T x).table d T' = s.table d T' := by
  by_cases hd : d = x.toState.dest
  · subst hd
    rw [store, table_modify_same, Database.replace_of_ne (h rfl)]
    exact table_ensureStorage
  · rw [store, table_modify_of_ne hd, table_ensureStorage]

theorem table_reset_same : (s.reset T dest).table dest T = .empty := by
  rw [reset, table_modify_same, Database.removeAll_same]

theorem table_reset_of_ne (h : d = dest → T' ≠ T) :
    (s.reset T dest).table d T' = s.table d T' := by
  by_cases hd : d = dest
  · subst hd
    rw [reset, table_modify_same, Database.removeAll_of_ne (h rfl)]
    exact table_ensureStorage
  · rw [reset, table_modify_of_ne hd, table_ensureStorage]

theorem table_modify_removeAll_of_ne (h : d = dest → T' ≠ T) :
    (s.modify dest (·.removeAll T)).table d T' = s.table d T' := by
  by_cases hd : d = dest
  · subst hd
    rw [table_modify_same, Database.removeAll_of_ne (h rfl)]
    rfl
  · exact table_modify_of_ne hd _

theorem table_foldl_removeAll_of_ne (dests : List UInt32) (h : d ∈ dests → T' ≠ T) :
    (dests.foldl (fun s dest => s.modify dest (·.removeAll T)) s).table d T' = s.table d T' := by
  induction dests generalizing s with
  | nil => rfl
  | cons dest dests ih =>
    rw [List.foldl_cons, ih fun hd => h (.tail _ hd), table_modify_removeAll_of_ne]
    rintro rfl
    exact h (.head _)

theorem table_resetAll_of_ne (h : d ∈ s.storageMap → T' ≠ T) :
    (s.resetAll T).table d T' = s.table d T' :=
  table_foldl_removeAll_of_ne s.storageMap h

theorem table_foldl_removeAll_of_mem (dests : List UInt32) (h : d ∈ dests) :
    (dests.foldl (fun s dest => s.modify dest (·.removeAll T)) s).table d T = .empty := by
  induction dests generalizing s with
  | nil => cases h
  | cons dest dests ih =>
    by_cases hd : d ∈ dests
    · exact ih hd
    · obtain rfl := (List.mem_cons.mp h).resolve_right hd
      rw [List.foldl_cons, table_foldl_removeAll_of_ne dests fun h => absurd h hd,
        table_modify_same, Database.removeAll_same]

theorem table_resetAll_of_mem (h : d ∈ s.storageMap) : (s.resetAll T).table d T = .empty :=
  table_foldl_removeAll_of_mem s.storageMap h

theorem openAll_spec (dests : List UInt32) :
    (∀ d, d ∈ (dests.foldl ensureStorage s).storageMap ↔ d ∈ dests ∨ d ∈ s.storageMap) ∧
      ∀ d T, (dests.foldl ensureStorage s).table d T = s.table d T := by
  induction dests generalizing s with
  | nil => simp
  | cons dest dests ih =>
    obtain ⟨hmem, htable⟩ := @ih (s.ensureStorage dest)
    refine ⟨fun d => ?_, fun d T => (htable d T).trans table_ensureStorage⟩
    rw [List.foldl_cons, hmem, mem_storageMap_ensureStorage, List.mem_cons, or_assoc, or_left_comm]

@[simp] theorem mem_storageMap_openAll : d ∈ s.openAll.storageMap ↔ d ∈ s.disk := by
  rw [openAll, (openAll_spec _).1, AList.mem_keys]
  exact or_iff_left_of_imp fun h => AList.mem_keys.mp (s.opened d h)

@[simp] theorem table_openAll : s.openAll.table d T = s.table d T := (openAll_spec _).2 d T

end Tables

variable {order : List UInt32} {start : Int64}

theorem mem_deliveries {x : Delivery} : x ∈ s.deliveries order start ↔
    x.dest ∈ order ∧ x.row ∈ getAll (s.table x.dest x.type) start Int64.maxValue := by
  simp only [deliveries, List.mem_flatMap, List.mem_map]
  constructor
  · rintro ⟨T, -, dest, hdest, row, hrow, rfl⟩
    exact ⟨hdest, hrow⟩
  · rintro ⟨hdest, hrow⟩
    exact ⟨x.type, x.type.mem_all, x.dest, hdest, x.row, hrow, rfl⟩

theorem mem_restore (h : s.Iterates order) {x : Delivery} : x ∈ s.restore order start ↔
    x.row ∈ getAll (s.table x.dest x.type) start Int64.maxValue := by
  rw [restore, mem_deliveries, h.mem_iff, mem_storageMap_openAll, table_openAll]
  refine and_iff_right_of_imp fun hrow => ?_
  by_contra hdest
  rw [table_of_notMem hdest, getAll_eq_filter] at hrow
  cases hrow

theorem nodup_flatMap_of_tag {α β : Type*} {f : α → List β} {l : List α} (tag : β → α)
    (hl : l.Nodup) (htag : ∀ a, ∀ b ∈ f a, tag b = a) (hf : ∀ a, (f a).Nodup) :
    (l.flatMap f).Nodup := by
  refine List.nodup_flatMap.mpr ⟨fun a _ => hf a, hl.imp fun {a a'} hne => ?_⟩
  intro b hb hb'
  exact hne ((htag a b hb).symm.trans (htag a' b hb'))

theorem nodup_restore (h : s.Iterates order) : (s.restore order start).Nodup := by
  refine nodup_flatMap_of_tag Delivery.type StateType.nodup_all (fun T x hx => ?_) fun T => ?_
  · obtain ⟨dest, -, hx⟩ := List.mem_flatMap.mp hx
    obtain ⟨row, -, rfl⟩ := List.mem_map.mp hx
    rfl
  · refine nodup_flatMap_of_tag Delivery.dest (h.nodup_iff.mpr s.openAll.nodup)
      (fun dest x hx => ?_) fun dest => ?_
    · obtain ⟨row, -, rfl⟩ := List.mem_map.mp hx
      rfl
    · rw [getAll_eq_filter]
      refine ((KeyedTable.nodup_rows _).filter _).map fun row row' heq => ?_
      cases heq
      rfl

inductive Change
  | store (T : StateType) (x : Feed T.schema)
  | reset (T : StateType) (dest : UInt32)
  | restart

def change (s : Shift) : Change → Shift
  | .store T x => s.store T x
  | .reset T dest => s.reset T dest
  | .restart => s.restart

end Shift

end Kungfu.Yijinjing.Cache
