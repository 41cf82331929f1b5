import Kungfu.Yijinjing.Cache.Columns
import Kungfu.Yijinjing.Cache.Storage

namespace Kungfu.Yijinjing.Cache

open Kungfu.Lib Kungfu.Common Kungfu.Longfist

def Cells : List Field → Type
  | [] => Unit
  | f :: fs => f.type.Stored × Cells fs

namespace Cells

def bind (R : Reals) : {fs : List Field} → Record fs → Cells fs
  | [], _ => ()
  | f :: _, r => (f.type.bind R r.1, bind R r.2)

def extract (behind : String → Memory) : {fs : List Field} → Cells fs → Record fs
  | [], _ => ()
  | f :: _, c => (f.type.extract (behind f.name) c.1, extract behind c.2)

/-- `mapped_row_extractor::extract`: a new object, whose members are assigned. -/
def object {fs : List Field} (behind : String → Memory) (c : Cells fs) : Record fs :=
  (Record.fresh fs).assign (c.extract behind)

def keyValue (name : String) : {fs : List Field} → Cells fs → KeyValue
  | [], _ => .num 0
  | f :: _, c => if f.name = name then f.type.storedKey c.1 else keyValue name c.2

def key {S : Schema} (c : Cells S.fields) : List KeyValue := S.primaryKeys.map (c.keyValue ·)

variable {fs : List Field} (R : Reals) {a b : Record fs}

theorem assign_extract_bind (behind : String → Memory) (h : a.Storable) :
    (Record.fresh fs).assign ((bind R a).extract behind) = (Record.fresh fs).assign a := by
  induction fs with
  | nil => rfl
  | cons f fs ih => exact Prod.ext (f.type.extract_bind R (behind f.name) h.1) (ih h.2)

theorem object_bind (behind : String → Memory) (h : a.Storable) :
    ((bind R a).object behind).Eqv a := by
  rw [object, assign_extract_bind R behind h]
  exact a.assign_fresh

theorem keyValue_bind_iff {names : List String} {name : String} (hname : name ∈ names)
    (hash : ∀ f ∈ fs, f.name = name → f.type.hashable = true) (ha : a.StorableAt names)
    (hb : b.StorableAt names) :
    (bind R a).keyValue name = (bind R b).keyValue name ↔ a.keyValue name = b.keyValue name := by
  induction fs with
  | nil => exact Iff.rfl
  | cons f fs ih =>
    simp only [bind, keyValue, Record.keyValue]
    split
    next h =>
      exact f.type.storedKey_bind R (hash f (.head _) h) (ha.1 (h ▸ hname)) (hb.1 (h ▸ hname))
    next => exact ih (fun g hg => hash g (.tail _ hg)) ha.2 hb.2

theorem key_bind_iff {S : Schema} {a b : S.Data} (ha : a.StorableAt S.primaryKeys)
    (hb : b.StorableAt S.primaryKeys) : key (bind R a) = key (bind R b) ↔ S.key a = S.key b := by
  rw [key, key, Schema.key, Schema.key, List.map_inj_left, List.map_inj_left]
  exact forall₂_congr fun name hname =>
    keyValue_bind_iff R hname (S.keys_hashable name hname) ha hb

theorem keyValue_bind_int64 {name : String}
    (h : ∀ f ∈ fs, f.name = name → f.type = Types.int64) (a : Record fs) :
    (bind R a).keyValue name = a.keyValue name := by
  induction fs with
  | nil => rfl
  | cons f fs ih =>
    simp only [bind, keyValue, Record.keyValue]
    split
    next hname =>
      obtain ⟨t, n⟩ := f
      obtain rfl : t = Types.int64 := h _ (.head _) hname
      exact congrArg KeyValue.num (IntType.bind_int64 a.1)
    next => exact ih (fun g hg => h g (.tail _ hg)) a.2

end Cells

abbrev CellTable (S : Schema) := KeyedTable (Cells.key (S := S))

namespace CellTable

/-- `time_spec<T>::get_all`, where the condition is on the column of the timestamp. -/
def getAll {S : Schema} (t : CellTable S) (behind : Cells S.fields → String → Memory)
    (start stop : Int64) : List S.Data :=
  let selected := match S.timestampKey with
    | none => t.rows
    | some name => t.rows.filter fun c => between start stop (c.keyValue name)
  selected.map fun c => c.object (behind c)

variable {S : Schema}

/-- The rows are the columns of the records of the other table, which can be stored. -/
structure Holds (R : Reals) (cells : CellTable S) (t : Table S) : Prop where
  rows : cells.rows = t.rows.map fun r => Cells.bind R r.data
  storable : ∀ r ∈ t.rows, r.data.Storable

variable {R : Reals} {cells : CellTable S} {t : Table S}

theorem holds_empty : Holds R (.empty : CellTable S) .empty where
  rows := rfl
  storable _ h := nomatch h

theorem Holds.replace (h : cells.Holds R t) {r : Row S} (hr : r.data.Storable) :
    Holds R (cells.replace (Cells.bind R r.data)) (t.replace r) where
  rows := KeyedTable.rows_replace_map h.rows fun y hy =>
    Cells.key_bind_iff R ((h.storable y hy).storableAt _) (hr.storableAt _)
  storable y hy := by
    obtain rfl | ⟨hy, -⟩ := KeyedTable.mem_rows_replace.mp hy
    · exact hr
    · exact h.storable y hy

/-- Families of tables of which one pair is changed. -/
theorem holds_update {ι : Type*} [DecidableEq ι] {S : ι → Schema} {cells : ∀ i, CellTable (S i)}
    {tables : ∀ i, Table (S i)} (h : ∀ i, (cells i).Holds R (tables i)) {i : ι}
    {c : CellTable (S i)} {t : Table (S i)} (hi : c.Holds R t) (j : ι) :
    (Function.update cells i c j).Holds R (Function.update tables i t j) := by
  by_cases hj : j = i
  · subst hj
    rw [Function.update_self, Function.update_self]
    exact hi
  · rw [Function.update_of_ne hj, Function.update_of_ne hj]
    exact h j

section

variable (h : cells.Holds R t) {query : S.Data} (hquery : query.StorableAt S.primaryKeys)

include h hquery

theorem Holds.key_eq_iff : ∀ r ∈ t.rows,
    Cells.key (Cells.bind R r.data) = Cells.key (Cells.bind R query) ↔ r.key = S.key query :=
  fun r hr => Cells.key_bind_iff R ((h.storable r hr).storableAt _) hquery

theorem Holds.erase :
    Holds R (cells.erase (Cells.key (Cells.bind R query))) (t.erase (S.key query)) where
  rows := KeyedTable.rows_erase_map h.rows (h.key_eq_iff hquery)
  storable r hr := by
    rw [KeyedTable.rows_erase] at hr
    exact h.storable r (List.mem_of_mem_filter hr)

theorem Holds.lookup : KeyedTable.lookup cells (Cells.key (Cells.bind R query)) =
    (KeyedTable.lookup t (S.key query)).map fun r => Cells.bind R r.data :=
  KeyedTable.lookup_map h.rows (h.key_eq_iff hquery)

end

end CellTable

end Kungfu.Yijinjing.Cache
