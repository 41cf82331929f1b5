import Kungfu.Lib.KeyedTable
import Kungfu.Yijinjing.Cache.Runtime

namespace Kungfu.Yijinjing.Cache

open Kungfu.Lib Kungfu.Common Kungfu.Longfist

/-- A record in a table; its char arrays hold a NUL, as `strlen` presupposes. -/
structure Row (S : Schema) where
  data : S.Data
  terminated : data.Terminated

def Row.key {S : Schema} (r : Row S) : List KeyValue := S.key r.data

def Feed.row {S : Schema} (x : Feed S) : Row S := ⟨x.data, x.terminated⟩

abbrev Table (S : Schema) := KeyedTable (Row.key (S := S))

def Database : Type := (T : StateType) → Table T.schema

namespace Database

def empty : Database := fun _ => .empty

def replace (db : Database) (T : StateType) (r : Row T.schema) : Database :=
  Function.update db T ((db T).replace r)

def removeAll (db : Database) (T : StateType) : Database := Function.update db T .empty

variable {db : Database} {T T' : StateType}

@[simp] theorem replace_same (r : Row T.schema) : db.replace T r T = (db T).replace r :=
  Function.update_self ..

theorem replace_of_ne (h : T' ≠ T) (r : Row T.schema) : db.replace T r T' = db T' :=
  Function.update_of_ne h ..

@[simp] theorem removeAll_same : db.removeAll T T = .empty := Function.update_self ..

theorem removeAll_of_ne (h : T' ≠ T) : db.removeAll T T' = db T' := Function.update_of_ne h ..

end Database

/-- The condition of `where(and_(greater_or_equal(ts, from), lesser_or_equal(ts, to)))`; SQLite
orders every text behind the integers. -/
def between (start stop : Int64) : KeyValue → Bool
  | .num i => start.toInt ≤ i && i ≤ stop.toInt
  | .text _ => false

def Row.selected {S : Schema} (start stop : Int64) (r : Row S) : Bool :=
  S.timestampKey.all fun name => between start stop (r.data.keyValue name)

def getAll {S : Schema} (t : Table S) (start stop : Int64) : List (Row S) :=
  match S.timestampKey with
  | none => t.rows
  | some name => t.rows.filter fun r => between start stop (r.data.keyValue name)

theorem getAll_eq_filter {S : Schema} (t : Table S) (start stop : Int64) :
    getAll t start stop = t.rows.filter (Row.selected start stop) := by
  rw [getAll]
  split
  next h =>
    refine (List.filter_eq_self.mpr fun r _ => ?_).symm
    rw [Row.selected, h]
    rfl
  next name h =>
    apply List.filter_congr
    intro r _
    rw [Row.selected, h]
    rfl

theorem timestampKey_int64 (T : StateType) : ∀ name ∈ T.schema.timestampKey,
    ∀ f ∈ T.schema.fields, f.name = name → f.type = Types.int64 := by
  have h : ∀ T ∈ stateDataTypes, ∀ name ∈ T.schema.timestampKey,
      ∀ f ∈ T.schema.fields, f.name = name → f.type = Types.int64 := by
    decide
  exact h T.type T.mem

end Kungfu.Yijinjing.Cache
