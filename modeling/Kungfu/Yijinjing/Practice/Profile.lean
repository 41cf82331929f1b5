import Kungfu.Lib.History
import Kungfu.Yijinjing.Cache.Cells

namespace Kungfu.Yijinjing.Practice

open Kungfu.Lib Kungfu.Common Kungfu.Longfist Kungfu.Yijinjing.Cache

def Profile : Type := (T : ProfileType) → CellTable T.schema

namespace Profile

def empty : Profile := fun _ => .empty

/-- A statement of the storage on one table; one that fails leaves the table as it was. -/
def execute (p : Profile) (T : ProfileType) (succeeds : Bool)
    (f : CellTable T.schema → CellTable T.schema) : Except Unit Unit × Profile :=
  if succeeds then (.ok (), Function.update p T (f (p T))) else (.error (), p)

section

variable (R : Reals) (p : Profile) (T : ProfileType) (succeeds : Bool)

/-- `profile::set`, which logs the exception of the storage and goes on. -/
def set (data : Row T.schema) : Except Unit Unit × Profile :=
  (.ok (), (p.execute T succeeds (·.replace (Cells.bind R data.data))).2)

def store (data : Row T.schema) : Except Unit Unit × Profile :=
  p.execute T succeeds (·.replace (Cells.bind R data.data))

/-- `profile::get`: the storage throws when it has no row of the primary key of the query. -/
def get (behind : Cells T.schema.fields → String → Memory) (query : T.schema.Data) :
    Except Unit T.schema.Data :=
  match (p T).lookup (Cells.key (Cells.bind R query)) with
  | some c => .ok (c.object (behind c))
  | none => .error ()

def getAll (behind : Cells T.schema.fields → String → Memory) (_query : T.schema.Data) :
    List T.schema.Data :=
  (p T).rows.map fun c => c.object (behind c)

def remove (query : T.schema.Data) : Except Unit Unit × Profile :=
  p.execute T succeeds (·.erase (Cells.key (Cells.bind R query)))

def removeAll : Except Unit Unit × Profile := p.execute T succeeds fun _ => .empty

end

inductive Write
  | set (T : ProfileType) (data : Row T.schema)
  | store (T : ProfileType) (data : Row T.schema)
  | remove (T : ProfileType) (query : T.schema.Data)
  | removeAll (T : ProfileType)

def write (R : Reals) (p : Profile) : Write × Bool → Profile
  | (.set T data, succeeds) => (p.set R T succeeds data).2
  | (.store T data, succeeds) => (p.store R T succeeds data).2
  | (.remove T query, succeeds) => (p.remove R T succeeds query).2
  | (.removeAll T, succeeds) => (p.removeAll T succeeds).2

def run (R : Reals) (p : Profile) (writes : List (Write × Bool)) : Profile :=
  writes.foldl (write R) p

namespace Write

def Storable : Write → Prop
  | .set _ data | .store _ data => data.data.Storable
  | .remove T query => query.StorableAt T.schema.primaryKeys
  | .removeAll _ => True

def Stores (T : ProfileType) (x : Row T.schema) (w : Write) : Prop := w = .set T x ∨ w = .store T x

def Overwrites (T : ProfileType) (key : List KeyValue) : Write → Prop
  | .set T' data | .store T' data => T' = T ∧ data.key = key
  | .remove T' query => T' = T ∧ T'.schema.key query = key
  | .removeAll T' => T' = T

end Write

/-- The record was written last under its key, by an operation that the storage carried out, and
no later one that it carried out has removed it. -/
def Stands (T : ProfileType) (x : Row T.schema) (writes : List (Write × Bool)) : Prop :=
  History.Stands (fun w => w.2 = true ∧ w.1.Stores T x)
    (fun w => w.2 = true ∧ w.1.Overwrites T x.key) writes

end Profile

def Records : Type := (T : ProfileType) → Table T.schema

namespace Records

def empty : Records := fun _ => .empty

def update (t : Records) (T : ProfileType) (table : Table T.schema) : Records :=
  Function.update t T table

def write (t : Records) : Profile.Write × Bool → Records
  | (_, false) => t
  | (.set T data, true) | (.store T data, true) => t.update T ((t T).replace data)
  | (.remove T query, true) => t.update T ((t T).erase (T.schema.key query))
  | (.removeAll T, true) => t.update T .empty

def run (t : Records) (writes : List (Profile.Write × Bool)) : Records := writes.foldl write t

variable {t : Records} {T : ProfileType} {key : List KeyValue} {x : Row T.schema}

@[simp] theorem update_same (table : Table T.schema) : t.update T table T = table :=
  Function.update_self ..

theorem update_of_ne {T' : ProfileType} (h : T ≠ T') (table : Table T'.schema) :
    t.update T' table T = t T := Function.update_of_ne h ..

theorem lookup_replace {T' : ProfileType} (data : Row T'.schema) :
    (t.update T' ((t T').replace data) T).lookup key = some x ↔
      (T' = T ∧ HEq data x ∧ x.key = key) ∨
        (t T).lookup key = some x ∧ ¬ (T' = T ∧ data.key = key) := by
  by_cases hT : T' = T
  · subst hT
    rw [update_same, KeyedTable.lookup_replace]
    by_cases hkey : key = data.key
    · subst hkey
      simp only [if_true, Option.some.injEq, heq_eq_eq, true_and, not_true, and_false, or_false]
      constructor
      · rintro rfl
        exact ⟨rfl, rfl⟩
      · exact And.left
    · rw [if_neg hkey]
      have hx : ¬ (data = x ∧ x.key = key) := by
        rintro ⟨rfl, h⟩
        exact hkey h.symm
      simp only [heq_eq_eq, true_and, hx, Ne.symm hkey, not_false_eq_true, and_true, false_or]
  · rw [update_of_ne (Ne.symm hT)]
    simp [hT]

theorem lookup_write (t : Records) (w : Profile.Write) :
    (t.write (w, true) T).lookup key = some x ↔
      (w.Stores T x ∧ x.key = key) ∨
        (t T).lookup key = some x ∧ ¬ w.Overwrites T key := by
  have hreplace {T' : ProfileType} (data : Row T'.schema) (hw : w.Stores T x ↔ T' = T ∧ HEq data x)
      (ho : w.Overwrites T key ↔ T' = T ∧ data.key = key) :
      (t.update T' ((t T').replace data) T).lookup key = some x ↔
        (w.Stores T x ∧ x.key = key) ∨
          (t T).lookup key = some x ∧ ¬ w.Overwrites T key := by
    rw [lookup_replace, hw, ho, and_assoc]
  cases w with
  | set T' data =>
    refine hreplace data ?_ Iff.rfl
    simp [Profile.Write.Stores]
  | store T' data =>
    refine hreplace data ?_ Iff.rfl
    simp [Profile.Write.Stores]
  | remove T' query =>
    have hstores : ¬ Profile.Write.Stores T x (.remove T' query) := by simp [Profile.Write.Stores]
    simp only [hstores, false_and, false_or, Profile.Write.Overwrites, write]
    by_cases hT : T' = T
    · subst hT
      rw [update_same, KeyedTable.lookup_erase]
      by_cases hkey : key = T'.schema.key query
      · simp [hkey]
      · simp [hkey, Ne.symm hkey]
    · rw [update_of_ne (Ne.symm hT)]
      simp [hT]
  | removeAll T' =>
    have hstores : ¬ Profile.Write.Stores T x (.removeAll T') := by simp [Profile.Write.Stores]
    simp only [hstores, false_and, false_or, Profile.Write.Overwrites, write]
    by_cases hT : T' = T
    · subst hT
      rw [update_same, KeyedTable.lookup_empty]
      simp
    · rw [update_of_ne (Ne.symm hT)]
      simp [hT]

theorem lookup_run (writes : List (Profile.Write × Bool)) :
    (run empty writes T).lookup key = some x ↔
      x.key = key ∧ Profile.Stands T x writes := by
  induction writes using List.reverseRecOn with
  | nil =>
    have hempty : (run empty [] T).lookup key = none := KeyedTable.lookup_empty key
    rw [hempty]
    exact iff_of_false (Option.some_ne_none x).symm fun h => History.not_stands_nil h.2
  | append_singleton writes w ih =>
    obtain ⟨w, succeeds⟩ := w
    rw [run, List.foldl_concat, ← run, Profile.Stands, History.stands_concat, ← Profile.Stands]
    cases succeeds with
    | false =>
      rw [write, ih]
      simp
    | true =>
      rw [lookup_write, ih]
      constructor
      · rintro (⟨hstores, rfl⟩ | ⟨⟨rfl, hstands⟩, hkept⟩)
        · exact ⟨rfl, .inl ⟨rfl, hstores⟩⟩
        · exact ⟨rfl, .inr ⟨hstands, fun h => hkept h.2⟩⟩
      · rintro ⟨rfl, ⟨-, hstores⟩ | ⟨hstands, hkept⟩⟩
        · exact .inl ⟨hstores, rfl⟩
        · exact .inr ⟨⟨rfl, hstands⟩, fun h => hkept ⟨rfl, h⟩⟩

theorem mem_rows_run (writes : List (Profile.Write × Bool)) :
    x ∈ (run empty writes T).rows ↔ Profile.Stands T x writes := by
  have hlookup := @lookup_run T x.key x writes
  rw [KeyedTable.lookup_eq_some_iff] at hlookup
  simpa using hlookup

end Records

namespace Profile

variable {R : Reals} {p : Profile} {t : Records} {w : Write}

def Holds (R : Reals) (p : Profile) (t : Records) : Prop := ∀ T, (p T).Holds R (t T)

theorem Holds.write (h : p.Holds R t) (hw : w.Storable) (succeeds : Bool) :
    Holds R (p.write R (w, succeeds)) (t.write (w, succeeds)) := by
  cases succeeds with
  | false => cases w <;> exact h
  | true =>
    cases w with
    | set T data => exact CellTable.holds_update h ((h T).replace hw)
    | store T data => exact CellTable.holds_update h ((h T).replace hw)
    | remove T query => exact CellTable.holds_update h ((h T).erase hw)
    | removeAll T => exact CellTable.holds_update h CellTable.holds_empty

theorem Holds.run (h : p.Holds R t) {writes : List (Write × Bool)}
    (hwrites : ∀ w ∈ writes, w.1.Storable) : Holds R (p.run R writes) (t.run writes) := by
  induction writes generalizing p t with
  | nil => exact h
  | cons w writes ih =>
    exact ih (h.write (hwrites w (.head _)) w.2) fun w' hw' => hwrites w' (.tail _ hw')

theorem holds_run (R : Reals) {writes : List (Write × Bool)}
    (h : ∀ w ∈ writes, w.1.Storable) : Holds R (run R empty writes) (Records.empty.run writes) :=
  Holds.run (fun _ => CellTable.holds_empty) h

theorem Holds.object (h : p.Holds R t) {T : ProfileType} {x : Row T.schema} (hx : x ∈ (t T).rows)
    (behind : String → Memory) : ((Cells.bind R x.data).object behind).Eqv x.data :=
  Cells.object_bind R behind ((h T).storable x hx)

theorem get_run (R : Reals) (writes : List (Write × Bool)) (h : ∀ w ∈ writes, w.1.Storable)
    (T : ProfileType) (behind : Cells T.schema.fields → String → Memory) (query : T.schema.Data)
    (hquery : query.StorableAt T.schema.primaryKeys) :
    (∀ x : Row T.schema, x.key = T.schema.key query → Stands T x writes →
      ∃ r, (run R empty writes).get R T behind query = .ok r ∧ r.Eqv x.data) ∧
    ((∀ x : Row T.schema, x.key = T.schema.key query → ¬ Stands T x writes) →
      (run R empty writes).get R T behind query = .error ()) ∧
    ∃ rows : List (Row T.schema), (rows.map Row.key).Nodup ∧ (∀ x, x ∈ rows ↔ Stands T x writes) ∧
      List.Forall₂ (fun (r : T.schema.Data) (x : Row T.schema) => r.Eqv x.data)
        ((run R empty writes).getAll T behind query) rows := by
  have hrun := holds_run R h
  have hlookup := (hrun T).lookup hquery
  refine ⟨fun x hx hstands => ?_, fun hnone => ?_,
    (Records.empty.run writes T).rows, KeyedTable.nodup_map_key _,
    fun x => Records.mem_rows_run writes, ?_⟩
  · rw [(Records.lookup_run writes).mpr ⟨hx, hstands⟩] at hlookup
    rw [get, hlookup]
    exact ⟨_, rfl, hrun.object ((Records.mem_rows_run writes).mpr hstands) _⟩
  · cases hfound : (Records.empty.run writes T).lookup (T.schema.key query) with
    | some x =>
      obtain ⟨hx, hstands⟩ := (Records.lookup_run writes).mp hfound
      exact absurd hstands (hnone x hx)
    | none =>
      rw [hfound] at hlookup
      rw [get, hlookup]
      rfl
  · rw [getAll, (hrun T).rows, List.map_map, List.forall₂_map_left_iff, List.forall₂_same]
    exact fun x hx => hrun.object hx _

def commissionOf (productId : Bytes) (openRatio : BitVec 64) : Types.commission.Data :=
  ((FieldType.chars 128).ofBytes productId, (FieldType.chars 16).ofBytes [83], (0 : BitVec 8),
    (0 : BitVec 8), openRatio, (0 : BitVec 64), (0 : BitVec 64), (0 : BitVec 64), ())

def rebar : Row Types.commission := ⟨commissionOf [114, 98] 7, by decide⟩

def dearRebar : Row Types.commission := ⟨commissionOf [114, 98] 9, by decide⟩

def gold : Row Types.commission := ⟨commissionOf [97, 117] 8, by decide⟩

def commission : ProfileType := ⟨.commission, by decide⟩

/-- The second write is answered with an exception; a NaN in a query is not looked at. -/
def commissions : List (Write × Bool) :=
  [(.set commission rebar, true), (.store commission dearRebar, false),
    (.store commission gold, true), (.remove commission (commissionOf [97, 117] (-1)), true)]

theorem get_run_commissions :
    (∃ r, (run default empty commissions).get default commission (fun _ _ _ => 7)
      (commissionOf [114, 98] (-1)) = .ok r ∧ Record.Eqv r rebar.data) ∧
    (run default empty commissions).get default commission (fun _ _ _ => 7)
      (commissionOf [97, 117] 0) = .error () := by
  have hstorable : ∀ w ∈ commissions, w.1.Storable := by
    simp only [commissions, List.forall_mem_cons]
    refine ⟨?_, ?_, ?_, ?_, by simp⟩
    · exact (by decide : rebar.data.Storable)
    · exact (by decide : dearRebar.data.Storable)
    · exact (by decide : gold.data.Storable)
    · exact (by decide : Record.StorableAt Types.commission.primaryKeys
        (commissionOf [97, 117] (-1)))
  have hrebar : Record.StorableAt Types.commission.primaryKeys (commissionOf [114, 98] (-1)) := by
    decide
  have hgold : Record.StorableAt Types.commission.primaryKeys (commissionOf [97, 117] 0) := by
    decide
  obtain ⟨hfound, -⟩ := get_run default commissions hstorable commission (fun _ _ _ => 7) _ hrebar
  obtain ⟨-, hnone, -⟩ := get_run default commissions hstorable commission (fun _ _ _ => 7) _ hgold
  refine ⟨hfound rebar (by decide) ?_, hnone fun x hx hstands => ?_⟩
  · refine ⟨[], _, _, rfl, ⟨rfl, .inl rfl⟩, ?_⟩
    simp only [List.forall_mem_cons]
    refine ⟨by simp, ?_, ?_, by simp⟩
    · exact fun h => absurd h.2.2 (by decide)
    · exact fun h => absurd h.2.2 (by decide)
  · have hlast : commissions = commissions.dropLast ++
        [(.remove commission (commissionOf [97, 117] (-1)), true)] := rfl
    rw [Stands, hlast, History.stands_concat] at hstands
    obtain ⟨-, h⟩ | ⟨-, h⟩ := hstands
    · simp [Write.Stores] at h
    · exact h ⟨rfl, rfl, hx.symm⟩

end Profile

end Kungfu.Yijinjing.Practice
