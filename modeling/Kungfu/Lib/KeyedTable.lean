import Mathlib.Data.List.AList

universe u v

namespace Kungfu.Lib

/-- At most one row for every key, in some order. -/
structure KeyedTable {α : Type u} {κ : Type v} (key : α → κ) where
  entries : AList fun _ : κ => α
  keyed : ∀ e ∈ entries.entries, key e.2 = e.1

namespace KeyedTable

variable {α : Type u} {κ : Type v} {key : α → κ}

def empty : KeyedTable key where
  entries := ∅
  keyed _ h := nomatch h

def rows (t : KeyedTable key) : List α := t.entries.entries.map Sigma.snd

@[simp] theorem rows_empty : (empty : KeyedTable key).rows = [] := rfl

theorem map_key_rows (t : KeyedTable key) : t.rows.map key = t.entries.keys := by
  rw [rows, List.map_map]
  exact List.map_congr_left fun e he => t.keyed e he

theorem nodup_map_key (t : KeyedTable key) : (t.rows.map key).Nodup :=
  t.map_key_rows ▸ t.entries.keys_nodup

theorem nodup_rows (t : KeyedTable key) : t.rows.Nodup := t.nodup_map_key.of_map

theorem mem_rows_iff {t : KeyedTable key} {x : α} :
    x ∈ t.rows ↔ ⟨key x, x⟩ ∈ t.entries.entries := by
  constructor
  · intro h
    obtain ⟨e, he, rfl⟩ := List.mem_map.mp h
    rwa [t.keyed e he]
  · intro h
    exact List.mem_map.mpr ⟨_, h, rfl⟩

variable [DecidableEq κ]

def replace (t : KeyedTable key) (x : α) : KeyedTable key where
  entries := t.entries.insert (key x) x
  keyed e he := by
    rw [AList.entries_insert] at he
    obtain rfl | he := List.mem_cons.mp he
    · rfl
    · exact t.keyed e ((List.kerase_sublist _ _).subset he)

theorem mem_rows_replace {t : KeyedTable key} {x y : α} :
    y ∈ (t.replace x).rows ↔ y = x ∨ y ∈ t.rows ∧ key y ≠ key x := by
  rw [mem_rows_iff, mem_rows_iff, ← AList.mem_lookup_iff, ← AList.mem_lookup_iff]
  by_cases h : key y = key x
  · rw [replace, h, AList.lookup_insert]
    simp [eq_comm]
  · have hne : y ≠ x := fun hxy => h (congrArg key hxy)
    rw [replace, AList.lookup_insert_ne h]
    simp [h, hne]

theorem map_kerase {l : List (Sigma fun _ : κ => α)} (hkeys : l.NodupKeys)
    (hkeyed : ∀ e ∈ l, key e.2 = e.1) (k : κ) :
    (l.kerase k).map Sigma.snd = (l.map Sigma.snd).filter (key · ≠ k) := by
  induction l with
  | nil => rfl
  | cons e l ih =>
    obtain ⟨hnew, hrest⟩ := List.nodupKeys_cons.mp hkeys
    have hl := fun e' he' => hkeyed e' (List.mem_cons_of_mem e he')
    by_cases h : e.1 = k
    · subst h
      rw [List.kerase_cons_eq rfl, List.map_cons, List.filter_cons_of_neg (by simp [hkeyed e]),
        List.filter_eq_self.mpr]
      intro x hx
      obtain ⟨e', he', rfl⟩ := List.mem_map.mp hx
      rw [decide_eq_true_eq, hl e' he']
      exact fun heq => hnew (heq ▸ List.mem_keys_of_mem he')
    · rw [List.kerase_cons_ne (Ne.symm h), List.map_cons, List.map_cons,
        List.filter_cons_of_pos (by simpa [hkeyed e] using h), ih hrest hl]

theorem rows_replace (t : KeyedTable key) (x : α) :
    (t.replace x).rows = x :: t.rows.filter (key · ≠ key x) := by
  rw [rows, replace, AList.entries_insert, List.map_cons, rows,
    map_kerase t.entries.nodupKeys t.keyed]

theorem rows_replace_map {β : Type*} {κ' : Type*} [DecidableEq κ'] {key' : β → κ'} {f : α → β}
    {t : KeyedTable key} {t' : KeyedTable key'} (h : t'.rows = t.rows.map f) {x : α}
    (hkey : ∀ y ∈ t.rows, key' (f y) = key' (f x) ↔ key y = key x) :
    (t'.replace (f x)).rows = (t.replace x).rows.map f := by
  rw [rows_replace, rows_replace, h, List.map_cons, List.filter_map]
  congr 2
  apply List.filter_congr
  intro y hy
  rw [Function.comp_apply, decide_eq_decide]
  exact not_congr (hkey y hy)

theorem mem_keys_replace {t : KeyedTable key} {x : α} {k : κ} :
    k ∈ (t.replace x).rows.map key ↔ k = key x ∨ k ∈ t.rows.map key := by
  rw [map_key_rows, map_key_rows, ← AList.mem_keys, ← AList.mem_keys]
  exact AList.mem_insert _

def lookup (t : KeyedTable key) (k : κ) : Option α := t.entries.lookup k

def erase (t : KeyedTable key) (k : κ) : KeyedTable key where
  entries := t.entries.erase k
  keyed e he := t.keyed e ((List.kerase_sublist _ _).subset he)

@[simp] theorem lookup_empty (k : κ) : (empty : KeyedTable key).lookup k = none :=
  AList.lookup_empty k

theorem lookup_eq_some_iff {t : KeyedTable key} {k : κ} {x : α} :
    t.lookup k = some x ↔ x ∈ t.rows ∧ key x = k := by
  rw [lookup, ← Option.mem_def, AList.mem_lookup_iff]
  constructor
  · intro h
    have hkey : key x = k := t.keyed _ h
    subst hkey
    exact ⟨mem_rows_iff.mpr h, rfl⟩
  · rintro ⟨h, rfl⟩
    exact mem_rows_iff.mp h

theorem rows_erase (t : KeyedTable key) (k : κ) : (t.erase k).rows = t.rows.filter (key · ≠ k) := by
  have herase : (t.entries.erase k).entries = t.entries.entries.kerase k := rfl
  rw [rows, erase, herase, rows, map_kerase t.entries.nodupKeys t.keyed]

section

variable {β : Type*} {κ' : Type*} [DecidableEq κ'] {key' : β → κ'} {f : α → β}
  {t : KeyedTable key} {t' : KeyedTable key'} {k : κ} {k' : κ'}

theorem rows_erase_map (h : t'.rows = t.rows.map f)
    (hkey : ∀ y ∈ t.rows, key' (f y) = k' ↔ key y = k) :
    (t'.erase k').rows = (t.erase k).rows.map f := by
  rw [rows_erase, rows_erase, h, List.filter_map]
  congr 1
  apply List.filter_congr
  intro y hy
  rw [Function.comp_apply, decide_eq_decide]
  exact not_congr (hkey y hy)

theorem lookup_map (h : t'.rows = t.rows.map f)
    (hkey : ∀ y ∈ t.rows, key' (f y) = k' ↔ key y = k) :
    t'.lookup k' = (t.lookup k).map f := by
  ext y
  simp only [lookup_eq_some_iff, Option.map_eq_some_iff, h, List.mem_map]
  constructor
  · rintro ⟨⟨x, hx, rfl⟩, hk⟩
    exact ⟨x, ⟨hx, (hkey x hx).mp hk⟩, rfl⟩
  · rintro ⟨x, ⟨hx, hk⟩, rfl⟩
    exact ⟨⟨x, hx, rfl⟩, (hkey x hx).mpr hk⟩

end

theorem lookup_replace (t : KeyedTable key) (x : α) (k : κ) :
    (t.replace x).lookup k = if k = key x then some x else t.lookup k := by
  split
  next h => exact h ▸ AList.lookup_insert _
  next h => exact AList.lookup_insert_ne h

theorem lookup_erase (t : KeyedTable key) (k k' : κ) :
    (t.erase k').lookup k = if k = k' then none else t.lookup k := by
  split
  next h => exact h ▸ AList.lookup_erase ..
  next h => exact AList.lookup_erase_ne h

def ofList (xs : List α) : KeyedTable key := xs.foldl replace empty

theorem mem_keys_ofList {xs : List α} {k : κ} :
    k ∈ (ofList xs : KeyedTable key).rows.map key ↔ k ∈ xs.map key := by
  have general (t : KeyedTable key) :
      k ∈ (xs.foldl replace t).rows.map key ↔ k ∈ t.rows.map key ∨ k ∈ xs.map key := by
    induction xs generalizing t with
    | nil => simp
    | cons x xs ih =>
      rw [List.foldl_cons, ih, mem_keys_replace, List.map_cons, List.mem_cons, or_assoc,
        or_left_comm]
  rw [ofList, general]
  simp

end KeyedTable

end Kungfu.Lib
