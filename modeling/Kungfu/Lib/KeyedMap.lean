import Mathlib.Data.Finset.Card
import Mathlib.Data.List.AList

universe u v w

namespace Kungfu.Lib.KeyedMap

abbrev Map (κ : Type u) (β : Type v) := AList (fun _ : κ => β)

section

variable {κ : Type u} {β : Type v} {α : Type w} [DecidableEq κ]
variable (construct : α → β) (assign : β → α → β)

def upsert : Option β → α → Option β
  | none, x => some (construct x)
  | some b, x => some (assign b x)

def insertOrAssign (m : Map κ β) (k : κ) (x : α) : Map κ β :=
  m.insert k ((m.lookup k).elim (construct x) (assign · x))

def feed (key : α → κ) (m : Map κ β) (xs : List α) : Map κ β :=
  xs.foldl (fun m x => insertOrAssign construct assign m (key x) x) m

variable {construct assign} {key : α → κ} {m : Map κ β} {k k' : κ}

@[simp] theorem lookup_insertOrAssign (x : α) :
    (insertOrAssign construct assign m k x).lookup k = upsert construct assign (m.lookup k) x := by
  rw [insertOrAssign, AList.lookup_insert]
  cases m.lookup k <;> rfl

theorem lookup_insertOrAssign_of_ne (h : k ≠ k') (x : α) :
    (insertOrAssign construct assign m k' x).lookup k = m.lookup k := by
  rw [insertOrAssign, AList.lookup_insert_ne h]

@[simp] theorem mem_insertOrAssign (x : α) :
    k ∈ insertOrAssign construct assign m k' x ↔ k = k' ∨ k ∈ m := AList.mem_insert m

@[simp] theorem feed_nil : feed construct assign key m [] = m := rfl

@[simp] theorem feed_cons (x : α) (xs : List α) :
    feed construct assign key m (x :: xs) =
      feed construct assign key (insertOrAssign construct assign m (key x) x) xs := rfl

theorem lookup_feed (xs : List α) :
    (feed construct assign key m xs).lookup k =
      (xs.filter (key · = k)).foldl (upsert construct assign) (m.lookup k) := by
  induction xs generalizing m with
  | nil => rfl
  | cons x xs ih =>
    rw [feed_cons, ih]
    by_cases h : key x = k
    · simp [h]
    · simp [h, lookup_insertOrAssign_of_ne (Ne.symm h)]

theorem mem_feed (xs : List α) :
    k ∈ feed construct assign key m xs ↔ k ∈ m ∨ k ∈ xs.map key := by
  induction xs generalizing m with
  | nil => simp
  | cons x xs ih =>
    rw [feed_cons, ih, mem_insertOrAssign, List.map_cons, List.mem_cons, or_assoc, or_left_comm]

theorem foldl_upsert_some (b : β) (xs : List α) :
    xs.foldl (upsert construct assign) (some b) = some (xs.foldl assign b) := by
  induction xs generalizing b with
  | nil => rfl
  | cons x xs ih => exact ih (assign b x)

theorem foldl_upsert_none_cons (x : α) (xs : List α) :
    (x :: xs).foldl (upsert construct assign) none = some (xs.foldl assign (construct x)) :=
  foldl_upsert_some (construct x) xs

theorem lookup_feed_last {before after : List α} {x : α} (hlast : ∀ y ∈ after, key y ≠ key x) :
    (feed construct assign key m (before ++ x :: after)).lookup (key x) =
      upsert construct assign ((feed construct assign key m before).lookup (key x)) x := by
  have hafter : after.filter (key · = key x) = [] :=
    List.filter_eq_nil_iff.mpr fun y hy => by simpa using hlast y hy
  rw [lookup_feed, lookup_feed, List.filter_append, List.filter_cons_of_pos (by simp), hafter,
    List.foldl_append]
  rfl

theorem lookup_insertOrAssign_induction {P : κ → β → Prop} {x : α}
    (init : ∀ k, ∀ b ∈ m.lookup k, P k b) (construct_P : P k' (construct x))
    (assign_P : ∀ b, P k' b → P k' (assign b x)) :
    ∀ k, ∀ b ∈ (insertOrAssign construct assign m k' x).lookup k, P k b := by
  intro k b hb
  by_cases h : k = k'
  · subst h
    rw [lookup_insertOrAssign] at hb
    cases hm : m.lookup k with
    | none =>
      simp only [hm, upsert, Option.mem_some] at hb
      exact hb ▸ construct_P
    | some b' =>
      simp only [hm, upsert, Option.mem_some] at hb
      exact hb ▸ assign_P b' (init k b' hm)
  · rw [lookup_insertOrAssign_of_ne h] at hb
    exact init k b hb

theorem lookup_feed_induction {P : κ → β → Prop} {xs : List α}
    (init : ∀ k, ∀ b ∈ m.lookup k, P k b)
    (construct_P : ∀ x ∈ xs, P (key x) (construct x))
    (assign_P : ∀ x ∈ xs, ∀ b, P (key x) b → P (key x) (assign b x)) :
    ∀ k, ∀ b ∈ (feed construct assign key m xs).lookup k, P k b := by
  induction xs generalizing m with
  | nil => exact init
  | cons x xs ih =>
    refine ih ?_ (fun y hy => construct_P y (.tail _ hy)) (fun y hy => assign_P y (.tail _ hy))
    exact lookup_insertOrAssign_induction init (construct_P x (.head _)) (assign_P x (.head _))

variable {ι : Type*} {identity : α → ι} {entryIdentity : β → ι} {hash : ι → κ} {xs : List α}

theorem identity_of_injOn (h : Set.InjOn hash {i | i ∈ xs.map identity})
    (hconstruct : ∀ x, entryIdentity (construct x) = identity x)
    (hassign : ∀ b x, entryIdentity b = identity x → entryIdentity (assign b x) = identity x)
    {b : β} (hb : b ∈ (feed construct assign (hash ∘ identity) ∅ xs).lookup k) :
    entryIdentity b ∈ xs.map identity ∧ hash (entryIdentity b) = k := by
  refine lookup_feed_induction
    (P := fun k b => entryIdentity b ∈ xs.map identity ∧ hash (entryIdentity b) = k)
    ?_ ?_ ?_ k b hb
  · intro k b hb
    rw [AList.lookup_empty] at hb
    cases hb
  · intro x hx
    rw [hconstruct]
    exact ⟨List.mem_map_of_mem hx, rfl⟩
  · rintro x hx b ⟨hmem, hkey⟩
    rw [hassign b x (h hmem (List.mem_map_of_mem hx) hkey)]
    exact ⟨List.mem_map_of_mem hx, rfl⟩

/-- Every identity that was fed has an entry of its own only without collisions. -/
theorem injOn_of_surjective (construct : α → β) (assign : β → α → β) (entryIdentity : β → ι)
    (h : ∀ i ∈ xs.map identity, ∃ k, ∃ b ∈ (feed construct assign (hash ∘ identity) ∅ xs).lookup k,
      entryIdentity b = i) :
    Set.InjOn hash {i | i ∈ xs.map identity} := by
  classical
  let fed := (xs.map identity).toFinset
  have hkeys : ∀ k, k ∈ feed construct assign (hash ∘ identity) ∅ xs ↔ k ∈ fed.image hash := by
    intro k
    rw [mem_feed, ← List.map_map]
    simp [fed, AList.notMem_empty]
  have hsurj : Set.SurjOn
      (fun k => ((feed construct assign (hash ∘ identity) ∅ xs).lookup k).map entryIdentity)
      (fed.image hash) (fed.image some) := by
    intro i hi
    obtain ⟨i, hfed, rfl⟩ := Finset.mem_image.mp hi
    obtain ⟨k, b, hb, rfl⟩ := h i (List.mem_toFinset.mp hfed)
    refine ⟨k, (hkeys k).mp ?_, congrArg (Option.map entryIdentity) hb⟩
    exact AList.lookup_isSome.mp (Option.isSome_of_mem hb)
  -- there are no more entries than hashes, and they cover the identities
  have hle : fed.card ≤ (fed.image hash).card := by
    rw [← Finset.card_image_of_injective fed (Option.some_injective ι)]
    exact Finset.card_le_card_of_surjOn _ hsurj
  have hinj := Finset.card_image_iff.mp (Nat.le_antisymm Finset.card_image_le hle)
  simpa [fed] using hinj

end

end Kungfu.Lib.KeyedMap
