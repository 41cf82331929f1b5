import Kungfu.Lib.CString
import Kungfu.Lib.KeyedMap

universe u v w

namespace Kungfu.Lib

/-- What is left of the old value after an assignment depends on what is assigned only through
the part that it covers. -/
structure Overwriting {β : Type v} {α : Type w} (assign : β → α → β) : Prop where
  idem : ∀ b x, assign (assign b x) x = assign b x
  congr : ∀ {b b' x} y, assign b x = assign b' x → assign (assign b y) x = assign (assign b' y) x

namespace Overwriting

variable {β : Type v} {α : Type w} {assign : β → α → β} (h : Overwriting assign)
include h

theorem foldl_congr {b b' : β} {x : α} (hb : assign b x = assign b' x) (ys : List α) :
    assign (ys.foldl assign b) x = assign (ys.foldl assign b') x := by
  induction ys generalizing b b' with
  | nil => exact hb
  | cons y ys ih => exact ih (h.congr y hb)

theorem foldl_eq_of_mem {b b' : β} {x : α} {xs : List α} (hx : x ∈ xs)
    (hb : assign b x = assign b' x) : xs.foldl assign b = xs.foldl assign b' := by
  obtain ⟨ys, zs, rfl⟩ := List.append_of_mem hx
  rw [List.foldl_append, List.foldl_append, List.foldl_cons, List.foldl_cons, h.foldl_congr hb]

theorem foldl_foldl {ys xs : List α} (hsub : ys ⊆ xs) (b : β) :
    xs.foldl assign (ys.foldl assign b) = xs.foldl assign b := by
  induction ys generalizing b with
  | nil => rfl
  | cons y ys ih =>
    obtain ⟨hy, hsub⟩ := List.cons_subset.mp hsub
    rw [List.foldl_cons, ih hsub]
    exact h.foldl_eq_of_mem hy (h.idem b y)

end Overwriting

namespace CString

variable {α : Type u} [Zero α] [DecidableEq α]

theorem drop_assign_strlen (b x : List α) : (assign b x).drop (strlen x) = b.drop (strlen x) :=
  List.drop_left' rfl

theorem assign_eq_assign_iff {b b' x : List α} :
    assign b x = assign b' x ↔ b.drop (strlen x) = b'.drop (strlen x) := List.append_right_inj _

theorem overwriting_assign : Overwriting (assign (α := α)) where
  idem b x := assign_eq_assign_iff.mpr (drop_assign_strlen b x)
  congr {b b' x} y h := by
    rw [assign_eq_assign_iff] at h ⊢
    rw [assign, assign, overwrite, overwrite, List.drop_append, List.drop_append, List.drop_drop,
      List.drop_drop]
    congr 1
    -- what is left of the two behind both texts is the same
    obtain ⟨n, hn⟩ : ∃ n, (text y).length + (strlen x - (text y).length) = strlen x + n :=
      ⟨(text y).length - strlen x, by omega⟩
    rw [hn, ← List.drop_drop, ← List.drop_drop, h]

end CString

namespace KeyedMap

variable {κ : Type u} {β : Type v} {α : Type w} [DecidableEq κ]

def alter (m : Map κ β) (k : κ) (f : β → β) : Map κ β :=
  (m.lookup k).elim m fun b => m.insert k (f b)

theorem lookup_alter (m : Map κ β) (k : κ) (f : β → β) :
    (alter m k f).lookup k = (m.lookup k).map f := by
  rw [alter]
  cases hm : m.lookup k with
  | none => exact hm
  | some b => exact AList.lookup_insert m

theorem lookup_alter_of_ne {k k' : κ} (h : k ≠ k') (m : Map κ β) (f : β → β) :
    (alter m k' f).lookup k = m.lookup k := by
  rw [alter]
  cases m.lookup k' with
  | none => rfl
  | some b => exact AList.lookup_insert_ne h

variable {construct : α → β} {assign : β → α → β} {key : α → κ} {m m' : Map κ β} {xs ys : List α}

/-- Two maps that the list fills alike. -/
def FedAlike (construct : α → β) (assign : β → α → β) (key : α → κ) (xs : List α)
    (m m' : Map κ β) : Prop :=
  ∀ k, (feed construct assign key m xs).lookup k = (feed construct assign key m' xs).lookup k

variable (h : Overwriting assign) (hself : ∀ x, assign (construct x) x = construct x)
include h

theorem fedAlike_alter {x : α} (hx : x ∈ xs) {f : β → β} (hf : ∀ b, assign (f b) x = assign b x) :
    FedAlike construct assign key xs (alter m (key x) f) m := by
  intro k
  rw [lookup_feed, lookup_feed]
  by_cases hk : k = key x
  · subst hk
    rw [lookup_alter]
    cases m.lookup (key x) with
    | none => rfl
    | some b =>
      have hmem : x ∈ xs.filter (key · = key x) := List.mem_filter.mpr ⟨hx, by simp⟩
      rw [Option.map_some, foldl_upsert_some, foldl_upsert_some, h.foldl_eq_of_mem hmem (hf b)]
  · rw [lookup_alter_of_ne hk]

include hself

theorem fedAlike_feed (hys : ys <+: xs) :
    FedAlike construct assign key xs (feed construct assign key m ys) m := by
  intro k
  rw [lookup_feed, lookup_feed, lookup_feed]
  have hprefix : ys.filter (key · = k) <+: xs.filter (key · = k) := hys.filter _
  cases m.lookup k with
  | some b =>
    rw [foldl_upsert_some, foldl_upsert_some, foldl_upsert_some, h.foldl_foldl hprefix.subset]
  | none =>
    cases hy : ys.filter (key · = k) with
    | nil => rfl
    | cons y zs =>
      rw [hy] at hprefix
      obtain ⟨rest, hrest⟩ := hprefix
      have hsub : zs ⊆ y :: (zs ++ rest) := fun x hx => by simp [hx]
      rw [← hrest, List.cons_append, foldl_upsert_none_cons, foldl_upsert_some,
        foldl_upsert_none_cons, h.foldl_foldl hsub, List.foldl_cons, hself]

end KeyedMap

end Kungfu.Lib
