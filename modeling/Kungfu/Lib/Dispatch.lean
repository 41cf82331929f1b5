import Mathlib.Data.List.Basic

universe u v w

namespace Kungfu.Lib.Dispatch

variable {α : Type u} {τ : Type v} {β : Type w} [DecidableEq τ]

def dispatch (handlers : List α) (tag : α → τ) (t : τ) (handle : α → β → Option β) (b : β) :
    Option β :=
  handlers.foldlM (fun b a => if tag a = t then handle a b else some b) b

variable {handlers : List α} {tag : α → τ} {t : τ} {handle : α → β → Option β}

theorem dispatch_cons_of_ne {a : α} (h : tag a ≠ t) (b : β) :
    dispatch (a :: handlers) tag t handle b = dispatch handlers tag t handle b := by
  rw [dispatch, List.foldlM_cons, if_neg h]
  rfl

theorem dispatch_cons_of_eq {a : α} (h : tag a = t) (b : β) :
    dispatch (a :: handlers) tag t handle b =
      (handle a b).bind (dispatch handlers tag t handle) := by
  rw [dispatch, List.foldlM_cons, if_pos h]
  rfl

theorem dispatch_of_forall_ne (h : ∀ a ∈ handlers, tag a ≠ t) (b : β) :
    dispatch handlers tag t handle b = some b := by
  induction handlers with
  | nil => rfl
  | cons a handlers ih =>
    rw [dispatch_cons_of_ne (h a (.head _))]
    exact ih fun a' ha' => h a' (.tail _ ha')

theorem dispatch_of_mem (hnodup : (handlers.map tag).Nodup) {a : α} (h : a ∈ handlers) (b : β) :
    dispatch handlers tag (tag a) handle b = handle a b := by
  induction handlers with
  | nil => cases h
  | cons a' handlers ih =>
    obtain ⟨hnotMem, hnodup⟩ := List.nodup_cons.mp hnodup
    obtain rfl | h := List.mem_cons.mp h
    · have hrest : dispatch handlers tag (tag a) handle = some := by
        funext b
        refine dispatch_of_forall_ne (fun a' ha' htag => hnotMem ?_) b
        exact htag ▸ List.mem_map_of_mem ha'
      rw [dispatch_cons_of_eq rfl, hrest, Option.bind_fun_some]
    · rw [dispatch_cons_of_ne, ih hnodup h]
      exact fun htag => hnotMem (htag ▸ List.mem_map_of_mem h)

end Kungfu.Lib.Dispatch
