import Mathlib.Data.List.Forall2

universe u

namespace Kungfu.Lib.Traverse

variable {ε α β : Type u} {f : α → Except ε β} {xs : List α}

theorem mapM_cons_of_error {x : α} {e : ε} (h : f x = .error e) : (x :: xs).mapM f = .error e := by
  rw [List.mapM_cons, h]
  rfl

theorem mapM_cons_of_ok {x : α} {y : β} (h : f x = .ok y) :
    (x :: xs).mapM f = (xs.mapM f).map (y :: ·) := by
  rw [List.mapM_cons, h]
  cases xs.mapM f <;> rfl

theorem mapM_eq_ok_iff {ys : List β} :
    xs.mapM f = .ok ys ↔ List.Forall₂ (fun x y => f x = .ok y) xs ys := by
  induction xs generalizing ys with
  | nil => cases ys <;> simp [pure, Except.pure]
  | cons x xs ih =>
    cases hx : f x with
    | error e =>
      rw [mapM_cons_of_error hx]
      cases ys <;> simp [hx]
    | ok y =>
      rw [mapM_cons_of_ok hx]
      cases hxs : xs.mapM f with
      | error e => cases ys <;> simp [Except.map, ← ih, hxs]
      | ok ys' => cases ys <;> simp [Except.map, ← ih, hxs, hx]

theorem exists_of_mapM_eq_error {e : ε} (h : xs.mapM f = .error e) :
    ∃ before x after, xs = before ++ x :: after ∧ f x = .error e ∧
      ∀ z ∈ before, ∃ y, f z = .ok y := by
  induction xs with
  | nil => cases h
  | cons x xs ih =>
    cases hx : f x with
    | error e' =>
      rw [mapM_cons_of_error hx] at h
      cases h
      exact ⟨[], x, xs, rfl, hx, by simp⟩
    | ok y =>
      rw [mapM_cons_of_ok hx] at h
      cases hxs : xs.mapM f with
      | error e' =>
        rw [hxs] at h
        cases h
        obtain ⟨before, z, after, rfl, hz, hbefore⟩ := ih hxs
        refine ⟨x :: before, z, after, rfl, hz, fun w hw => ?_⟩
        rcases List.mem_cons.mp hw with rfl | hw
        · exact ⟨y, hx⟩
        · exact hbefore w hw
      | ok ys =>
        rw [hxs] at h
        cases h

theorem mapM_eq_error {before after : List α} {x : α} {e : ε} (hx : f x = .error e)
    (h : ∀ z ∈ before, f z = .error e ∨ ∃ y, f z = .ok y) :
    (before ++ x :: after).mapM f = .error e := by
  induction before with
  | nil => exact mapM_cons_of_error hx
  | cons z before ih =>
    rcases h z (.head _) with hz | ⟨y, hz⟩
    · exact mapM_cons_of_error hz
    · rw [List.cons_append, mapM_cons_of_ok hz, ih fun w hw => h w (.tail _ hw)]
      rfl

theorem exists_mapM {g : α → Option β} {R : α → β → Prop}
    (h : ∀ x ∈ xs, ∃ y, g x = some y ∧ R x y) :
    ∃ ys, xs.mapM g = some ys ∧ List.Forall₂ R xs ys := by
  induction xs with
  | nil => exact ⟨[], rfl, .nil⟩
  | cons x xs ih =>
    obtain ⟨y, hy, hR⟩ := h x (.head _)
    obtain ⟨ys, hys, hRs⟩ := ih fun z hz => h z (.tail _ hz)
    exact ⟨y :: ys, by simp [hy, hys], .cons hR hRs⟩

end Kungfu.Lib.Traverse
