import Mathlib.Data.List.Induction

universe u

namespace Kungfu.Lib.History

variable {α : Type u} {sets voids : α → Prop} {l : List α} {a : α}

/-- Some event sets it, and no later event makes it void. -/
def Stands (sets voids : α → Prop) (l : List α) : Prop :=
  ∃ before a after, l = before ++ a :: after ∧ sets a ∧ ∀ b ∈ after, ¬ voids b

theorem not_stands_nil : ¬ Stands sets voids [] := by
  rintro ⟨before, a, after, h, -⟩
  exact List.append_ne_nil_of_right_ne_nil before (List.cons_ne_nil a after) h.symm

theorem stands_concat :
    Stands sets voids (l ++ [a]) ↔ sets a ∨ Stands sets voids l ∧ ¬ voids a := by
  constructor
  · rintro ⟨before, b, after, heq, hb, hafter⟩
    obtain rfl | ⟨after, c, rfl⟩ := List.eq_nil_or_concat after
    · obtain ⟨-, hab⟩ := List.append_inj' heq rfl
      exact .inl (List.head_eq_of_cons_eq hab ▸ hb)
    · rw [List.concat_eq_append] at heq hafter
      rw [← List.cons_append, ← List.append_assoc] at heq
      obtain ⟨rfl, hac⟩ := List.append_inj' heq rfl
      obtain rfl := List.head_eq_of_cons_eq hac
      refine .inr ⟨⟨before, b, after, rfl, hb, fun c hc => ?_⟩, ?_⟩
      · exact hafter c (List.mem_append_left _ hc)
      · exact hafter a (List.mem_append_right _ (.head _))
  · rintro (ha | ⟨⟨before, b, after, rfl, hb, hafter⟩, ha⟩)
    · exact ⟨l, a, [], rfl, ha, fun b hb => absurd hb List.not_mem_nil⟩
    · refine ⟨before, b, after ++ [a], by simp, hb, fun c hc => ?_⟩
      obtain hc | hc := List.mem_append.mp hc
      · exact hafter c hc
      · exact List.mem_singleton.mp hc ▸ ha

end Kungfu.Lib.History
