import Mathlib.Data.List.Basic

namespace Kungfu.Lib

variable {σ α β : Type*}

abbrev Reader (σ α : Type*) := List σ → Option (α × List σ)

namespace Reader

/-- `w` is read as `a`, whatever follows it, and is not read when its end is cut off. -/
structure Delimits (f : Reader σ α) (w : List σ) (a : α) : Prop where
  reads : ∀ rest, f (w ++ rest) = some (a, rest)
  cut : ∀ k < w.length, f (w.take k) = none

def Delimiting (f : Reader σ α) : Prop :=
  ∀ ⦃s a rest⦄, f s = some (a, rest) → ∃ w, s = w ++ rest ∧ f.Delimits w a

def bind (f : Reader σ α) (g : α → Reader σ β) : Reader σ β :=
  fun s => (f s).bind fun x => g x.1 x.2

def next (g : σ → Reader σ α) : Reader σ α
  | [] => none
  | c :: s => g c s

variable {f : Reader σ α} {a : α} {b : β}

theorem Delimits.bind {g : α → Reader σ β} {v w : List σ} (hf : f.Delimits v a)
    (hg : (g a).Delimits w b) : (f.bind g).Delimits (v ++ w) b where
  reads rest := by
    rw [List.append_assoc, Reader.bind, hf.reads, Option.bind_some, hg.reads]
  cut k hk := by
    rw [List.take_append, Reader.bind]
    by_cases hv : k < v.length
    · have hzero : k - v.length = 0 := by omega
      rw [hzero, List.take_zero, List.append_nil, hf.cut k hv, Option.bind_none]
    · rw [List.length_append] at hk
      rw [List.take_of_length_le (by omega), hf.reads, Option.bind_some]
      exact hg.cut _ (by omega)

theorem Delimits.next {g : σ → Reader σ α} {c : σ} {w : List σ} (h : (g c).Delimits w a) :
    (next g).Delimits (c :: w) a where
  reads rest := h.reads rest
  cut k hk := by
    cases k with
    | zero => rfl
    | succ k => exact h.cut k (Nat.lt_of_succ_lt_succ hk)

theorem delimits_nil (a : α) : Delimits (fun s => some (a, s)) ([] : List σ) a where
  reads _ := rfl
  cut k hk := absurd hk (Nat.not_lt_zero k)

theorem delimiting_some (a : α) : Delimiting fun s : List σ => some (a, s) := by
  intro s a' rest h
  cases h
  exact ⟨[], rfl, delimits_nil a⟩

theorem delimiting_none : Delimiting fun _ : List σ => (none : Option (α × List σ)) := by
  intro s a rest h
  cases h

theorem Delimiting.bind {g : α → Reader σ β} (hf : Delimiting f) (hg : ∀ a, Delimiting (g a)) :
    Delimiting (f.bind g) := by
  intro s b rest h
  obtain ⟨⟨a, s'⟩, hs, hrest⟩ := Option.bind_eq_some_iff.mp h
  obtain ⟨v, rfl, hv⟩ := hf hs
  obtain ⟨w, rfl, hw⟩ := hg a hrest
  exact ⟨v ++ w, (List.append_assoc ..).symm, hv.bind hw⟩

theorem Delimiting.next {g : σ → Reader σ α} (h : ∀ c, Delimiting (g c)) :
    Delimiting (Reader.next g) := by
  intro s a rest hs
  cases s with
  | nil => cases hs
  | cons c s =>
    obtain ⟨w, rfl, hw⟩ := h c hs
    exact ⟨c :: w, rfl, hw.next⟩

theorem Delimiting.ite {p : Prop} [Decidable p] {g : Reader σ α} (hf : Delimiting f)
    (hg : Delimiting g) : Delimiting fun s => if p then f s else g s := by
  by_cases hp : p
  · simp only [if_pos hp]
    exact hf
  · simp only [if_neg hp]
    exact hg

def orNone {ε : Type*} (f : List σ → Except ε (α × List σ)) : Reader σ α :=
  fun s => (f s).toOption

end Reader

end Kungfu.Lib
