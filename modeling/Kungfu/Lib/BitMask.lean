import Mathlib.Data.Nat.Bitwise
import Mathlib.Data.Nat.ModEq
import Mathlib.Data.Nat.Size

namespace Kungfu.Lib.BitMask

def spread (m i : Nat) : Nat := m ||| m >>> i

def Window (m n w : Nat) : Prop :=
  ∀ i, n.testBit i = true ↔ ∃ j, i ≤ j ∧ j < i + w ∧ m.testBit j = true

theorem window_self (m : Nat) : Window m m 1 := by
  intro i
  constructor
  · intro h
    exact ⟨i, Nat.le_refl i, Nat.lt_succ_self i, h⟩
  · rintro ⟨j, hij, hji, h⟩
    rwa [Nat.le_antisymm hij (Nat.lt_succ_iff.mp hji)]

theorem Window.spread {m n w : Nat} (h : Window m n w) : Window m (spread n w) (w + w) := by
  intro i
  rw [BitMask.spread, Nat.testBit_or, Nat.testBit_shiftRight, Bool.or_eq_true, h i, h (w + i)]
  constructor
  · rintro (⟨j, hij, hji, hj⟩ | ⟨j, hij, hji, hj⟩)
    · exact ⟨j, hij, by omega, hj⟩
    · exact ⟨j, by omega, by omega, hj⟩
  · rintro ⟨j, hij, hji, hj⟩
    by_cases hlt : j < i + w
    · exact .inl ⟨j, hij, hlt, hj⟩
    · exact .inr ⟨j, by omega, by omega, hj⟩

def fill (rounds m : Nat) : Nat := ((List.range rounds).map (2 ^ ·)).foldl spread m

theorem window_fill (rounds m : Nat) : Window m (fill rounds m) (2 ^ rounds) := by
  induction rounds with
  | zero => exact window_self m
  | succ rounds ih =>
    rw [fill, List.range_succ, List.map_append, List.foldl_append, Nat.pow_succ, Nat.mul_two]
    exact ih.spread

theorem Window.eq_size {m n w : Nat} (h : Window m n w) (hm : m < 2 ^ w) :
    n = 2 ^ m.size - 1 := by
  have hbits : ∀ i, n.testBit i = true ↔ 2 ^ i ≤ m := by
    intro i
    rw [h i]
    constructor
    · rintro ⟨j, hij, -, hj⟩
      exact (Nat.pow_le_pow_right (by decide) hij).trans (Nat.ge_two_pow_of_testBit hj)
    · intro hi
      obtain ⟨j, hij, hj⟩ := Nat.exists_ge_and_testBit_of_ge_two_pow hi
      have hjw : j < w := by
        by_contra hjw
        have := Nat.ge_two_pow_of_testBit hj
        have := Nat.pow_le_pow_right (n := 2) (by decide) (Nat.le_of_not_lt hjw)
        omega
      exact ⟨j, hij, by omega, hj⟩
  apply Nat.eq_of_testBit_eq
  intro i
  rw [Nat.testBit_two_pow_sub_one, Bool.eq_iff_iff, hbits, decide_eq_true_eq, Nat.lt_size]

theorem mod_ne_of_lt {i j n : Nat} (hij : i < j) (hj : j < i + n) : i % n ≠ j % n := by
  intro h
  have hdvd : n ∣ j - i := (Nat.modEq_iff_dvd' (Nat.le_of_lt hij)).mp h
  have := Nat.le_of_dvd (by omega) hdvd
  omega

theorem forall_mod_lt_iff {a s n : Nat} (h : s < n) :
    (∀ k < s, (a + k) % n < s) ↔ s = 0 ∨ a % n = 0 := by
  constructor
  · intro hfront
    by_contra hne
    rw [not_or] at hne
    by_cases hlt : a % n < s
    · have hlast := hfront (s - a % n) (by omega)
      rw [← Nat.mod_add_mod, Nat.add_sub_cancel' hlt.le, Nat.mod_eq_of_lt h] at hlast
      exact Nat.lt_irrefl s hlast
    · exact hlt (hfront 0 (Nat.pos_of_ne_zero hne.1))
  · rintro (rfl | hzero) k hk
    · cases hk
    · rw [← Nat.mod_add_mod, hzero, Nat.zero_add]
      exact Nat.lt_of_le_of_lt (Nat.mod_le ..) hk

end Kungfu.Lib.BitMask
