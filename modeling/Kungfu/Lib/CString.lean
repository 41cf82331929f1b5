import Mathlib.Data.List.TakeWhile
import Mathlib.Algebra.Notation.Defs

universe u

namespace Kungfu.Lib.CString

variable {α : Type u} [Zero α] [DecidableEq α]

def text (b : List α) : List α := b.takeWhile (· ≠ 0)

def strlen (b : List α) : Nat := (text b).length

def Terminated (b : List α) : Prop := 0 ∈ b

instance (b : List α) : Decidable (Terminated b) := inferInstanceAs (Decidable (0 ∈ b))

def overwrite (dst src : List α) : List α := src ++ dst.drop src.length

/-- The copy that stops in front of the terminator and does not write one. -/
def assign (dst src : List α) : List α := overwrite dst (text src)

def Clear (b : List α) (p : Nat) : Prop := ∀ c ∈ b[p]?, c = 0

instance (b : List α) (p : Nat) : Decidable (Clear b p) :=
  inferInstanceAs (Decidable (∀ c ∈ b[p]?, c = 0))

@[simp] theorem text_nil : text ([] : List α) = [] := rfl

theorem text_cons (c : α) (b : List α) : text (c :: b) = if c = 0 then [] else c :: text b := by
  by_cases h : c = 0 <;> simp [text, h]

theorem zero_notMem_text (b : List α) : 0 ∉ text b := by
  intro h
  simpa using List.mem_takeWhile_imp h

theorem text_eq_self {s : List α} (h : 0 ∉ s) : text s = s := by
  induction s with
  | nil => rfl
  | cons c s ih =>
    rw [List.mem_cons, not_or] at h
    rw [text_cons, if_neg (Ne.symm h.1), ih h.2]

@[simp] theorem text_text (b : List α) : text (text b) = text b :=
  text_eq_self (zero_notMem_text b)

theorem text_append {s : List α} (h : 0 ∉ s) (b : List α) : text (s ++ b) = s ++ text b := by
  induction s with
  | nil => rfl
  | cons c s ih =>
    rw [List.mem_cons, not_or] at h
    rw [List.cons_append, text_cons, if_neg (Ne.symm h.1), ih h.2, List.cons_append]

theorem text_append_of_terminated {b : List α} (h : Terminated b) (c : List α) :
    text (b ++ c) = text b := by
  induction b with
  | nil => cases h
  | cons x b ih =>
    rw [List.cons_append, text_cons, text_cons]
    split
    next => rfl
    next hx => rw [ih ((List.mem_cons.mp h).resolve_left (Ne.symm hx))]

theorem text_eq_nil_iff (b : List α) : text b = [] ↔ Clear b 0 := by
  cases b with
  | nil => simp [Clear]
  | cons c b => simp [text_cons, Clear]

theorem strlen_le_length (b : List α) : strlen b ≤ b.length := by
  simpa [strlen, text] using (b.takeWhile_prefix (· ≠ 0)).length_le

theorem strlen_lt_length {b : List α} (h : Terminated b) : strlen b < b.length := by
  refine lt_of_le_of_ne (strlen_le_length b) fun heq => ?_
  have hself : text b = b := (b.takeWhile_prefix (· ≠ 0)).eq_of_length heq
  exact zero_notMem_text b (hself.symm ▸ h)

omit [Zero α] [DecidableEq α] in
theorem length_overwrite {dst src : List α} (h : src.length ≤ dst.length) :
    (overwrite dst src).length = dst.length := by
  simp [overwrite]; omega

theorem length_assign {dst src : List α} (h : src.length = dst.length) :
    (assign dst src).length = dst.length :=
  length_overwrite (h ▸ strlen_le_length src)

theorem assign_eq_self {dst src : List α} (h : text dst = text src) : assign dst src = dst := by
  rw [assign, ← h]
  exact (List.prefix_iff_eq_append.mp (List.takeWhile_prefix _))

theorem text_assign (dst src : List α) :
    text (assign dst src) = text src ++ text (dst.drop (strlen src)) :=
  text_append (zero_notMem_text src) _

omit [DecidableEq α] in
theorem clear_drop (b : List α) (n p : Nat) : Clear (b.drop n) p ↔ Clear b (n + p) := by
  simp [Clear, List.getElem?_drop]

theorem text_assign_eq_iff (dst src : List α) :
    text (assign dst src) = text src ↔ Clear dst (strlen src) := by
  rw [text_assign, List.append_right_eq_self, text_eq_nil_iff, clear_drop, Nat.add_zero]

theorem not_clear_of_lt_strlen {b : List α} {p : Nat} (h : p < strlen b) : ¬ Clear (text b) p := by
  intro hc
  have hp : (text b)[p] = 0 := hc _ (by simp [List.getElem?_eq_getElem h])
  exact zero_notMem_text b (hp ▸ List.getElem_mem h)

theorem clear_assign_iff (dst src : List α) (p : Nat) :
    Clear (assign dst src) p ↔ strlen src ≤ p ∧ Clear dst p := by
  by_cases h : p < strlen src
  · have hp : (assign dst src)[p]? = (text src)[p]? := List.getElem?_append_left h
    constructor
    · intro hc
      exact absurd (by simpa [Clear, hp] using hc) (not_clear_of_lt_strlen h)
    · intro hc
      omega
  · have hp : (assign dst src)[p]? = dst[p]? := by
      have hle : (text src).length ≤ p := Nat.le_of_not_lt h
      rw [assign, overwrite, List.getElem?_append_right hle, List.getElem?_drop]
      congr 1
      omega
    simp [Clear, hp, Nat.le_of_not_lt h]

theorem clear_foldl_assign_iff (srcs : List (List α)) (dst : List α) (p : Nat) :
    Clear (srcs.foldl assign dst) p ↔ (∀ s ∈ srcs, strlen s ≤ p) ∧ Clear dst p := by
  induction srcs generalizing dst with
  | nil => simp
  | cons s srcs ih => simp [ih, clear_assign_iff, and_left_comm, and_assoc]

/-- After a run of copies the buffer reads as the last text exactly when no earlier text was
longer and the buffer was clear where the last text ends. -/
theorem text_foldl_assign_eq_iff (srcs : List (List α)) (dst src : List α) :
    text ((srcs ++ [src]).foldl assign dst) = text src ↔
      (∀ s ∈ srcs, strlen s ≤ strlen src) ∧ Clear dst (strlen src) := by
  rw [List.foldl_append, List.foldl_cons, List.foldl_nil, text_assign_eq_iff,
    clear_foldl_assign_iff]

theorem text_assign_replicate (n : Nat) (src : List α) :
    text (assign (List.replicate n 0) src) = text src := by
  rw [text_assign_eq_iff]
  intro c hc
  exact List.eq_of_mem_replicate (List.mem_of_getElem? hc)

end Kungfu.Lib.CString
