import Mathlib.Data.List.Basic
import Mathlib.Data.UInt
import Kungfu.Lib.Utf8

namespace Kungfu.Lib.Utf8

def tail (b : UInt8) : Prop := 0x80 ≤ b ∧ b ≤ 0xbf

def low (b : UInt8) : UInt8 := if b = 0xe0 then 0xa0 else if b = 0xf0 then 0x90 else 0x80

def high (b : UInt8) : UInt8 := if b = 0xed then 0x9f else if b = 0xf4 then 0x8f else 0xbf

inductive Char : List UInt8 → Prop
  | one : b < 0x80 → Char [b]
  | two : 0xc2 ≤ b → b < 0xe0 → tail c → Char [b, c]
  | three : 0xe0 ≤ b → b < 0xf0 → low b ≤ c → c ≤ high b → tail d → Char [b, c, d]
  | four : 0xf0 ≤ b → b ≤ 0xf4 → low b ≤ c → c ≤ high b → tail d → tail e → Char [b, c, d, e]

def Pending (p : List UInt8) : Utf8 → Prop
  | .accept => p = []
  | .reject => False
  | .e0 => p = [0xe0]
  | .ed => p = [0xed]
  | .f0 => p = [0xf0]
  | .f4 => p = [0xf4]
  | .tail3 => ∃ b, p = [b] ∧ 0xf1 ≤ b ∧ b ≤ 0xf3
  | .tail2 =>
    (∃ b, p = [b] ∧ 0xe1 ≤ b ∧ b < 0xf0 ∧ b ≠ 0xed) ∨
      ∃ b c, p = [b, c] ∧ 0xf0 ≤ b ∧ b ≤ 0xf4 ∧ low b ≤ c ∧ c ≤ high b
  | .tail1 =>
    (∃ b, p = [b] ∧ 0xc2 ≤ b ∧ b < 0xe0) ∨
      (∃ b c, p = [b, c] ∧ 0xe0 ≤ b ∧ b < 0xf0 ∧ low b ≤ c ∧ c ≤ high b) ∨
      ∃ b c d, p = [b, c, d] ∧ 0xf0 ≤ b ∧ b ≤ 0xf4 ∧ low b ≤ c ∧ c ≤ high b ∧ tail d

inductive Steps (p : List UInt8) (b : UInt8) : Utf8 → Prop
  | reject : Steps p b .reject
  | accept : Char (p ++ [b]) → Steps p b .accept
  | pending {q : Utf8} : q ≠ .accept → Pending (p ++ [b]) q → Steps p b q

theorem steps_between {p : List UInt8} {lo hi b : UInt8} {q : Utf8} (hq : q ≠ .accept)
    (h : lo ≤ b → b ≤ hi → Pending (p ++ [b]) q) : Steps p b (between lo hi b q) := by
  by_cases hb : lo ≤ b ∧ b ≤ hi
  · rw [between, if_pos hb]
    exact .pending hq (h hb.1 hb.2)
  · rw [between, if_neg hb]
    exact .reject

theorem steps_accept (b : UInt8) : Steps [] b (step .accept b) := by
  rw [step]
  split
  next h => exact .accept (.one h)
  next =>
  split
  next => exact .reject
  next hlow =>
  have hlow : 0xc2 ≤ b := UInt8.not_lt.mp hlow
  split
  next h => exact .pending (by decide) (.inl ⟨b, rfl, hlow, h⟩)
  next h =>
  have h : 0xe0 ≤ b := UInt8.not_lt.mp h
  split
  next he => exact .pending (by decide) (he ▸ rfl)
  next he =>
  split
  next hd => exact .pending (by decide) (hd ▸ rfl)
  next hd =>
  split
  next hf => exact .pending (by decide) (.inl ⟨b, rfl, by grind, hf, hd⟩)
  next hf =>
  split
  next hf0 => exact .pending (by decide) (hf0 ▸ rfl)
  next hf0 =>
  split
  next hf4 => exact .pending (by decide) ⟨b, rfl, by grind, by grind⟩
  next =>
  split
  next hf4 => exact .pending (by decide) (hf4 ▸ rfl)
  next => exact .reject

theorem Pending.steps {p : List UInt8} {q : Utf8} (h : Pending p q) (b : UInt8) :
    Steps p b (step q b) := by
  cases q with
  | accept =>
    cases h
    exact steps_accept b
  | reject => exact .reject
  | e0 =>
    cases h
    exact steps_between (by decide) fun hlo hhi =>
      .inr (.inl ⟨0xe0, b, rfl, by decide, by decide, hlo, hhi⟩)
  | ed =>
    cases h
    exact steps_between (by decide) fun hlo hhi =>
      .inr (.inl ⟨0xed, b, rfl, by decide, by decide, hlo, hhi⟩)
  | f0 =>
    cases h
    exact steps_between (by decide) fun hlo hhi =>
      .inr ⟨0xf0, b, rfl, by decide, by decide, hlo, hhi⟩
  | f4 =>
    cases h
    exact steps_between (by decide) fun hlo hhi =>
      .inr ⟨0xf4, b, rfl, by decide, by decide, hlo, hhi⟩
  | tail3 =>
    obtain ⟨a, rfl, hlo, hhi⟩ := h
    refine steps_between (by decide) fun hb hb' => .inr ⟨a, b, rfl, by grind, by grind, ?_, ?_⟩
    · rwa [low, if_neg (by grind), if_neg (by grind)]
    · rwa [high, if_neg (by grind), if_neg (by grind)]
  | tail2 =>
    obtain ⟨a, rfl, hlo, hhi, hne⟩ | ⟨a, c, rfl, ha, ha', hc, hc'⟩ := h
    · refine steps_between (by decide) fun hb hb' =>
        .inr (.inl ⟨a, b, rfl, by grind, hhi, ?_, ?_⟩)
      · rwa [low, if_neg (by grind), if_neg (by grind)]
      · rwa [high, if_neg hne, if_neg (by grind)]
    · exact steps_between (by decide) fun hb hb' =>
        .inr (.inr ⟨a, c, b, rfl, ha, ha', hc, hc', hb, hb'⟩)
  | tail1 =>
    by_cases hb : 0x80 ≤ b ∧ b ≤ 0xbf
    · rw [step, between, if_pos hb]
      obtain ⟨a, rfl, ha, ha'⟩ | ⟨a, c, rfl, ha, ha', hc, hc'⟩ |
        ⟨a, c, d, rfl, ha, ha', hc, hc', hd⟩ := h
      · exact .accept (.two ha ha' hb)
      · exact .accept (.three ha ha' hc hc' hb)
      · exact .accept (.four ha ha' hc hc' hd hb)
    · rw [step, between, if_neg hb]
      exact .reject

theorem Pending.length_le {p : List UInt8} {q : Utf8} (h : Pending p q) : p.length ≤ 3 := by
  cases q with
  | reject => cases h
  | tail3 =>
    obtain ⟨b, rfl, -⟩ := h
    exact Nat.le_of_ble_eq_true rfl
  | tail2 =>
    obtain ⟨b, rfl, -⟩ | ⟨b, c, rfl, -⟩ := h <;> exact Nat.le_of_ble_eq_true rfl
  | tail1 =>
    obtain ⟨b, rfl, -⟩ | ⟨b, c, rfl, -⟩ | ⟨b, c, d, rfl, -⟩ := h <;>
      exact Nat.le_of_ble_eq_true rfl
  | accept | e0 | ed | f0 | f4 =>
    cases h
    exact Nat.le_of_ble_eq_true rfl

theorem accept_of_pending_nil {q : Utf8} (h : Pending [] q) : q = .accept := by
  cases q <;> simp_all [Pending]

inductive Chars : List UInt8 → Prop
  | nil : Chars []
  | cons : Char u → Chars s → Chars (u ++ s)

theorem foldl_step_reject (s : List UInt8) : s.foldl step .reject = .reject := by
  induction s with
  | nil => rfl
  | cons b s ih => exact ih

theorem foldl_step_char {u : List UInt8} (h : Char u) : u.foldl step .accept = .accept := by
  cases h with
  | one hb => exact if_pos hb
  | two hb hb' hc => grind [step, between, tail]
  | three hb hb' hc hc' hd => grind [step, between, tail, low, high]
  | four hb hb' hc hc' hd he => grind [step, between, tail, low, high]

theorem Pending.chars {p : List UInt8} {q : Utf8} (h : Pending p q) {s : List UInt8}
    (hs : s.foldl step q = .accept) : Chars (p ++ s) := by
  induction s generalizing p q with
  | nil =>
    cases hs
    cases h
    exact .nil
  | cons b s ih =>
    rw [List.foldl_cons] at hs
    have hsteps := h.steps b
    generalize step q b = q' at hs hsteps
    cases hsteps with
    | reject => exact absurd ((foldl_step_reject s).symm.trans hs) (by decide)
    | accept hchar =>
      rw [List.append_cons]
      exact .cons hchar (ih (p := []) (q := .accept) rfl hs)
    | pending _ hpending =>
      rw [List.append_cons]
      exact ih hpending hs

theorem valid_iff_chars {s : List UInt8} : valid s = true ↔ Chars s := by
  rw [valid, decide_eq_true_eq]
  constructor
  · exact Pending.chars (p := []) (q := .accept) rfl
  · intro h
    induction h with
    | nil => rfl
    | cons hu _ ih => rw [List.foldl_append, foldl_step_char hu, ih]

theorem valid_append {s t : List UInt8} (hs : valid s = true) (ht : valid t = true) :
    valid (s ++ t) = true := by
  rw [valid, decide_eq_true_eq] at *
  rw [List.foldl_append, hs, ht]

theorem Pending.foldl_step {p : List UInt8} {q : Utf8} (h : Pending p q) :
    p.foldl step .accept = q := by
  cases q with
  | accept | e0 | ed | f0 | f4 =>
    cases h
    rfl
  | reject => cases h
  | tail3 =>
    obtain ⟨b, rfl, hb, hb'⟩ := h
    grind [step]
  | tail2 =>
    obtain ⟨b, rfl, hb, hb', hne⟩ | ⟨b, c, rfl, hb, hb', hc, hc'⟩ := h
    · grind [step]
    · grind [step, between, low, high]
  | tail1 =>
    obtain ⟨b, rfl, hb, hb'⟩ | ⟨b, c, rfl, hb, hb', hc, hc'⟩ |
      ⟨b, c, d, rfl, hb, hb', hc, hc', hd⟩ := h
    · grind [step]
    · grind [step, between, low, high]
    · grind [step, between, low, high, tail]

def Begins (p : List UInt8) : Prop := ∃ w, Char (p ++ w)

theorem Begins.of_concat {p : List UInt8} {b : UInt8} (h : Begins (p ++ [b])) : Begins p := by
  obtain ⟨w, hw⟩ := h
  exact ⟨b :: w, by rwa [List.append_cons]⟩

theorem Steps.pending_of_ne {p : List UInt8} {b : UInt8} {q : Utf8} (h : Steps p b q)
    (hreject : q ≠ .reject) (haccept : q ≠ .accept) : Pending (p ++ [b]) q := by
  cases h with
  | reject => exact absurd rfl hreject
  | accept => exact absurd rfl haccept
  | pending _ h => exact h

theorem Steps.char {p : List UInt8} {b : UInt8} (h : Steps p b .accept) : Char (p ++ [b]) := by
  cases h with
  | accept h => exact h
  | pending h => exact absurd rfl h

theorem Pending.begins {p : List UInt8} {q : Utf8} (h : Pending p q) : Begins p := by
  have tail1 {p : List UInt8} (h : Pending p .tail1) : Begins p :=
    ⟨[0x80], Steps.char (h.steps 0x80)⟩
  have tail2 {p : List UInt8} (h : Pending p .tail2) : Begins p :=
    (tail1 ((h.steps 0x80).pending_of_ne (by decide) (by decide))).of_concat
  cases q with
  | accept =>
    cases h
    exact ⟨[0], .one (by decide)⟩
  | reject => cases h
  | tail1 => exact tail1 h
  | tail2 => exact tail2 h
  | tail3 => exact (tail2 ((h.steps 0x80).pending_of_ne (by decide) (by decide))).of_concat
  | e0 => exact (tail1 ((h.steps 0xa0).pending_of_ne (by decide) (by decide))).of_concat
  | ed => exact (tail1 ((h.steps 0x80).pending_of_ne (by decide) (by decide))).of_concat
  | f0 => exact (tail2 ((h.steps 0x90).pending_of_ne (by decide) (by decide))).of_concat
  | f4 => exact (tail2 ((h.steps 0x80).pending_of_ne (by decide) (by decide))).of_concat

theorem not_begins_of_reject {p : List UInt8} (h : p.foldl step .accept = .reject) :
    ¬ Begins p := by
  rintro ⟨w, hw⟩
  have hreject := foldl_step_char hw
  rw [List.foldl_append, h, foldl_step_reject] at hreject
  exact absurd hreject (by decide)

theorem Pending.not_begins {p : List UInt8} {q : Utf8} (h : Pending p q) {b : UInt8}
    (hb : q.step b = .reject) : ¬ Begins (p ++ [b]) := by
  apply not_begins_of_reject
  rw [List.foldl_concat, h.foldl_step, hb]

theorem Pending.not_char {p : List UInt8} {q : Utf8} (h : Pending p q) (hp : p ≠ []) :
    ¬ Char p := by
  intro hchar
  have hq := h.foldl_step.symm.trans (foldl_step_char hchar)
  subst hq
  exact hp h

/-- Bytes in front of a text that are no character: one that begins none, or the longest beginning
of a character that the text leaves incomplete. -/
inductive IllFormed (s : List UInt8) : List UInt8 → Prop
  | byte : ¬ Begins [b] → IllFormed s [b]
  | incomplete : p ≠ [] → Begins p → ¬ Char p → (∀ b ∈ s.head?, ¬ Begins (p ++ [b])) →
    IllFormed s p

/-- The characters of a text, with a replacement for everything ill-formed. -/
inductive Cleaned (replacement : List (List UInt8)) : List UInt8 → List (List UInt8) → Prop
  | nil : Cleaned replacement [] []
  | char : Char u → Cleaned replacement s us → Cleaned replacement (u ++ s) (u :: us)
  | illFormed : IllFormed s p → Cleaned replacement s us →
    Cleaned replacement (p ++ s) (replacement ++ us)

theorem Pending.illFormed {p : List UInt8} {q : Utf8} (h : Pending p q) (hp : p ≠ [])
    {s : List UInt8} (hs : ∀ b ∈ s.head?, q.step b = .reject) : IllFormed s p :=
  .incomplete hp h.begins (h.not_char hp) fun b hb => h.not_begins (hs b hb)

theorem illFormed_byte {b : UInt8} (h : step .accept b = .reject) (s : List UInt8) :
    IllFormed s [b] :=
  .byte (not_begins_of_reject h)

theorem Cleaned.valid {replacement : List (List UInt8)} (hr : ∀ u ∈ replacement, Char u)
    {s : List UInt8} {us : List (List UInt8)} (h : Cleaned replacement s us) :
    ∀ u ∈ us, Char u := by
  induction h with
  | nil => exact fun u hu => absurd hu List.not_mem_nil
  | char hu _ ih => exact List.forall_mem_cons.mpr ⟨hu, ih⟩
  | illFormed _ _ ih => exact List.forall_mem_append.mpr ⟨hr, ih⟩

def lead (b : UInt8) : Nat :=
  if b < 0x80 then b.toNat
  else if b < 0xe0 then b.toNat % 32
  else if b < 0xf0 then b.toNat % 16
  else b.toNat % 8

def extend (n : Nat) (b : UInt8) : Nat := n * 64 + b.toNat % 64

def scalar : List UInt8 → Nat
  | [] => 0
  | b :: u => u.foldl extend (lead b)

theorem scalar_concat {p : List UInt8} (h : p ≠ []) (b : UInt8) :
    scalar (p ++ [b]) = extend (scalar p) b := by
  cases p with
  | nil => exact absurd rfl h
  | cons a p => exact List.foldl_concat ..

theorem foldl_extend_lt {n k : Nat} (h : n < k) (u : List UInt8) :
    u.foldl extend n < k * 64 ^ u.length := by
  induction u generalizing n k with
  | nil => simpa using h
  | cons b u ih =>
    have hextend : extend n b < k * 64 := by
      rw [extend]
      omega
    rw [List.foldl_cons, List.length_cons, Nat.pow_succ', ← Nat.mul_assoc]
    exact ih hextend

theorem lead_lt (b : UInt8) : lead b < 0x80 := by
  rw [lead]
  split
  next h => exact UInt8.lt_iff_toNat_lt.mp h
  next => split <;> [skip; split] <;> omega

theorem Pending.scalar_lt {p : List UInt8} {q : Utf8} (h : Pending p q) : scalar p < 2 ^ 26 := by
  have hlength := h.length_le
  cases p with
  | nil => decide
  | cons b p =>
    have hpow : 0x80 * 64 ^ p.length ≤ 0x80 * 64 ^ 2 :=
      Nat.mul_le_mul_left _ (Nat.pow_le_pow_right (by decide) (Nat.le_of_succ_le_succ hlength))
    exact (foldl_extend_lt (lead_lt b) p).trans_le (hpow.trans (by decide))

def encode (n : Nat) : List UInt8 :=
  if n < 0x80 then [.ofNat n]
  else if n < 0x800 then [.ofNat (0xc0 + n / 64), .ofNat (0x80 + n % 64)]
  else if n < 0x10000 then
    [.ofNat (0xe0 + n / 4096), .ofNat (0x80 + n / 64 % 64), .ofNat (0x80 + n % 64)]
  else
    [.ofNat (0xf0 + n / 262144), .ofNat (0x80 + n / 4096 % 64), .ofNat (0x80 + n / 64 % 64),
      .ofNat (0x80 + n % 64)]

theorem toNat_low_high {b c : UInt8} (h : low b ≤ c) (h' : c ≤ high b) :
    0x80 ≤ c.toNat ∧ c.toNat ≤ 0xbf ∧ (b = 0xe0 → 0xa0 ≤ c.toNat) ∧ (b = 0xf0 → 0x90 ≤ c.toNat) ∧
      (b = 0xed → c.toNat ≤ 0x9f) ∧ (b = 0xf4 → c.toNat ≤ 0x8f) := by
  rw [UInt8.le_iff_toNat_le, low, apply_ite UInt8.toNat, apply_ite UInt8.toNat] at h
  rw [UInt8.le_iff_toNat_le, high, apply_ite UInt8.toNat, apply_ite UInt8.toNat] at h'
  simp only [UInt8.reduceToNat] at h h'
  grind

theorem ofNat_eq {n : Nat} {b : UInt8} (h : n = b.toNat) : UInt8.ofNat n = b := by
  rw [h, UInt8.ofNat_toNat]

theorem lead_one {b : UInt8} (h : b < 0x80) : lead b = b.toNat := if_pos h

theorem lead_two {b : UInt8} (h : 0xc2 ≤ b) (h' : b < 0xe0) : lead b = b.toNat % 32 := by
  rw [lead, if_neg (by grind), if_pos h']

theorem lead_three {b : UInt8} (h : 0xe0 ≤ b) (h' : b < 0xf0) : lead b = b.toNat % 16 := by
  rw [lead, if_neg (by grind), if_neg (by grind), if_pos h']

theorem lead_four {b : UInt8} (h : 0xf0 ≤ b) : lead b = b.toNat % 8 := by
  rw [lead, if_neg (by grind), if_neg (by grind), if_neg (by grind)]

theorem encode_scalar {u : List UInt8} (h : Char u) : encode (scalar u) = u := by
  generalize hn : scalar u = n
  cases h with
  | @one b hb =>
    rw [scalar, List.foldl_nil, lead_one hb] at hn
    have hlt : n < 0x80 := hn.symm.trans_lt (UInt8.lt_iff_toNat_lt.mp hb)
    rw [encode, if_pos hlt, ofNat_eq hn.symm]
  | @two b c hb hb' hc =>
    simp only [scalar, lead_two hb hb', List.foldl_cons, List.foldl_nil, extend] at hn
    simp only [tail, UInt8.le_iff_toNat_le, UInt8.lt_iff_toNat_lt, UInt8.reduceToNat] at hb hb' hc
    rw [encode, if_neg (by omega), if_pos (by omega), ofNat_eq (b := b) (by omega),
      ofNat_eq (b := c) (by omega)]
  | @three b c d hb hb' hc hc' hd =>
    obtain ⟨hlo, hhi, he0, -⟩ := toNat_low_high hc hc'
    simp only [scalar, lead_three hb hb', List.foldl_cons, List.foldl_nil, extend] at hn
    simp only [tail, UInt8.le_iff_toNat_le, UInt8.lt_iff_toNat_lt, ← UInt8.toNat_inj,
      UInt8.reduceToNat] at hb hb' hd he0
    rw [encode, if_neg (by omega), if_neg (by omega), if_pos (by omega),
      ofNat_eq (b := b) (by omega), ofNat_eq (b := c) (by omega), ofNat_eq (b := d) (by omega)]
  | @four b c d e hb hb' hc hc' hd he =>
    obtain ⟨hlo, hhi, -, hf0, -⟩ := toNat_low_high hc hc'
    simp only [scalar, lead_four hb, List.foldl_cons, List.foldl_nil, extend] at hn
    simp only [tail, UInt8.le_iff_toNat_le, ← UInt8.toNat_inj, UInt8.reduceToNat]
      at hb hb' hd he hf0
    rw [encode, if_neg (by omega), if_neg (by omega), if_neg (by omega),
      ofNat_eq (b := b) (by omega), ofNat_eq (b := c) (by omega), ofNat_eq (b := d) (by omega),
      ofNat_eq (b := e) (by omega)]

theorem toNat_byte {n : Nat} (h : n < 256) : (UInt8.ofNat n).toNat = n :=
  UInt8.toNat_ofNat_of_lt' h

theorem le_byte_iff {n : Nat} (h : n < 256) (b : UInt8) : b ≤ .ofNat n ↔ b.toNat ≤ n := by
  rw [UInt8.le_iff_toNat_le, toNat_byte h]

theorem byte_le_iff {n : Nat} (h : n < 256) (b : UInt8) : .ofNat n ≤ b ↔ n ≤ b.toNat := by
  rw [UInt8.le_iff_toNat_le, toNat_byte h]

theorem byte_lt_iff {n : Nat} (h : n < 256) (b : UInt8) : .ofNat n < b ↔ n < b.toNat := by
  rw [UInt8.lt_iff_toNat_lt, toNat_byte h]

theorem byte_eq_iff {n : Nat} (h : n < 256) (b : UInt8) : .ofNat n = b ↔ n = b.toNat := by
  rw [← UInt8.toNat_inj, toNat_byte h]

theorem tail_byte (n : Nat) : tail (.ofNat (0x80 + n % 64)) := by
  rw [tail, le_byte_iff (by omega), byte_le_iff (by omega)]
  exact ⟨Nat.le_add_right .., by change 0x80 + n % 64 ≤ 0xbf; omega⟩

theorem low_byte_le {m n : Nat} (hm : m < 256) (hn : 0x80 ≤ n) (hn' : n < 256)
    (h : m = 0xe0 → 0xa0 ≤ n) (h' : m = 0xf0 → 0x90 ≤ n) : low (.ofNat m) ≤ .ofNat n := by
  rw [le_byte_iff hn', low, apply_ite UInt8.toNat, apply_ite UInt8.toNat]
  simp only [byte_eq_iff hm, UInt8.reduceToNat]
  split
  next he => exact h he
  next => split <;> [exact h' ‹_›; exact hn]

theorem byte_le_high {m n : Nat} (hm : m < 256) (hn : n ≤ 0xbf)
    (h : m = 0xed → n ≤ 0x9f) (h' : m = 0xf4 → n ≤ 0x8f) : .ofNat n ≤ high (.ofNat m) := by
  rw [byte_le_iff (hn.trans_lt (by decide)), high, apply_ite UInt8.toNat, apply_ite UInt8.toNat]
  simp only [byte_eq_iff hm, UInt8.reduceToNat]
  split
  next he => exact h he
  next => split <;> [exact h' ‹_›; exact hn]

theorem char_encode {n : Nat} (h : n < 0xd800 ∨ 0xe000 ≤ n ∧ n < 0x110000) : Char (encode n) := by
  rw [encode]
  split
  next hn => exact .one ((byte_lt_iff (by omega) _).mpr hn)
  next hlo =>
  split
  next hn =>
    refine .two ((le_byte_iff (by omega) _).mpr ?_) ((byte_lt_iff (by omega) _).mpr ?_)
      (tail_byte n)
    · change 0xc2 ≤ 0xc0 + n / 64
      omega
    · change 0xc0 + n / 64 < 0xe0
      omega
  next hlo' =>
  split
  next hn =>
    refine .three ((le_byte_iff (by omega) _).mpr ?_) ((byte_lt_iff (by omega) _).mpr ?_)
      (low_byte_le (by omega) (by omega) (by omega) (by omega) (by omega))
      (byte_le_high (by omega) (by omega) (by omega) (by omega)) (tail_byte n)
    · exact Nat.le_add_right ..
    · change 0xe0 + n / 4096 < 0xf0
      omega
  next hlo'' =>
    refine .four ((le_byte_iff (by omega) _).mpr ?_) ((byte_le_iff (by omega) _).mpr ?_)
      (low_byte_le (by omega) (by omega) (by omega) (by omega) (by omega))
      (byte_le_high (by omega) (by omega) (by omega) (by omega)) (tail_byte (n / 64)) (tail_byte n)
    · exact Nat.le_add_right ..
    · change 0xf0 + n / 262144 ≤ 0xf4
      omega

theorem scalar_cases {u : List UInt8} (h : Char u) :
    (∃ b, u = [b] ∧ b < 0x80 ∧ scalar u = b.toNat) ∨
      ((0x80 ≤ scalar u ∧ scalar u < 0xd800 ∨ 0xe000 ≤ scalar u ∧ scalar u < 0x110000) ∧
        ∀ b ∈ u, 0x80 ≤ b) := by
  cases h with
  | @one b hb => exact .inl ⟨b, rfl, hb, lead_one hb⟩
  | @two b c hb hb' hc =>
    refine .inr ⟨?_, by grind [tail]⟩
    simp only [scalar, lead_two hb hb', List.foldl_cons, List.foldl_nil, extend]
    simp only [tail, UInt8.le_iff_toNat_le, UInt8.lt_iff_toNat_lt, UInt8.reduceToNat] at hb hb' hc
    omega
  | @three b c d hb hb' hc hc' hd =>
    obtain ⟨hlo, hhi, he0, -, hed, -⟩ := toNat_low_high hc hc'
    have hc80 : 0x80 ≤ c := UInt8.le_iff_toNat_le.mpr hlo
    refine .inr ⟨?_, by grind [tail]⟩
    simp only [scalar, lead_three hb hb', List.foldl_cons, List.foldl_nil, extend]
    simp only [tail, UInt8.le_iff_toNat_le, UInt8.lt_iff_toNat_lt, ← UInt8.toNat_inj,
      UInt8.reduceToNat] at hb hb' hd he0 hed
    omega
  | @four b c d e hb hb' hc hc' hd he =>
    obtain ⟨hlo, hhi, -, hf0, -, hf4⟩ := toNat_low_high hc hc'
    have hc80 : 0x80 ≤ c := UInt8.le_iff_toNat_le.mpr hlo
    refine .inr ⟨?_, by grind [tail]⟩
    simp only [scalar, lead_four hb, List.foldl_cons, List.foldl_nil, extend]
    simp only [tail, UInt8.le_iff_toNat_le, ← UInt8.toNat_inj, UInt8.reduceToNat]
      at hb hb' hd he hf0 hf4
    omega

end Kungfu.Lib.Utf8
