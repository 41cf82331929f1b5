import Kungfu.Lib.JsonGrammar
import Kungfu.Nlohmann.ScanString

namespace Kungfu.Nlohmann

open Kungfu.Lib JsonText JsonGrammar

theorem hexValue_iff {c : UInt8} {d : Nat} : hexValue c = some d ↔ HexDigit c d := by
  constructor
  · intro h
    have hcases : (d < 10 ∧ c = .ofNat (0x30 + d)) ∨
        ∃ e < 6, d = 10 + e ∧ (c = .ofNat (0x41 + e) ∨ c = .ofNat (0x61 + e)) := by
      revert h d
      revert c
      apply forall_uint8
      decide +kernel
    obtain ⟨hd, rfl⟩ | ⟨e, he, rfl, rfl | rfl⟩ := hcases
    · exact .decimal hd
    · exact .upper he
    · exact .lower he
  · intro h
    cases h with
    | decimal hd =>
      revert d
      decide
    | @upper e he | @lower e he =>
      revert e
      decide

theorem getCodepoint_cons {f : Nat} {fs : List Nat} {codepoint : Nat} {s : Bytes}
    {r : Nat × Bytes} :
    getCodepoint (f :: fs) codepoint s = some r ↔
      ∃ c s' d, s = c :: s' ∧ HexDigit c d ∧ getCodepoint fs (codepoint + d <<< f) s' = some r := by
  cases s with
  | nil => simp [getCodepoint]
  | cons c s =>
    rw [getCodepoint]
    cases hc : hexValue c <;> simp [← hexValue_iff, hc]

theorem digits_sum (x y z w : Nat) :
    0 + x <<< 12 + y <<< 8 + z <<< 4 + w <<< 0 = ((x * 16 + y) * 16 + z) * 16 + w := by
  simp only [Nat.shiftLeft_eq]
  omega

theorem getCodepoint_codeUnit {w : Bytes} {n : Nat} (h : CodeUnit w n) (s : Bytes) :
    getCodepoint factors 0 (w ++ s) = some (n, s) := by
  obtain ⟨ha, hb, hc, hd⟩ := h
  simp only [factors, getCodepoint_cons]
  exact ⟨_, _, _, rfl, ha, _, _, _, rfl, hb, _, _, _, rfl, hc, _, _, _, rfl, hd,
    congrArg (fun n => some (n, s)) (digits_sum ..)⟩

theorem codeUnit_getCodepoint {s rest : Bytes} {n : Nat}
    (h : getCodepoint factors 0 s = some (n, rest)) : ∃ w, s = w ++ rest ∧ CodeUnit w n := by
  simp only [factors, getCodepoint_cons] at h
  obtain ⟨a, _, x, rfl, ha, b, _, y, rfl, hb, c, _, z, rfl, hc, d, s, w, rfl, hd, h⟩ := h
  rw [digits_sum] at h
  cases h
  exact ⟨[a, b, c, d], rfl, .mk ha hb hc hd⟩

theorem unescape_iff {c b : UInt8} : unescape c = some b ↔ (c, b) ∈ escapes := by
  simp only [unescape, escapes, List.mem_cons, List.not_mem_nil, Prod.mk.injEq]
  grind

theorem scanUnicode_unit {w : Bytes} {n : Nat} (hw : CodeUnit w n)
    (hn : n < 0xd800 ∨ 0xe000 ≤ n) (s : Bytes) :
    scanUnicode (w ++ s) = .ok (Utf8.encode n, s) := by
  have hcodepoint := getCodepoint_codeUnit hw s
  have hlt := getCodepoint_lt hcodepoint
  rw [scanUnicode, hcodepoint]
  dsimp only
  rw [if_neg (by omega), if_neg (by omega), translate_eq_encode n (by omega)]

theorem scanUnicode_surrogates {w v : Bytes} {high low : Nat} (hw : CodeUnit w high)
    (hhigh : 0xd800 ≤ high) (hhigh' : high < 0xdc00) (hv : CodeUnit v low) (hlow : 0xdc00 ≤ low)
    (hlow' : low < 0xe000) (s : Bytes) :
    scanUnicode (w ++ backslash :: 0x75 :: (v ++ s)) =
      .ok (Utf8.encode (0x10000 + (high - 0xd800) * 0x400 + (low - 0xdc00)), s) := by
  rw [scanUnicode, getCodepoint_codeUnit hw]
  dsimp only
  rw [if_pos (by omega), scanLowSurrogate, if_pos ⟨rfl, rfl⟩, getCodepoint_codeUnit hv]
  dsimp only
  rw [if_pos (by omega), toNat_surrogates (by omega) (by omega), translate_eq_encode _ (by omega)]

theorem scanChar_character {w u : Bytes} (h : Character w u) :
    ∃ b w', w = b :: w' ∧ b ≠ quote ∧ ∀ s, scanChar b (w' ++ s) = .ok (u, s) := by
  cases h with
  | plain hchar hb hquote hbackslash =>
    exact ⟨_, _, rfl, hquote, scanChar_char hchar hb hbackslash⟩
  | escape he => exact ⟨_, _, rfl, by decide, scanChar_short (unescape_iff.mpr he)⟩
  | unit hw hn => exact ⟨_, _, rfl, by decide, scanUnicode_unit hw hn⟩
  | pair hw hhigh hhigh' hv hlow hlow' =>
    refine ⟨_, _, rfl, by decide, fun s => ?_⟩
    have hscan := scanUnicode_surrogates hw hhigh hhigh' hv hlow hlow' s
    rw [List.cons_append, List.append_assoc]
    exact hscan

theorem character_scanUnicode {s added rest : Bytes} (h : scanUnicode s = .ok (added, rest)) :
    ∃ w, s = w ++ rest ∧ Character (backslash :: 0x75 :: w) added := by
  rw [scanUnicode] at h
  split at h
  · cases h
  next hcodepoint =>
    have hlt := getCodepoint_lt hcodepoint
    obtain ⟨w, rfl, hw⟩ := codeUnit_getCodepoint hcodepoint
    split at h
    next h1 =>
      unfold scanLowSurrogate at h
      split at h
      · split at h
        next hescape =>
          obtain ⟨rfl, rfl⟩ := hescape
          split at h
          · cases h
          next hcodepoint =>
            obtain ⟨v, rfl, hv⟩ := codeUnit_getCodepoint hcodepoint
            split at h
            next h2 =>
              cases h
              rw [toNat_surrogates h1 h2, translate_eq_encode _ (by omega)]
              exact ⟨w ++ backslash :: 0x75 :: v, (List.append_assoc w (_ :: _ :: v) rest).symm,
                .pair hw h1.1 (Nat.lt_succ_of_le h1.2) hv h2.1 (Nat.lt_succ_of_le h2.2)⟩
            next => cases h
        next => cases h
      · cases h
    next h1 =>
      split at h
      · cases h
      next h2 =>
        cases h
        rw [translate_eq_encode _ (by omega)]
        exact ⟨w, rfl, .unit hw (by omega)⟩

theorem character_scanEscape {s added rest : Bytes} (h : scanEscape s = .ok (added, rest)) :
    ∃ w, s = w ++ rest ∧ Character (backslash :: w) added := by
  unfold scanEscape at h
  split at h
  · cases h
  next c s =>
    split at h
    next b hescape =>
      cases h
      exact ⟨[c], rfl, .escape (unescape_iff.mp hescape)⟩
    next =>
      split at h
      next hunicode =>
        obtain ⟨w, rfl, hw⟩ := character_scanUnicode h
        exact ⟨c :: w, rfl, hunicode ▸ hw⟩
      next => cases h

theorem character_scanChar {b : UInt8} (hquote : b ≠ quote) {s added rest : Bytes}
    (h : scanChar b s = .ok (added, rest)) :
    ∃ w, s = w ++ rest ∧ Character (b :: w) added := by
  have hchar := char_scanChar h
  rw [scanChar] at h
  split at h
  next hbackslash =>
    obtain ⟨w, rfl, hw⟩ := character_scanEscape h
    exact ⟨w, rfl, hbackslash ▸ hw⟩
  next hbackslash =>
    split at h
    · cases h
    next hcontrol =>
      split at h
      next =>
        obtain ⟨w, rfl, rfl, -⟩ := nextByteInRange_forall₂ h
        exact ⟨w, rfl, .plain hchar (UInt8.not_lt.mp hcontrol) hquote hbackslash⟩
      next => cases h

theorem scanString_characters {w u : Bytes} (h : Characters w u) (tokenBuffer rest : Bytes) :
    scanString tokenBuffer (w ++ quote :: rest) = .ok (tokenBuffer ++ u, rest) := by
  induction h generalizing tokenBuffer with
  | nil =>
    have hquote : quote = 0x22 := rfl
    rw [List.nil_append, scanString, if_pos hquote, List.append_nil]
  | cons hw hws ih =>
    obtain ⟨b, w, rfl, hquote, hscan⟩ := scanChar_character hw
    rw [List.append_assoc, List.cons_append, scanString_scanChar hquote (hscan _), ih,
      List.append_assoc]

theorem characters_scanString {tokenBuffer s text rest : Bytes}
    (h : scanString tokenBuffer s = .ok (text, rest)) :
    ∃ w u, s = w ++ quote :: rest ∧ text = tokenBuffer ++ u ∧ Characters w u := by
  fun_induction scanString tokenBuffer s with
  | case1 => cases h
  | case2 =>
    cases h
    exact ⟨[], [], rfl, (List.append_nil _).symm, .nil⟩
  | case3 tokenBuffer b s hquote added rest' hscan ih =>
    obtain ⟨ws, us, rfl, rfl, hws⟩ := ih h
    obtain ⟨w, rfl, hw⟩ := character_scanChar hquote hscan
    exact ⟨b :: w ++ ws, added ++ us, congrArg (b :: ·) (List.append_assoc ..).symm,
      List.append_assoc .., .cons hw hws⟩
  | case4 => cases h

theorem scanString_grammar (s text rest : Bytes) :
    scanString [] s = .ok (text, rest) ↔ ∃ w, s = w ++ quote :: rest ∧ Characters w text := by
  constructor
  · intro h
    obtain ⟨w, u, rfl, rfl, hw⟩ := characters_scanString h
    exact ⟨w, rfl, hw⟩
  · rintro ⟨w, rfl, hw⟩
    exact scanString_characters hw [] rest

end Kungfu.Nlohmann
