import Kungfu.Nlohmann.DumpEscaped

namespace Kungfu.Nlohmann

open Kungfu.Lib

inductive LexError where
  | missingQuote
  | hexDigits
  | highSurrogate
  | lowSurrogate
  | backslash
  | control (c : UInt8)
  | illFormed
  | numberMinus
  | numberFraction
  | numberExponent
  | numberExponentSign
  | literal
  | bom
  deriving DecidableEq

def hexValue (current : UInt8) : Option Nat :=
  if 0x30 ≤ current ∧ current ≤ 0x39 then some (current - 0x30).toNat
  else if 0x41 ≤ current ∧ current ≤ 0x46 then some (current - 0x37).toNat
  else if 0x61 ≤ current ∧ current ≤ 0x66 then some (current - 0x57).toNat
  else none

def getCodepoint : List Nat → Nat → Bytes → Option (Nat × Bytes)
  | [], codepoint, s => some (codepoint, s)
  | _ :: _, _, [] => none
  | factor :: factors, codepoint, current :: s =>
    match hexValue current with
    | some d => getCodepoint factors (codepoint + d <<< factor) s
    | none => none

def factors : List Nat := [12, 8, 4, 0]

def translate (codepoint : Nat) : Bytes :=
  if codepoint < 0x80 then [.ofNat codepoint]
  else if codepoint ≤ 0x7ff then
    [.ofNat (0xc0 ||| codepoint >>> 6), .ofNat (0x80 ||| codepoint &&& 0x3f)]
  else if codepoint ≤ 0xffff then
    [.ofNat (0xe0 ||| codepoint >>> 12), .ofNat (0x80 ||| codepoint >>> 6 &&& 0x3f),
      .ofNat (0x80 ||| codepoint &&& 0x3f)]
  else
    [.ofNat (0xf0 ||| codepoint >>> 18), .ofNat (0x80 ||| codepoint >>> 12 &&& 0x3f),
      .ofNat (0x80 ||| codepoint >>> 6 &&& 0x3f), .ofNat (0x80 ||| codepoint &&& 0x3f)]

def surrogates (codepoint1 codepoint2 : UInt32) : UInt32 :=
  codepoint1 <<< (10 : UInt32) + codepoint2 - (0x35fdc00 : UInt32)

def scanLowSurrogate (codepoint1 : Nat) : Bytes → Except LexError (Bytes × Bytes)
  | b :: c :: s =>
    if b = 0x5c ∧ c = 0x75 then
      match getCodepoint factors 0 s with
      | none => .error .hexDigits
      | some (codepoint2, s) =>
        if 0xdc00 ≤ codepoint2 ∧ codepoint2 ≤ 0xdfff then
          .ok (translate (surrogates (.ofNat codepoint1) (.ofNat codepoint2)).toNat, s)
        else .error .highSurrogate
    else .error .highSurrogate
  | _ => .error .highSurrogate

def scanUnicode (s : Bytes) : Except LexError (Bytes × Bytes) :=
  match getCodepoint factors 0 s with
  | none => .error .hexDigits
  | some (codepoint1, s) =>
    if 0xd800 ≤ codepoint1 ∧ codepoint1 ≤ 0xdbff then scanLowSurrogate codepoint1 s
    else if 0xdc00 ≤ codepoint1 ∧ codepoint1 ≤ 0xdfff then .error .lowSurrogate
    else .ok (translate codepoint1, s)

def unescape (c : UInt8) : Option UInt8 :=
  if c = 0x22 then some 0x22
  else if c = 0x5c then some 0x5c
  else if c = 0x2f then some 0x2f
  else if c = 0x62 then some 0x08
  else if c = 0x66 then some 0x0c
  else if c = 0x6e then some 0x0a
  else if c = 0x72 then some 0x0d
  else if c = 0x74 then some 0x09
  else none

def scanEscape : Bytes → Except LexError (Bytes × Bytes)
  | [] => .error .backslash
  | c :: s =>
    match unescape c with
    | some b => .ok ([b], s)
    | none => if c = 0x75 then scanUnicode s else .error .backslash

/-- The ranges that the bytes behind `b` have to be in. -/
def ranges (b : UInt8) : Option (List (UInt8 × UInt8)) :=
  if 0x20 ≤ b ∧ b ≤ 0x7f then some []
  else if 0xc2 ≤ b ∧ b ≤ 0xdf then some [(0x80, 0xbf)]
  else if b = 0xe0 then some [(0xa0, 0xbf), (0x80, 0xbf)]
  else if b = 0xed then some [(0x80, 0x9f), (0x80, 0xbf)]
  else if 0xe1 ≤ b ∧ b ≤ 0xef then some [(0x80, 0xbf), (0x80, 0xbf)]
  else if b = 0xf0 then some [(0x90, 0xbf), (0x80, 0xbf), (0x80, 0xbf)]
  else if 0xf1 ≤ b ∧ b ≤ 0xf3 then some [(0x80, 0xbf), (0x80, 0xbf), (0x80, 0xbf)]
  else if b = 0xf4 then some [(0x80, 0x8f), (0x80, 0xbf), (0x80, 0xbf)]
  else none

def nextByteInRange (added : Bytes) : List (UInt8 × UInt8) → Bytes → Except LexError (Bytes × Bytes)
  | [], s => .ok (added, s)
  | _ :: _, [] => .error .illFormed
  | r :: rs, current :: s =>
    if r.1 ≤ current ∧ current ≤ r.2 then nextByteInRange (added ++ [current]) rs s
    else .error .illFormed

/-- One turn of the loop, for a byte that is not the closing quote. -/
def scanChar (b : UInt8) (s : Bytes) : Except LexError (Bytes × Bytes) :=
  if b = 0x5c then scanEscape s
  else if b < 0x20 then .error (.control b)
  else
    match ranges b with
    | some rs => nextByteInRange [b] rs s
    | none => .error .illFormed

theorem length_getCodepoint {fs : List Nat} {codepoint n : Nat} {s rest : Bytes}
    (h : getCodepoint fs codepoint s = some (n, rest)) : rest.length ≤ s.length := by
  induction fs generalizing codepoint s with
  | nil =>
    cases h
    exact Nat.le_refl _
  | cons f fs ih =>
    cases s with
    | nil => cases h
    | cons c s =>
      rw [getCodepoint] at h
      cases hc : hexValue c with
      | none => simp [hc] at h
      | some d =>
        simp only [hc] at h
        exact Nat.le_succ_of_le (ih h)

theorem length_nextByteInRange {rs : List (UInt8 × UInt8)} {added added' s rest : Bytes}
    (h : nextByteInRange added rs s = .ok (added', rest)) : rest.length ≤ s.length := by
  induction rs generalizing added s with
  | nil =>
    rw [nextByteInRange] at h
    cases h
    exact Nat.le_refl _
  | cons r rs ih =>
    cases s with
    | nil => cases h
    | cons c s =>
      rw [nextByteInRange] at h
      split at h
      · exact Nat.le_succ_of_le (ih h)
      · cases h

theorem length_scanLowSurrogate {codepoint1 : Nat} {s added rest : Bytes}
    (h : scanLowSurrogate codepoint1 s = .ok (added, rest)) : rest.length ≤ s.length := by
  unfold scanLowSurrogate at h
  split at h
  next b c s =>
    split at h
    · split at h
      · cases h
      next hcodepoint =>
        split at h <;> cases h
        exact (length_getCodepoint hcodepoint).trans (Nat.le_add_right _ 2)
    · cases h
  next => cases h

theorem length_scanUnicode {s added rest : Bytes} (h : scanUnicode s = .ok (added, rest)) :
    rest.length ≤ s.length := by
  rw [scanUnicode] at h
  split at h
  · cases h
  next hcodepoint =>
    have hlength := length_getCodepoint hcodepoint
    split at h
    · exact (length_scanLowSurrogate h).trans hlength
    · split at h <;> cases h
      exact hlength

theorem length_scanChar {b : UInt8} {s added rest : Bytes} (h : scanChar b s = .ok (added, rest)) :
    rest.length ≤ s.length := by
  rw [scanChar] at h
  split at h
  · unfold scanEscape at h
    split at h
    · cases h
    · split at h
      · cases h
        exact Nat.le_succ _
      · split at h
        · exact Nat.le_succ_of_le (length_scanUnicode h)
        · cases h
  · split at h
    · cases h
    · split at h
      · exact length_nextByteInRange h
      · cases h

def scanString (tokenBuffer : Bytes) : Bytes → Except LexError (Bytes × Bytes)
  | [] => .error .missingQuote
  | b :: s =>
    if b = 0x22 then .ok (tokenBuffer, s)
    else
      match _h : scanChar b s with
      | .ok (added, rest) => scanString (tokenBuffer ++ added) rest
      | .error err => .error err
termination_by s => s.length
decreasing_by exact Nat.lt_succ_of_le (length_scanChar _h)

theorem translate_eq_encode (n : Nat) (h : n < 0x110000) : translate n = Utf8.encode n := by
  have hand (m : Nat) : m &&& 0x3f = m % 64 := Nat.and_two_pow_sub_one_eq_mod m 6
  have htail (m : Nat) : 0x80 ||| m % 64 = 0x80 + m % 64 :=
    (Nat.two_pow_add_eq_or_of_lt (i := 7) (by omega) 1).symm
  simp only [translate, Utf8.encode, hand, Nat.shiftRight_eq_div_pow, Nat.reducePow, htail,
    ← Nat.lt_succ_iff]
  split
  · rfl
  split
  · have hlead : 0xc0 ||| n / 64 = 0xc0 + n / 64 :=
      (Nat.two_pow_add_eq_or_of_lt (i := 6) (by omega) 3).symm
    rw [hlead]
  split
  · have hlead : 0xe0 ||| n / 4096 = 0xe0 + n / 4096 :=
      (Nat.two_pow_add_eq_or_of_lt (i := 5) (by omega) 7).symm
    rw [hlead]
  · have hlead : 0xf0 ||| n / 262144 = 0xf0 + n / 262144 :=
      (Nat.two_pow_add_eq_or_of_lt (i := 4) (by omega) 15).symm
    rw [hlead]

theorem hexValue_hexDigit {n : Nat} (h : n < 16) : hexValue (hexDigit n) = some n := by
  revert n
  decide

theorem getCodepoint_unicodeEscape (n : UInt16) (s : Bytes) :
    getCodepoint factors 0 ((unicodeEscape n).drop 2 ++ s) = some (n.toNat, s) := by
  have hn := n.toNat_lt
  have hmod (m : Nat) : m % 16 < 16 := Nat.mod_lt m (by decide)
  have hfirst : n.toNat / 4096 < 16 := by omega
  simp only [unicodeEscape, List.drop_succ_cons, List.drop_zero, List.cons_append, List.nil_append,
    getCodepoint, factors, hexValue_hexDigit hfirst, hexValue_hexDigit (hmod _), Nat.shiftLeft_eq]
  congr 2
  omega

theorem unescape_shortEscape {codepoint : UInt32} {c : UInt8}
    (h : shortEscape codepoint = some c) : unescape c = some codepoint.toUInt8 := by
  rw [shortEscape] at h
  split_ifs at h with hc hc hc hc hc hc hc <;> cases h <;> rw [hc] <;> decide

theorem toNat_high {n : Nat} (hlo : 0x10000 ≤ n) (hhi : n < 0x110000) :
    ((0xd7c0 : UInt32) + (UInt32.ofNat n >>> (10 : UInt32))).toUInt16.toNat =
      0xd7c0 + n / 1024 := by
  simp only [UInt32.toNat_toUInt16, UInt32.toNat_add, UInt32.toNat_shiftRight, UInt32.toNat_ofNat',
    UInt32.reduceToNat, Nat.shiftRight_eq_div_pow, Nat.reduceMod]
  omega

theorem toNat_low {n : Nat} (h : n < 0x110000) :
    ((0xdc00 : UInt32) + (UInt32.ofNat n &&& (0x3ff : UInt32))).toUInt16.toNat =
      0xdc00 + n % 1024 := by
  have hand : n &&& 0x3ff = n % 1024 := Nat.and_two_pow_sub_one_eq_mod n 10
  simp only [UInt32.toNat_toUInt16, UInt32.toNat_add, UInt32.toNat_and, UInt32.toNat_ofNat',
    UInt32.reduceToNat, Nat.mod_eq_of_lt (h.trans (by decide : 0x110000 < 2 ^ 32)), hand]
  omega

theorem toNat_surrogates {high low : Nat} (hhigh : 0xd800 ≤ high ∧ high ≤ 0xdbff)
    (hlow : 0xdc00 ≤ low ∧ low ≤ 0xdfff) :
    (surrogates (.ofNat high) (.ofNat low)).toNat =
      0x10000 + (high - 0xd800) * 0x400 + (low - 0xdc00) := by
  simp only [surrogates, UInt32.toNat_sub, UInt32.toNat_add, UInt32.toNat_shiftLeft,
    UInt32.toNat_ofNat', UInt32.reduceToNat, Nat.shiftLeft_eq, Nat.reduceMod]
  omega

theorem scanUnicode_unicodeEscape {n : Nat} (hn : n < 0xd800 ∨ 0xe000 ≤ n ∧ n < 0x10000)
    {codepoint : UInt16} (h : codepoint.toNat = n) (s : Bytes) :
    scanUnicode ((unicodeEscape codepoint).drop 2 ++ s) = .ok (Utf8.encode n, s) := by
  rw [scanUnicode, getCodepoint_unicodeEscape, h]
  dsimp only
  rw [if_neg (by omega), if_neg (by omega), translate_eq_encode n (by omega)]

theorem scanUnicode_pair {n : Nat} (hlo : 0x10000 ≤ n) (hhi : n < 0x110000) {high low : UInt16}
    (hhigh : high.toNat = 0xd7c0 + n / 1024) (hlow : low.toNat = 0xdc00 + n % 1024) (s : Bytes) :
    scanUnicode ((unicodeEscape high).drop 2 ++ (unicodeEscape low ++ s)) =
      .ok (Utf8.encode n, s) := by
  have hsplit : unicodeEscape low ++ s = 0x5c :: 0x75 :: ((unicodeEscape low).drop 2 ++ s) := rfl
  rw [scanUnicode, getCodepoint_unicodeEscape, hhigh]
  dsimp only
  rw [if_pos (by omega), hsplit, scanLowSurrogate, if_pos ⟨rfl, rfl⟩, getCodepoint_unicodeEscape,
    hlow]
  dsimp only
  have hpair :
      0x10000 + (0xd7c0 + n / 1024 - 0xd800) * 0x400 + (0xdc00 + n % 1024 - 0xdc00) = n := by
    omega
  rw [if_pos (by omega), toNat_surrogates (by omega) (by omega), hpair, translate_eq_encode n hhi]

theorem scanChar_unicode (s : Bytes) : scanChar 0x5c (0x75 :: s) = scanUnicode s := rfl

theorem scanChar_short {b c : UInt8} (h : unescape c = some b) (s : Bytes) :
    scanChar 0x5c (c :: s) = .ok ([b], s) := by
  rw [scanChar, if_pos rfl, scanEscape, h]

theorem ranges_eq (b : UInt8) :
    ranges b =
      if 0x20 ≤ b ∧ b < 0x80 then some []
      else if 0xc2 ≤ b ∧ b < 0xe0 then some [(0x80, 0xbf)]
      else if 0xe0 ≤ b ∧ b < 0xf0 then some [(Utf8.low b, Utf8.high b), (0x80, 0xbf)]
      else if 0xf0 ≤ b ∧ b ≤ 0xf4 then
        some [(Utf8.low b, Utf8.high b), (0x80, 0xbf), (0x80, 0xbf)]
      else none := by
  revert b
  apply forall_uint8
  decide +kernel

theorem scanChar_char {b : UInt8} {u : Bytes} (h : Utf8.Char (b :: u)) (hb : 0x20 ≤ b)
    (hbackslash : b ≠ 0x5c) (s : Bytes) : scanChar b (u ++ s) = .ok (b :: u, s) := by
  rw [scanChar, if_neg hbackslash, if_neg (UInt8.not_lt.mpr hb), ranges_eq]
  cases h with
  | one hb' => grind [nextByteInRange]
  | two hb hb' hc => grind [nextByteInRange, Utf8.tail]
  | three hb hb' hc hc' hd => grind [nextByteInRange, Utf8.tail]
  | four hb hb' hc hc' hd he => grind [nextByteInRange, Utf8.tail]

theorem scanString_scanChar {b : UInt8} (hb : b ≠ 0x22) {s added rest : Bytes}
    (h : scanChar b s = .ok (added, rest)) (tokenBuffer : Bytes) :
    scanString tokenBuffer (b :: s) = scanString (tokenBuffer ++ added) rest := by
  rw [scanString, if_neg hb]
  split <;> simp_all

theorem scalar_lt {u : Bytes} (h : Utf8.Char u) : Utf8.scalar u < 0x110000 := by
  obtain ⟨b, -, hb, hscalar⟩ | ⟨hscalar, -⟩ := Utf8.scalar_cases h
  · exact hscalar ▸ (UInt8.lt_iff_toNat_lt.mp hb).trans (by decide)
  · omega

theorem not_surrogate {u : Bytes} (h : Utf8.Char u) (hlt : Utf8.scalar u < 0x10000) :
    Utf8.scalar u < 0xd800 ∨ 0xe000 ≤ Utf8.scalar u ∧ Utf8.scalar u < 0x10000 := by
  obtain ⟨b, -, hb, hscalar⟩ | ⟨hscalar, -⟩ := Utf8.scalar_cases h
  · exact .inl (hscalar ▸ (UInt8.lt_iff_toNat_lt.mp hb).trans (by decide))
  · omega

theorem eq_singleton_of_lt {u : Bytes} (h : Utf8.Char u) (hlt : Utf8.scalar u < 0x80) :
    u = [.ofNat (Utf8.scalar u)] := by
  obtain ⟨b, rfl, -, hscalar⟩ | ⟨hscalar, -⟩ := Utf8.scalar_cases h
  · rw [hscalar, UInt8.ofNat_toNat]
  · omega

theorem head_of_not_escape {ensureAscii : Bool} {u : Bytes} (h : Utf8.Char u)
    (hescape : escape ensureAscii (.ofNat (Utf8.scalar u)) = none) :
    ∃ b u', u = b :: u' ∧ b ≠ 0x22 ∧ b ≠ 0x5c ∧ 0x20 ≤ b := by
  obtain ⟨b, rfl, hb, hscalar⟩ | ⟨-, hhigh⟩ := Utf8.scalar_cases h
  · refine ⟨b, [], rfl, ?_⟩
    rw [hscalar] at hescape
    clear hscalar h
    revert b
    cases ensureAscii <;> apply forall_uint8 <;> decide +kernel
  · cases u with
    | nil => cases h
    | cons b u =>
      have hb := hhigh b List.mem_cons_self
      exact ⟨b, u, rfl, by grind, by grind, by grind⟩

theorem scanString_escapeChar {u : Bytes} (h : Utf8.Char u) (ensureAscii : Bool)
    (tokenBuffer s : Bytes) :
    scanString tokenBuffer (escapeChar ensureAscii u ++ s) = scanString (tokenBuffer ++ u) s := by
  have hlt := scalar_lt h
  have hencode := Utf8.encode_scalar h
  have hcodepoint : (UInt32.ofNat (Utf8.scalar u)).toNat = Utf8.scalar u :=
    UInt32.toNat_ofNat_of_lt' (hlt.trans (by decide))
  rw [escapeChar]
  cases hescape : escape ensureAscii (.ofNat (Utf8.scalar u)) with
  | none =>
    obtain ⟨b, u, rfl, hquote, hbackslash, hb⟩ := head_of_not_escape h hescape
    exact scanString_scanChar hquote (scanChar_char h hb hbackslash s) tokenBuffer
  | some r =>
    rw [escape] at hescape
    split at hescape
    next c hshort =>
      cases hescape
      have hu := eq_singleton_of_lt h
        (hcodepoint ▸ UInt32.lt_iff_toNat_lt.mp (shortEscape_lt hshort))
      have hscan := scanChar_short (unescape_shortEscape hshort) s
      rw [UInt32.toUInt8_ofNat', ← hu] at hscan
      exact scanString_scanChar (by decide) hscan tokenBuffer
    next =>
      split at hescape
      next =>
        split at hescape
        next hbmp =>
          cases hescape
          have hle : Utf8.scalar u < 0x10000 :=
            Nat.lt_succ_of_le (hcodepoint ▸ UInt32.le_iff_toNat_le.mp hbmp)
          have hmod : (UInt32.ofNat (Utf8.scalar u)).toUInt16.toNat = Utf8.scalar u := by
            rw [UInt32.toNat_toUInt16, hcodepoint, Nat.mod_eq_of_lt hle]
          have hscan := scanUnicode_unicodeEscape (not_surrogate h hle) hmod s
          rw [hencode, ← scanChar_unicode] at hscan
          exact scanString_scanChar (by decide) hscan tokenBuffer
        next hbmp =>
          cases hescape
          have hlo : 0x10000 ≤ Utf8.scalar u :=
            hcodepoint ▸ UInt32.lt_iff_toNat_lt.mp (UInt32.not_le.mp hbmp)
          have hscan := scanUnicode_pair hlo hlt (toNat_high hlo hlt) (toNat_low hlt) s
          rw [hencode, ← scanChar_unicode] at hscan
          exact scanString_scanChar (by decide) hscan tokenBuffer
      next => cases hescape

theorem scanString_chars {us : List Bytes} (h : ∀ u ∈ us, Utf8.Char u) {ensureAscii : Bool}
    (rest : Bytes) :
    scanString [] (us.flatMap (escapeChar ensureAscii) ++ 0x22 :: rest) =
      .ok (us.flatten, rest) := by
  have hgeneral (tokenBuffer : Bytes) :
      scanString tokenBuffer (us.flatMap (escapeChar ensureAscii) ++ 0x22 :: rest) =
        .ok (tokenBuffer ++ us.flatten, rest) := by
    induction us generalizing tokenBuffer with
    | nil =>
      rw [List.flatMap_nil, List.nil_append, scanString, if_pos rfl, List.flatten_nil,
        List.append_nil]
    | cons u us ih =>
      obtain ⟨hu, hus⟩ := List.forall_mem_cons.mp h
      rw [List.flatMap_cons, List.append_assoc, scanString_escapeChar hu, ih hus,
        List.flatten_cons, List.append_assoc]
  exact hgeneral []

theorem scanString_dumpEscaped {ensureAscii : Bool} {s out : Bytes}
    (h : dumpEscaped .strict ensureAscii s = .ok out) (rest : Bytes) :
    scanString [] (out ++ 0x22 :: rest) = .ok (s, rest) := by
  obtain ⟨-, us, hus, rfl, hout⟩ | ⟨-, err, -, herr⟩ :=
    dumpEscaped_strict ensureAscii s
  · obtain rfl := Except.ok.inj (hout.symm.trans h)
    exact scanString_chars hus rest
  · exact absurd (herr.symm.trans h) (by simp)

theorem dumpEscaped_roundTrips (ensureAscii : Bool) (s : Bytes) :
    (Utf8.valid s = true ∧ ∃ out, dumpEscaped .strict ensureAscii s = .ok out ∧
      ∀ rest, scanString [] (out ++ 0x22 :: rest) = .ok (s, rest)) ∨
    (Utf8.valid s = false ∧ ∃ err, err ≠ .overrun ∧
      dumpEscaped .strict ensureAscii s = .error err) := by
  obtain ⟨hvalid, us, -, -, hdump⟩ | herror :=
    dumpEscaped_strict ensureAscii s
  · exact .inl ⟨hvalid, _, hdump, scanString_dumpEscaped hdump⟩
  · exact .inr herror

theorem hexValue_lt {c : UInt8} {d : Nat} (h : hexValue c = some d) : d < 16 := by
  revert h d
  revert c
  apply forall_uint8
  decide +kernel

theorem getCodepoint_lt {s rest : Bytes} {codepoint : Nat}
    (h : getCodepoint factors 0 s = some (codepoint, rest)) : codepoint < 0x10000 := by
  have hgeneral {fs : List Nat} {n codepoint : Nat} {s : Bytes}
      (h : getCodepoint fs n s = some (codepoint, rest)) :
      codepoint ≤ n + (fs.map fun f => 15 <<< f).sum := by
    induction fs generalizing n s with
    | nil =>
      cases h
      exact Nat.le_add_right ..
    | cons f fs ih =>
      cases s with
      | nil => cases h
      | cons c s =>
        rw [getCodepoint] at h
        cases hc : hexValue c with
        | none => simp [hc] at h
        | some d =>
          simp only [hc] at h
          have hd : d <<< f ≤ 15 <<< f := by
            rw [Nat.shiftLeft_eq, Nat.shiftLeft_eq]
            exact Nat.mul_le_mul_right _ (Nat.le_of_lt_succ (hexValue_lt hc))
          have hrest := ih h
          rw [List.map_cons, List.sum_cons]
          omega
  exact Nat.lt_succ_of_le (hgeneral h)

theorem char_translate {n : Nat} (h : n < 0xd800 ∨ 0xe000 ≤ n ∧ n < 0x110000) :
    Utf8.Char (translate n) :=
  translate_eq_encode n (by omega) ▸ Utf8.char_encode h

theorem char_scanUnicode {s added rest : Bytes} (h : scanUnicode s = .ok (added, rest)) :
    Utf8.Char added := by
  rw [scanUnicode] at h
  split at h
  · cases h
  next codepoint1 s hcodepoint =>
    have hlt := getCodepoint_lt hcodepoint
    split at h
    next h1 =>
      unfold scanLowSurrogate at h
      split at h
      · split at h
        · split at h
          · cases h
          · split at h
            next h2 =>
              cases h
              have hpair := toNat_surrogates h1 h2
              exact char_translate (by omega)
            next => cases h
        · cases h
      · cases h
    next h1 =>
      split at h
      · cases h
      next h2 =>
        cases h
        exact char_translate (by omega)

theorem unescape_lt {c b : UInt8} (h : unescape c = some b) : b < 0x80 := by
  rw [unescape] at h
  grind

theorem nextByteInRange_forall₂ {rs : List (UInt8 × UInt8)} {added added' s rest : Bytes}
    (h : nextByteInRange added rs s = .ok (added', rest)) :
    ∃ cs, added' = added ++ cs ∧ s = cs ++ rest ∧
      List.Forall₂ (fun r c => r.1 ≤ c ∧ c ≤ r.2) rs cs := by
  induction rs generalizing added s with
  | nil =>
    rw [nextByteInRange] at h
    cases h
    exact ⟨[], (List.append_nil _).symm, rfl, .nil⟩
  | cons r rs ih =>
    cases s with
    | nil => cases h
    | cons c s =>
      rw [nextByteInRange] at h
      split at h
      next hc =>
        obtain ⟨cs, hadded, rfl, hcs⟩ := ih h
        exact ⟨c :: cs, hadded.trans (List.append_assoc ..), rfl, .cons hc hcs⟩
      next => cases h

theorem char_nextByteInRange {b : UInt8} {rs : List (UInt8 × UInt8)} (hrs : ranges b = some rs)
    {s added rest : Bytes} (h : nextByteInRange [b] rs s = .ok (added, rest)) :
    Utf8.Char added := by
  obtain ⟨cs, rfl, -, hcs⟩ := nextByteInRange_forall₂ h
  rw [ranges_eq] at hrs
  split_ifs at hrs with h1 h2 h3 h4 <;> cases hrs
  · cases hcs
    exact .one h1.2
  · obtain _ | ⟨hc, _ | _⟩ := hcs
    exact .two h2.1 h2.2 hc
  · obtain _ | ⟨hc, _ | ⟨hd, _ | _⟩⟩ := hcs
    exact .three h3.1 h3.2 hc.1 hc.2 hd
  · obtain _ | ⟨hc, _ | ⟨hd, _ | ⟨he, _ | _⟩⟩⟩ := hcs
    exact .four h4.1 h4.2 hc.1 hc.2 hd he

theorem char_scanChar {b : UInt8} {s added rest : Bytes} (h : scanChar b s = .ok (added, rest)) :
    Utf8.Char added := by
  rw [scanChar] at h
  split at h
  · unfold scanEscape at h
    split at h
    · cases h
    · split at h
      next hescape =>
        cases h
        exact .one (unescape_lt hescape)
      next =>
        split at h
        · exact char_scanUnicode h
        · cases h
  · split at h
    · cases h
    · split at h
      next hrs => exact char_nextByteInRange hrs h
      next => cases h

theorem valid_scanString {tokenBuffer s text rest : Bytes} (hvalid : Utf8.valid tokenBuffer = true)
    (h : scanString tokenBuffer s = .ok (text, rest)) : Utf8.valid text = true := by
  fun_induction scanString tokenBuffer s with
  | case1 => cases h
  | case2 =>
    cases h
    exact hvalid
  | case3 tokenBuffer b s hquote added rest hscan ih =>
    have hadded : Utf8.Chars added := added.append_nil ▸ .cons (char_scanChar hscan) .nil
    exact ih (Utf8.valid_append hvalid (Utf8.valid_iff_chars.mpr hadded)) h
  | case4 => cases h

end Kungfu.Nlohmann
