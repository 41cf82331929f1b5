import Kungfu.Nlohmann.StringGrammar
import Kungfu.Nlohmann.TokenGrammar

namespace Kungfu.Nlohmann

open Kungfu.Lib JsonText JsonGrammar

section Numbers

variable {strtod : Bytes → BitVec 64}

def readInt (w : Bytes) : Int := if w.head? = some 0x2d then -readNat w.tail else readNat w

/-- A number with a fraction or exponent, or without room in 64 bits. -/
def IsDouble (w : Bytes) : Prop :=
  w.any isMark = true ∨ readInt w < -2 ^ 63 ∨ 2 ^ 64 ≤ readInt w

inductive NumberText (strtod : Bytes → BitVec 64) : Bytes → Json → Prop
  | integer : IsNumber w → w.any isMark = false → -2 ^ 63 ≤ readInt w → readInt w < 2 ^ 64 →
    NumberText strtod w (.int (readInt w))
  | double : IsNumber w → IsDouble w → Json.finite (strtod w) = true →
    NumberText strtod w (.float (strtod w))

theorem convert_integer {w : Bytes} (hmark : w.any isMark = false) (hlo : -2 ^ 63 ≤ readInt w)
    (hhi : readInt w < 2 ^ 64) :
    (convert strtod (numberType w) w).scalar = some (.int (readInt w)) ∧
      (convert strtod (numberType w) w).overflows = false := by
  rw [numberType, hmark, if_neg Bool.false_ne_true]
  rw [readInt] at hlo hhi ⊢
  split at hlo
  next hminus =>
    rw [if_pos hminus] at hhi ⊢
    rw [if_pos hminus, convert, strtoll, if_pos (by omega)]
    refine ⟨congrArg (some ∘ Json.int) (Int64.toInt_ofInt_of_le hlo ?_), rfl⟩
    omega
  next hminus =>
    rw [if_neg hminus] at hhi ⊢
    have hroom : readNat w < 2 ^ 64 := Int.ofNat_lt.mp hhi
    rw [if_neg hminus, convert, strtoull, if_pos hroom]
    exact ⟨congrArg (some ∘ Json.int) (congrArg Nat.cast (UInt64.toNat_ofNat_of_lt' hroom)), rfl⟩

theorem convert_double {w : Bytes} (h : IsDouble w) :
    convert strtod (numberType w) w = .valueFloat (strtod w) := by
  rw [numberType]
  split
  next => rfl
  next hmark =>
    have hroom := h.resolve_left hmark
    rw [readInt] at hroom
    split
    next hminus =>
      rw [if_pos hminus] at hroom
      rw [convert, strtoll, if_neg (by omega)]
    next hminus =>
      rw [if_neg hminus] at hroom
      rw [convert, strtoull, if_neg (by omega)]

theorem isDouble_or (w : Bytes) :
    IsDouble w ∨ w.any isMark = false ∧ -2 ^ 63 ≤ readInt w ∧ readInt w < 2 ^ 64 := by
  rw [IsDouble]
  cases w.any isMark with
  | true => exact .inl (.inl rfl)
  | false =>
    simp only [Bool.false_eq_true, false_or, true_and]
    omega

theorem numberText_iff {w : Bytes} {j : Json} :
    NumberText strtod w j ↔ IsNumber w ∧ (convert strtod (numberType w) w).scalar = some j ∧
      (convert strtod (numberType w) w).overflows = false := by
  constructor
  · intro h
    cases h with
    | integer hw hmark hlo hhi => exact ⟨hw, convert_integer hmark hlo hhi⟩
    | double hw hdouble hfinite =>
      rw [convert_double hdouble, Token.overflows, hfinite]
      exact ⟨hw, rfl, rfl⟩
  · rintro ⟨hw, hscalar, hfinite⟩
    obtain hdouble | ⟨hmark, hlo, hhi⟩ := isDouble_or w
    · rw [convert_double hdouble] at hscalar hfinite
      rw [Token.overflows, Bool.not_eq_false'] at hfinite
      cases hscalar
      exact .double hw hdouble hfinite
    · cases (convert_integer hmark hlo hhi).1.symm.trans hscalar
      exact .integer hw hmark hlo hhi

end Numbers

inductive Lexeme (strtod : Bytes → BitVec 64) : Bytes → Token → Prop
  | structural : structural c = some t → Lexeme strtod [c] t
  | literal : literal c = some (t, literalText) → Lexeme strtod (c :: literalText) t
  | string : Characters w text → Lexeme strtod (quote :: (w ++ [quote])) (.valueString text)
  | number : IsNumber w → Lexeme strtod w (convert strtod (numberType w) w)

section Lexemes

variable {strtod : Bytes → BitVec 64}

theorem isWhitespace_iff {c : UInt8} :
    isWhitespace c = true ↔ c = 0x20 ∨ c = 0x09 ∨ c = 0x0a ∨ c = 0x0d :=
  decide_eq_true_iff

theorem tokens_space {l : Bytes} (hl : Space l) (s : Bytes) :
    tokens strtod (l ++ s) = tokens strtod s := by
  induction l with
  | nil => rfl
  | cons c l ih =>
    obtain ⟨hc, hl⟩ := List.forall_mem_cons.mp hl
    have hscan : scan strtod (c :: (l ++ s)) = scan strtod (l ++ s) :=
      if_pos (isWhitespace_iff.mpr hc)
    rw [List.cons_append, tokens_eq, hscan, ← tokens_eq, ih hl]

theorem stands_convert (strtod : Bytes → BitVec 64) (type : NumberType) (w : Bytes) :
    (convert strtod type w).stands = true := by
  cases type with
  | float => rfl
  | unsigned | integer =>
    rw [convert]
    split <;> rfl

theorem tokens_lexeme {w : Bytes} {t : Token} (h : Lexeme strtod w t) {s : Bytes} (hs : Ends s) :
    tokens strtod (w ++ s) = t :: tokens strtod s := by
  cases h with
  | structural ht => exact tokens_structural ht s
  | literal ht => exact tokens_literal ht s
  | string hw =>
    rw [List.cons_append, List.append_assoc]
    exact tokens_string (scanString_characters hw [] s)
  | number hw =>
    obtain ⟨c, w, rfl, hc⟩ := exists_cons_of_isNumber hw
    have hend : convert strtod (numberType (c :: w)) (c :: w) ≠ .endOfInput := by
      intro hend
      have hstands := stands_convert strtod (numberType (c :: w)) (c :: w)
      rw [hend] at hstands
      cases hstands
    rw [List.cons_append]
    refine tokens_number hc hend ?_
    rw [scanNumber, scan_of_isNumber hc hw hs]

theorem eq_append_of_scanLiteral {returnType t : Token} {literalText s rest : Bytes}
    (h : scanLiteral returnType literalText s = .ok (t, rest)) : s = literalText ++ rest := by
  induction literalText generalizing s with
  | nil =>
    rw [scanLiteral] at h
    cases h
    rfl
  | cons l literalText ih =>
    cases s with
    | nil => cases h
    | cons c s =>
      rw [scanLiteral] at h
      split at h
      next hc => rw [ih h, hc, List.cons_append]
      next => cases h

theorem lexeme_scanToken {c : UInt8} {s rest : Bytes} {t : Token}
    (h : scanToken strtod c s = .ok (t, rest)) :
    (∃ w, c :: s = w ++ rest ∧ Lexeme strtod w t) ∨ c = 0 ∧ t = .endOfInput := by
  rw [scanToken] at h
  split at h
  next ht =>
    cases h
    exact .inl ⟨[c], rfl, .structural ht⟩
  next ht =>
    cases eq_of_scanLiteral h
    rw [eq_append_of_scanLiteral h]
    exact .inl ⟨_, rfl, .literal ht⟩
  next =>
    split at h
    next hquote =>
      split at h <;> cases h
      next hscan =>
        obtain ⟨w, _, rfl, rfl, hw⟩ := characters_scanString hscan
        refine .inl ⟨quote :: (w ++ [quote]), ?_, .string hw⟩
        rw [hquote, List.cons_append, List.append_assoc]
        rfl
    next =>
      split at h
      next hc =>
        rw [scanNumber] at h
        split at h <;> cases h
        next hscan =>
          obtain ⟨happend, hw, rfl⟩ := isNumber_of_scan hc hscan
          exact .inl ⟨_, happend, .number hw⟩
      next =>
        split at h <;> cases h
        next hc => exact .inr ⟨hc, rfl⟩

theorem lexeme_scan {s rest : Bytes} {t : Token} (h : scan strtod s = .ok (t, rest)) :
    ∃ l s', s = l ++ s' ∧ Space l ∧
      ((∃ w, s' = w ++ rest ∧ Lexeme strtod w t) ∨ (∀ c ∈ s'.head?, c = 0) ∧ t = .endOfInput) := by
  induction s with
  | nil =>
    cases h
    exact ⟨[], [], rfl, space_nil, .inr ⟨by simp, rfl⟩⟩
  | cons c s ih =>
    rw [scan] at h
    split at h
    next hc =>
      obtain ⟨l, s', rfl, hl, hs⟩ := ih h
      exact ⟨c :: l, s', rfl, List.forall_mem_cons.mpr ⟨isWhitespace_iff.mp hc, hl⟩, hs⟩
    next =>
      refine ⟨[], c :: s, rfl, space_nil, ?_⟩
      obtain h | ⟨rfl, rfl⟩ := lexeme_scanToken h
      · exact .inl h
      · exact .inr ⟨fun c hc => (Option.some.inj hc).symm, rfl⟩

theorem lexeme_tokens {s : Bytes} {t : Token} {ts : List Token}
    (h : tokens strtod s = t :: ts) (ht : t.stands = true) :
    ∃ l w s', s = l ++ (w ++ s') ∧ Space l ∧ Lexeme strtod w t ∧ tokens strtod s' = ts := by
  rw [tokens_eq] at h
  split at h
  next hscan =>
    obtain ⟨l, s, rfl, hl, ⟨w, rfl, hw⟩ | ⟨-, rfl⟩⟩ := lexeme_scan hscan
    · split at h <;> cases h
      next hend =>
        subst hend
        cases ht
      next => exact ⟨l, w, _, rfl, hl, hw, rfl⟩
    · cases h
      cases ht
  next =>
    cases h
    cases ht

theorem structural_inj {c d : UInt8} {t : Token} (hc : structural c = some t)
    (hd : structural d = some t) : c = d := by
  rw [structural] at hc hd
  split_ifs at hc <;> cases hc <;> split_ifs at hd <;> simp_all

theorem structural_stands {c : UInt8} {t : Token} (h : structural c = some t) :
    t.stands = true ∧ t.scalar = none := by
  rw [structural] at h
  split_ifs at h <;> cases h <;> exact ⟨rfl, rfl⟩

theorem literal_value (strtod : Bytes → BitVec 64) {c : UInt8} {t : Token} {literalText : Bytes}
    (h : literal c = some (t, literalText)) :
    t.stands = true ∧ ∃ v, t.scalar = some v ∧ Value (NumberText strtod) (c :: literalText) v := by
  rw [literal] at h
  split_ifs at h with hc hc hc <;> cases h <;> subst hc
  · exact ⟨rfl, _, rfl, .true⟩
  · exact ⟨rfl, _, rfl, .false⟩
  · exact ⟨rfl, _, rfl, .null⟩

theorem stands_of_lexeme {w : Bytes} {t : Token} (h : Lexeme strtod w t) : t.stands = true := by
  cases h with
  | structural ht => exact (structural_stands ht).1
  | literal ht => exact (literal_value strtod ht).1
  | string => rfl
  | number => exact stands_convert ..

theorem space_of_end {s : Bytes} (h : front (tokens strtod s) = .endOfInput) :
    ∃ l r, s = l ++ r ∧ Space l ∧ ∀ c ∈ r.head?, c = 0 := by
  rw [tokens_eq] at h
  split at h
  next t rest hscan =>
    have ht : t = .endOfInput := by
      split at h
      next ht => exact ht
      next => exact h
    obtain ⟨l, s, rfl, hl, ⟨w, rfl, hw⟩ | ⟨hs, -⟩⟩ := lexeme_scan hscan
    · cases ht
      cases stands_of_lexeme hw
    · exact ⟨l, s, rfl, hl, hs⟩
  next => cases h

theorem eq_singleton_of_lexeme {w : Bytes} {c : UInt8} {t : Token} (h : Lexeme strtod w t)
    (hc : structural c = some t) : w = [c] := by
  have hscalar := (structural_stands hc).2
  cases h with
  | structural ht => rw [structural_inj ht hc]
  | literal ht =>
    obtain ⟨-, v, hv, -⟩ := literal_value strtod ht
    rw [hv] at hscalar
    cases hscalar
  | string => cases hscalar
  | number => exact absurd hscalar (scalar_convert strtod _ _)

theorem value_of_lexeme {w : Bytes} {t : Token} {v : Json} (h : Lexeme strtod w t)
    (hv : t.scalar = some v) (hfinite : t.overflows = false) : Value (NumberText strtod) w v := by
  cases h with
  | structural ht => cases (structural_stands ht).2.symm.trans hv
  | literal ht =>
    obtain ⟨-, v', hv', hvalue⟩ := literal_value strtod ht
    cases hv'.symm.trans hv
    exact hvalue
  | string hw =>
    cases hv
    exact .string hw
  | number hw => exact .number (numberText_iff.mpr ⟨hw, hv, hfinite⟩)

end Lexemes

section Sound

variable {strtod : Bytes → BitVec 64}

theorem structural_tokens {s : Bytes} {t : Token} {ts : List Token}
    (h : tokens strtod s = t :: ts) {c : UInt8} (hc : structural c = some t) :
    ∃ l s', s = l ++ c :: s' ∧ Space l ∧ tokens strtod s' = ts := by
  obtain ⟨l, w, s', rfl, hl, hw, hs⟩ := lexeme_tokens h (structural_stands hc).1
  cases eq_singleton_of_lexeme hw hc
  exact ⟨l, s', rfl, hl, hs⟩

theorem characters_of_lexeme {w k : Bytes} (h : Lexeme strtod w (.valueString k)) :
    ∃ v, w = quote :: (v ++ [quote]) ∧ Characters v k := by
  generalize ht : Token.valueString k = t at h
  cases h with
  | structural hc =>
    subst ht
    cases (structural_stands hc).2
  | literal hc =>
    rw [literal] at hc
    split_ifs at hc <;> cases hc <;> cases ht
  | string hw =>
    cases ht
    exact ⟨_, rfl, hw⟩
  | @number w =>
    generalize numberType w = type at ht
    cases type with
    | float => cases ht
    | unsigned | integer =>
      rw [convert] at ht
      split at ht <;> cases ht

theorem key_tokens {s k : Bytes} {ts : List Token}
    (h : tokens strtod s = .valueString k :: .nameSeparator :: ts) :
    ∃ l w r s', s = l ++ quote :: (w ++ quote :: (r ++ colon :: s')) ∧ Space l ∧
      Characters w k ∧ Space r ∧ tokens strtod s' = ts := by
  obtain ⟨l, w, s, rfl, hl, hw, hcolon⟩ := lexeme_tokens h rfl
  obtain ⟨w, rfl, hk⟩ := characters_of_lexeme hw
  obtain ⟨r, s, rfl, hr, hs⟩ := structural_tokens (c := colon) hcolon rfl
  exact ⟨l, w, r, s, by simp, hl, hk, hr, hs⟩

mutual

theorem Derives.text : ∀ {ts : List Token} {j : Json}, Derives ts j → ∀ {s : Bytes}
    {us : List Token}, tokens strtod s = ts ++ us →
      ∃ l w s', s = l ++ (w ++ s') ∧ Space l ∧ Value (NumberText strtod) w j ∧
        tokens strtod s' = us
  | _, _, .scalar ht hfinite, s, us, h => by
    obtain ⟨l, w, s', rfl, hl, hw, hs⟩ := lexeme_tokens h (stands_of_scalar ht)
    exact ⟨l, w, s', rfl, hl, value_of_lexeme hw ht hfinite, hs⟩
  | _, _, .emptyArray, s, us, h => by
    obtain ⟨l, s, rfl, hl, h⟩ := structural_tokens (c := openArr) h rfl
    obtain ⟨r, s, rfl, hr, h⟩ := structural_tokens (c := closeArr) h rfl
    exact ⟨l, _, s, by simp, hl, .emptyArray hr, h⟩
  | _, _, .array hxs, s, us, h => by
    rw [List.cons_append, List.append_assoc] at h
    obtain ⟨l, s, rfl, hl, h⟩ := structural_tokens (c := openArr) h rfl
    obtain ⟨w, s, rfl, hw, h⟩ := hxs.text h
    exact ⟨l, _, s, by simp, hl, .array hw, h⟩
  | _, _, .emptyObject, s, us, h => by
    obtain ⟨l, s, rfl, hl, h⟩ := structural_tokens (c := openObj) h rfl
    obtain ⟨r, s, rfl, hr, h⟩ := structural_tokens (c := closeObj) h rfl
    exact ⟨l, _, s, by simp, hl, .emptyObject hr, h⟩
  | _, _, .object hms, s, us, h => by
    rw [List.cons_append, List.append_assoc] at h
    obtain ⟨l, s, rfl, hl, h⟩ := structural_tokens (c := openObj) h rfl
    obtain ⟨w, s, rfl, hw, h⟩ := hms.text h
    exact ⟨l, _, s, by simp, hl, .object hw, h⟩

theorem DerivesItems.text : ∀ {ts : List Token} {xs : List Json}, DerivesItems ts xs →
    ∀ {s : Bytes} {us : List Token}, tokens strtod s = ts ++ .endArray :: us →
      ∃ w s', s = w ++ closeArr :: s' ∧ Elements (NumberText strtod) w xs ∧ tokens strtod s' = us
  | _, _, .one hx, s, us, h => by
    obtain ⟨l, w, s, rfl, hl, hw, h⟩ := hx.text h
    obtain ⟨r, s, rfl, hr, h⟩ := structural_tokens (c := closeArr) h rfl
    exact ⟨_, s, by simp, .one (.mk hl hw hr), h⟩
  | _, _, .cons hx hxs, s, us, h => by
    rw [List.append_assoc] at h
    obtain ⟨l, w, s, rfl, hl, hw, h⟩ := hx.text h
    obtain ⟨r, s, rfl, hr, h⟩ := structural_tokens (c := comma) h rfl
    obtain ⟨ws, s, rfl, hws, h⟩ := hxs.text h
    exact ⟨_, s, by simp, .cons (.mk hl hw hr) hws, h⟩

theorem DerivesMembers.text : ∀ {ts : List Token} {ms : List Json.Member}, DerivesMembers ts ms →
    ∀ {s : Bytes} {us : List Token}, tokens strtod s = ts ++ .endObject :: us →
      ∃ w s', s = w ++ closeObj :: s' ∧ Members (NumberText strtod) w ms ∧ tokens strtod s' = us
  | _, _, .one hx, s, us, h => by
    obtain ⟨l, k, m, s, rfl, hl, hk, hm, h⟩ := key_tokens h
    obtain ⟨l', w, s, rfl, hl', hw, h⟩ := hx.text h
    obtain ⟨r, s, rfl, hr, h⟩ := structural_tokens (c := closeObj) h rfl
    exact ⟨_, s, by simp, .one (.mk hl hk hm (.mk hl' hw hr)), h⟩
  | _, _, .cons hx hms, s, us, h => by
    rw [List.cons_append, List.cons_append, List.append_assoc] at h
    obtain ⟨l, k, m, s, rfl, hl, hk, hm, h⟩ := key_tokens h
    obtain ⟨l', w, s, rfl, hl', hw, h⟩ := hx.text h
    obtain ⟨r, s, rfl, hr, h⟩ := structural_tokens (c := comma) h rfl
    obtain ⟨ws, s, rfl, hws, h⟩ := hms.text h
    exact ⟨_, s, by simp, .cons (.mk hl hk hm (.mk hl' hw hr)) hws, h⟩

end

end Sound

section Complete

variable {strtod : Bytes → BitVec 64}

def Lexes (strtod : Bytes → BitVec 64) (w : Bytes) (ts : List Token) : Prop :=
  ∀ s, Ends s → tokens strtod (w ++ s) = ts ++ tokens strtod s

theorem ends_space {r s : Bytes} (hr : Space r) (hs : Ends s) : Ends (r ++ s) := by
  cases r with
  | nil => exact hs
  | cons c r =>
    refine ends_cons ?_ _
    obtain rfl | rfl | rfl | rfl := hr c List.mem_cons_self <;> exact ⟨rfl, rfl⟩

theorem lexes_lexeme {w : Bytes} {t : Token} (h : Lexeme strtod w t) : Lexes strtod w [t] :=
  fun _ hs => tokens_lexeme h hs

theorem Lexes.separate {w ws : Bytes} {ts us : List Token} {c : UInt8} {t : Token}
    (h : Lexes strtod w ts) (hc : structural c = some t) (hws : Lexes strtod ws us) :
    Lexes strtod (w ++ c :: ws) (ts ++ t :: us) := by
  have hends : isDigit c = false ∧ isMark c = false := by
    rw [structural] at hc
    split_ifs at hc with h h h h h h <;> subst h <;> exact ⟨rfl, rfl⟩
  intro s hs
  rw [List.append_assoc, List.append_assoc, List.cons_append, h _ (ends_cons hends _),
    tokens_structural hc, hws s hs, List.cons_append]

theorem Lexes.element {l w r : Bytes} {ts : List Token} (hl : Space l) (h : Lexes strtod w ts)
    (hr : Space r) : Lexes strtod (l ++ (w ++ r)) ts := by
  intro s hs
  rw [List.append_assoc, List.append_assoc, tokens_space hl, h _ (ends_space hr hs),
    tokens_space hr]

theorem lexes_space {w : Bytes} (h : Space w) : Lexes strtod w [] := fun s _ => tokens_space h s

theorem Lexes.brackets {w : Bytes} {ts : List Token} {c d : UInt8} {t u : Token}
    (hc : structural c = some t) (h : Lexes strtod w ts) (hd : structural d = some u) :
    Lexes strtod (c :: (w ++ [d])) (t :: (ts ++ [u])) :=
  (lexes_space space_nil).separate hc (h.separate hd (lexes_space space_nil))

theorem Lexes.member {l k key r w : Bytes} {ts : List Token} (hl : Space l)
    (hk : Characters k key) (hr : Space r) (h : Lexes strtod w ts) :
    Lexes strtod (l ++ quote :: (k ++ quote :: (r ++ colon :: w)))
      (.valueString key :: .nameSeparator :: ts) := by
  have hkey : Lexes strtod (l ++ (quote :: (k ++ [quote]) ++ r)) [.valueString key] :=
    .element hl (lexes_lexeme (.string hk)) hr
  have hmember := hkey.separate (c := colon) rfl h
  simpa using hmember

theorem exists_token {w : Bytes} {j : Json} (h : NumberText strtod w j) :
    ∃ t, t.scalar = some j ∧ t.overflows = false ∧ Lexeme strtod w t := by
  obtain ⟨hw, hscalar, hfinite⟩ := numberText_iff.mp h
  exact ⟨_, hscalar, hfinite, .number hw⟩

mutual

theorem derives_value : ∀ {w : Bytes} {j : Json}, Value (NumberText strtod) w j →
    ∃ ts, Derives ts j ∧ Lexes strtod w ts
  | _, _, .null => ⟨[.literalNull], .scalar rfl rfl, lexes_lexeme (.literal rfl)⟩
  | _, _, .true => ⟨[.literalTrue], .scalar rfl rfl, lexes_lexeme (.literal rfl)⟩
  | _, _, .false => ⟨[.literalFalse], .scalar rfl rfl, lexes_lexeme (.literal rfl)⟩
  | _, _, .number hw => by
    obtain ⟨t, hscalar, hfinite, ht⟩ := exists_token hw
    exact ⟨[t], .scalar hscalar hfinite, lexes_lexeme ht⟩
  | _, _, .string hw => ⟨[.valueString _], .scalar rfl rfl, lexes_lexeme (.string hw)⟩
  | _, _, .emptyArray hw => ⟨_, .emptyArray, .brackets rfl (lexes_space hw) rfl⟩
  | _, _, .array hw => by
    obtain ⟨ts, hxs, hts⟩ := derives_elements hw
    exact ⟨_, .array hxs, .brackets rfl hts rfl⟩
  | _, _, .emptyObject hw => ⟨_, .emptyObject, .brackets rfl (lexes_space hw) rfl⟩
  | _, _, .object hw => by
    obtain ⟨ts, hms, hts⟩ := derives_members hw
    exact ⟨_, .object hms, .brackets rfl hts rfl⟩

theorem derives_element : ∀ {w : Bytes} {j : Json}, Element (NumberText strtod) w j →
    ∃ ts, Derives ts j ∧ Lexes strtod w ts
  | _, _, .mk hl hw hr => by
    obtain ⟨ts, hj, hts⟩ := derives_value hw
    exact ⟨ts, hj, .element hl hts hr⟩

theorem derives_elements : ∀ {w : Bytes} {xs : List Json}, Elements (NumberText strtod) w xs →
    ∃ ts, DerivesItems ts xs ∧ Lexes strtod w ts
  | _, _, .one hw => by
    obtain ⟨ts, hx, hts⟩ := derives_element hw
    exact ⟨ts, .one hx, hts⟩
  | _, _, .cons hw hws => by
    obtain ⟨ts, hx, hts⟩ := derives_element hw
    obtain ⟨us, hxs, hus⟩ := derives_elements hws
    exact ⟨_, .cons hx hxs, hts.separate rfl hus⟩

theorem derives_member : ∀ {w : Bytes} {m : Json.Member}, Member (NumberText strtod) w m →
    ∃ ts, Derives ts m.2 ∧ Lexes strtod w (.valueString m.1 :: .nameSeparator :: ts)
  | _, _, .mk hl hk hr hw => by
    obtain ⟨ts, hx, hts⟩ := derives_element hw
    exact ⟨ts, hx, .member hl hk hr hts⟩

theorem derives_members : ∀ {w : Bytes} {ms : List Json.Member},
    Members (NumberText strtod) w ms → ∃ ts, DerivesMembers ts ms ∧ Lexes strtod w ts
  | _, _, .one hw => by
    obtain ⟨ts, hx, hts⟩ := derives_member hw
    exact ⟨_, .one hx, hts⟩
  | _, _, .cons hw hws => by
    obtain ⟨ts, hx, hts⟩ := derives_member hw
    obtain ⟨us, hms, hus⟩ := derives_members hws
    exact ⟨_, .cons hx hms, hts.separate rfl hus⟩

end

end Complete

def Bom (b : Bytes) : Prop := b = [] ∨ b = [0xef, 0xbb, 0xbf]

theorem bom_of_skipBom {s s' : Bytes} (h : skipBom s = .ok s') : ∃ b, s = b ++ s' ∧ Bom b := by
  unfold skipBom at h
  split at h
  · split at h
    next hfirst =>
      split at h
      · split at h
        next hrest =>
          cases h
          obtain ⟨rfl, rfl⟩ := hrest
          exact ⟨[0xef, 0xbb, 0xbf], hfirst ▸ rfl, .inr rfl⟩
        next => cases h
      · cases h
    next =>
      cases h
      exact ⟨[], rfl, .inl rfl⟩
  · cases h
    exact ⟨[], rfl, .inl rfl⟩

theorem lex_of_tokens {strtod : Bytes → BitVec 64} {b s : Bytes} (hb : Bom b) {t : Token}
    {ts : List Token} (h : tokens strtod s = t :: ts) (ht : t.stands = true) :
    lex strtod (b ++ s) = t :: ts := by
  have hskip : skipBom (b ++ s) = .ok s := by
    obtain rfl | rfl := hb
    · cases s with
      | nil => rfl
      | cons c s =>
        refine if_neg ?_
        rintro rfl
        rw [tokens_eq] at h
        cases h
        cases ht
    · rfl
  rw [lex, hskip]
  exact h

theorem parse_grammar (strtod : Bytes → BitVec 64) (s : Bytes) (j : Json) :
    parse strtod s = .ok j ↔
      ∃ b w r, s = b ++ (w ++ r) ∧ Bom b ∧ Element (NumberText strtod) w j ∧
        ∀ c ∈ r.head?, c = 0 := by
  rw [parse_iff_derives]
  constructor
  · rintro ⟨ts, us, hlex, hts, hus⟩
    rw [lex] at hlex
    split at hlex
    next s' hskip =>
      obtain ⟨b, rfl, hb⟩ := bom_of_skipBom hskip
      obtain ⟨l, w, s, rfl, hl, hw, rfl⟩ := hts.text hlex
      obtain ⟨r, e, rfl, hr, he⟩ := space_of_end hus
      exact ⟨b, l ++ (w ++ r), e, by simp, hb, .mk hl hw hr, he⟩
    next =>
      obtain ⟨t, us, rfl, -, ht⟩ := hts.exists_cons
      rw [← (List.cons.inj hlex).1] at ht
      cases ht
  · rintro ⟨b, w, r, rfl, hb, hw, hr⟩
    obtain ⟨ts, hj, hts⟩ := derives_element hw
    have hends : Ends r := by
      intro c hc
      rw [hr c hc]
      exact ⟨rfl, rfl⟩
    have hread := hts r hends
    obtain ⟨t, us, rfl, -, ht⟩ := hj.exists_cons
    refine ⟨t :: us, tokens strtod r, lex_of_tokens hb hread ht, hj, ?_⟩
    cases r with
    | nil =>
      rw [tokens_nil]
      rfl
    | cons c r =>
      rw [hr c rfl, tokens_eq]
      rfl

end Kungfu.Nlohmann
