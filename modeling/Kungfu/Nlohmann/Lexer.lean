import Kungfu.Nlohmann.ScanNumber

namespace Kungfu.Nlohmann

open Kungfu.Lib JsonText

def isWhitespace (c : UInt8) : Bool := c = 0x20 ∨ c = 0x09 ∨ c = 0x0a ∨ c = 0x0d

def scanLiteral (returnType : Token) : Bytes → Bytes → Except LexError (Token × Bytes)
  | [], s => .ok (returnType, s)
  | _ :: _, [] => .error .literal
  | l :: literalText, c :: s =>
    if c = l then scanLiteral returnType literalText s else .error .literal

def skipBom : Bytes → Except LexError Bytes
  | c :: s =>
    if c = 0xef then
      match s with
      | d :: e :: s => if d = 0xbb ∧ e = 0xbf then .ok s else .error .bom
      | _ => .error .bom
    else .ok (c :: s)
  | [] => .ok []

def structural (c : UInt8) : Option Token :=
  if c = openArr then some .beginArray
  else if c = closeArr then some .endArray
  else if c = openObj then some .beginObject
  else if c = closeObj then some .endObject
  else if c = colon then some .nameSeparator
  else if c = comma then some .valueSeparator
  else none

def literal (c : UInt8) : Option (Token × Bytes) :=
  if c = 0x74 then some (.literalTrue, rue)
  else if c = 0x66 then some (.literalFalse, alse)
  else if c = 0x6e then some (.literalNull, ull)
  else none

section Scan

variable (strtod : Bytes → BitVec 64)

def scanToken (current : UInt8) (s : Bytes) : Except LexError (Token × Bytes) :=
  match structural current, literal current with
  | some t, _ => .ok (t, s)
  | none, some (t, literalText) => scanLiteral t literalText s
  | none, none =>
    if current = quote then
      match scanString [] s with
      | .ok (text, rest) => .ok (.valueString text, rest)
      | .error err => .error err
    else if current = 0x2d ∨ isDigit current = true then scanNumber strtod current s
    else if current = 0 then .ok (.endOfInput, s)
    else .error .literal

/-- `scan` behind a BOM, with the input behind the token. -/
def scan : Bytes → Except LexError (Token × Bytes)
  | [] => .ok (.endOfInput, [])
  | c :: s => if isWhitespace c then scan s else scanToken strtod c s

theorem length_scanLiteral {returnType t : Token} {literalText s rest : Bytes}
    (h : scanLiteral returnType literalText s = .ok (t, rest)) : rest.length ≤ s.length := by
  induction literalText generalizing s with
  | nil =>
    rw [scanLiteral] at h
    cases h
    exact Nat.le_refl _
  | cons l literalText ih =>
    cases s with
    | nil => cases h
    | cons c s =>
      rw [scanLiteral] at h
      split at h
      · exact Nat.le_succ_of_le (ih h)
      · cases h

theorem length_scanString {tokenBuffer s text rest : Bytes}
    (h : scanString tokenBuffer s = .ok (text, rest)) : rest.length ≤ s.length := by
  fun_induction scanString tokenBuffer s with
  | case1 => cases h
  | case2 =>
    cases h
    exact Nat.le_succ _
  | case3 tokenBuffer b s hquote added rest' hscan ih =>
    exact Nat.le_succ_of_le ((ih h).trans (length_scanChar hscan))
  | case4 => cases h

theorem length_scanNumber {c : UInt8} {s rest : Bytes} {t : Token}
    (h : scanNumber strtod c s = .ok (t, rest)) : rest.length ≤ s.length := by
  rw [scanNumber] at h
  split at h
  next hscan =>
    cases h
    obtain ⟨w, rfl, -⟩ := NumberState.accepts_of_scan hscan
    exact List.length_append ▸ Nat.le_add_left ..
  next => cases h

theorem length_scanToken {c : UInt8} {s rest : Bytes} {t : Token}
    (h : scanToken strtod c s = .ok (t, rest)) : rest.length ≤ s.length := by
  rw [scanToken] at h
  split at h
  · cases h
    exact Nat.le_refl _
  · exact length_scanLiteral h
  · split at h
    · split at h
      next hscan =>
        cases h
        exact length_scanString hscan
      next => cases h
    · split at h
      · exact length_scanNumber strtod h
      · split at h <;> cases h
        exact Nat.le_refl _

theorem length_scan {s rest : Bytes} {t : Token} (h : scan strtod s = .ok (t, rest))
    (ht : t ≠ .endOfInput) : rest.length < s.length := by
  induction s with
  | nil =>
    cases h
    exact absurd rfl ht
  | cons c s ih =>
    rw [scan] at h
    split at h
    · exact (ih h).trans (Nat.lt_succ_self _)
    · exact Nat.lt_succ_of_le (length_scanToken strtod h)

/-- What `get_token` returns, up to an error or the end of the input. -/
def tokens (s : Bytes) : List Token :=
  match _h : scan strtod s with
  | .ok (t, rest) => if _ht : t = .endOfInput then [t] else t :: tokens rest
  | .error err => [.parseError err]
termination_by s.length
decreasing_by exact length_scan strtod _h _ht

def lex (s : Bytes) : List Token :=
  match skipBom s with
  | .ok s => tokens strtod s
  | .error err => [.parseError err]

end Scan

section Tokens

variable {strtod : Bytes → BitVec 64}

theorem tokens_eq (s : Bytes) :
    tokens strtod s =
      match scan strtod s with
      | .ok (t, rest) => if t = .endOfInput then [t] else t :: tokens strtod rest
      | .error err => [.parseError err] := by
  rw [tokens]
  split
  next hscan =>
    rw [hscan]
    exact dite_eq_ite
  next hscan => rw [hscan]

theorem tokens_scanToken {c : UInt8} {s rest : Bytes} {t : Token} (hc : isWhitespace c = false)
    (ht : t ≠ .endOfInput) (h : scanToken strtod c s = .ok (t, rest)) :
    tokens strtod (c :: s) = t :: tokens strtod rest := by
  have hscan : scan strtod (c :: s) = .ok (t, rest) := by
    rw [scan, hc]
    exact h
  rw [tokens_eq, hscan]
  exact if_neg ht

theorem tokens_nil : tokens strtod [] = [.endOfInput] := by
  rw [tokens_eq]
  rfl

theorem structural_spec {c : UInt8} {t : Token} (h : structural c = some t) :
    isWhitespace c = false ∧ t ≠ .endOfInput := by
  revert h t
  revert c
  apply forall_uint8
  decide +kernel

theorem tokens_structural {c : UInt8} {t : Token} (h : structural c = some t) (s : Bytes) :
    tokens strtod (c :: s) = t :: tokens strtod s := by
  obtain ⟨hc, ht⟩ := structural_spec h
  exact tokens_scanToken hc ht (by rw [scanToken, h])

theorem scanLiteral_append (returnType : Token) (literalText s : Bytes) :
    scanLiteral returnType literalText (literalText ++ s) = .ok (returnType, s) := by
  induction literalText with
  | nil => rfl
  | cons l literalText ih => rw [List.cons_append, scanLiteral, if_pos rfl, ih]

theorem literal_spec {c : UInt8} {t : Token} {literalText : Bytes}
    (h : literal c = some (t, literalText)) :
    isWhitespace c = false ∧ t ≠ .endOfInput ∧ structural c = none := by
  rw [literal] at h
  split_ifs at h with hc hc hc <;> cases h <;> subst hc <;> decide

theorem tokens_literal {c : UInt8} {t : Token} {literalText : Bytes}
    (h : literal c = some (t, literalText)) (s : Bytes) :
    tokens strtod (c :: (literalText ++ s)) = t :: tokens strtod s := by
  obtain ⟨hc, ht, hstructural⟩ := literal_spec h
  exact tokens_scanToken hc ht (by rw [scanToken, hstructural, h]; exact scanLiteral_append ..)

theorem tokens_string {out text s : Bytes} (h : scanString [] (out ++ quote :: s) = .ok (text, s)) :
    tokens strtod (quote :: (out ++ quote :: s)) = .valueString text :: tokens strtod s := by
  apply tokens_scanToken rfl (by simp)
  have hstructural : structural quote = none := rfl
  have hliteral : literal quote = none := rfl
  rw [scanToken, hstructural, hliteral]
  dsimp only
  rw [if_pos rfl, h]

theorem number_spec {c : UInt8} (h : c = 0x2d ∨ isDigit c = true) :
    isWhitespace c = false ∧ structural c = none ∧ literal c = none ∧ c ≠ quote := by
  revert h
  revert c
  apply forall_uint8
  decide +kernel

theorem tokens_number {c : UInt8} {s rest : Bytes} {t : Token} (hc : c = 0x2d ∨ isDigit c = true)
    (ht : t ≠ .endOfInput) (h : scanNumber strtod c s = .ok (t, rest)) :
    tokens strtod (c :: s) = t :: tokens strtod rest := by
  obtain ⟨hspace, hstructural, hliteral, hquote⟩ := number_spec hc
  apply tokens_scanToken hspace ht
  rw [scanToken, hstructural, hliteral]
  dsimp only
  rw [if_neg hquote, if_pos hc, h]

theorem tokens_printInt {i : Int} (hlo : -2 ^ 63 ≤ i) (hhi : i < 2 ^ 64) {s : Bytes}
    (hs : Ends s) : tokens strtod (printInt i ++ s) = integerToken i :: tokens strtod s := by
  obtain ⟨c, w, hprint, hc⟩ := printInt_cons i
  have ht : integerToken i ≠ .endOfInput := by
    rw [integerToken]
    split <;> simp
  rw [hprint]
  exact tokens_number hc ht (scanNumber_printInt strtod hlo hhi hprint hs)

theorem tokens_float (strtod : Bytes → BitVec 64) {w s : Bytes} (hnumber : IsNumber w)
    (htype : numberType w = .float) (hs : Ends s) :
    tokens strtod (w ++ s) = .valueFloat (strtod w) :: tokens strtod s := by
  obtain ⟨c, w', rfl, hc⟩ := exists_cons_of_isNumber hnumber
  rw [List.cons_append]
  refine tokens_number hc (by simp) ?_
  rw [scanNumber, scan_of_isNumber hc hnumber hs, htype]
  rfl

end Tokens

end Kungfu.Nlohmann
