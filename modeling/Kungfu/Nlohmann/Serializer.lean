import Kungfu.Nlohmann.Lexer

namespace Kungfu.Nlohmann

open Kungfu.Lib JsonText

/-- The conversions of doubles: `to_chars` writes floating-point numbers of the grammar, which
`strtod` reads back. -/
structure Doubles where
  toChars : BitVec 64 → Bytes
  strtod : Bytes → BitVec 64
  isNumber : ∀ bits, Json.finite bits = true → IsNumber (toChars bits)
  numberType : ∀ bits, Json.finite bits = true → numberType (toChars bits) = .float
  strtod_toChars : ∀ bits, Json.finite bits = true → strtod (toChars bits) = bits

theorem strtod_decimal (n : Nat) :
    readNat ((printNat n ++ [0x2e, 0x30]).takeWhile isDigit) = n := by
  rw [List.takeWhile_append_of_pos digit_mem_printNat]
  exact (congrArg readNat (List.append_nil _)).trans (readNat_printNat n)

def Doubles.decimal : Doubles where
  toChars bits := printNat bits.toNat ++ [0x2e, 0x30]
  strtod text := .ofNat 64 (readNat (text.takeWhile isDigit))
  isNumber bits _ :=
    .positive ⟨_, [0x2e, 0x30], [], rfl, whole_printNat _, .some rfl NumberState.digits_nil, .none⟩
  numberType bits _ := by
    rw [Nlohmann.numberType, List.any_append]
    exact if_pos (Bool.or_true _)
  strtod_toChars bits _ := by
    rw [strtod_decimal, BitVec.ofNat_toNat, BitVec.setWidth_eq]

def Integer.ofInt (i : Int) : Integer :=
  if i < 0 then .integer (.ofInt i) else .unsigned (.ofNat i.toNat)

section Dump

variable (D : Doubles) (handler : ErrorHandler) (ensureAscii : Bool)

def dumpFloat (bits : BitVec 64) : Bytes :=
  if Json.finite bits then D.toChars bits else 0x6e :: ull

def dumpString (s : Bytes) : Except DumpError Bytes := do
  let out ← dumpEscaped handler ensureAscii s
  return quote :: (out ++ [quote])

mutual

def dump : Json → Except DumpError Bytes
  | .null => return 0x6e :: ull
  | .bool true => return 0x74 :: rue
  | .bool false => return 0x66 :: alse
  | .int i =>
    match dumpInteger (List.replicate 64 0) (.ofInt i) with
    | some out => .ok out
    | none => .error .overrun
  | .float bits => return dumpFloat D bits
  | .str s => dumpString handler ensureAscii s
  | .arr xs => do
    let out ← dumpItems xs
    return openArr :: (out ++ [closeArr])
  | .obj ms => do
    let out ← dumpMembers ms
    return openObj :: (out ++ [closeObj])

def dumpItems : List Json → Except DumpError Bytes
  | [] => return []
  | x :: xs => do
    let out ← dump x
    let rest ← dumpItems xs
    return out ++ (if xs = [] then [] else comma :: rest)

def dumpMembers : List (Bytes × Json) → Except DumpError Bytes
  | [] => return []
  | (k, x) :: ms => do
    let key ← dumpString handler ensureAscii k
    let out ← dump x
    let rest ← dumpMembers ms
    return key ++ colon :: out ++ (if ms = [] then [] else comma :: rest)

end

end Dump

mutual

def toTokens : Json → List Token
  | .null => [.literalNull]
  | .bool true => [.literalTrue]
  | .bool false => [.literalFalse]
  | .int i => [integerToken i]
  | .float bits => [.valueFloat bits]
  | .str s => [.valueString s]
  | .arr xs => .beginArray :: (itemTokens xs ++ [.endArray])
  | .obj ms => .beginObject :: (memberTokens ms ++ [.endObject])

def itemTokens : List Json → List Token
  | [] => []
  | x :: xs => toTokens x ++ (if xs = [] then [] else .valueSeparator :: itemTokens xs)

def memberTokens : List (Bytes × Json) → List Token
  | [] => []
  | (k, x) :: ms =>
    .valueString k :: .nameSeparator ::
      (toTokens x ++ (if ms = [] then [] else .valueSeparator :: memberTokens ms))

end

theorem exists_of_bind {ε α β : Type} {x : Except ε α} {f : α → Except ε β} {b : β}
    (h : x >>= f = .ok b) : ∃ a, x = .ok a ∧ f a = .ok b := by
  cases x with
  | ok a => exact ⟨a, rfl, h⟩
  | error => cases h

theorem canonical_arr {xs : List Json} (h : (Json.arr xs).canonical = true) :
    ∀ x ∈ xs, x.canonical = true := by
  rw [Json.canonical, Json.all, Bool.and_eq_true] at h
  exact Json.allItems_iff.mp h.2

theorem canonical_obj {ms : List Json.Member} (h : (Json.obj ms).canonical = true) :
    Json.Sorted ms ∧ ∀ m ∈ ms, m.2.canonical = true := by
  rw [Json.canonical, Json.all, Bool.and_eq_true] at h
  exact ⟨of_decide_eq_true h.1, Json.allMembers_iff.mp h.2⟩

theorem ends_nil : Ends [] := fun _ hc => absurd hc (Option.not_mem_none _)

theorem ends_cons {c : UInt8} (h : isDigit c = false ∧ isMark c = false) (s : Bytes) :
    Ends (c :: s) := fun _ hc => Option.some.inj hc ▸ h

theorem value_ofInt {i : Int} (hlo : -2 ^ 63 ≤ i) (hhi : i < 2 ^ 64) :
    (Integer.ofInt i).value = i := by
  rw [Integer.ofInt]
  split
  · exact Int64.toInt_ofInt_of_le hlo (by omega)
  · rw [Integer.value, UInt64.toNat_ofNat_of_lt' (by rw [UInt64.size]; omega)]
    omega

section TokensDump

variable {D : Doubles} {ensureAscii : Bool}

theorem tokens_dumpString {k out : Bytes} (h : dumpString .strict ensureAscii k = .ok out)
    (s : Bytes) : tokens D.strtod (out ++ s) = .valueString k :: tokens D.strtod s := by
  obtain ⟨cs, hcs, hout⟩ := exists_of_bind h
  cases hout
  have happend : quote :: (cs ++ [quote]) ++ s = quote :: (cs ++ quote :: s) := by simp
  rw [happend]
  exact tokens_string (scanString_dumpEscaped hcs s)

mutual

theorem tokens_dump : ∀ (j : Json) {out s : Bytes}, j.canonical = true →
    dump D .strict ensureAscii j = .ok out → Ends s →
      tokens D.strtod (out ++ s) = toTokens j ++ tokens D.strtod s
  | .null, out, s, _, h, _ => by
    cases h
    exact tokens_literal (c := 0x6e) rfl s
  | .bool true, out, s, _, h, _ => by
    cases h
    exact tokens_literal (c := 0x74) rfl s
  | .bool false, out, s, _, h, _ => by
    cases h
    exact tokens_literal (c := 0x66) rfl s
  | .int i, out, s, hj, h, hs => by
    obtain ⟨hlo, hhi⟩ : -2 ^ 63 ≤ i ∧ i < 2 ^ 64 := of_decide_eq_true hj
    rw [dump, dumpInteger_eq List.length_replicate, value_ofInt hlo hhi] at h
    cases h
    exact tokens_printInt hlo hhi hs
  | .float bits, out, s, hj, h, hs => by
    have hfinite : Json.finite bits = true := hj
    rw [dump, dumpFloat, if_pos hfinite] at h
    cases h
    have htokens := tokens_float D.strtod (D.isNumber bits hfinite) (D.numberType bits hfinite) hs
    rwa [D.strtod_toChars bits hfinite] at htokens
  | .str k, out, s, _, h, _ => by
    rw [dump] at h
    exact tokens_dumpString h s
  | .arr xs, out, s, hj, h, _ => by
    rw [dump] at h
    obtain ⟨items, hitems, hout⟩ := exists_of_bind h
    cases hout
    have hends : Ends (closeArr :: s) := ends_cons (by decide) s
    have happend : openArr :: (items ++ [closeArr]) ++ s = openArr :: (items ++ closeArr :: s) := by
      simp
    rw [happend, tokens_structural (c := openArr) rfl,
      tokens_dumpItems xs (canonical_arr hj) hitems hends,
      tokens_structural (c := closeArr) rfl, toTokens, List.cons_append, List.append_assoc]
    rfl
  | .obj ms, out, s, hj, h, _ => by
    rw [dump] at h
    obtain ⟨members, hmembers, hout⟩ := exists_of_bind h
    cases hout
    have hends : Ends (closeObj :: s) := ends_cons (by decide) s
    have happend : openObj :: (members ++ [closeObj]) ++ s =
        openObj :: (members ++ closeObj :: s) := by
      simp
    rw [happend, tokens_structural (c := openObj) rfl,
      tokens_dumpMembers ms (canonical_obj hj).2 hmembers hends,
      tokens_structural (c := closeObj) rfl, toTokens, List.cons_append, List.append_assoc]
    rfl

theorem tokens_dumpItems : ∀ (xs : List Json) {out s : Bytes}, (∀ x ∈ xs, x.canonical = true) →
    dumpItems D .strict ensureAscii xs = .ok out → Ends s →
      tokens D.strtod (out ++ s) = itemTokens xs ++ tokens D.strtod s
  | [], out, s, _, h, _ => by
    rw [dumpItems] at h
    cases h
    rfl
  | x :: xs, out, s, hxs, h, hs => by
    rw [dumpItems] at h
    obtain ⟨item, hitem, h⟩ := exists_of_bind h
    obtain ⟨rest, hrest, hout⟩ := exists_of_bind h
    cases hout
    obtain ⟨hx, hxs⟩ := List.forall_mem_cons.mp hxs
    rw [itemTokens]
    split_ifs with hempty
    · rw [List.append_nil, List.append_nil]
      exact tokens_dump x hx hitem hs
    · have hends : Ends (comma :: (rest ++ s)) := ends_cons (by decide) _
      rw [List.append_assoc, List.cons_append, tokens_dump x hx hitem hends,
        tokens_structural (c := comma) rfl, tokens_dumpItems xs hxs hrest hs, List.append_assoc]
      rfl

theorem tokens_dumpMembers : ∀ (ms : List Json.Member) {out s : Bytes},
    (∀ m ∈ ms, m.2.canonical = true) → dumpMembers D .strict ensureAscii ms = .ok out → Ends s →
      tokens D.strtod (out ++ s) = memberTokens ms ++ tokens D.strtod s
  | [], out, s, _, h, _ => by
    rw [dumpMembers] at h
    cases h
    rfl
  | (k, x) :: ms, out, s, hms, h, hs => by
    rw [dumpMembers] at h
    obtain ⟨key, hkey, h⟩ := exists_of_bind h
    obtain ⟨value, hvalue, h⟩ := exists_of_bind h
    obtain ⟨rest, hrest, hout⟩ := exists_of_bind h
    cases hout
    obtain ⟨hx, hms⟩ := List.forall_mem_cons.mp hms
    rw [memberTokens, List.append_assoc, List.append_assoc, tokens_dumpString hkey,
      List.cons_append, tokens_structural (c := colon) rfl]
    split_ifs with hempty
    · rw [List.append_nil, List.nil_append, tokens_dump x hx hvalue hs]
      rfl
    · have hends : Ends (comma :: (rest ++ s)) := ends_cons (by decide) _
      rw [List.cons_append, tokens_dump x hx hvalue hends, tokens_structural (c := comma) rfl,
        tokens_dumpMembers ms hms hrest hs, List.cons_append, List.cons_append, List.append_assoc]
      rfl

end

end TokensDump

end Kungfu.Nlohmann
