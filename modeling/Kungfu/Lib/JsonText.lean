import Mathlib.Data.Nat.Digits.Defs
import Kungfu.Lib.Json

/-!
Compact JSON texts: strings with the usual escapes, integers in decimal, members in the order
of the object. A double stands as `d` and the decimal of its bits, in place of a shortest
decimal fraction.
-/

namespace Kungfu.Lib.JsonText

abbrev Text := List UInt8

section Characters

def quote : UInt8 := 0x22
def backslash : UInt8 := 0x5c
def comma : UInt8 := 0x2c
def colon : UInt8 := 0x3a
def minus : UInt8 := 0x2d
def openArr : UInt8 := 0x5b
def closeArr : UInt8 := 0x5d
def openObj : UInt8 := 0x7b
def closeObj : UInt8 := 0x7d

def isDigit (c : UInt8) : Bool := 48 ≤ c ∧ c ≤ 57

def ull : Text := [0x75, 0x6c, 0x6c]
def rue : Text := [0x72, 0x75, 0x65]
def alse : Text := [0x61, 0x6c, 0x73, 0x65]

def hex (n : UInt8) : UInt8 := if n < 10 then 48 + n else 87 + n

def unhex (c : UInt8) : UInt8 := if c < 58 then c - 48 else c - 87

end Characters

def escape (c : UInt8) : Text :=
  if c = quote then [backslash, quote]
  else if c = backslash then [backslash, backslash]
  else if c = 0x08 then [backslash, 0x62]
  else if c = 0x09 then [backslash, 0x74]
  else if c = 0x0a then [backslash, 0x6e]
  else if c = 0x0c then [backslash, 0x66]
  else if c = 0x0d then [backslash, 0x72]
  else if c < 0x20 then [backslash, 0x75, 48, 48, hex (c / 16), hex (c % 16)]
  else [c]

def printString (s : List UInt8) : Text := s.flatMap escape ++ [quote]

def printNat (n : Nat) : Text :=
  if n = 0 then [48] else (Nat.digits 10 n).reverse.map fun d => UInt8.ofNat (48 + d)

def printInt (i : Int) : Text := if i < 0 then minus :: printNat i.natAbs else printNat i.natAbs

mutual

def print : Json → Text
  | .null => 0x6e :: ull
  | .bool true => 0x74 :: rue
  | .bool false => 0x66 :: alse
  | .int i => printInt i
  | .float bits => 0x64 :: printNat bits.toNat
  | .str s => quote :: printString s
  | .arr xs => openArr :: printItems true xs
  | .obj ms => openObj :: printMembers true ms

def printItems : Bool → List Json → Text
  | _, [] => [closeArr]
  | first, x :: xs => (if first then [] else [comma]) ++ print x ++ printItems false xs

def printMembers : Bool → List (List UInt8 × Json) → Text
  | _, [] => [closeObj]
  | first, (k, x) :: ms =>
    (if first then [] else [comma]) ++ quote :: printString k ++ (colon :: print x) ++
      printMembers false ms

end

def unescape (c : UInt8) : UInt8 :=
  if c = 0x62 then 0x08
  else if c = 0x74 then 0x09
  else if c = 0x6e then 0x0a
  else if c = 0x66 then 0x0c
  else if c = 0x72 then 0x0d
  else c

def parseString : Text → Option (List UInt8 × Text)
  | [] => none
  | c :: cs =>
    if c = quote then some ([], cs)
    else if c = backslash then
      match cs with
      | [] => none
      | e :: es =>
        if e = 0x75 then
          match es with
          | _ :: _ :: h :: l :: rest =>
            (parseString rest).map fun r => ((16 * unhex h + unhex l) :: r.1, r.2)
          | _ => none
        else (parseString es).map fun r => (unescape e :: r.1, r.2)
    else (parseString cs).map fun r => (c :: r.1, r.2)

def readNat (ds : Text) : Nat := ds.foldl (fun n d => 10 * n + (d.toNat - 48)) 0

def parseNat (t : Text) : Option (Nat × Text) :=
  if t.takeWhile isDigit = [] then none
  else some (readNat (t.takeWhile isDigit), t.dropWhile isDigit)

def strip (expected t : Text) : Option Text :=
  if expected <+: t then some (t.drop expected.length) else none

mutual

def parseValue : Nat → Text → Option (Json × Text)
  | 0, _ => none
  | _ + 1, [] => none
  | n + 1, c :: cs =>
    if c = quote then (parseString cs).map fun r => (.str r.1, r.2)
    else if c = openArr then (parseItems n true cs).map fun r => (.arr r.1, r.2)
    else if c = openObj then (parseMembers n true cs).map fun r => (.obj r.1, r.2)
    else if c = 0x6e then (strip ull cs).map fun r => (.null, r)
    else if c = 0x74 then (strip rue cs).map fun r => (.bool true, r)
    else if c = 0x66 then (strip alse cs).map fun r => (.bool false, r)
    else if c = 0x64 then (parseNat cs).map fun r => (.float (.ofNat 64 r.1), r.2)
    else if c = minus then (parseNat cs).map fun r => (.int (-r.1), r.2)
    else (parseNat (c :: cs)).map fun r => (.int r.1, r.2)

def parseItems : Nat → Bool → Text → Option (List Json × Text)
  | 0, _, _ => none
  | n + 1, first, t =>
    match strip [closeArr] t with
    | some t => some ([], t)
    | none => do
      let t ← if first then some t else strip [comma] t
      let (x, t) ← parseValue n t
      let (xs, t) ← parseItems n false t
      return (x :: xs, t)

def parseMembers : Nat → Bool → Text → Option (List (List UInt8 × Json) × Text)
  | 0, _, _ => none
  | n + 1, first, t =>
    match strip [closeObj] t with
    | some t => some ([], t)
    | none => do
      let t ← if first then some t else strip [comma] t
      let t ← strip [quote] t
      let (k, t) ← parseString t
      let t ← strip [colon] t
      let (x, t) ← parseValue n t
      let (ms, t) ← parseMembers n false t
      return ((k, x) :: ms, t)

end

def parse (t : Text) : Option Json :=
  match parseValue (t.length + 1) t with
  | some (j, []) => some j
  | _ => none

@[simp] theorem strip_append (e t : Text) : strip e (e ++ t) = some t := by
  simp [strip]

@[simp] theorem strip_cons (c : UInt8) (t : Text) : strip [c] (c :: t) = some t :=
  strip_append [c] t

theorem strip_of_ne {c d : UInt8} (h : c ≠ d) (t : Text) : strip [c] (d :: t) = none := by
  simp [strip, h]

theorem unhex_hex (c : UInt8) (h : c < 0x20) :
    16 * unhex (hex (c / 16)) + unhex (hex (c % 16)) = c := by
  have hn : ∀ n < 32, 16 * unhex (hex (UInt8.ofNat n / 16)) + unhex (hex (UInt8.ofNat n % 16)) =
      UInt8.ofNat n := by
    decide
  simpa using hn c.toNat h

theorem parseString_quote (t : Text) : parseString (quote :: t) = some ([], t) := by
  rw [parseString.eq_def]
  simp

theorem parseString_backslash {e : UInt8} (h : e ≠ 0x75) (t : Text) :
    parseString (backslash :: e :: t) = (parseString t).map fun r => (unescape e :: r.1, r.2) := by
  rw [parseString.eq_def]
  simp [h, quote, backslash]

theorem parseString_unicode (a b h l : UInt8) (t : Text) :
    parseString (backslash :: 0x75 :: a :: b :: h :: l :: t) =
      (parseString t).map fun r => ((16 * unhex h + unhex l) :: r.1, r.2) := by
  rw [parseString.eq_def]
  simp [quote, backslash]

theorem parseString_plain {c : UInt8} (hq : c ≠ quote) (hb : c ≠ backslash) (t : Text) :
    parseString (c :: t) = (parseString t).map fun r => (c :: r.1, r.2) := by
  rw [parseString.eq_def]
  simp [hq, hb]

theorem parseString_escape (c : UInt8) (t : Text) :
    parseString (escape c ++ t) = (parseString t).map fun r => (c :: r.1, r.2) := by
  unfold escape
  split_ifs with hq hb h1 h2 h3 h4 h5 h6
  · subst hq
    exact parseString_backslash (by decide) t
  · subst hb
    exact parseString_backslash (by decide) t
  · exact h1 ▸ parseString_backslash (by decide) t
  · exact h2 ▸ parseString_backslash (by decide) t
  · exact h3 ▸ parseString_backslash (by decide) t
  · exact h4 ▸ parseString_backslash (by decide) t
  · exact h5 ▸ parseString_backslash (by decide) t
  · have h := parseString_unicode 48 48 (hex (c / 16)) (hex (c % 16)) t
    rwa [unhex_hex c h6] at h
  · exact parseString_plain hq hb t

theorem parseString_printString (s : List UInt8) (t : Text) :
    parseString (printString s ++ t) = some (s, t) := by
  induction s with
  | nil => exact parseString_quote t
  | cons c s ih =>
    have hs : printString (c :: s) ++ t = escape c ++ (printString s ++ t) := by simp [printString]
    rw [hs, parseString_escape, ih]
    rfl

def NoDigit (t : Text) : Prop := ∀ c ∈ t.head?, isDigit c = false

theorem isDigit_ofNat {d : Nat} (h : d < 10) : isDigit (UInt8.ofNat (48 + d)) = true := by
  revert d
  decide

theorem digit_mem_printNat {n : Nat} : ∀ c ∈ printNat n, isDigit c = true := by
  intro c hc
  rw [printNat] at hc
  split at hc
  · simp_all [isDigit]
  · simp only [List.map_reverse, List.mem_reverse, List.mem_map] at hc
    obtain ⟨d, hd, rfl⟩ := hc
    exact isDigit_ofNat (Nat.digits_lt_base (by decide) hd)

theorem printNat_ne_nil (n : Nat) : printNat n ≠ [] := by
  rw [printNat]
  split
  · simp
  · next h => simpa using Nat.digits_ne_nil_iff_ne_zero.mpr h

theorem readNat_printNat (n : Nat) : readNat (printNat n) = n := by
  rw [printNat]
  split
  · next h => rw [h]; rfl
  · have hval : ∀ ds : List Nat, (∀ d ∈ ds, d < 10) →
        (ds.map fun d => UInt8.ofNat (48 + d)).foldr (fun d n => 10 * n + (d.toNat - 48)) 0 =
          Nat.ofDigits 10 ds := by
      intro ds hds
      induction ds with
      | nil => rfl
      | cons d ds ih =>
        have hd := hds d (.head _)
        rw [List.map_cons, List.foldr_cons, ih fun x hx => hds x (.tail _ hx), Nat.ofDigits_cons,
          UInt8.toNat_ofNat_of_lt' (by simp [UInt8.size]; omega)]
        omega
    rw [readNat, List.map_reverse, List.foldl_reverse,
      hval _ fun d hd => Nat.digits_lt_base (by decide) hd, Nat.ofDigits_digits]

theorem parseNat_printNat (n : Nat) {t : Text} (ht : NoDigit t) :
    parseNat (printNat n ++ t) = some (n, t) := by
  have htake : t.takeWhile isDigit = [] := by
    cases t with
    | nil => rfl
    | cons c t => simp [ht c rfl]
  have hdrop : t.dropWhile isDigit = t := by
    cases t with
    | nil => rfl
    | cons c t => simp [ht c rfl]
  rw [parseNat, List.takeWhile_append_of_pos digit_mem_printNat,
    List.dropWhile_append_of_pos digit_mem_printNat, htake, hdrop, List.append_nil,
    if_neg (printNat_ne_nil n), readNat_printNat]

theorem NoDigit.cons {c : UInt8} (h : isDigit c = false) (t : Text) : NoDigit (c :: t) := by
  rintro d ⟨⟩
  exact h

theorem noDigit_printItems (xs : List Json) (t : Text) : NoDigit (printItems false xs ++ t) := by
  cases xs <;> exact NoDigit.cons (c := _) rfl _

theorem noDigit_printMembers (ms : List Json.Member) (t : Text) :
    NoDigit (printMembers false ms ++ t) := by
  cases ms <;> exact NoDigit.cons (c := _) rfl _

theorem print_ne_nil (j : Json) : print j ≠ [] := by
  cases j with
  | int i =>
    rw [print, printInt]
    split
    · exact List.cons_ne_nil _ _
    · exact printNat_ne_nil _
  | bool b => cases b <;> exact List.cons_ne_nil _ _
  | _ => exact List.cons_ne_nil _ _

theorem parseValue_closeArr (n : Nat) (t : Text) : parseValue n (closeArr :: t) = none := by
  cases n <;> rfl

theorem parseValue_printInt (i : Int) (n : Nat) {t : Text} (ht : NoDigit t) :
    parseValue (n + 1) (printInt i ++ t) = some (.int i, t) := by
  rw [printInt]
  split
  · next hi =>
    rw [List.cons_append, parseValue, parseNat_printNat _ ht]
    simp [abs_of_neg hi, quote, openArr, openObj, minus]
  · next hi =>
    obtain ⟨c, cs, hc⟩ := List.exists_cons_of_ne_nil (printNat_ne_nil i.natAbs)
    have hd : isDigit c = true := digit_mem_printNat c (hc ▸ List.mem_cons_self)
    have hne : ∀ d, isDigit d = false → c ≠ d := by
      rintro d h rfl
      exact absurd (hd.symm.trans h) (by decide)
    rw [hc, List.cons_append, parseValue, ← List.cons_append, ← hc, parseNat_printNat _ ht]
    simp [abs_of_nonneg (Int.not_lt.mp hi), hne, quote, openArr, openObj, minus, isDigit]

mutual

theorem parseValue_print : ∀ (j : Json) (n : Nat) (t : Text), (print j).length < n → NoDigit t →
    parseValue n (print j ++ t) = some (j, t)
  | _, 0, _, h, _ => absurd h (Nat.not_lt_zero _)
  | .null, n + 1, t, _, _ => by
    simp [print, parseValue, quote, openArr, openObj]
  | .bool true, n + 1, t, _, _ => by
    simp [print, parseValue, quote, openArr, openObj]
  | .bool false, n + 1, t, _, _ => by
    simp [print, parseValue, quote, openArr, openObj]
  | .int i, n + 1, t, _, ht => parseValue_printInt i n ht
  | .float bits, n + 1, t, _, ht => by
    simp [print, parseValue, quote, openArr, openObj, parseNat_printNat _ ht]
  | .str s, n + 1, t, _, _ => by
    simp [print, parseValue, parseString_printString]
  | .arr xs, n + 1, t, h, _ => by
    have hxs := parseItems_print xs n true t (by simpa [print] using h)
    simp [print, parseValue, hxs, quote, openArr]
  | .obj ms, n + 1, t, h, _ => by
    have hms := parseMembers_print ms n true t (by simpa [print] using h)
    simp [print, parseValue, hms, quote, openArr, openObj]

theorem parseItems_print : ∀ (xs : List Json) (n : Nat) (first : Bool) (t : Text),
    (printItems first xs).length < n → parseItems n first (printItems first xs ++ t) = some (xs, t)
  | _, 0, _, _, h => absurd h (Nat.not_lt_zero _)
  | [], n + 1, first, t, _ => by
    simp [printItems, parseItems]
  | x :: xs, n + 1, first, t, h => by
    simp only [printItems, List.length_append] at h
    have hpos := List.length_pos_iff.mpr (print_ne_nil x)
    have hpos' : 0 < (printItems false xs).length := by cases xs <;> simp [printItems]
    have hx := parseValue_print x n (printItems false xs ++ t) (by omega) (noDigit_printItems xs t)
    have hxs := parseItems_print xs n false t (by omega)
    cases first with
    | false =>
      have hs : strip [closeArr] (comma :: (print x ++ (printItems false xs ++ t))) = none :=
        strip_of_ne (by decide) _
      simp [printItems, parseItems, hs, hx, hxs]
    | true =>
      have hs : strip [closeArr] (print x ++ (printItems false xs ++ t)) = none := by
        rw [strip, if_neg]
        rintro ⟨u, hu⟩
        rw [← hu, List.singleton_append, parseValue_closeArr] at hx
        cases hx
      simp [printItems, parseItems, hs, hx, hxs]

theorem parseMembers_print : ∀ (ms : List Json.Member) (n : Nat) (first : Bool) (t : Text),
    (printMembers first ms).length < n →
      parseMembers n first (printMembers first ms ++ t) = some (ms, t)
  | _, 0, _, _, h => absurd h (Nat.not_lt_zero _)
  | [], n + 1, first, t, _ => by
    simp [printMembers, parseMembers]
  | (k, x) :: ms, n + 1, first, t, h => by
    simp only [printMembers, List.length_append, List.length_cons] at h
    have hx := parseValue_print x n (printMembers false ms ++ t) (by omega)
      (noDigit_printMembers ms t)
    have hms := parseMembers_print ms n false t (by omega)
    have hc : ∀ u, strip [closeObj] (comma :: u) = none := strip_of_ne (by decide)
    have hq : ∀ u, strip [closeObj] (quote :: u) = none := strip_of_ne (by decide)
    cases first <;> simp [printMembers, parseMembers, hc, hq, parseString_printString, hx, hms]

end

theorem parse_print (j : Json) : parse (print j) = some j := by
  have h := parseValue_print j ((print j).length + 1) [] (Nat.lt_succ_self _) (by rintro _ ⟨⟩)
  rw [List.append_nil] at h
  rw [parse, h]

/-- The codec that prints values whose strings are UTF-8. -/
def codec : Json.Codec where
  dump j := if j.validText then some (print j) else none
  parse := parse
  dump_isSome j := by cases h : j.validText <;> simp
  parse_dump j t _ h := by
    split at h
    · cases h
      exact parse_print j
    · cases h

end Kungfu.Lib.JsonText
