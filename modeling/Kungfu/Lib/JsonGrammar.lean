import Kungfu.Lib.JsonText
import Kungfu.Lib.Utf8Char

namespace Kungfu.Lib.JsonGrammar

open JsonText

def Space (w : Text) : Prop := ∀ c ∈ w, c = 0x20 ∨ c = 0x09 ∨ c = 0x0a ∨ c = 0x0d

theorem space_nil : Space [] := fun _ hc => absurd hc List.not_mem_nil

inductive HexDigit : UInt8 → Nat → Prop
  | decimal : d < 10 → HexDigit (.ofNat (0x30 + d)) d
  | upper : d < 6 → HexDigit (.ofNat (0x41 + d)) (10 + d)
  | lower : d < 6 → HexDigit (.ofNat (0x61 + d)) (10 + d)

inductive CodeUnit : Text → Nat → Prop
  | mk : HexDigit a x → HexDigit b y → HexDigit c z → HexDigit d w →
    CodeUnit [a, b, c, d] (((x * 16 + y) * 16 + z) * 16 + w)

def escapes : List (UInt8 × UInt8) :=
  [(0x22, 0x22), (0x5c, 0x5c), (0x2f, 0x2f), (0x62, 0x08), (0x66, 0x0c), (0x6e, 0x0a),
    (0x72, 0x0d), (0x74, 0x09)]

inductive Character : Text → Text → Prop
  | plain : Utf8.Char (b :: u) → 0x20 ≤ b → b ≠ quote → b ≠ backslash →
    Character (b :: u) (b :: u)
  | escape : (e, c) ∈ escapes → Character [backslash, e] [c]
  | unit : CodeUnit w n → n < 0xd800 ∨ 0xe000 ≤ n →
    Character (backslash :: 0x75 :: w) (Utf8.encode n)
  | pair : CodeUnit w high → 0xd800 ≤ high → high < 0xdc00 → CodeUnit v low → 0xdc00 ≤ low →
    low < 0xe000 →
    Character (backslash :: 0x75 :: (w ++ backslash :: 0x75 :: v))
      (Utf8.encode (0x10000 + (high - 0xd800) * 0x400 + (low - 0xdc00)))

inductive Characters : Text → Text → Prop
  | nil : Characters [] []
  | cons : Character w u → Characters ws us → Characters (w ++ ws) (u ++ us)

def collect (acc : List Json.Member) : List Json.Member → List Json.Member
  | [] => acc
  | (k, x) :: ms => collect (Json.insert k x acc) ms

theorem collect_of_sorted {ms acc : List Json.Member} (h : Json.Sorted (acc ++ ms)) :
    collect acc ms = acc ++ ms := by
  induction ms generalizing acc with
  | nil => rw [collect, List.append_nil]
  | cons m ms ih =>
    obtain ⟨k, x⟩ := m
    have hlt : ∀ m ∈ acc, m.1 < k := fun m hm =>
      (List.pairwise_append.mp h).2.2 m hm (k, x) List.mem_cons_self
    rw [List.append_cons] at h ⊢
    rw [collect, Json.insert_of_lt hlt]
    exact ih h

section Values

variable (Number : Text → Json → Prop)

mutual

inductive Value : Text → Json → Prop
  | null : Value (0x6e :: ull) .null
  | true : Value (0x74 :: rue) (.bool true)
  | false : Value (0x66 :: alse) (.bool false)
  | number : Number w j → Value w j
  | string : Characters w s → Value (quote :: (w ++ [quote])) (.str s)
  | emptyArray : Space w → Value (openArr :: (w ++ [closeArr])) (.arr [])
  | array : Elements w xs → Value (openArr :: (w ++ [closeArr])) (.arr xs)
  | emptyObject : Space w → Value (openObj :: (w ++ [closeObj])) (.obj [])
  | object : Members w ms → Value (openObj :: (w ++ [closeObj])) (.obj (collect [] ms))

inductive Element : Text → Json → Prop
  | mk : Space l → Value w j → Space r → Element (l ++ (w ++ r)) j

inductive Elements : Text → List Json → Prop
  | one : Element w x → Elements w [x]
  | cons : Element w x → Elements ws xs → Elements (w ++ comma :: ws) (x :: xs)

inductive Member : Text → Json.Member → Prop
  | mk : Space l → Characters k key → Space r → Element w x →
    Member (l ++ quote :: (k ++ quote :: (r ++ colon :: w))) (key, x)

inductive Members : Text → List Json.Member → Prop
  | one : Member w m → Members w [m]
  | cons : Member w m → Members ws ms → Members (w ++ comma :: ws) (m :: ms)

end

end Values

end Kungfu.Lib.JsonGrammar
