import Kungfu.Common.Assign
import Kungfu.Lib.Json

namespace Kungfu.Common

open Kungfu.Lib

/-- Conversion of a `double` to an integer: truncation. Undefined in C++ beyond the range of
the integer type, for infinities and for NaN. -/
def truncate (bits : BitVec 64) : Int :=
  let exponent := (bits.extractLsb' 52 11).toNat
  let significand := 2 ^ 52 + (bits.extractLsb' 0 52).toNat
  let n : Nat := if exponent = 0 then 0 else significand <<< (exponent - 1075) >>> (1075 - exponent)
  if bits.msb then -n else n

/-- Conversion of an integer to a `double`: the nearest one, ties to even. -/
def nearestDouble (i : Int) : BitVec 64 :=
  let n := i.natAbs
  let e := n.log2
  let q :=
    if e ≤ 52 then n * 2 ^ (52 - e)
    else
      let unit := 2 ^ (e - 52)
      let up := unit < 2 * (n % unit) ∨ unit = 2 * (n % unit) ∧ n / unit % 2 = 1
      n / unit + if up then 1 else 0
  -- The leading bit of `q` adds one to the exponent.
  if n = 0 then 0
  else .ofNat 64 ((if i < 0 then 2 ^ 63 else 0) + (e + 1022) * 2 ^ 52 + q)

namespace Scalar

def toJson : (t : Scalar) → t.Val → Json
  | .bool, v => .bool v
  | .int t, v => .int (t.toInt v)
  | .double, v => .float v

/-- `json::get<T>`. The widest integers have their own `from_json`, which takes no boolean. -/
def get : (t : Scalar) → Json → Option t.Val
  | .bool, .bool b => some b
  | .int t, .int i => some (t.ofInt i)
  | .int t, .float bits => some (t.ofInt (truncate bits))
  | .int t, .bool b => if t = .int64 ∨ t = .uint64 then none else some (t.ofInt b.toInt)
  | .double, .float bits => some bits
  | .double, .int i => some (nearestDouble i)
  | _, _ => none

def getList (t : Scalar) : (n : Nat) → List Json → Option (List.Vector t.Val n)
  | 0, _ => some .nil
  | _ + 1, [] => none
  | n + 1, j :: js => do
    let v ← t.get j
    let vs ← t.getList n js
    return .cons v vs

def Finite : (t : Scalar) → t.Val → Prop
  | .double, v => Json.finite v = true
  | _, _ => True

instance : (t : Scalar) → DecidablePred t.Finite
  | .double, v => inferInstanceAs (Decidable (Json.finite v = true))
  | .bool, _ | .int _, _ => .isTrue trivial

@[simp] theorem get_toJson (t : Scalar) (v : t.Val) : t.get (t.toJson v) = some v := by
  cases t with
  | bool => rfl
  | int t => exact congrArg some (t.ofInt_toInt v)
  | double => rfl

theorem getList_map_toJson (t : Scalar) {n : Nat} (v : List.Vector t.Val n) :
    t.getList n (v.toList.map t.toJson) = some v := by
  induction v using List.Vector.inductionOn with
  | nil => rfl
  | cons ih => simp [getList, ih]

theorem validText_toJson (t : Scalar) (v : t.Val) : (t.toJson v).validText = true := by
  cases t <;> rfl

theorem canonical_toJson (t : Scalar) {v : t.Val} (h : t.Finite v) :
    (t.toJson v).canonical = true := by
  cases t with
  | bool => rfl
  | int t =>
    simpa [toJson, Json.canonical, Json.all] using And.intro (t.le_toInt v) (t.toInt_lt v)
  | double => exact h

end Scalar

namespace FieldType

def toJson : (t : FieldType) → t.Val → Json
  | .arithmetic t, v => t.toJson v
  | .enum u, v => .int (IntType.int64.toInt (IntType.int64.ofInt (u.toInt v)))
  | .string, v => .str v
  | .chars _, v => .str (CString.text v.toList)
  | .array t _, v => .arr (v.toList.map t.toJson)

/-- `data::restore_from_json` over the old value of the member. The text of a char array must
fit it: `memcpy` does not check. -/
def restoreFromJson : (t : FieldType) → t.Val → Json → Option t.Val
  | .arithmetic t, _, j => t.get j
  | .array t n, _, .arr js => t.getList n js
  | .chars n, v, .str s =>
    if h : CString.strlen s ≤ n then
      some ⟨CString.overwrite v.toList (CString.text s),
        (CString.length_overwrite (by simpa [CString.strlen] using h)).trans v.toList_length⟩
    else none
  | .string, _, .str s => some s
  | .enum u, _, .int i => some (u.ofInt i)
  | .enum u, _, .float bits => some (u.ofInt (truncate bits))
  | _, _, _ => none

def ValidText : (t : FieldType) → t.Val → Prop
  | .string, v => Utf8.valid v = true
  | .chars _, v => Utf8.valid (CString.text v.toList) = true
  | _, _ => True

instance : (t : FieldType) → DecidablePred t.ValidText
  | .string, v => inferInstanceAs (Decidable (Utf8.valid v = true))
  | .chars _, v => inferInstanceAs (Decidable (Utf8.valid (CString.text v.toList) = true))
  | .arithmetic _, _ | .enum _, _ | .array _ _, _ => .isTrue trivial

def Finite : (t : FieldType) → t.Val → Prop
  | .arithmetic t, v => t.Finite v
  | .array t _, v => ∀ x ∈ v.toList, t.Finite x
  | _, _ => True

instance : (t : FieldType) → DecidablePred t.Finite
  | .arithmetic t, v => inferInstanceAs (Decidable (t.Finite v))
  | .array t _, v => inferInstanceAs (Decidable (∀ x ∈ v.toList, t.Finite x))
  | .string, _ | .chars _, _ | .enum _, _ => .isTrue trivial

theorem validText_fresh : (t : FieldType) → t.ValidText t.fresh
  | .chars n => by
    have h : CString.text (List.replicate n (0 : UInt8)) = [] := by cases n <;> rfl
    exact congrArg Utf8.valid h
  | .arithmetic _ | .enum _ | .array _ _ => trivial
  | .string => rfl

structure Encodable (t : FieldType) (v : t.Val) : Prop where
  terminated : t.Terminated v
  validText : t.ValidText v
  finite : t.Finite v

instance (t : FieldType) : DecidablePred t.Encodable := fun v =>
  decidable_of_iff (t.Terminated v ∧ t.ValidText v ∧ t.Finite v)
    ⟨fun h => ⟨h.1, h.2.1, h.2.2⟩, fun h => ⟨h.1, h.2, h.3⟩⟩

theorem restoreFromJson_toJson (t : FieldType) (v : t.Val) :
    ∃ w, t.restoreFromJson t.fresh (t.toJson v) = some w ∧ t.Eqv w v := by
  cases t with
  | arithmetic t => exact ⟨v, t.get_toJson v, rfl⟩
  | enum u => exact ⟨v, congrArg some ((u.ofInt_int64 _).trans (u.ofInt_toInt v)), rfl⟩
  | string => exact ⟨v, rfl, rfl⟩
  | chars n =>
    have hlen : CString.strlen (CString.text v.toList) ≤ n := by
      simpa [CString.strlen] using CString.strlen_le_length v.toList
    refine ⟨_, dif_pos hlen, ?_⟩
    exact (CString.text_assign_replicate n _).trans (CString.text_text v.toList)
  | array t n => exact ⟨v, t.getList_map_toJson v, rfl⟩

theorem validText_toJson (t : FieldType) {v : t.Val} :
    (t.toJson v).validText = true ↔ t.ValidText v := by
  cases t with
  | arithmetic t => simp [toJson, ValidText, t.validText_toJson]
  | enum u => simp [toJson, ValidText, Json.validText, Json.all]
  | string => exact Iff.rfl
  | chars n => exact Iff.rfl
  | array t n =>
    simp only [toJson, ValidText, Json.validText, Json.all, iff_true, Bool.true_and]
    rw [Json.allItems_iff]
    intro j hj
    obtain ⟨x, -, rfl⟩ := List.mem_map.mp hj
    exact t.validText_toJson x

theorem canonical_toJson (t : FieldType) {v : t.Val} (h : t.Finite v) :
    (t.toJson v).canonical = true := by
  cases t with
  | arithmetic t => exact t.canonical_toJson h
  | enum u =>
    have h := And.intro (IntType.int64.le_toInt (IntType.int64.ofInt (u.toInt v)))
      (IntType.int64.toInt_lt (IntType.int64.ofInt (u.toInt v)))
    simpa [toJson, Json.canonical, Json.all] using h
  | string => rfl
  | chars n => rfl
  | array t n =>
    simp only [toJson, Json.canonical, Json.all, Bool.true_and]
    rw [Json.allItems_iff]
    intro j hj
    obtain ⟨x, hx, rfl⟩ := List.mem_map.mp hj
    exact t.canonical_toJson (h x hx)

def plain : FieldType → Bool
  | .arithmetic .double => false
  | .arithmetic _ | .enum _ | .string => true
  | .chars _ | .array _ _ => false

theorem finite_of_plain {t : FieldType} (h : t.plain = true) (v : t.Val) : t.Finite v := by
  cases t with
  | arithmetic t => cases t <;> trivial
  | array t n => cases h
  | _ => trivial

theorem eq_of_eqv {t : FieldType} (h : t.plain = true) {v w : t.Val} (hvw : t.Eqv v w) : v = w := by
  cases t with
  | chars n => cases h
  | array t n => cases h
  | _ => exact hvw

end FieldType

end Kungfu.Common
