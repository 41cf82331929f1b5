import Kungfu.Common.ParseSafety

namespace Kungfu.Common

open Kungfu.Lib

inductive Element where
  | char
  | arithmetic (t : Scalar)
  deriving DecidableEq

namespace Element

@[reducible] def Val : Element → Type
  | .char => UInt8
  | .arithmetic t => t.Val

/-- `j = value.value`: `nlohmann` takes `char[N]` for a string, and any other array for an array. -/
def toJson {n : Nat} : (V : Element) → List.Vector V.Val n → Json
  | .char, a => .str (CString.text a.toList)
  | .arithmetic t, a => .arr (a.toList.map t.toJson)

def element : (V : Element) → Json → Nat → Except Fault V.Val
  | .char, j, i => ((Scalar.int .int8).element j i).map UInt8.ofBitVec
  | .arithmetic t, j, i => t.element j i

def fromJson (V : Element) (n : Nat) (j : Json) : Except Fault (List V.Val) :=
  (List.range n).mapM (V.element j)

def Eqv : (V : Element) → List V.Val → List V.Val → Prop
  | .char, a, b => CString.text a = CString.text b
  | .arithmetic _, a, b => a = b

def Convertible : (V : Element) → List V.Val → Prop
  | .char, a => CString.Terminated a ∧ Utf8.valid (CString.text a) = true
  | .arithmetic t, a => ∀ x ∈ a, t.Finite x

def RoundTrips (V : Element) {n : Nat} (a : List.Vector V.Val n) : Prop :=
  ∃ b, V.fromJson n (V.toJson a) = .ok b ∧ V.Eqv b a.toList

theorem fromJson_str {n : Nat} (h : 0 < n) (s : Bytes) :
    Element.char.fromJson n (.str s) = .error .exception := by
  obtain ⟨n, rfl⟩ := Nat.exists_eq_add_of_lt h
  rw [fromJson, Nat.zero_add, List.range_succ_eq_map]
  exact Traverse.mapM_cons_of_error rfl

theorem fromJson_toJson (t : Scalar) {n : Nat} (a : List.Vector t.Val n) :
    (Element.arithmetic t).fromJson n ((Element.arithmetic t).toJson a) = .ok a.toList :=
  Scalar.elements_of_getList (t.getList_map_toJson a)

theorem not_roundTrips_char {n : Nat} {a : List.Vector UInt8 n} (h : CString.Terminated a.toList) :
    ¬ Element.char.RoundTrips a := by
  have hn : 0 < n := a.toList_length ▸ List.length_pos_of_mem h
  rintro ⟨b, hb, -⟩
  rw [toJson, fromJson_str hn] at hb
  cases hb

/-- A string has no elements: `from_json` throws on what `to_json` makes of a `char` array. -/
theorem roundTrips_iff_ne_char (V : Element) {n : Nat} (a : List.Vector V.Val n)
    (h : V.Convertible a.toList) : V.RoundTrips a ↔ V ≠ .char := by
  cases V with
  | char => exact iff_of_false (not_roundTrips_char h.1) (not_not.mpr rfl)
  | arithmetic t => exact iff_of_true ⟨a.toList, fromJson_toJson t a, rfl⟩ nofun

theorem roundTrips_iff_ne_char_int8 :
    (Element.arithmetic (.int .int8)).RoundTrips ⟨[(-1 : BitVec 8), 65], rfl⟩ ↔
      Element.arithmetic (.int .int8) ≠ .char :=
  roundTrips_iff_ne_char (.arithmetic (.int .int8)) ⟨[(-1 : BitVec 8), 65], rfl⟩
    (by simp [Convertible, Scalar.Finite])

theorem not_roundTrips_text :
    ¬ ∀ (V : Element) (n : Nat) (a : List.Vector V.Val n), V.Convertible a.toList →
      V.RoundTrips a := by
  intro h
  exact not_roundTrips_char (n := 2) (a := ⟨[97, 0], rfl⟩) (by decide)
    (h .char 2 ⟨[97, 0], rfl⟩ ⟨by decide, by decide⟩)

end Element

end Kungfu.Common
