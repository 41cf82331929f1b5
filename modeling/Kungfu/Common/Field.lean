import Mathlib.Data.Vector.Basic
import Mathlib.Data.UInt
import Mathlib.Tactic.NormNum
import Kungfu.Lib.CString

namespace Kungfu.Common

open Kungfu.Lib

abbrev Bytes := List UInt8

inductive IntType where
  | int8 | uint8 | int16 | uint16 | int32 | uint32 | int64 | uint64
  deriving DecidableEq

namespace IntType

@[reducible] def size : IntType → Nat
  | .int8 | .uint8 => 1
  | .int16 | .uint16 => 2
  | .int32 | .uint32 => 4
  | .int64 | .uint64 => 8

def signed : IntType → Bool
  | .int8 | .int16 | .int32 | .int64 => true
  | .uint8 | .uint16 | .uint32 | .uint64 => false

abbrev Val (t : IntType) := BitVec (8 * t.size)

def toInt (t : IntType) (v : t.Val) : Int := if t.signed then v.toInt else v.toNat

def ofInt (t : IntType) (i : Int) : t.Val := BitVec.ofInt _ i

@[simp] theorem ofInt_toInt (t : IntType) (v : t.Val) : t.ofInt (t.toInt v) = v := by
  unfold ofInt toInt
  split <;> simp

theorem ofInt_ofInt {t u : IntType} (h : t.size ≤ u.size) (hu : u.signed = true) (i : Int) :
    t.ofInt (u.toInt (u.ofInt i)) = t.ofInt i := by
  have hmod : (i.bmod (2 ^ (8 * u.size))).bmod (2 ^ (8 * t.size)) = i.bmod (2 ^ (8 * t.size)) :=
    Int.bmod_bmod_of_dvd (Nat.pow_dvd_pow 2 (Nat.mul_le_mul_left 8 h))
  apply BitVec.eq_of_toInt_eq
  rw [ofInt, ofInt, ofInt, toInt, if_pos hu, BitVec.toInt_ofInt, BitVec.toInt_ofInt,
    BitVec.toInt_ofInt, hmod]

theorem ofInt_int64 (t : IntType) (i : Int) :
    t.ofInt (IntType.int64.toInt (IntType.int64.ofInt i)) = t.ofInt i :=
  ofInt_ofInt (by cases t <;> decide) rfl i

theorem size_le (t : IntType) : 8 * t.size ≤ 64 := by cases t <;> decide

theorem le_toInt (t : IntType) (v : t.Val) : -2 ^ 63 ≤ t.toInt v := by
  unfold toInt
  split
  · have h := BitVec.le_toInt v
    have hw : (2 : Int) ^ (8 * t.size - 1) ≤ 2 ^ 63 :=
      pow_le_pow_right₀ (by norm_num) (by have := t.size_le; omega)
    omega
  · omega

theorem toInt_lt (t : IntType) (v : t.Val) : t.toInt v < 2 ^ 64 := by
  have hw : (2 : Nat) ^ (8 * t.size) ≤ 2 ^ 64 := Nat.pow_le_pow_right (by norm_num) t.size_le
  have hv := v.isLt
  unfold toInt
  split
  · have h := BitVec.toInt_lt (x := v)
    have hw' : (2 : Int) ^ (8 * t.size - 1) ≤ 2 ^ 63 :=
      pow_le_pow_right₀ (by norm_num) (by have := t.size_le; omega)
    omega
  · omega

end IntType

inductive Scalar where
  | bool
  | int (t : IntType)
  | double
  deriving DecidableEq

namespace Scalar

@[reducible] def Val : Scalar → Type
  | .bool => Bool
  | .int t => t.Val
  | .double => BitVec 64

instance : (t : Scalar) → DecidableEq t.Val
  | .bool => inferInstanceAs (DecidableEq Bool)
  | .int t => inferInstanceAs (DecidableEq (BitVec (8 * t.size)))
  | .double => inferInstanceAs (DecidableEq (BitVec 64))

def zero : (t : Scalar) → t.Val
  | .bool => false
  | .int _ => 0
  | .double => 0

end Scalar

/-- The member types a schema may use: arithmetic types, enumerations with their underlying
type, `std::string`, `array<char, n>` and `array<V, n>` for any other `V`. -/
inductive FieldType where
  | arithmetic (t : Scalar)
  | enum (underlying : IntType)
  | string
  | chars (n : Nat)
  | array (t : Scalar) (n : Nat)
  deriving DecidableEq

namespace FieldType

@[reducible] def Val : FieldType → Type
  | .arithmetic t => t.Val
  | .enum u => u.Val
  | .string => Bytes
  | .chars n => List.Vector UInt8 n
  | .array t n => List.Vector t.Val n

instance : (t : FieldType) → DecidableEq t.Val
  | .arithmetic t => inferInstanceAs (DecidableEq t.Val)
  | .enum u => inferInstanceAs (DecidableEq (BitVec (8 * u.size)))
  | .string => inferInstanceAs (DecidableEq Bytes)
  | .chars n => inferInstanceAs (DecidableEq (List.Vector UInt8 n))
  | .array t n => inferInstanceAs (DecidableEq (List.Vector t.Val n))

def sizeFixed : FieldType → Bool
  | .string => false
  | _ => true

/-- The member of a freshly constructed record: `init_member` zeroes numbers and enumerations,
the default constructors of `array` and `std::string` do the rest. -/
def fresh : (t : FieldType) → t.Val
  | .arithmetic t => t.zero
  | .enum _ => 0
  | .string => []
  | .chars n => .replicate n 0
  | .array t n => .replicate n t.zero

end FieldType

/-- `array<char, n>::operator=`: copies `strlen(data)` bytes and leaves the rest alone. -/
def charsAssign {n : Nat} (dst src : List.Vector UInt8 n) : List.Vector UInt8 n :=
  ⟨CString.assign dst.toList src.toList, by rw [CString.length_assign] <;> simp⟩

@[simp] theorem toList_charsAssign {n : Nat} (dst src : List.Vector UInt8 n) :
    (charsAssign dst src).toList = CString.assign dst.toList src.toList := rfl

namespace FieldType

def assign : (t : FieldType) → t.Val → t.Val → t.Val
  | .arithmetic _, _, src => src
  | .enum _, _, src => src
  | .string, _, src => src
  | .chars _, dst, src => charsAssign dst src
  | .array _ _, _, src => src

def Eqv : (t : FieldType) → t.Val → t.Val → Prop
  | .arithmetic _, a, b => a = b
  | .enum _, a, b => a = b
  | .string, a, b => a = b
  | .chars _, a, b => CString.text a.toList = CString.text b.toList
  | .array _ _, a, b => a = b

instance : (t : FieldType) → DecidableRel t.Eqv
  | .arithmetic t => inferInstanceAs (DecidableEq t.Val)
  | .enum u => inferInstanceAs (DecidableEq (BitVec (8 * u.size)))
  | .string => inferInstanceAs (DecidableEq Bytes)
  | .chars _ => fun a b =>
    inferInstanceAs (Decidable (CString.text a.toList = CString.text b.toList))
  | .array t n => inferInstanceAs (DecidableEq (List.Vector t.Val n))

def Terminated : (t : FieldType) → t.Val → Prop
  | .chars _, v => CString.Terminated v.toList
  | _, _ => True

instance : (t : FieldType) → DecidablePred t.Terminated
  | .arithmetic _, _ | .enum _, _ | .string, _ | .array _ _, _ => .isTrue trivial
  | .chars _, v => inferInstanceAs (Decidable (CString.Terminated v.toList))

@[refl] theorem Eqv.refl : (t : FieldType) → (a : t.Val) → t.Eqv a a
  | .arithmetic _, _ | .enum _, _ | .string, _ | .chars _, _ | .array _ _, _ => rfl

theorem Eqv.symm : (t : FieldType) → {a b : t.Val} → t.Eqv a b → t.Eqv b a
  | .arithmetic _, _, _, h | .enum _, _, _, h | .string, _, _, h | .chars _, _, _, h
  | .array _ _, _, _, h => Eq.symm h

theorem Eqv.trans : (t : FieldType) → {a b c : t.Val} → t.Eqv a b → t.Eqv b c → t.Eqv a c
  | .arithmetic _, _, _, _, h, h' | .enum _, _, _, _, h, h' | .string, _, _, _, h, h'
  | .chars _, _, _, _, h, h' | .array _ _, _, _, _, h, h' => Eq.trans h h'

theorem assign_fresh : (t : FieldType) → (v : t.Val) → t.Eqv (t.assign t.fresh v) v
  | .arithmetic _, _ | .enum _, _ | .string, _ | .array _ _, _ => rfl
  | .chars n, v => CString.text_assign_replicate n v.toList

end FieldType

structure Field where
  type : FieldType
  name : String
  deriving DecidableEq

def Field.key (f : Field) : Bytes := f.name.toUTF8.data.toList

theorem utf8_inj {s t : String} : s.toUTF8.data.toList = t.toUTF8.data.toList ↔ s = t := by
  constructor
  · intro h
    exact String.toByteArray_inj.mp (ByteArray.ext (Array.toList_inj.mp h))
  · rintro rfl
    rfl

theorem Field.key_inj {f g : Field} : f.key = g.key ↔ f.name = g.name := utf8_inj

end Kungfu.Common
