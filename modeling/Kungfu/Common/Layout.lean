import Kungfu.Common.Field
import Kungfu.Lib.Memory

namespace Kungfu.Common

open Kungfu.Lib

namespace Scalar

def size : Scalar → Nat
  | .bool => 1
  | .int t => t.size
  | .double => 8

def toBytes : (t : Scalar) → t.Val → Bytes
  | .bool, v => [if v then 1 else 0]
  | .int t, v => LittleEndian.encode t.size v
  | .double, v => LittleEndian.encode 8 v

def ofBytes : (t : Scalar) → Bytes → t.Val
  | .bool, bs => bs.headD 0 ≠ 0
  | .int t, bs => LittleEndian.decode t.size bs
  | .double, bs => LittleEndian.decode 8 bs

@[simp] theorem length_toBytes (t : Scalar) (v : t.Val) : (t.toBytes v).length = t.size := by
  cases t with
  | bool => rfl
  | int t => exact LittleEndian.length_encode (w := t.size) v
  | double => exact LittleEndian.length_encode (w := 8) v

@[simp] theorem ofBytes_toBytes (t : Scalar) (v : t.Val) : t.ofBytes (t.toBytes v) = v := by
  cases t with
  | bool => cases v <;> rfl
  | int t => exact LittleEndian.decode_encode (w := t.size) v
  | double => exact LittleEndian.decode_encode (w := 8) v

def listToBytes (t : Scalar) (vs : List t.Val) : Bytes := vs.flatMap t.toBytes

def listOfBytes (t : Scalar) : Nat → Bytes → List t.Val
  | 0, _ => []
  | n + 1, bs => t.ofBytes (bs.take t.size) :: listOfBytes t n (bs.drop t.size)

@[simp] theorem length_listOfBytes (t : Scalar) (n : Nat) (bs : Bytes) :
    (t.listOfBytes n bs).length = n := by
  induction n generalizing bs with
  | zero => rfl
  | succ n ih => simp [listOfBytes, ih]

@[simp] theorem length_listToBytes (t : Scalar) (vs : List t.Val) :
    (t.listToBytes vs).length = vs.length * t.size := by
  simp [listToBytes, List.length_flatMap]

theorem listOfBytes_listToBytes (t : Scalar) {n : Nat} (vs : List t.Val) (h : vs.length = n) :
    t.listOfBytes n (t.listToBytes vs) = vs := by
  subst h
  induction vs with
  | nil => rfl
  | cons v vs ih =>
    rw [listToBytes] at ih
    rw [List.length_cons, listOfBytes, listToBytes, List.flatMap_cons,
      List.take_left' (t.length_toBytes v), List.drop_left' (t.length_toBytes v),
      ofBytes_toBytes, ih]

end Scalar

namespace FieldType

/-- `sizeof` of a member; a `std::string` is never copied as memory and has no bytes here. -/
def size : FieldType → Nat
  | .arithmetic t => t.size
  | .enum u => u.size
  | .string => 0
  | .chars n => n
  | .array t n => n * t.size

def toBytes : (t : FieldType) → t.Val → Bytes
  | .arithmetic t, v => t.toBytes v
  | .enum u, v => LittleEndian.encode u.size v
  | .string, _ => []
  | .chars _, v => v.toList
  | .array t _, v => t.listToBytes v.toList

def ofBytes : (t : FieldType) → Bytes → t.Val
  | .arithmetic t, bs => t.ofBytes bs
  | .enum u, bs => LittleEndian.decode u.size bs
  | .string, _ => []
  | .chars n, bs => ⟨(bs ++ List.replicate n 0).take n, by simp⟩
  | .array t n, bs => ⟨t.listOfBytes n bs, t.length_listOfBytes n bs⟩

@[simp] theorem length_toBytes (t : FieldType) (v : t.Val) : (t.toBytes v).length = t.size := by
  cases t with
  | arithmetic t => exact t.length_toBytes v
  | enum u => exact LittleEndian.length_encode (w := u.size) v
  | string => rfl
  | chars n => exact v.toList_length
  | array t n => simp [toBytes, size]

theorem ofBytes_toBytes (t : FieldType) (h : t.sizeFixed = true) (v : t.Val) :
    t.ofBytes (t.toBytes v) = v := by
  cases t with
  | arithmetic t => exact t.ofBytes_toBytes v
  | enum u => exact LittleEndian.decode_encode (w := u.size) v
  | string => simp [sizeFixed] at h
  | chars n =>
    apply Subtype.ext
    exact List.take_left' v.toList_length
  | array t n =>
    apply Subtype.ext
    exact t.listOfBytes_listToBytes v.toList v.toList_length

end FieldType

end Kungfu.Common
