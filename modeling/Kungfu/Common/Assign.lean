import Kungfu.Common.Record
import Kungfu.Lib.Overwriting

namespace Kungfu.Common

open Kungfu.Lib

namespace FieldType

def Clear : (t : FieldType) → t.Val → t.Val → Prop
  | .chars _, a, b => CString.Clear a.toList (CString.strlen b.toList)
  | .arithmetic _, _, _ | .enum _, _, _ | .string, _, _ | .array _ _, _, _ => True

def NotLonger : (t : FieldType) → t.Val → t.Val → Prop
  | .chars _, a, b => CString.strlen a.toList ≤ CString.strlen b.toList
  | .arithmetic _, _, _ | .enum _, _, _ | .string, _, _ | .array _ _, _, _ => True

theorem toList_foldl_assign_chars {n : Nat} (b : List.Vector UInt8 n)
    (vs : List (List.Vector UInt8 n)) :
    List.Vector.toList (vs.foldl (chars n).assign b) =
      (vs.map List.Vector.toList).foldl CString.assign b.toList := by
  induction vs generalizing b with
  | nil => rfl
  | cons v vs ih => exact ih (charsAssign b v)

theorem eqv_foldl_assign_iff (t : FieldType) (b v : t.Val) (vs : List t.Val) :
    t.Eqv ((vs ++ [v]).foldl t.assign b) v ↔ t.Clear b v ∧ ∀ w ∈ vs, t.NotLonger w v := by
  cases t with
  | chars n =>
    have h := CString.text_foldl_assign_eq_iff (vs.map List.Vector.toList) b.toList v.toList
    simp only [Eqv, Clear, NotLonger]
    rw [toList_foldl_assign_chars, List.map_append, List.map_singleton, h, and_comm]
    simp
  | arithmetic t => simp [Eqv, assign, Clear, NotLonger]
  | enum u => simp [Eqv, assign, Clear, NotLonger]
  | string => simp [Eqv, assign, Clear, NotLonger]
  | array t n => simp [Eqv, assign, Clear, NotLonger]

end FieldType

namespace Record

/-- In every char array the first record is clear where the text of the last ends, and no
record in between has a longer text. -/
def Covered (first : Record fs) (between : List (Record fs)) (last : Record fs) : Prop :=
  ∀ {f} (m : Member fs f), f.type.Clear (first.get m) (last.get m) ∧
    ∀ r ∈ between, f.type.NotLonger (r.get m) (last.get m)

theorem eqv_foldl_assign_iff (first last : Record fs) (between : List (Record fs)) :
    ((between ++ [last]).foldl assign first).Eqv last ↔ Covered first between last := by
  rw [eqv_iff, Covered]
  constructor
  · intro h f m
    have hm := h m
    rw [get_foldl_assign, List.map_append, List.map_singleton, f.type.eqv_foldl_assign_iff] at hm
    exact ⟨hm.1, fun r hr => hm.2 _ (List.mem_map_of_mem hr)⟩
  · intro h f m
    rw [get_foldl_assign, List.map_append, List.map_singleton, f.type.eqv_foldl_assign_iff]
    refine ⟨(h m).1, fun v hv => ?_⟩
    obtain ⟨r, hr, rfl⟩ := List.mem_map.mp hv
    exact (h m).2 r hr

end Record

namespace FieldType

theorem overwriting_assign (t : FieldType) : Overwriting t.assign := by
  cases t with
  | chars n =>
    have ext {a b : List.Vector UInt8 n} : a = b ↔ a.toList = b.toList := Subtype.ext_iff
    refine ⟨fun b x => ext.mpr (CString.overwriting_assign.idem _ _), fun y h => ext.mpr ?_⟩
    exact CString.overwriting_assign.congr _ (ext.mp h)
  | arithmetic t => exact ⟨fun _ _ => rfl, fun _ _ => rfl⟩
  | enum u => exact ⟨fun _ _ => rfl, fun _ _ => rfl⟩
  | string => exact ⟨fun _ _ => rfl, fun _ _ => rfl⟩
  | array t n => exact ⟨fun _ _ => rfl, fun _ _ => rfl⟩

theorem assign_self (t : FieldType) (v : t.Val) : t.assign v v = v := by
  cases t with
  | chars n => exact Subtype.ext (CString.assign_eq_self rfl)
  | arithmetic t => rfl
  | enum u => rfl
  | string => rfl
  | array t n => rfl

end FieldType

namespace Record

/-- An assignment that stops in front of the member `n`. -/
def assignUpTo : (n : Nat) → {fs : List Field} → Record fs → Record fs → Record fs
  | _, [], _, _ => ()
  | 0, _ :: _, a, _ => a
  | n + 1, f :: _, a, b => (f.type.assign a.1 b.1, assignUpTo n a.2 b.2)

theorem overwriting_assign (fs : List Field) : Overwriting (@assign fs) where
  idem a b := Record.ext fun m => by
    rw [get_assign, get_assign]
    exact (FieldType.overwriting_assign _).idem _ _
  congr {a a' b} c h := Record.ext fun m => by
    have hm := congrArg (get m) h
    rw [get_assign, get_assign] at hm
    rw [get_assign, get_assign, get_assign, get_assign]
    exact (FieldType.overwriting_assign _).congr _ hm

theorem assign_self (a : Record fs) : a.assign a = a := Record.ext fun m => by
  rw [get_assign, FieldType.assign_self]

theorem assign_assignUpTo (n : Nat) (a b : Record fs) :
    (a.assignUpTo n b).assign b = a.assign b := by
  induction fs generalizing n with
  | nil => rfl
  | cons f fs ih =>
    cases n with
    | zero => rfl
    | succ n => exact Prod.ext ((FieldType.overwriting_assign _).idem _ _) (ih n a.2 b.2)

end Record

namespace State

def assignUpTo (n : Nat) (s t : State S) : State S where
  source := t.source
  dest := t.dest
  updateTime := t.updateTime
  data := s.data.assignUpTo n t.data

theorem overwriting_assign (S : Schema) : Overwriting (assign (S := S)) where
  idem s t := by
    have hdata := (Record.overwriting_assign S.fields).idem s.data t.data
    rw [assign, assign, hdata]
  congr {s s' t} u h := by
    have hdata := (Record.overwriting_assign S.fields).congr u.data (congrArg State.data h)
    rw [assign, assign, assign, assign]
    exact congrArg _ hdata

theorem assign_self (s : State S) : s.assign s = s := by
  rw [assign, Record.assign_self]

theorem assign_assignUpTo (n : Nat) (s t : State S) : (s.assignUpTo n t).assign t = s.assign t := by
  rw [assign, assign, assignUpTo, Record.assign_assignUpTo]

end State

end Kungfu.Common
