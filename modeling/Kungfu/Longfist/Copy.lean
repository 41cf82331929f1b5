import Kungfu.Common.Assign
import Kungfu.Longfist.Types

namespace Kungfu.Longfist

open Kungfu.Lib Kungfu.Common

/-- `copy(to, from)`: the bytes of the object where the type is size-fixed, and member-wise
assignment for every other type. -/
def copy (S : Schema) (a b : S.Data) : S.Data :=
  if S.sizeFixed then .ofBytes S.fields (CString.overwrite a.toBytes b.toBytes) else a.assign b

structure CopiesAgree (S : Schema) (a b : S.Data) : Prop where
  agree : (a.assign b).Eqv (copy S a b)
  assigned : (a.assign b).Eqv b
  copied : (copy S a b).Eqv b

theorem copy_of_sizeFixed {S : Schema} (h : S.sizeFixed = true) (a b : S.Data) :
    copy S a b = b := by
  have hlen : b.toBytes.length = a.toBytes.length := by simp
  rw [copy, if_pos h, CString.overwrite, hlen, List.drop_length, List.append_nil]
  exact Record.ofBytes_toBytes (List.all_eq_true.mp h) b

theorem eqv_copy {S : Schema} {a b : S.Data} (h : (a.assign b).Eqv b) : (copy S a b).Eqv b := by
  by_cases hfixed : S.sizeFixed = true
  · rw [copy_of_sizeFixed hfixed]
  · rwa [copy, if_neg hfixed]

/-- Assignment is a copy when nothing of an old text shows behind the new one. Texts without a
terminator are read to the end of their arrays. -/
theorem copiesAgree_iff (T : DataType) (a b : T.schema.Data) :
    CopiesAgree T.schema a b ↔
      ∀ {f} (m : Member T.schema.fields f), f.type.Clear (a.get m) (b.get m) := by
  have hcovered : (a.assign b).Eqv b ↔ Record.Covered a [] b :=
    Record.eqv_foldl_assign_iff a b []
  constructor
  · intro h f m
    exact (hcovered.mp h.assigned m).1
  · intro h
    have hassigned : (a.assign b).Eqv b := hcovered.mpr fun m => ⟨h m, by simp⟩
    exact ⟨hassigned.trans (eqv_copy hassigned).symm, hassigned, eqv_copy hassigned⟩

def keyOf (id : Bytes) : DataType.instrumentKey.schema.Data :=
  (Record.fresh Types.instrumentKey.fields).set
    (.there .here : Member _ ⟨Types.chars Types.instrumentIdLen, "instrument_id"⟩)
    ((FieldType.chars Types.instrumentIdLen).ofBytes id)

/-- `IF2401` assigned over `rb2405` leaves nothing of it, but `IF` leaves `2405`. -/
theorem not_copiesAgree_shorterId :
    ¬ ∀ (T : DataType) (a b : T.schema.Data), a.Terminated → b.Terminated →
      CopiesAgree T.schema a b := by
  intro h
  have hid := (h .instrumentKey (keyOf [0x72, 0x62, 0x32, 0x34, 0x30, 0x35]) (keyOf [0x49, 0x46])
    (by decide) (by decide)).assigned
  exact absurd (Record.eqv_iff.mp hid (.there .here)) (by decide)

end Kungfu.Longfist
