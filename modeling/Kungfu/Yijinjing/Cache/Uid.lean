import Kungfu.Yijinjing.Cache.Cells
import Kungfu.Yijinjing.Cache.LastWrite

namespace Kungfu.Common

open Kungfu.Lib Kungfu.Longfist Kungfu.Yijinjing.Cache

variable (hash32 : Bytes → Int32 → UInt32)

namespace FieldType

/-- `hash` of a copy with the given bytes behind it, where `strlen` goes on if a char array holds
no NUL. -/
def hashOver (behind : Bytes) : (t : FieldType) → t.Val → UInt64
  | .chars _, v =>
    (hash32 (CString.text (v.toList ++ behind))
      (.ofNat (CString.strlen (v.toList ++ behind)))).toUInt64
  | .arithmetic t, v => (arithmetic t).hash hash32 v
  | .enum u, v => (enum u).hash hash32 v
  | .string, v => string.hash hash32 v
  | .array t n, v => (array t n).hash hash32 v

structure SameValue (t : FieldType) (a b : t.Val) : Prop where
  left : t.Terminated a
  right : t.Terminated b
  eqv : t.Eqv a b

instance (t : FieldType) (a b : t.Val) : Decidable (t.SameValue a b) :=
  decidable_of_iff (t.Terminated a ∧ t.Terminated b ∧ t.Eqv a b)
    ⟨fun ⟨ha, hb, h⟩ => ⟨ha, hb, h⟩, fun ⟨ha, hb, h⟩ => ⟨ha, hb, h⟩⟩

end FieldType

namespace Record

def hashOver (behind : Bytes) (name : String) : {fs : List Field} → Record fs → UInt64
  | [], _ => 0
  | f :: _, r =>
    if f.name = name then f.type.hashOver hash32 behind r.1 else hashOver behind name r.2

def SameAt (names : List String) : {fs : List Field} → Record fs → Record fs → Prop
  | [], _, _ => True
  | f :: _, a, b => (f.name ∈ names → f.type.SameValue a.1 b.1) ∧ SameAt names a.2 b.2

instance (names : List String) : {fs : List Field} → (a b : Record fs) →
    Decidable (a.SameAt names b)
  | [], _, _ => .isTrue trivial
  | f :: _, a, b =>
    have := instDecidableSameAt names a.2 b.2
    inferInstanceAs (Decidable ((f.name ∈ names → f.type.SameValue a.1 b.1) ∧ SameAt names a.2 b.2))

end Record

/-- `data::uid`, with what lies behind the copy of each primary-key member. -/
def Schema.uidOver (S : Schema) (behind : String → Bytes) (r : S.Data) : UInt64 :=
  (S.primaryKeys.map fun k => r.hashOver hash32 (behind k) k).foldl (· ^^^ ·) 0

variable {hash32} {behind behind' : Bytes}

namespace FieldType

theorem hashOver_eq_hash {t : FieldType} {v : t.Val} (h : t.Terminated v) :
    t.hashOver hash32 behind v = t.hash hash32 v := by
  cases t with
  | chars n =>
    have htext : CString.text (v.toList ++ behind) = CString.text v.toList :=
      CString.text_append_of_terminated h behind
    rw [hashOver, hash, CString.strlen, CString.strlen, htext]
  | _ => rfl

theorem hash_eq_of_eqv {t : FieldType} {a b : t.Val} (h : t.Eqv a b) :
    t.hash hash32 a = t.hash hash32 b := by
  cases t with
  | chars n =>
    have htext : CString.text a.toList = CString.text b.toList := h
    rw [hash, hash, CString.strlen, CString.strlen, htext]
  | _ => exact congrArg _ h

theorem SameValue.hashOver_eq {t : FieldType} {a b : t.Val} (h : t.SameValue a b) :
    t.hashOver hash32 behind a = t.hashOver hash32 behind' b := by
  rw [hashOver_eq_hash h.left, hashOver_eq_hash h.right, hash_eq_of_eqv h.eqv]

theorem sameValue_extract (R : Reals) (column : Memory) {t : FieldType} {v : t.Val}
    (h : t.Storable v) : t.SameValue v (t.extract column (t.bind R v)) := by
  have hback := t.extract_bind R column h
  cases t with
  | chars n =>
    have hlt : (CString.text v.toList).length < n :=
      (CString.strlen_lt_length h).trans_eq v.toList_length
    obtain ⟨rest, hrest⟩ := readColumn_of_lt column hlt
    refine ⟨h, ?_, ?_⟩
    · show 0 ∈ readColumn column (CString.text v.toList) n
      rw [hrest]
      exact List.mem_append_right _ (.head _)
    · show CString.text v.toList = CString.text (readColumn column (CString.text v.toList) n)
      rw [hrest, CString.text_append (CString.zero_notMem_text _), CString.text_cons, if_pos rfl,
        List.append_nil]
  | _ => exact ⟨trivial, trivial, hback.symm⟩

theorem SameValue.assign_fresh {t : FieldType} {a b : t.Val} (h : t.SameValue a b) :
    t.SameValue a (t.assign t.fresh b) := by
  refine ⟨h.left, ?_, Eqv.trans t h.eqv (t.assign_fresh b).symm⟩
  cases t with
  | chars n =>
    have hb : CString.Terminated (List.Vector.toList b) := h.right
    have hlt : CString.strlen (List.Vector.toList b) < n :=
      (CString.strlen_lt_length hb).trans_eq b.toList_length
    refine List.mem_append_right _ ?_
    show 0 ∈ (List.replicate n 0).drop (CString.strlen (List.Vector.toList b))
    rw [List.drop_replicate]
    exact List.mem_replicate.mpr ⟨by omega, rfl⟩
  | _ => trivial

end FieldType

namespace Record

variable {fs : List Field} {a b : Record fs} {names : List String}

theorem hashOver_eq_hash (h : a.Terminated) (name : String) :
    a.hashOver hash32 behind name = a.hash hash32 name := by
  induction fs with
  | nil => rfl
  | cons f fs ih =>
    rw [hashOver, hash, FieldType.hashOver_eq_hash h.1, ih h.2]

theorem SameAt.hashOver_eq (h : a.SameAt names b) {name : String} (hname : name ∈ names) :
    a.hashOver hash32 behind name = b.hashOver hash32 behind' name := by
  induction fs with
  | nil => rfl
  | cons f fs ih =>
    rw [hashOver, hashOver]
    split
    next hf => exact (h.1 (hf ▸ hname)).hashOver_eq
    next => exact ih h.2

theorem StorableAt.sameAt_extract (h : a.StorableAt names) (R : Reals)
    (column : String → Memory) : a.SameAt names ((Cells.bind R a).extract column) := by
  induction fs with
  | nil => trivial
  | cons f fs ih =>
    exact ⟨fun hname => FieldType.sameValue_extract R (column f.name) (h.1 hname), ih h.2⟩

theorem SameAt.assign_fresh (h : a.SameAt names b) : a.SameAt names ((fresh fs).assign b) := by
  induction fs with
  | nil => trivial
  | cons f fs ih => exact ⟨fun hname => (h.1 hname).assign_fresh, ih h.2⟩

end Record

namespace Schema

variable {S : Schema}

theorem uidOver_eq_uid {r : S.Data} (h : r.Terminated) (behind : String → Bytes) :
    S.uidOver hash32 behind r = S.uid hash32 r := by
  rw [uidOver, uid]
  congr 1
  exact List.map_congr_left fun k _ => Record.hashOver_eq_hash h k

theorem uidOver_eq_of_sameAt {r r' : S.Data} (h : r.SameAt S.primaryKeys r')
    (behind behind' : String → Bytes) :
    S.uidOver hash32 behind r = S.uidOver hash32 behind' r' := by
  rw [uidOver, uidOver]
  congr 1
  exact List.map_congr_left fun k hk => h.hashOver_eq hk

end Schema

theorem Schema.uid_of_key (S : Schema) (hash32 : Bytes → Int32 → UInt32)
    (behind behind' : String → Bytes) :
    (∀ r r' : S.Data, r.SameAt S.primaryKeys r' →
      S.uidOver hash32 behind r = S.uidOver hash32 behind' r') ∧
    ∀ (R : Reals) (row : Row S) (column : String → Memory), row.data.StorableAt S.primaryKeys →
      S.uidOver hash32 behind row.data =
        S.uidOver hash32 behind' ((Cells.bind R row.data).extract column) ∧
      S.uidOver hash32 behind row.data =
        S.uidOver hash32 behind' ((Cells.bind R row.data).object column) := by
  refine ⟨fun r r' h => uidOver_eq_of_sameAt h .., fun R row column h => ?_⟩
  have hextract := h.sameAt_extract R column
  exact ⟨uidOver_eq_of_sameAt hextract .., uidOver_eq_of_sameAt hextract.assign_fresh ..⟩

def commissionOf (productId : List.Vector UInt8 128) (exchangeId : List.Vector UInt8 16)
    (openRatio : BitVec 64) : Types.commission.Data :=
  (productId, exchangeId, (0 : BitVec 8), (0 : BitVec 8), openRatio, (0 : BitVec 64),
    (0 : BitVec 64), (0 : BitVec 64), ())

def storedCommission : Row Types.commission where
  data := commissionOf ((FieldType.chars 128).ofBytes [114, 98])
    ((FieldType.chars 16).ofBytes [83]) 0
  terminated := by decide

def otherCommission : Types.commission.Data :=
  commissionOf ((FieldType.chars 128).ofBytes [114, 98, 0, 120])
    ((FieldType.chars 16).ofBytes [83]) 7

/-- The second record comes from columns with sevens behind their texts. -/
theorem uid_of_key_commission :
    Types.commission.uidOver (fun b _ => .ofNat b.length) (fun _ => []) storedCommission.data =
      Types.commission.uidOver (fun b _ => .ofNat b.length) (fun _ => [7]) otherCommission ∧
    Types.commission.uidOver (fun b _ => .ofNat b.length) (fun _ => []) storedCommission.data =
      Types.commission.uidOver (fun b _ => .ofNat b.length) (fun _ => [7])
        ((Cells.bind default storedCommission.data).extract fun _ _ => 7) := by
  obtain ⟨hkey, hback⟩ := Schema.uid_of_key Types.commission (fun b _ => .ofNat b.length)
    (fun _ => []) (fun _ => [7])
  exact ⟨hkey _ _ (by decide), (hback default storedCommission (fun _ _ => 7) (by decide)).1⟩

def splitKey : Row Types.timeKeyValue where
  data := (Record.fresh Types.timeKeyValue.fields).set
    (.there .here : Member _ ⟨Types.string, "key"⟩) [97, 0, 98]
  terminated := by decide

/-- It comes back under the key `a`, whose `uid` is another. -/
theorem not_uid_of_key_splitKey :
    ¬ ∀ (S : Schema) (hash32 : Bytes → Int32 → UInt32) (behind behind' : String → Bytes),
      (∀ r r' : S.Data, r.SameAt S.primaryKeys r' →
        S.uidOver hash32 behind r = S.uidOver hash32 behind' r') ∧
      ∀ (R : Reals) (row : Row S) (column : String → Memory), S.uidOver hash32 behind row.data =
        S.uidOver hash32 behind' ((Cells.bind R row.data).object column) := by
  intro h
  have huid := (h Types.timeKeyValue (fun b _ => .ofNat b.length) (fun _ => []) fun _ => []).2
    default splitKey fun _ _ => 0
  exact absurd huid (by decide)

end Kungfu.Common
