import Kungfu.Common.Record

/-!
The rows of the tables that `make_storage_ptr` makes: what `statement_binder` and `row_extractor`
of `sqlite_orm` leave in the column of a member and read back from it.
-/

namespace Kungfu.Yijinjing.Cache

open Kungfu.Lib Kungfu.Common

def isNaN (v : BitVec 64) : Bool := v.extractLsb' 52 11 = 0x7ff ∧ v.extractLsb' 0 52 ≠ 0

def negativeZero : BitVec 64 := 0x8000000000000000

/-- The reals of SQLite. A column does not tell the zeros apart, and a NaN never gets to one. -/
structure Reals where
  column : BitVec 64 → BitVec 64
  column_eq : ∀ v, isNaN v = false → v ≠ negativeZero → column v = v

instance : Inhabited Reals := ⟨⟨id, fun _ _ _ => rfl⟩⟩

/-- `sqlite3_bind_double` of a NaN is NULL, for which `REPLACE INTO` takes the default value of a
column that is `NOT NULL`. -/
def Reals.bind (R : Reals) (v : BitVec 64) : BitVec 64 := if isNaN v then 0 else R.column v

/-- What `sqlite3_column_text` points at, with the terminator that SQLite writes, and whatever
memory there is behind. -/
def readColumn (behind : Memory) (b : Bytes) (n : Nat) : Bytes :=
  (behind.write 0 (b ++ [0])).read 0 n

@[simp] theorem length_readColumn (behind : Memory) (b : Bytes) (n : Nat) :
    (readColumn behind b n).length = n := Memory.length_read

theorem readColumn_of_lt (behind : Memory) {b : Bytes} {n : Nat} (h : b.length < n) :
    ∃ rest, readColumn behind b n = b ++ 0 :: rest := by
  rw [readColumn, Memory.read_write_of_le (by simpa using Nat.succ_le_of_lt h),
    List.append_assoc]
  exact ⟨_, rfl⟩

theorem readColumn_of_length (behind : Memory) {b : Bytes} {n : Nat} (h : b.length = n) :
    readColumn behind b n = b := by
  have hread := @Memory.read_write_same behind 0 (b ++ [0])
  rw [List.length_append, Memory.read_add] at hread
  rw [readColumn, ← h]
  exact List.append_inj_left hread Memory.length_read

end Kungfu.Yijinjing.Cache

namespace Kungfu.Common

open Kungfu.Lib Kungfu.Yijinjing.Cache

namespace IntType

/-- `sqlite3_bind_int` for what fits an `int`, otherwise `sqlite3_bind_int64`. -/
def bind (t : IntType) (v : t.Val) : Int :=
  if t.size ≤ 4 then IntType.int32.toInt (IntType.int32.ofInt (t.toInt v))
  else IntType.int64.toInt (IntType.int64.ofInt (t.toInt v))

def extract (t : IntType) (i : Int) : t.Val :=
  if t.size ≤ 4 then t.ofInt (IntType.int32.toInt (IntType.int32.ofInt i))
  else t.ofInt (IntType.int64.toInt (IntType.int64.ofInt i))

@[simp] theorem extract_bind (t : IntType) (v : t.Val) : t.extract (t.bind v) = v := by
  rw [extract, bind]
  split
  next h => rw [ofInt_ofInt h rfl, ofInt_ofInt h rfl, ofInt_toInt]
  next => rw [ofInt_int64, ofInt_int64, ofInt_toInt]

theorem bind_inj {t : IntType} {v w : t.Val} : t.bind v = t.bind w ↔ t.toInt v = t.toInt w := by
  constructor
  · intro h
    rw [← t.extract_bind v, h, t.extract_bind]
  · intro h
    rw [bind, bind, h]

theorem bind_int64 (v : IntType.int64.Val) : IntType.int64.bind v = IntType.int64.toInt v := by
  rw [bind, if_neg (by decide), ofInt_toInt]

end IntType

/-- `statement_binder<std::string>`: the size becomes an `int`, and SQLite takes a negative one to
mean everything in front of the first NUL. -/
def bindString (v : Bytes) : Bytes :=
  let size := IntType.int32.toInt (IntType.int32.ofInt v.length)
  if size < 0 then CString.text v else v.take size.toNat

theorem bindString_eq {v : Bytes} (h : v.length < 2 ^ 31) : bindString v = v := by
  have hsize : IntType.int32.toInt (IntType.int32.ofInt v.length) = v.length := by
    have hmod : Int.bmod v.length (2 ^ 32) = v.length :=
      Int.bmod_eq_of_le (by omega) (by omega)
    exact (BitVec.toInt_ofInt _).trans hmod
  rw [bindString, hsize, if_neg (by omega), Int.toNat_natCast, List.take_length]

namespace FieldType

@[reducible] def Stored : FieldType → Type
  | .arithmetic .bool | .arithmetic (.int _) | .enum _ => Int
  | .arithmetic .double => BitVec 64
  | .string | .chars _ | .array _ _ => Bytes

def bind (R : Reals) : (t : FieldType) → t.Val → t.Stored
  | .arithmetic .bool, v => IntType.int32.toInt (IntType.int32.ofInt v.toInt)
  | .arithmetic (.int t), v => t.bind v
  | .arithmetic .double, v => R.bind v
  | .enum u, v => IntType.int32.toInt (IntType.int32.ofInt (u.toInt v))
  | .string, v => bindString v
  | .chars _, v => CString.text v.toList
  | .array t _, v => t.listToBytes v.toList

def extract (behind : Memory) : (t : FieldType) → t.Stored → t.Val
  | .arithmetic .bool, i => IntType.int32.ofInt i ≠ 0
  | .arithmetic (.int t), i => t.extract i
  | .arithmetic .double, v => v
  | .enum u, i => u.ofInt (IntType.int32.toInt (IntType.int32.ofInt i))
  | .string, b => CString.text b
  -- the constructor of `array` copies all its bytes, of a text that may be shorter
  | .chars n, b => ⟨readColumn behind b n, length_readColumn ..⟩
  | .array t n, b => (FieldType.array t n).ofBytes (readColumn behind b (n * t.size))

def Storable : (t : FieldType) → t.Val → Prop
  | .arithmetic .double, v => isNaN v = false ∧ v ≠ negativeZero
  | .enum u, _ => u.size ≤ 4
  | .string, v => 0 ∉ v ∧ v.length < 2 ^ 31
  | .chars _, v => CString.Terminated v.toList
  | _, _ => True

instance : (t : FieldType) → DecidablePred t.Storable
  | .arithmetic .double, v => inferInstanceAs (Decidable (isNaN v = false ∧ v ≠ negativeZero))
  | .enum u, _ => inferInstanceAs (Decidable (u.size ≤ 4))
  | .string, v => inferInstanceAs (Decidable (0 ∉ v ∧ v.length < 2 ^ 31))
  | .chars _, v => inferInstanceAs (Decidable (CString.Terminated v.toList))
  | .arithmetic .bool, _ | .arithmetic (.int _), _ | .array _ _, _ => .isTrue trivial

theorem extract_bind (R : Reals) (behind : Memory) :
    (t : FieldType) → {v : t.Val} → t.Storable v →
      t.assign t.fresh (t.extract behind (t.bind R v)) = t.assign t.fresh v
  | .arithmetic .bool, v, _ => by cases v <;> rfl
  | .arithmetic (.int t), v, _ => t.extract_bind v
  | .arithmetic .double, v, h => by
    change R.bind v = v
    rw [Reals.bind, h.1, if_neg Bool.false_ne_true, R.column_eq v h.1 h.2]
  | .enum u, v, h => by
    change u.ofInt (IntType.int32.toInt (IntType.int32.ofInt
      (IntType.int32.toInt (IntType.int32.ofInt (u.toInt v))))) = v
    have hsize : u.size ≤ IntType.int32.size := h
    rw [IntType.ofInt_ofInt hsize rfl, IntType.ofInt_ofInt hsize rfl, IntType.ofInt_toInt]
  | .string, v, h => by
    change CString.text (bindString v) = v
    rw [bindString_eq h.2, CString.text_eq_self h.1]
  | .chars n, v, h => by
    have hlt : (CString.text v.toList).length < n :=
      (CString.strlen_lt_length h).trans_eq v.toList_length
    obtain ⟨rest, hrest⟩ := readColumn_of_lt behind hlt
    have htext : CString.text (readColumn behind (CString.text v.toList) n) =
        CString.text v.toList := by
      rw [hrest, CString.text_append (CString.zero_notMem_text _), CString.text_cons, if_pos rfl,
        List.append_nil]
    apply Subtype.ext
    change CString.assign _ (readColumn behind (CString.text v.toList) n) = CString.assign _ _
    rw [CString.assign, htext, CString.assign]
  | .array t n, v, _ => by
    have hlen : (t.listToBytes v.toList).length = n * t.size := by simp
    change (FieldType.array t n).ofBytes (readColumn behind (t.listToBytes v.toList) _) = v
    rw [readColumn_of_length behind hlen]
    exact (FieldType.array t n).ofBytes_toBytes rfl v

def storedKey : (t : FieldType) → t.Stored → KeyValue
  | .arithmetic .bool, i | .arithmetic (.int _), i | .enum _, i => .num i
  | .arithmetic .double, v => .num v.toNat
  | .string, b | .chars _, b | .array _ _, b => .text b

theorem storedKey_bind (R : Reals) :
    (t : FieldType) → t.hashable = true → {a b : t.Val} → t.Storable a → t.Storable b →
      (t.storedKey (t.bind R a) = t.storedKey (t.bind R b) ↔ t.keyValue a = t.keyValue b)
  | .arithmetic .bool, _, a, b, _, _ => by
    have hbind (v : Bool) : IntType.int32.toInt (IntType.int32.ofInt v.toInt) = v.toInt := by
      cases v <;> rfl
    simp only [storedKey, bind, keyValue, hbind]
  | .arithmetic (.int t), _, a, b, _, _ => by
    simp only [storedKey, bind, keyValue, KeyValue.num.injEq, IntType.bind_inj]
  | .enum u, _, a, b, h, _ => by
    simp only [storedKey, bind, keyValue, KeyValue.num.injEq]
    have hbind (v : u.Val) :
        IntType.int32.toInt (IntType.int32.ofInt (u.toInt v)) = u.bind v := (if_pos h).symm
    rw [hbind, hbind, IntType.bind_inj]
  | .string, _, a, b, ha, hb => by
    simp only [storedKey, bind, keyValue, bindString_eq ha.2, bindString_eq hb.2]
  | .chars _, _, _, _, _, _ | .array _ _, _, _, _, _, _ => Iff.rfl

end FieldType

namespace Record

variable {fs : List Field} {r : Record fs}

def StorableAt (names : List String) : {fs : List Field} → Record fs → Prop
  | [], _ => True
  | f :: _, r => (f.name ∈ names → f.type.Storable r.1) ∧ StorableAt names r.2

instance (names : List String) : {fs : List Field} → (r : Record fs) →
    Decidable (r.StorableAt names)
  | [], _ => .isTrue trivial
  | f :: _, r =>
    have := instDecidableStorableAt names r.2
    inferInstanceAs (Decidable ((f.name ∈ names → f.type.Storable r.1) ∧ StorableAt names r.2))

abbrev Storable (r : Record fs) : Prop := r.All fun t => t.Storable

theorem Storable.storableAt (h : r.Storable) (names : List String) : r.StorableAt names := by
  induction fs with
  | nil => trivial
  | cons f fs ih => exact ⟨fun _ => h.1, ih h.2⟩

end Record

end Kungfu.Common
