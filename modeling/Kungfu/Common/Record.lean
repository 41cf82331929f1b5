import Kungfu.Common.Layout
import Kungfu.Lib.Utf8

/-!
Reflected records over any list of fields, member access, member-wise assignment, hashing and
`uid`, and the `state` and `event` wrappers of `common.h`.
-/

namespace Kungfu.Common

open Kungfu.Lib

def Record : List Field → Type
  | [] => Unit
  | f :: fs => f.type.Val × Record fs

inductive Member : List Field → Field → Type
  | here : Member (f :: fs) f
  | there : Member fs f → Member (g :: fs) f

theorem Member.mem : Member fs f → f ∈ fs
  | .here => .head _
  | .there m => .tail _ m.mem

def Member.ofMem : {fs : List Field} → f ∈ fs → Member fs f
  | g :: _, h =>
    if hg : g = f then hg ▸ .here
    else .there (ofMem ((List.mem_cons.mp h).resolve_left (Ne.symm hg)))

namespace Record

instance : (fs : List Field) → DecidableEq (Record fs)
  | [] => inferInstanceAs (DecidableEq Unit)
  | f :: fs =>
    have := instDecidableEq fs
    inferInstanceAs (DecidableEq (f.type.Val × Record fs))

def get : Member fs f → Record fs → f.type.Val
  | .here, r => r.1
  | .there m, r => get m r.2

def set : Member fs f → f.type.Val → Record fs → Record fs
  | .here, v, r => (v, r.2)
  | .there m, v, r => (r.1, set m v r.2)

def fresh : (fs : List Field) → Record fs
  | [] => ()
  | f :: fs => (f.type.fresh, fresh fs)

def assign : {fs : List Field} → Record fs → Record fs → Record fs
  | [], _, _ => ()
  | f :: _, a, b => (f.type.assign a.1 b.1, assign a.2 b.2)

def Eqv : {fs : List Field} → Record fs → Record fs → Prop
  | [], _, _ => True
  | f :: _, a, b => f.type.Eqv a.1 b.1 ∧ Eqv a.2 b.2

instance : {fs : List Field} → (a b : Record fs) → Decidable (a.Eqv b)
  | [], _, _ => .isTrue trivial
  | f :: _, a, b =>
    have := instDecidableEqv a.2 b.2
    inferInstanceAs (Decidable (f.type.Eqv a.1 b.1 ∧ Eqv a.2 b.2))

def All (P : (t : FieldType) → t.Val → Prop) : {fs : List Field} → Record fs → Prop
  | [], _ => True
  | f :: _, a => P f.type a.1 ∧ All P a.2

instance (P : (t : FieldType) → t.Val → Prop) [∀ t, DecidablePred (P t)] :
    {fs : List Field} → (a : Record fs) → Decidable (a.All P)
  | [], _ => .isTrue trivial
  | f :: _, a =>
    have := instDecidableAllOfDecidablePredVal P a.2
    inferInstanceAs (Decidable (P f.type a.1 ∧ All P a.2))

abbrev Terminated (a : Record fs) : Prop := a.All fun t => t.Terminated

def toBytes : {fs : List Field} → Record fs → Bytes
  | [], _ => []
  | f :: _, r => f.type.toBytes r.1 ++ toBytes r.2

def ofBytes : (fs : List Field) → Bytes → Record fs
  | [], _ => ()
  | f :: fs, bs => (f.type.ofBytes (bs.take f.type.size), ofBytes fs (bs.drop f.type.size))

@[simp] theorem get_assign (m : Member fs f) (a b : Record fs) :
    (a.assign b).get m = f.type.assign (a.get m) (b.get m) := by
  induction m with
  | here => rfl
  | there m ih => exact ih a.2 b.2

@[simp] theorem get_fresh (m : Member fs f) : (fresh fs).get m = f.type.fresh := by
  induction m with
  | here => rfl
  | there m ih => exact ih

@[simp] theorem get_set_self (m : Member fs f) (v : f.type.Val) (a : Record fs) :
    (a.set m v).get m = v := by
  induction m with
  | here => rfl
  | there m ih => exact ih v a.2

theorem get_set_of_ne (h : f.name ≠ g.name) (m : Member fs f) (m' : Member fs g) (v : f.type.Val)
    (a : Record fs) : (a.set m v).get m' = a.get m' := by
  induction m with
  | here =>
    cases m' with
    | here => exact absurd rfl h
    | there m' => rfl
  | there m ih =>
    cases m' with
    | here => rfl
    | there m' => exact ih h m' v a.2

theorem ext {a b : Record fs} (h : ∀ {f} (m : Member fs f), a.get m = b.get m) : a = b := by
  induction fs with
  | nil => rfl
  | cons f fs ih => exact Prod.ext (h .here) (ih fun m => h (.there m))

theorem eqv_iff {a b : Record fs} :
    a.Eqv b ↔ ∀ {f} (m : Member fs f), f.type.Eqv (a.get m) (b.get m) := by
  induction fs with
  | nil =>
    constructor
    · intro _ g m
      cases m
    · intro _
      trivial
  | cons f fs ih =>
    constructor
    · intro h g m
      cases m with
      | here => exact h.1
      | there m => exact ih.mp h.2 m
    · intro h
      exact ⟨h .here, ih.mpr fun m => h (.there m)⟩

theorem all_iff {P : (t : FieldType) → t.Val → Prop} {a : Record fs} :
    a.All P ↔ ∀ {f} (m : Member fs f), P f.type (a.get m) := by
  induction fs with
  | nil =>
    constructor
    · intro _ g m
      cases m
    · intro _
      trivial
  | cons f fs ih =>
    constructor
    · intro h g m
      cases m with
      | here => exact h.1
      | there m => exact ih.mp h.2 m
    · intro h
      exact ⟨h .here, ih.mpr fun m => h (.there m)⟩

theorem all_imp {P Q : (t : FieldType) → t.Val → Prop} (h : ∀ t v, P t v → Q t v) {a : Record fs}
    (ha : a.All P) : a.All Q :=
  all_iff.mpr fun m => h _ _ (all_iff.mp ha m)

theorem all_fresh {P : (t : FieldType) → t.Val → Prop} (h : ∀ t, P t t.fresh) :
    (fresh fs).All P :=
  all_iff.mpr fun m => (get_fresh m).symm ▸ h _

theorem all_set {P : (t : FieldType) → t.Val → Prop} {a : Record fs} (h : a.All P)
    (m : Member fs f) {v : f.type.Val} (hv : P f.type v) : (a.set m v).All P := by
  induction m with
  | here => exact ⟨hv, h.2⟩
  | there m ih => exact ⟨h.1, ih h.2 hv⟩

@[refl] theorem Eqv.refl (a : Record fs) : a.Eqv a :=
  eqv_iff.mpr fun m => FieldType.Eqv.refl _ (a.get m)

theorem Eqv.symm {a b : Record fs} (h : a.Eqv b) : b.Eqv a :=
  eqv_iff.mpr fun m => FieldType.Eqv.symm _ (eqv_iff.mp h m)

theorem Eqv.trans {a b c : Record fs} (h : a.Eqv b) (h' : b.Eqv c) : a.Eqv c :=
  eqv_iff.mpr fun m => FieldType.Eqv.trans _ (eqv_iff.mp h m) (eqv_iff.mp h' m)

theorem get_foldl_assign (m : Member fs f) (b : Record fs) (rs : List (Record fs)) :
    (rs.foldl assign b).get m = (rs.map (get m)).foldl f.type.assign (b.get m) := by
  induction rs generalizing b with
  | nil => rfl
  | cons r rs ih => rw [List.foldl_cons, ih, get_assign]; rfl

theorem assign_fresh (r : Record fs) : ((fresh fs).assign r).Eqv r := by
  rw [eqv_iff]
  intro f m
  rw [get_assign, get_fresh]
  exact f.type.assign_fresh (r.get m)

@[simp] theorem length_toBytes (r : Record fs) :
    r.toBytes.length = (fs.map fun f => f.type.size).sum := by
  induction fs with
  | nil => rfl
  | cons f fs ih => simp [toBytes, ih r.2]

/-- The bytes from a member to the end of the object. -/
def bytesFrom : {fs : List Field} → Record fs → Member fs f → Bytes
  | _ :: _, r, .here => r.toBytes
  | _ :: _, r, .there m => bytesFrom r.2 m

theorem exists_bytesFrom (r : Record fs) (m : Member fs f) :
    ∃ rest, r.bytesFrom m = f.type.toBytes (r.get m) ++ rest := by
  induction m with
  | here => exact ⟨_, rfl⟩
  | there m ih => exact ih r.2

theorem ofBytes_toBytes (h : ∀ f ∈ fs, f.type.sizeFixed = true) (r : Record fs) :
    ofBytes fs r.toBytes = r := by
  induction fs with
  | nil => rfl
  | cons f fs ih =>
    have hf := f.type.length_toBytes r.1
    rw [ofBytes, toBytes, List.take_left' hf, List.drop_left' hf,
      f.type.ofBytes_toBytes (h f (.head _)), ih fun g hg => h g (.tail _ hg)]
    rfl

end Record

inductive KeyValue where
  | num (i : Int)
  | text (b : Bytes)
  deriving DecidableEq

namespace FieldType

def hashable : FieldType → Bool
  | .arithmetic .double => false
  | _ => true

def keyValue : (t : FieldType) → t.Val → KeyValue
  | .arithmetic .bool, v => .num v.toInt
  | .arithmetic (.int t), v => .num (t.toInt v)
  | .arithmetic .double, v => .num v.toNat
  | .enum u, v => .num (u.toInt v)
  | .string, v => .text v
  | .chars _, v => .text (CString.text v.toList)
  | .array t _, v => .text (t.listToBytes v.toList)

section

variable (hash32 : Bytes → Int32 → UInt32)

/-- `hash<T>`: integers and enumerations as they are, texts and other arrays through `hash_32`,
which is given a pointer and an `int32_t` length. No floating type has a specialisation. -/
def hash : (t : FieldType) → t.Val → UInt64
  | .arithmetic .bool, v => .ofInt v.toInt
  | .arithmetic (.int t), v => .ofInt (t.toInt v)
  | .arithmetic .double, _ => 0
  | .enum u, v => .ofInt (u.toInt v)
  | .string, v => (hash32 v (.ofNat v.length)).toUInt64
  | .chars _, v =>
    (hash32 (CString.text v.toList) (.ofNat (CString.strlen v.toList))).toUInt64
  | .array t n, v => (hash32 (t.listToBytes v.toList) (.ofNat (n * t.size))).toUInt64

end

end FieldType

def KeyValue.hash (hash32 : Bytes → Int32 → UInt32) : KeyValue → UInt64
  | .num i => .ofInt i
  | .text b => (hash32 b (.ofNat b.length)).toUInt64

theorem FieldType.hash_eq (hash32 : Bytes → Int32 → UInt32) (t : FieldType)
    (h : t.hashable = true) (v : t.Val) : t.hash hash32 v = (t.keyValue v).hash hash32 := by
  cases t with
  | arithmetic t =>
    cases t with
    | bool => rfl
    | int t => rfl
    | double => simp [hashable] at h
  | enum u => rfl
  | string => rfl
  | chars n => rfl
  | array t n => simp [FieldType.hash, KeyValue.hash, FieldType.keyValue]

namespace Record

def keyValue (name : String) : {fs : List Field} → Record fs → KeyValue
  | [], _ => .num 0
  | f :: _, r => if f.name = name then f.type.keyValue r.1 else keyValue name r.2

def hash (hash32 : Bytes → Int32 → UInt32) (name : String) :
    {fs : List Field} → Record fs → UInt64
  | [], _ => 0
  | f :: _, r => if f.name = name then f.type.hash hash32 r.1 else hash hash32 name r.2

theorem hash_eq (hash32 : Bytes → Int32 → UInt32) {name : String}
    (h : ∀ f ∈ fs, f.name = name → f.type.hashable = true) (r : Record fs) :
    r.hash hash32 name = (r.keyValue name).hash hash32 := by
  induction fs with
  | nil => rfl
  | cons f fs ih =>
    rw [hash, keyValue]
    split
    · next hn => exact f.type.hash_eq hash32 (h f (.head _) hn) r.1
    · exact ih (fun g hg => h g (.tail _ hg)) r.2

end Record

/-- What `KF_DEFINE_DATA_TYPE` is given. Names are those of the members of one struct, and
`uid` compiles for the keys. -/
structure Schema where
  name : String
  tag : Int32
  primaryKeys : List String
  timestampKey : Option String
  fields : List Field
  names_nodup : (fields.map Field.name).Nodup := by decide
  names_valid : ∀ f ∈ fields, Utf8.valid f.key = true := by decide
  keys_hashable : ∀ k ∈ primaryKeys, ∀ f ∈ fields, f.name = k → f.type.hashable = true := by decide

namespace Schema

def sizeFixed (S : Schema) : Bool := S.fields.all fun f => f.type.sizeFixed

def size (S : Schema) : Nat := (S.fields.map fun f => f.type.size).sum

abbrev Data (S : Schema) := Record S.fields

def key (S : Schema) (r : S.Data) : List KeyValue := S.primaryKeys.map (r.keyValue ·)

/-- `data::uid`: the hashes of the primary-key members, folded with `bit_xor`. -/
def uid (S : Schema) (hash32 : Bytes → Int32 → UInt32) (r : S.Data) : UInt64 :=
  (S.primaryKeys.map (r.hash hash32 ·)).foldl (· ^^^ ·) 0

def keyHash (hash32 : Bytes → Int32 → UInt32) (k : List KeyValue) : UInt64 :=
  (k.map (KeyValue.hash hash32)).foldl (· ^^^ ·) 0

theorem uid_eq_keyHash (S : Schema) (hash32 : Bytes → Int32 → UInt32) (r : S.Data) :
    S.uid hash32 r = keyHash hash32 (S.key r) := by
  rw [uid, keyHash, key, List.map_map]
  congr 1
  apply List.map_congr_left
  intro k hk
  exact r.hash_eq hash32 (S.keys_hashable k hk)

end Schema

structure State (S : Schema) where
  source : UInt32
  dest : UInt32
  updateTime : Int64
  data : S.Data
  deriving DecidableEq

structure Schema.Object (S : Schema) where
  data : S.Data
  behind : Bytes

section Object

variable {S : Schema} {n : Nat} {name : String} {o : S.Object}
  {m : Member S.fields ⟨.chars n, name⟩}

/-- What a `const char *` to a char array is read as: it ends with a NUL, not with the array. -/
def Schema.Object.text (o : S.Object) (m : Member S.fields ⟨.chars n, name⟩) : Bytes :=
  CString.text (o.data.bytesFrom m ++ o.behind)

theorem Schema.Object.text_of_terminated
    (h : CString.Terminated (List.Vector.toList (o.data.get m))) :
    o.text m = CString.text (List.Vector.toList (o.data.get m)) := by
  obtain ⟨rest, hrest⟩ := o.data.exists_bytesFrom m
  rw [text, hrest, List.append_assoc]
  exact CString.text_append_of_terminated h _

end Object

structure Event (S : Schema) where
  source : UInt32
  dest : UInt32
  genTime : Int64
  data : S.Data

namespace State

def assign (s t : State S) : State S where
  source := t.source
  dest := t.dest
  updateTime := t.updateTime
  data := s.data.assign t.data

def ofEvent (e : Event S) : State S where
  source := e.source
  dest := e.dest
  updateTime := e.genTime
  data := e.data

def assignEvent (s : State S) (e : Event S) : State S where
  source := e.source
  dest := e.dest
  updateTime := e.genTime
  data := s.data.assign e.data

structure Eqv (s t : State S) : Prop where
  source : s.source = t.source
  dest : s.dest = t.dest
  updateTime : s.updateTime = t.updateTime
  data : s.data.Eqv t.data

end State

end Kungfu.Common
