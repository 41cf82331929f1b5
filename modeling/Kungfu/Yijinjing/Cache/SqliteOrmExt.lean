import Kungfu.Common.Layout

/-!
The column codecs of `cache/sqlite_orm_ext.h`: vectors as blobs and char arrays as texts.
-/

namespace Kungfu.Yijinjing.Cache

open Kungfu.Lib Kungfu.Common

structure Copyable where
  Val : Type
  size : Nat
  toBytes : Val → Bytes
  ofChar : UInt8 → Val
  length_toBytes : ∀ x, (toBytes x).length = size

@[reducible] def Copyable.ofIntType (t : IntType) : Copyable where
  Val := t.Val
  size := t.size
  toBytes := LittleEndian.encode t.size
  ofChar c := t.ofInt c.toBitVec.toInt
  length_toBytes := LittleEndian.length_encode (w := t.size)

namespace Copyable

variable (V : Copyable)

/-- `statement_binder<std::vector<V>>`: the size becomes an `int`. SQLite leaves a negative one
undefined. -/
def bind : List V.Val → Option Bytes
  | [] => some []
  | x :: v =>
    let size := (BitVec.ofNat 32 ((x :: v).length * V.size)).toInt
    if size < 0 then none else some (((x :: v).flatMap V.toBytes).take size.toNat)

/-- `row_extractor<std::vector<V>>`: `std::copy` of the bytes, one element for each. -/
def extract (blob : Bytes) : List V.Val :=
  if blob.length = 0 then [] else blob.map V.ofChar

def RoundTrips (v : List V.Val) : Prop := ∃ blob, V.bind v = some blob ∧ V.extract blob = v

variable {V}

theorem length_bytes (v : List V.Val) : (v.flatMap V.toBytes).length = v.length * V.size := by
  simp [List.length_flatMap, V.length_toBytes]

theorem extract_eq (blob : Bytes) : V.extract blob = blob.map V.ofChar := by
  cases blob <;> simp [extract]

theorem toInt_ofNat_lt_zero_iff (n : Nat) :
    (BitVec.ofNat 32 n).toInt < 0 ↔ 2 ^ 31 ≤ n % 2 ^ 32 := by
  rw [BitVec.toInt_eq_toNat_cond, BitVec.toNat_ofNat]
  split <;> omega

theorem toNat_toInt_ofNat {n : Nat} (h : n % 2 ^ 32 < 2 ^ 31) :
    (BitVec.ofNat 32 n).toInt.toNat = n % 2 ^ 32 := by
  rw [BitVec.toInt_eq_toNat_cond, BitVec.toNat_ofNat, if_pos (by omega), Int.toNat_natCast]

theorem bind_cons (x : V.Val) (v : List V.Val) :
    V.bind (x :: v) =
      if (x :: v).length * V.size % 2 ^ 32 < 2 ^ 31 then
        some (((x :: v).flatMap V.toBytes).take ((x :: v).length * V.size % 2 ^ 32))
      else none := by
  simp only [bind, toInt_ofNat_lt_zero_iff]
  by_cases h : (x :: v).length * V.size % 2 ^ 32 < 2 ^ 31
  · rw [if_neg (Nat.not_le.mpr h), if_pos h, toNat_toInt_ofNat h]
  · rw [if_pos (Nat.not_lt.mp h), if_neg h]

theorem map_take_eq_iff {f : UInt8 → β} {bs : Bytes} {v : List β} {k : Nat} (hk : k ≤ bs.length) :
    (bs.take k).map f = v ↔ k = v.length ∧ ∀ i < v.length, bs[i]?.map f = v[i]? := by
  constructor
  · rintro rfl
    have hlen : ((bs.take k).map f).length = k := by simp [hk]
    rw [hlen]
    refine ⟨rfl, fun i hi => ?_⟩
    rw [List.getElem?_map, List.getElem?_take_of_lt hi]
  · rintro ⟨rfl, h⟩
    apply List.ext_getElem?
    intro i
    rw [List.getElem?_map]
    by_cases hi : i < v.length
    · rw [List.getElem?_take_of_lt hi, h i hi]
    · have hle := Nat.not_lt.mp hi
      rw [List.getElem?_eq_none hle, List.getElem?_eq_none (by simp [hle]), Option.map_none]

theorem roundTrips_cons_iff (x : V.Val) (v : List V.Val) :
    V.RoundTrips (x :: v) ↔ (x :: v).length < 2 ^ 31 ∧
      (x :: v).length * V.size % 2 ^ 32 = (x :: v).length ∧
      ∀ i < (x :: v).length, ((x :: v).flatMap V.toBytes)[i]?.map V.ofChar = (x :: v)[i]? := by
  have hle : (x :: v).length * V.size % 2 ^ 32 ≤ ((x :: v).flatMap V.toBytes).length := by
    rw [length_bytes]
    exact Nat.mod_le ..
  rw [RoundTrips, bind_cons]
  by_cases hsize : (x :: v).length * V.size % 2 ^ 32 < 2 ^ 31
  · simp only [if_pos hsize, Option.some.injEq, exists_eq_left']
    rw [extract_eq, map_take_eq_iff hle]
    constructor
    · rintro ⟨hlen, helements⟩
      exact ⟨hlen ▸ hsize, hlen, helements⟩
    · rintro ⟨-, hlen, helements⟩
      exact ⟨hlen, helements⟩
  · rw [if_neg hsize]
    refine iff_of_false (by simp) ?_
    rintro ⟨hlt, hlen, -⟩
    exact hsize (hlen.trans_lt hlt)

/-- The extractor makes an element of every byte, so the vector comes back when as many bytes are
bound as it has elements, and each is converted to the element at its place. -/
theorem roundTrips_iff_bytewise (V : Copyable) (v : List V.Val) :
    V.RoundTrips v ↔ v = [] ∨ v.length < 2 ^ 31 ∧ v.length * V.size % 2 ^ 32 = v.length ∧
      ∀ i < v.length, (v.flatMap V.toBytes)[i]?.map V.ofChar = v[i]? := by
  cases v with
  | nil => exact iff_of_true ⟨[], rfl, rfl⟩ (.inl rfl)
  | cons x v => rw [roundTrips_cons_iff, or_iff_right (List.cons_ne_nil x v)]

/-- The vector `{1}` of `int32_t` comes back as four elements. -/
theorem not_roundTrips_int32 : ¬ ∀ (V : Copyable) (v : List V.Val), V.RoundTrips v := by
  intro h
  obtain ⟨blob, hblob, hextract⟩ := h (.ofIntType .int32) [(1 : BitVec 32)]
  have hbind : (ofIntType .int32).bind [(1 : BitVec 32)] = some [1, 0, 0, 0] := rfl
  cases hbind.symm.trans hblob
  exact absurd (congrArg List.length hextract) (by decide)

theorem ofChar_toBytes {t : IntType} (ht : t.size = 1) (x : t.Val) :
    ((ofIntType t).toBytes x).map (ofIntType t).ofChar = [x] := by
  have hbyte : ∀ x : BitVec 8, BitVec.ofInt 8 (UInt8.ofNat x.toNat).toBitVec.toInt = x := by
    intro x
    rw [UInt8.toBitVec_ofNat', BitVec.ofNat_toNat, BitVec.setWidth_eq, BitVec.ofInt_toInt]
  cases t with
  | int8 | uint8 => exact congrArg (fun x => [x]) (hbyte x)
  | _ => simp [IntType.size] at ht

theorem size_eq_one {t : IntType} {n : Nat} (hpos : 0 < n) (hlt : n < 2 ^ 31)
    (h : n * t.size % 2 ^ 32 = n) : t.size = 1 := by
  have hdvd : 2 ^ 32 ∣ n * (t.size - 1) := by
    have hmod := Nat.dvd_sub_mod (n := 2 ^ 32) (n * t.size)
    rwa [h, ← Nat.mul_sub_one] at hmod
  by_contra hne
  have hcoprime : Nat.Coprime (2 ^ 32) (t.size - 1) :=
    Nat.Coprime.pow_left 32 (by revert hne; cases t <;> decide)
  exact absurd (Nat.le_of_dvd hpos (hcoprime.dvd_of_dvd_mul_right hdvd)) (by omega)

theorem roundTrips_ofIntType_iff (t : IntType) (v : List t.Val) :
    (ofIntType t).RoundTrips v ↔ v = [] ∨ t.size = 1 ∧ v.length < 2 ^ 31 := by
  cases v with
  | nil => exact iff_of_true ⟨[], rfl, rfl⟩ (.inl rfl)
  | cons x v =>
    rw [or_iff_right (List.cons_ne_nil x v)]
    refine (roundTrips_cons_iff (V := ofIntType t) x v).trans ?_
    constructor
    · rintro ⟨hlt, hlen, -⟩
      exact ⟨size_eq_one (Nat.succ_pos _) hlt hlen, hlt⟩
    · rintro ⟨hsize, hlt⟩
      refine ⟨hlt, ?_, fun i _ => ?_⟩
      · have hbyte : (ofIntType t).size = 1 := hsize
        rw [hbyte, Nat.mul_one, Nat.mod_eq_of_lt (hlt.trans (by decide))]
      · rw [← List.getElem?_map, List.map_flatMap]
        simp only [ofChar_toBytes hsize, List.flatMap_singleton']

end Copyable

/-- The column text after `statement_binder<array<char, N>>`: the size -1 stops at the NUL, and
SQLite ends every text with one. -/
def bindText {n : Nat} (a : List.Vector UInt8 n) : Bytes := CString.text a.toList ++ [0]

/-- `row_extractor<array<char, N>>`: the constructor of the array copies `N` bytes from the
address of the column text. -/
def extractText (n : Nat) (m : Memory) (p : Nat) : List.Vector UInt8 n :=
  ⟨m.read p n, Memory.length_read⟩

structure TextRoundTrips {n : Nat} (a : List.Vector UInt8 n) (m : Memory) (p : Nat) : Prop where
  within : n ≤ (bindText a).length
  text : CString.text (extractText n m p).toList = CString.text a.toList

theorem length_bindText {n : Nat} (a : List.Vector UInt8 n) :
    (bindText a).length = CString.strlen a.toList + 1 := by
  simp [bindText, CString.strlen]

theorem textRoundTrips_iff {n : Nat} (a : List.Vector UInt8 n) (ha : CString.Terminated a.toList)
    (m : Memory) (p : Nat) (hm : m.read p (bindText a).length = bindText a) :
    TextRoundTrips a m p ↔ CString.strlen a.toList + 1 = n := by
  have hle : (bindText a).length ≤ n := by
    rw [length_bindText]
    exact (CString.strlen_lt_length ha).trans_eq a.toList_length
  rw [← length_bindText]
  constructor
  · intro h
    exact Nat.le_antisymm hle h.within
  · intro h
    have hread : m.read p n = bindText a := by rw [← hm, h]
    refine ⟨h.ge, ?_⟩
    rw [extractText, List.Vector.toList_mk, hread]
    simp [bindText, CString.text_append (CString.zero_notMem_text _), CString.text_cons]

theorem textRoundTrips_iff_full :
    TextRoundTrips ⟨[97, 98, 0], rfl⟩ (Memory.write (fun _ => 7) 5 [97, 98, 0]) 5 ↔
      CString.strlen [(97 : UInt8), 98, 0] + 1 = 3 :=
  textRoundTrips_iff ⟨[97, 98, 0], rfl⟩ (by decide) _ 5 (by decide)

theorem not_textRoundTrips_short :
    ¬ ∀ (n : Nat) (a : List.Vector UInt8 n) (m : Memory) (p : Nat), CString.Terminated a.toList →
      m.read p (bindText a).length = bindText a → TextRoundTrips a m p := by
  intro h
  have hread := h 3 ⟨[97, 0, 0], rfl⟩ (Memory.write (fun _ => 7) 5 [97, 0]) 5 (by decide)
    (by decide)
  exact absurd hread.within (by decide)

end Kungfu.Yijinjing.Cache
