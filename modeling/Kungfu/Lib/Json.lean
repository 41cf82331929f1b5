import Mathlib.Algebra.Group.Int.Defs
import Mathlib.Data.List.Basic
import Kungfu.Lib.Utf8

namespace Kungfu.Lib

/-- A double is its bits; an object lists its members in key order. -/
inductive Json where
  | null
  | bool (b : Bool)
  | int (i : Int)
  | float (bits : BitVec 64)
  | str (s : List UInt8)
  | arr (xs : List Json)
  | obj (ms : List (List UInt8 × Json))

namespace Json

abbrev Member := List UInt8 × Json

def lookup (k : List UInt8) : List Member → Option Json
  | [] => none
  | m :: ms => if m.1 = k then some m.2 else lookup k ms

def insert (k : List UInt8) (v : Json) : List Member → List Member
  | [] => [(k, v)]
  | m :: ms =>
    if k < m.1 then (k, v) :: m :: ms
    else if m.1 = k then (k, v) :: ms
    else m :: insert k v ms

/-- `operator[]` with a key: a null value becomes an object, a missing member null. -/
def index (k : List UInt8) : Json → Option Json
  | .null => some .null
  | .obj ms => some ((lookup k ms).getD .null)
  | _ => none

def Sorted (ms : List Member) : Prop := ms.Pairwise (·.1 < ·.1)

instance (ms : List Member) : Decidable (Sorted ms) :=
  inferInstanceAs (Decidable (List.Pairwise ..))

theorem lookup_insert_self (k : List UInt8) (v : Json) (ms : List Member) :
    lookup k (insert k v ms) = some v := by
  induction ms with
  | nil => simp [insert, lookup]
  | cons m ms ih =>
    rw [insert]
    split
    · simp [lookup]
    · split
      · simp [lookup]
      · next h => simp [lookup, h, ih]

theorem lookup_insert_of_ne {k k' : List UInt8} (h : k ≠ k') (v : Json) (ms : List Member) :
    lookup k (insert k' v ms) = lookup k ms := by
  induction ms with
  | nil => simp [insert, lookup, Ne.symm h]
  | cons m ms ih =>
    rw [insert]
    split
    · simp [lookup, Ne.symm h]
    · split
      · next hm => simp [lookup, hm, Ne.symm h]
      · simp [lookup, ih]

theorem insert_insert (k : List UInt8) (v w : Json) (ms : List Member) :
    insert k v (insert k w ms) = insert k v ms := by
  induction ms with
  | nil => simp [insert]
  | cons m ms ih =>
    by_cases hlt : k < m.1
    · simp [insert, hlt]
    · by_cases heq : m.1 = k
      · subst heq
        simp [insert, hlt]
      · simp [insert, hlt, heq, ih]

theorem insert_of_lt {k : List UInt8} {ms : List Member} (h : ∀ m ∈ ms, m.1 < k) (v : Json) :
    insert k v ms = ms ++ [(k, v)] := by
  induction ms with
  | nil => rfl
  | cons m ms ih =>
    obtain ⟨hm, hms⟩ := List.forall_mem_cons.mp h
    rw [insert, if_neg (Std.not_lt.mpr (Std.le_of_lt hm)), if_neg (Std.ne_of_lt hm), ih hms]
    rfl

theorem mem_insert {k : List UInt8} {v : Json} {ms : List Member} {m : Member}
    (h : m ∈ insert k v ms) : m = (k, v) ∨ m ∈ ms := by
  induction ms with
  | nil => simpa [insert] using h
  | cons m' ms ih =>
    rw [insert] at h
    split at h
    · simpa using h
    · split at h
      · rcases List.mem_cons.mp h with rfl | h
        · exact .inl rfl
        · exact .inr (.tail _ h)
      · rcases List.mem_cons.mp h with rfl | h
        · exact .inr (.head _)
        · exact (ih h).imp_right (.tail _)

theorem sorted_insert (k : List UInt8) (v : Json) {ms : List Member} (h : Sorted ms) :
    Sorted (insert k v ms) := by
  induction ms with
  | nil => exact List.pairwise_singleton ..
  | cons m ms ih =>
    have ⟨hm, hms⟩ := List.pairwise_cons.mp h
    rw [insert]
    split
    · next hlt =>
      refine List.pairwise_cons.mpr ⟨fun x hx => ?_, h⟩
      rcases List.mem_cons.mp hx with rfl | hx
      · exact hlt
      · exact Std.lt_trans hlt (hm x hx)
    · next hlt =>
      split
      · next heq => exact List.pairwise_cons.mpr ⟨fun x hx => heq ▸ hm x hx, hms⟩
      · next hne =>
        refine List.pairwise_cons.mpr ⟨fun x hx => ?_, ih hms⟩
        rcases mem_insert hx with rfl | hx
        · exact Std.lt_of_le_of_ne (Std.not_lt.mp hlt) hne
        · exact hm x hx

mutual

def all (p : Json → Bool) : Json → Bool
  | .null => p .null
  | .bool b => p (.bool b)
  | .int i => p (.int i)
  | .float bits => p (.float bits)
  | .str s => p (.str s)
  | .arr xs => p (.arr xs) && allItems p xs
  | .obj ms => p (.obj ms) && allMembers p ms

def allItems (p : Json → Bool) : List Json → Bool
  | [] => true
  | x :: xs => all p x && allItems p xs

def allMembers (p : Json → Bool) : List (List UInt8 × Json) → Bool
  | [] => true
  | (_, x) :: ms => all p x && allMembers p ms

end

theorem allItems_iff {p : Json → Bool} {xs : List Json} :
    allItems p xs = true ↔ ∀ x ∈ xs, all p x = true := by
  induction xs with
  | nil => simp [allItems]
  | cons x xs ih => simp [allItems, ih]

theorem allMembers_iff {p : Json → Bool} {ms : List Member} :
    allMembers p ms = true ↔ ∀ m ∈ ms, all p m.2 = true := by
  induction ms with
  | nil => simp [allMembers]
  | cons m ms ih => simp [allMembers, ih]

def validText : Json → Bool :=
  all fun
    | .str s => Utf8.valid s
    | .obj ms => ms.all fun m => Utf8.valid m.1
    | _ => true

def finite (bits : BitVec 64) : Bool := bits.extractLsb' 52 11 ≠ 0x7ff

/-- Numbers that have a text, and objects that are maps. -/
def canonical : Json → Bool :=
  all fun
    | .int i => -2 ^ 63 ≤ i ∧ i < 2 ^ 64
    | .float bits => finite bits
    | .obj ms => Sorted ms
    | _ => true

/-- `dump` and `parse` of a JSON library, as far as programs rely on them: a value without
UTF-8 errors has a text that reads back as the value, any other value has none. -/
structure Codec where
  dump : Json → Option (List UInt8)
  parse : List UInt8 → Option Json
  dump_isSome : ∀ j, (dump j).isSome = j.validText
  parse_dump : ∀ j t, j.canonical = true → dump j = some t → parse t = some j

end Json

end Kungfu.Lib
