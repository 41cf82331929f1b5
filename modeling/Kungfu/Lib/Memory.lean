import Mathlib.Data.List.Basic
import Mathlib.Data.Nat.Notation
import Mathlib.Tactic.Ring

namespace Kungfu.Lib

namespace LittleEndian

def toLE : Nat → Nat → List UInt8
  | 0, _ => []
  | w + 1, n => UInt8.ofNat n :: toLE w (n / 256)

def ofLE : List UInt8 → Nat
  | [] => 0
  | b :: bs => b.toNat + 256 * ofLE bs

@[simp] theorem length_toLE (w n : Nat) : (toLE w n).length = w := by
  induction w generalizing n with
  | zero => rfl
  | succ w ih => simp [toLE, ih]

theorem ofLE_replicate_zero (n : Nat) : ofLE (List.replicate n 0) = 0 := by
  induction n with
  | zero => rfl
  | succ n ih => simp [List.replicate_succ, ofLE, ih]

theorem ofLE_toLE (w n : Nat) : ofLE (toLE w n) = n % 256 ^ w := by
  induction w generalizing n with
  | zero => simp [toLE, ofLE, Nat.mod_one]
  | succ w ih =>
    have h : n % 256 ^ (w + 1) = n % 256 + 256 * (n / 256 % 256 ^ w) := by
      rw [pow_succ', Nat.mod_mul]
    rw [toLE, ofLE, ih, UInt8.toNat_ofNat', h]

theorem ofLE_cons_mod (b : UInt8) (bs : List UInt8) : ofLE (b :: bs) % 256 = b.toNat := by
  have hb := b.toNat_lt
  rw [ofLE]
  omega

def encode (w : Nat) (v : BitVec (8 * w)) : List UInt8 := toLE w v.toNat

def decode (w : Nat) (bs : List UInt8) : BitVec (8 * w) := .ofNat _ (ofLE bs)

@[simp] theorem length_encode {w : Nat} (v : BitVec (8 * w)) : (encode w v).length = w :=
  length_toLE w _

@[simp] theorem decode_encode {w : Nat} (v : BitVec (8 * w)) : decode w (encode w v) = v := by
  have hw : 256 ^ w = 2 ^ (8 * w) := by rw [pow_mul]; norm_num
  apply BitVec.eq_of_toNat_eq
  rw [decode, encode, ofLE_toLE, hw, BitVec.toNat_ofNat, Nat.mod_mod, Nat.mod_eq_of_lt v.isLt]

end LittleEndian

abbrev Memory := Nat → UInt8

namespace Memory

def read (m : Memory) (a n : Nat) : List UInt8 := (List.range n).map fun i => m (a + i)

def write (m : Memory) (a : Nat) (bs : List UInt8) : Memory :=
  fun x => if a ≤ x then (bs[x - a]?).getD (m x) else m x

variable {m : Memory} {a b n k : Nat} {bs cs : List UInt8}

@[simp] theorem length_read : (m.read a n).length = n := by simp [read]

theorem read_congr {m' : Memory} (h : ∀ x, a ≤ x → x < a + n → m x = m' x) :
    m.read a n = m'.read a n := by
  apply List.map_congr_left
  intro i hi
  rw [List.mem_range] at hi
  exact h _ (by omega) (by omega)

theorem read_eq_replicate {c : UInt8} (h : ∀ x, a ≤ x → x < a + n → m x = c) :
    m.read a n = List.replicate n c := by
  rw [List.eq_replicate_iff]
  refine ⟨length_read, fun b hb => ?_⟩
  obtain ⟨i, hi, rfl⟩ := List.mem_map.mp hb
  rw [List.mem_range] at hi
  exact h _ (by omega) (by omega)

theorem write_of_lt {x : Nat} (h : x < a) : m.write a bs x = m x := by
  simp [write, Nat.not_le.mpr h]

theorem write_of_le {x : Nat} (h : a + bs.length ≤ x) : m.write a bs x = m x := by
  simp [write, show bs.length ≤ x - a by omega]

theorem write_of_disjoint {x : Nat} (h : x < a ∨ a + bs.length ≤ x) : m.write a bs x = m x :=
  h.elim write_of_lt write_of_le

theorem write_add (i : Nat) (h : i < bs.length) : m.write a bs (a + i) = bs[i] := by
  simp [write, h]

@[simp] theorem read_write_same : (m.write a bs).read a bs.length = bs := by
  apply List.ext_getElem length_read
  intro i h _
  rw [length_read] at h
  simp [read, write_add i h]

theorem read_write_of_length (h : bs.length = n) : (m.write a bs).read a n = bs := by
  rw [← h, read_write_same]

theorem read_add : m.read a (n + k) = m.read a n ++ m.read (a + n) k := by
  simp [read, List.range_add, Nat.add_assoc]

theorem read_succ : m.read a (n + 1) = m a :: m.read (a + 1) n := by
  rw [Nat.add_comm, read_add]
  rfl

theorem read_write_of_le (h : bs.length ≤ n) :
    (m.write a bs).read a n = bs ++ (m.read a n).drop bs.length := by
  obtain ⟨k, rfl⟩ := Nat.exists_eq_add_of_le h
  have hrest : (m.write a bs).read (a + bs.length) k = m.read (a + bs.length) k :=
    read_congr fun x hx _ => write_of_le hx
  rw [read_add, read_add, read_write_same, hrest, List.drop_left' length_read]

theorem read_write_disjoint (h : b + n ≤ a ∨ a + bs.length ≤ b) :
    (m.write a bs).read b n = m.read b n := by
  apply read_congr
  intro x hx hx'
  exact write_of_disjoint (by omega)

def load (m : Memory) (a w : Nat) : BitVec (8 * w) := LittleEndian.decode w (m.read a w)

def store (m : Memory) (a : Nat) {w : Nat} (v : BitVec (8 * w)) : Memory :=
  m.write a (LittleEndian.encode w v)

@[simp] theorem load_store {w : Nat} (v : BitVec (8 * w)) : (m.store a v).load a w = v := by
  rw [load, store, read_write_of_length (LittleEndian.length_encode v),
    LittleEndian.decode_encode]

theorem load_eq_zero {w : Nat} (h : ∀ x, a ≤ x → x < a + w → m x = 0) : m.load a w = 0 := by
  rw [load, read_eq_replicate h, LittleEndian.decode, LittleEndian.ofLE_replicate_zero]
  rfl

theorem load_write_disjoint {w : Nat} (h : b + w ≤ a ∨ a + bs.length ≤ b) :
    (m.write a bs).load b w = m.load b w := by
  rw [load, read_write_disjoint h, load]

theorem load_store_disjoint {w w' : Nat} (v : BitVec (8 * w')) (h : b + w ≤ a ∨ a + w' ≤ b) :
    (m.store a v).load b w = m.load b w :=
  load_write_disjoint (by simpa using h)

theorem load_mod {w : Nat} : (m.load a (w + 1)).toNat % 256 = (m a).toNat := by
  have hdvd : 256 ∣ 2 ^ (8 * (w + 1)) := by
    rw [pow_mul]
    exact dvd_pow_self 256 (Nat.succ_ne_zero w)
  rw [load, read_succ, LittleEndian.decode, BitVec.toNat_ofNat, Nat.mod_mod_of_dvd _ hdvd,
    LittleEndian.ofLE_cons_mod]

/-- The bytes in front of the first zero, unless the fuel runs out before it is met. -/
def scan (m : Memory) (a : Nat) : Nat → Option (List UInt8)
  | 0 => none
  | fuel + 1 => if m a = 0 then some [] else (m.scan (a + 1) fuel).map (m a :: ·)

theorem exists_scan_iff {s : List UInt8} : (∃ fuel, m.scan a fuel = some s) ↔
    m.read a s.length = s ∧ 0 ∉ s ∧ m (a + s.length) = 0 := by
  induction s generalizing a with
  | nil =>
    constructor
    · rintro ⟨_ | fuel, h⟩
      · cases h
      · rw [scan] at h
        split at h
        next hz => exact ⟨rfl, nofun, hz⟩
        next => simp at h
    · rintro ⟨-, -, hz⟩
      exact ⟨1, if_pos hz⟩
  | cons c s ih =>
    rw [List.length_cons, read_succ, List.cons.injEq, List.mem_cons, not_or,
      Nat.add_comm s.length, ← Nat.add_assoc]
    constructor
    · rintro ⟨_ | fuel, h⟩
      · cases h
      · rw [scan] at h
        split at h
        next => cases h
        next hne =>
          obtain ⟨t, ht, hcons⟩ := Option.map_eq_some_iff.mp h
          obtain ⟨rfl, rfl⟩ := List.cons.inj hcons
          obtain ⟨hread, hnul, hz⟩ := ih.mp ⟨fuel, ht⟩
          exact ⟨⟨rfl, hread⟩, ⟨Ne.symm hne, hnul⟩, hz⟩
    · rintro ⟨⟨rfl, hread⟩, ⟨hne, hnul⟩, hz⟩
      obtain ⟨fuel, hfuel⟩ := ih.mpr ⟨hread, hnul, hz⟩
      exact ⟨fuel + 1, by rw [scan, if_neg (Ne.symm hne), hfuel, Option.map_some]⟩

end Memory

end Kungfu.Lib
