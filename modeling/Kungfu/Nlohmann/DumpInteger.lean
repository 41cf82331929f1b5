import Mathlib.Tactic.SplitIfs
import Kungfu.Lib.JsonText
import Kungfu.Nlohmann.DumpEscaped

namespace Kungfu.Nlohmann

open Kungfu.Lib JsonText

inductive Integer where
  | integer (x : Int64)
  | unsigned (x : UInt64)

def Integer.value : Integer → Int
  | .integer x => x.toInt
  | .unsigned x => x.toNat

theorem Integer.value_bounds (x : Integer) : -2 ^ 63 ≤ x.value ∧ x.value < 2 ^ 64 := by
  cases x with
  | integer x =>
    have hle := x.le_toInt
    have hlt := x.toInt_lt
    exact ⟨hle, by rw [value]; omega⟩
  | unsigned x =>
    have hlt := x.toNat_lt
    rw [value]
    omega

def countDigits (nDigits x : Nat) : Nat :=
  if x < 10 then nDigits
  else if x < 100 then nDigits + 1
  else if x < 1000 then nDigits + 2
  else if x < 10000 then nDigits + 3
  else countDigits (nDigits + 4) (x / 10000)
termination_by x

def removeSign (x : Int64) : UInt64 := (-(x + 1)).toUInt64 + 1

def digitsTo99 (i : Nat) : UInt8 × UInt8 := (.ofNat (48 + i / 10), .ofNat (48 + i % 10))

/-- `number_buffer` up to the first character behind the number: what is still in front of
`buffer_ptr`, and what is written from there on. -/
structure NumberBuffer where
  front : Bytes
  written : Bytes

namespace NumberBuffer

def put (c : UInt8) (b : NumberBuffer) : Option NumberBuffer :=
  if b.front = [] then none else some { front := b.front.dropLast, written := c :: b.written }

def putPair (i : Nat) (b : NumberBuffer) : Option NumberBuffer := do
  let b ← b.put (digitsTo99 i).2
  b.put (digitsTo99 i).1

def writeDigits (absValue : Nat) (b : NumberBuffer) : Option NumberBuffer :=
  if 100 ≤ absValue then do
    let b ← b.putPair (absValue % 100)
    writeDigits (absValue / 100) b
  else if 10 ≤ absValue then b.putPair absValue
  else b.put (.ofNat (48 + absValue))
termination_by absValue

end NumberBuffer

/-- `dump_integer` from its sign and absolute value on. There is no result where a write misses the
buffer or the assertion fails. -/
def dumpAbsValue (numberBuffer sign : Bytes) (absValue : Nat) : Option Bytes := do
  let nChars := sign.length + countDigits 1 absValue
  if nChars + 1 < numberBuffer.length then
    let front := (sign ++ numberBuffer.drop sign.length).take nChars
    let b ← NumberBuffer.writeDigits absValue { front := front, written := [] }
    return b.front ++ b.written
  else none

def dumpInteger (numberBuffer : Bytes) : Integer → Option Bytes
  | .integer x =>
    if x = 0 then some [48]
    else if x < 0 then dumpAbsValue numberBuffer [45] (removeSign x).toNat
    else dumpAbsValue numberBuffer [] x.toUInt64.toNat
  | .unsigned x => if x = 0 then some [48] else dumpAbsValue numberBuffer [] x.toNat

theorem printNat_of_lt {n : Nat} (h : n < 10) : printNat n = [.ofNat (48 + n)] := by
  revert n
  decide

theorem printNat_of_le {n : Nat} (h : 10 ≤ n) :
    printNat n = printNat (n / 10) ++ [.ofNat (48 + n % 10)] := by
  rw [printNat, printNat, if_neg (by omega), if_neg (by omega),
    Nat.digits_eq_cons_digits_div (by decide) (by omega), List.reverse_cons, List.map_append]
  rfl

theorem length_printNat_of_le {n : Nat} (h : 10 ≤ n) :
    (printNat n).length = (printNat (n / 10)).length + 1 := by
  rw [printNat_of_le h, List.length_append]
  rfl

theorem countDigits_eq (nDigits n : Nat) :
    countDigits (nDigits + 1) n = nDigits + (printNat n).length := by
  induction n using Nat.strong_induction_on generalizing nDigits with
  | _ n ih =>
    have hone {m : Nat} (h : m < 10) : (printNat m).length = 1 := by
      rw [printNat_of_lt h]
      rfl
    rw [countDigits]
    split_ifs with h1 h2 h3 h4
    · rw [hone h1]
    all_goals rw [length_printNat_of_le (by omega)]
    · rw [hone (by omega)]
    all_goals rw [length_printNat_of_le (by omega)]
    · rw [hone (by omega)]
    all_goals rw [length_printNat_of_le (by omega)]
    · rw [hone (by omega)]
    · have hdiv : n / 10 / 10 / 10 / 10 = n / 10000 := by omega
      rw [length_printNat_of_le (by omega), hdiv, Nat.add_right_comm nDigits 1 4,
        ih (n / 10000) (by omega)]
      omega

theorem printNat_hundred {n : Nat} (h : 100 ≤ n) :
    printNat n =
      printNat (n / 100) ++ [.ofNat (48 + n % 100 / 10), .ofNat (48 + n % 100 % 10)] := by
  have hdiv : n / 10 / 10 = n / 100 := by omega
  have htens : n / 10 % 10 = n % 100 / 10 := by omega
  have hones : n % 10 = n % 100 % 10 := by omega
  rw [printNat_of_le (by omega), printNat_of_le (n := n / 10) (by omega), hdiv, htens, hones,
    List.append_assoc]
  rfl

theorem length_printNat {n k : Nat} (h : n < 10 ^ (k + 1)) : (printNat n).length ≤ k + 1 := by
  induction k generalizing n with
  | zero =>
    rw [printNat_of_lt h]
    rfl
  | succ k ih =>
    by_cases hn : n < 10
    · rw [printNat_of_lt hn]
      exact Nat.le_add_left ..
    · rw [length_printNat_of_le (by omega)]
      exact Nat.succ_le_succ (ih (by rw [Nat.pow_succ] at h; omega))

namespace NumberBuffer

theorem put_concat (front written : Bytes) (c c' : UInt8) :
    put c ⟨front ++ [c'], written⟩ = some ⟨front, c :: written⟩ := by
  simp [put]

theorem putPair_concat (i : Nat) {front written : Bytes} {stale : Bytes} (h : stale.length = 2) :
    putPair i ⟨front ++ stale, written⟩ =
      some ⟨front, .ofNat (48 + i / 10) :: .ofNat (48 + i % 10) :: written⟩ := by
  obtain ⟨a, b, rfl⟩ := List.length_eq_two.mp h
  rw [putPair, List.append_cons front a, put_concat]
  exact put_concat ..

theorem writeDigits_spec (n : Nat) {front stale written : Bytes}
    (h : stale.length = (printNat n).length) :
    writeDigits n ⟨front ++ stale, written⟩ = some ⟨front, printNat n ++ written⟩ := by
  induction n using Nat.strong_induction_on generalizing stale written with
  | _ n ih =>
    rw [writeDigits]
    split_ifs with h1 h2
    · rw [printNat_hundred h1] at h ⊢
      rw [List.length_append] at h
      obtain ⟨rest, pair, rfl, hrest, hpair⟩ : ∃ rest pair, stale = rest ++ pair ∧
          rest.length = (printNat (n / 100)).length ∧ pair.length = 2 :=
        ⟨_, _, (List.take_append_drop (printNat (n / 100)).length stale).symm, by simp [h],
          by simp [h]⟩
      rw [← List.append_assoc, putPair_concat _ hpair]
      exact (ih _ (by omega) hrest).trans (by rw [List.append_assoc]; rfl)
    · rw [printNat_of_le h2, printNat_of_lt (by omega)] at h ⊢
      exact putPair_concat n h
    · rw [printNat_of_lt (by omega)] at h ⊢
      obtain ⟨c, rfl⟩ := List.length_eq_one_iff.mp h
      exact put_concat ..

end NumberBuffer

theorem dumpAbsValue_eq {numberBuffer : Bytes} (hbuffer : numberBuffer.length = 64) (sign : Bytes)
    (hsign : sign.length ≤ 1) {n : Nat} (hn : n < 2 ^ 64) :
    dumpAbsValue numberBuffer sign n = some (sign ++ printNat n) := by
  have hlength : (printNat n).length ≤ 20 := length_printNat (k := 19) (hn.trans (by decide))
  have hcount : countDigits 1 n = (printNat n).length := by
    rw [countDigits_eq 0, Nat.zero_add]
  have hfront : (sign ++ numberBuffer.drop sign.length).take (sign.length + (printNat n).length) =
      sign ++ (numberBuffer.drop sign.length).take (printNat n).length :=
    List.take_length_add_append _
  have hstale : ((numberBuffer.drop sign.length).take (printNat n).length).length =
      (printNat n).length := by
    rw [List.length_take, List.length_drop]
    omega
  rw [dumpAbsValue]
  dsimp only
  rw [hcount, if_pos (by omega), hfront, NumberBuffer.writeDigits_spec n hstale, List.append_nil]
  rfl

theorem toInt_cases (x : Int64) :
    x.toUInt64.toNat < 2 ^ 63 ∧ x.toInt = x.toUInt64.toNat ∨
      2 ^ 63 ≤ x.toUInt64.toNat ∧ x.toUInt64.toNat < 2 ^ 64 ∧
        x.toInt = x.toUInt64.toNat - 2 ^ 64 := by
  have htoInt : x.toInt = x.toBitVec.toInt := rfl
  have htoNat : x.toUInt64.toNat = x.toBitVec.toNat := rfl
  have hlt := x.toBitVec.isLt
  rw [htoInt, htoNat, BitVec.toInt_eq_toNat_cond]
  split <;> omega

theorem toNat_removeSign {x : Int64} (h : x.toInt < 0) :
    (removeSign x).toNat = x.toInt.natAbs := by
  -- one more before the sign is changed and one less behind it cancel out
  have hbits : (removeSign x).toBitVec = -x.toBitVec := by
    have hsum : -(x.toBitVec + 1#64) + 1#64 = -x.toBitVec := by
      rw [BitVec.neg_add, BitVec.sub_add_cancel]
    exact hsum
  have htoNat : x.toUInt64.toNat = x.toBitVec.toNat := rfl
  obtain ⟨-, hx⟩ | ⟨hlo, hhi, hx⟩ := toInt_cases x
  · omega
  · rw [← UInt64.toNat_toBitVec, hbits, BitVec.toNat_neg, ← htoNat]
    omega

theorem dumpInteger_eq {numberBuffer : Bytes} (h : numberBuffer.length = 64) (x : Integer) :
    dumpInteger numberBuffer x = some (printInt x.value) := by
  cases x with
  | integer x =>
    rw [dumpInteger, Integer.value]
    split_ifs with hzero hneg
    · rw [hzero]
      rfl
    · have hneg : x.toInt < 0 := Int64.lt_iff_toInt_lt.mp hneg
      rw [dumpAbsValue_eq h [45] (Nat.le_refl 1) (removeSign x).toNat_lt,
        toNat_removeSign hneg, printInt, if_pos hneg]
      rfl
    · have hneg : ¬ x.toInt < 0 := Int64.lt_iff_toInt_lt.not.mp hneg
      have habs : x.toUInt64.toNat = x.toInt.natAbs := by
        have hcases := toInt_cases x
        omega
      rw [dumpAbsValue_eq h [] (Nat.zero_le 1) x.toUInt64.toNat_lt, printInt,
        if_neg hneg, habs]
      rfl
  | unsigned x =>
    rw [dumpInteger, Integer.value]
    split_ifs with hzero
    · rw [hzero]
      rfl
    · rw [dumpAbsValue_eq h [] (Nat.zero_le 1) x.toNat_lt, printInt, if_neg (by omega),
        Int.natAbs_natCast]
      rfl

end Kungfu.Nlohmann
