import Kungfu.Lib.Utf8Char

namespace Kungfu.Nlohmann

open Kungfu.Lib

def utf8d : List UInt8 :=
  -- the types of the bytes, 00..FF
  [0, 0, 0, 0, 0, 0, 0, 0, 0, 0, 0, 0, 0, 0, 0, 0, 0, 0, 0, 0, 0, 0, 0, 0, 0, 0, 0, 0, 0, 0, 0, 0,
   0, 0, 0, 0, 0, 0, 0, 0, 0, 0, 0, 0, 0, 0, 0, 0, 0, 0, 0, 0, 0, 0, 0, 0, 0, 0, 0, 0, 0, 0, 0, 0,
   0, 0, 0, 0, 0, 0, 0, 0, 0, 0, 0, 0, 0, 0, 0, 0, 0, 0, 0, 0, 0, 0, 0, 0, 0, 0, 0, 0, 0, 0, 0, 0,
   0, 0, 0, 0, 0, 0, 0, 0, 0, 0, 0, 0, 0, 0, 0, 0, 0, 0, 0, 0, 0, 0, 0, 0, 0, 0, 0, 0, 0, 0, 0, 0,
   1, 1, 1, 1, 1, 1, 1, 1, 1, 1, 1, 1, 1, 1, 1, 1, 9, 9, 9, 9, 9, 9, 9, 9, 9, 9, 9, 9, 9, 9, 9, 9,
   7, 7, 7, 7, 7, 7, 7, 7, 7, 7, 7, 7, 7, 7, 7, 7, 7, 7, 7, 7, 7, 7, 7, 7, 7, 7, 7, 7, 7, 7, 7, 7,
   8, 8, 2, 2, 2, 2, 2, 2, 2, 2, 2, 2, 2, 2, 2, 2, 2, 2, 2, 2, 2, 2, 2, 2, 2, 2, 2, 2, 2, 2, 2, 2,
   10, 3, 3, 3, 3, 3, 3, 3, 3, 3, 3, 3, 3, 4, 3, 3,
   11, 6, 6, 6, 5, 8, 8, 8, 8, 8, 8, 8, 8, 8, 8, 8,
  -- the states after each type, s0..s8
   0, 1, 2, 3, 5, 8, 7, 1, 1, 1, 4, 6, 1, 1, 1, 1,
   1, 1, 1, 1, 1, 1, 1, 1, 1, 1, 1, 1, 1, 1, 1, 1, 1, 0, 1, 1, 1, 1, 1, 0, 1, 0, 1, 1, 1, 1, 1, 1,
   1, 2, 1, 1, 1, 1, 1, 2, 1, 2, 1, 1, 1, 1, 1, 1, 1, 1, 1, 1, 1, 1, 1, 2, 1, 1, 1, 1, 1, 1, 1, 1,
   1, 2, 1, 1, 1, 1, 1, 1, 1, 2, 1, 1, 1, 1, 1, 1, 1, 1, 1, 1, 1, 1, 1, 3, 1, 3, 1, 1, 1, 1, 1, 1,
   1, 3, 1, 1, 1, 1, 1, 3, 1, 3, 1, 1, 1, 1, 1, 1, 1, 3, 1, 1, 1, 1, 1, 1, 1, 1, 1, 1, 1, 1, 1, 1]

def utf8Accept : UInt8 := 0

def utf8Reject : UInt8 := 1

/-- The new `state` and `codep`. -/
def decode (state : UInt8) (codep : UInt32) (byte : UInt8) : UInt8 × UInt32 :=
  let type := utf8d.getD byte.toNat 0
  let codep : UInt32 :=
    if state ≠ utf8Accept then byte.toUInt32 &&& (0x3f : UInt32) ||| codep <<< (6 : UInt32)
    else (0xff : UInt32) >>> type.toUInt32 &&& byte.toUInt32
  let index := 256 + state.toNat * 16 + type.toNat
  (utf8d.getD index 0, codep)

def code : Utf8 → UInt8
  | .accept => utf8Accept
  | .reject => utf8Reject
  | .tail1 => 2
  | .tail2 => 3
  | .e0 => 4
  | .ed => 5
  | .f0 => 6
  | .tail3 => 7
  | .f4 => 8

theorem code_inj {q r : Utf8} (h : code q = code r) : q = r := by
  revert h
  cases q <;> cases r <;> decide

def byteType (b : UInt8) : UInt8 :=
  if b < 0x80 then 0 else if b < 0x90 then 1 else if b < 0xa0 then 9 else if b < 0xc0 then 7
  else if b < 0xc2 then 8 else if b < 0xe0 then 2 else if b = 0xe0 then 10 else if b = 0xed then 4
  else if b < 0xf0 then 3 else if b = 0xf0 then 11 else if b < 0xf4 then 6 else if b = 0xf4 then 5
  else 8

theorem forall_uint8 {p : UInt8 → Prop} (h : ∀ n < 256, p (.ofNat n)) (b : UInt8) : p b := by
  have hb := h b.toNat b.toNat_lt
  rwa [UInt8.ofNat_toNat] at hb

theorem getD_byte (b : UInt8) : utf8d.getD b.toNat 0 = byteType b := by
  revert b
  apply forall_uint8
  decide +kernel

theorem getD_state (q : Utf8) (b : UInt8) :
    utf8d.getD (256 + (code q).toNat * 16 + (byteType b).toNat) 0 = code (q.step b) := by
  revert b
  apply forall_uint8
  cases q <;> decide +kernel

theorem decode_fst (q : Utf8) (codep : UInt32) (b : UInt8) :
    (decode (code q) codep b).1 = code (q.step b) := by
  rw [← getD_state q b, ← getD_byte]
  rfl

theorem toNat_lead {b : UInt8} (h : Utf8.step .accept b ≠ .reject) :
    ((0xff : UInt32) >>> (byteType b).toUInt32 &&& b.toUInt32).toNat = Utf8.lead b := by
  revert b
  apply forall_uint8
  decide +kernel

theorem toNat_extend {codep : UInt32} (h : codep.toNat < 2 ^ 26) (b : UInt8) :
    (b.toUInt32 &&& (0x3f : UInt32) ||| codep <<< (6 : UInt32)).toNat =
      Utf8.extend codep.toNat b := by
  have hlow : b.toNat &&& 63 = b.toNat % 64 := Nat.and_two_pow_sub_one_eq_mod b.toNat 6
  have hshift : codep.toNat <<< 6 % 2 ^ 32 = codep.toNat <<< 6 := by
    rw [Nat.shiftLeft_eq]
    exact Nat.mod_eq_of_lt (Nat.mul_lt_mul_of_pos_right h (by decide))
  have hor : codep.toNat <<< 6 + b.toNat % 64 = codep.toNat <<< 6 ||| b.toNat % 64 :=
    Nat.shiftLeft_add_eq_or_of_lt (Nat.mod_lt b.toNat (by decide : 0 < 2 ^ 6)) codep.toNat
  simp only [UInt32.toNat_or, UInt32.toNat_and, UInt8.toNat_toUInt32, UInt32.toNat_shiftLeft,
    UInt32.reduceToNat, Nat.reduceMod]
  rw [hlow, hshift, Nat.or_comm, ← hor, Nat.shiftLeft_eq, Utf8.extend]

structure Reads (p : List UInt8) (q : Utf8) (codep : UInt32) : Prop where
  pending : Utf8.Pending p q
  codepoint : p ≠ [] → codep.toNat = Utf8.scalar p

theorem reads_nil (codep : UInt32) : Reads [] .accept codep := ⟨rfl, fun h => absurd rfl h⟩

variable {p : List UInt8} {q : Utf8} {codep : UInt32}

theorem Reads.decode_snd (h : Reads p q codep) {b : UInt8} (hb : q.step b ≠ .reject) :
    (decode (code q) codep b).2.toNat = Utf8.scalar (p ++ [b]) := by
  by_cases hp : p = []
  · subst hp
    obtain rfl := Utf8.accept_of_pending_nil h.pending
    rw [decode, getD_byte]
    exact toNat_lead hb
  · have hq : code q ≠ utf8Accept := by
      intro hq
      obtain rfl := code_inj (r := .accept) hq
      exact hp h.pending
    have hbound : codep.toNat < 2 ^ 26 := by
      rw [h.codepoint hp]
      exact h.pending.scalar_lt
    rw [Utf8.scalar_concat hp, ← h.codepoint hp, ← toNat_extend hbound]
    rw [decode, if_pos hq]

end Kungfu.Nlohmann
