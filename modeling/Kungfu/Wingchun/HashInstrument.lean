import Kungfu.Wingchun.Common

namespace Kungfu.Wingchun

open Kungfu.Lib Kungfu.Common Kungfu.Longfist Kungfu.Longfist.Enums

/-- `hash_instrument(exchange_id, instrument_id)`, over any `hash_str_32`. -/
def hashInstrument (hashStr32 : Bytes → UInt32) (exchangeId instrumentId : Bytes) : UInt32 :=
  hashStr32 instrumentId ^^^ hashStr32 exchangeId

def hashBasketInstrument (hashStr32 : Bytes → UInt32) (basketUid : UInt32)
    (exchangeId instrumentId : Bytes) : UInt32 :=
  basketUid ^^^ hashStr32 instrumentId ^^^ hashStr32 exchangeId

section

variable {S : Schema} (f : TradingData S)

def TradingData.exchange (o : S.Object) : Bytes := o.text f.exchangeId

def TradingData.instrument (o : S.Object) : Bytes := o.text f.instrumentId

def TradingData.direction (r : S.Data) : Except String Direction :=
  getDirection (r.get f.instrumentType) (r.get f.side) (r.get f.offset)

end

def orderFields : TradingData Types.order := TradingDataType.order.members

/-- The product is one of unsigned integers, with the flag converted to them. -/
def signedKey (key : UInt32) (flag : Int32) : Int32 := (key * flag.toUInt32).toInt32

def hashOrder (hashStr32 : Bytes → UInt32) (order : Types.order.Object) : Except String Int32 := do
  let flag : Int32 := if (← orderFields.direction order.data) = .short then -1 else 1
  return signedKey
    (hashInstrument hashStr32 (orderFields.exchange order) (orderFields.instrument order)) flag

def SeparatesDirections (hashStr32 : Bytes → UInt32) (long short : Types.order.Object) : Prop :=
  ∃ k l, hashOrder hashStr32 long = .ok k ∧ hashOrder hashStr32 short = .ok l ∧ k ≠ l

theorem signedKey_inj {key : UInt32} {flag flag' : Int32} :
    signedKey key flag = signedKey key flag' ↔ key * flag.toUInt32 = key * flag'.toUInt32 := by
  constructor
  · intro h
    have huint := congrArg Int32.toUInt32 h
    simpa [signedKey] using huint
  · intro h
    rw [signedKey, signedKey, h]

theorem signedKey_eq_iff (key : UInt32) :
    signedKey key 1 = signedKey key (-1) ↔ key = 0 ∨ key = 0x80000000 := by
  have hone : key * (1 : Int32).toUInt32 = key := UInt32.mul_one key
  have hneg : key * (-1 : Int32).toUInt32 = -key := by
    rw [UInt32.neg_eq_neg_one_mul, UInt32.mul_comm]
    rfl
  have hlt := key.toNat_lt
  rw [signedKey_inj, hone, hneg, ← UInt32.toNat_inj, ← UInt32.toNat_inj, ← UInt32.toNat_inj,
    UInt32.toNat_neg]
  have hsize : UInt32.size = 2 ^ 32 := rfl
  have hzero : (0 : UInt32).toNat = 0 := rfl
  have hmid : (0x80000000 : UInt32).toNat = 2 ^ 31 := rfl
  rw [hsize, hzero, hmid]
  omega

variable {hashStr32 : Bytes → UInt32} {order long short : Types.order.Object}

theorem hashOrder_long (h : orderFields.direction order.data = .ok .long) :
    hashOrder hashStr32 order = .ok (signedKey
      (hashInstrument hashStr32 (orderFields.exchange order)
        (orderFields.instrument order)) 1) := by
  rw [hashOrder, h]
  rfl

theorem hashOrder_short (h : orderFields.direction order.data = .ok .short) :
    hashOrder hashStr32 order = .ok (signedKey
      (hashInstrument hashStr32 (orderFields.exchange order)
        (orderFields.instrument order)) (-1)) := by
  rw [hashOrder, h]
  rfl

theorem separatesDirections_iff_key
    (hexchange : orderFields.exchange long = orderFields.exchange short)
    (hinstrument : orderFields.instrument long = orderFields.instrument short)
    (hlong : orderFields.direction long.data = .ok .long)
    (hshort : orderFields.direction short.data = .ok .short) :
    SeparatesDirections hashStr32 long short ↔
      hashInstrument hashStr32 (orderFields.exchange long) (orderFields.instrument long) ≠ 0 ∧
        hashInstrument hashStr32 (orderFields.exchange long) (orderFields.instrument long) ≠
          0x80000000 := by
  rw [SeparatesDirections, hashOrder_long hlong, hashOrder_short hshort, ← hexchange, ← hinstrument,
    ← not_or, ← signedKey_eq_iff]
  constructor
  · rintro ⟨k, l, hk, hl, hne⟩
    cases hk
    cases hl
    exact hne
  · intro hne
    exact ⟨_, _, rfl, rfl, hne⟩

theorem separatesDirections_iff (hashStr32 : Bytes → UInt32) (long short : Types.order.Object)
    (hexchange : orderFields.exchange long = orderFields.exchange short)
    (hinstrument : orderFields.instrument long = orderFields.instrument short)
    (hlong : orderFields.direction long.data = .ok .long)
    (hshort : orderFields.direction short.data = .ok .short) :
    SeparatesDirections hashStr32 long short ↔
      hashStr32 (orderFields.instrument long) ≠ hashStr32 (orderFields.exchange long) ∧
        hashStr32 (orderFields.instrument long) ^^^ hashStr32 (orderFields.exchange long) ≠
          0x80000000 := by
  have hzero : hashStr32 (orderFields.instrument long) ^^^ hashStr32 (orderFields.exchange long) =
      0 ↔ hashStr32 (orderFields.instrument long) = hashStr32 (orderFields.exchange long) :=
    UInt32.xor_eq_zero_iff
  rw [separatesDirections_iff_key hexchange hinstrument hlong hshort, hashInstrument, Ne, hzero]

def openingOrder (instrumentId exchangeId : Bytes) (side : Side) : Types.order.Object where
  data := ((((Record.fresh _).set orderFields.instrumentId
    ((FieldType.chars _).ofBytes instrumentId)).set orderFields.exchangeId
      ((FieldType.chars _).ofBytes exchangeId)).set orderFields.instrumentType
        InstrumentType.future.toVal).set orderFields.side side.toVal
  behind := []

theorem separatesDirections_future :
    SeparatesDirections (fun b => .ofNat b.length) (openingOrder [114, 98] [83, 72, 70, 69] .buy)
      (openingOrder [114, 98] [83, 72, 70, 69] .sell) :=
  (separatesDirections_iff (fun b => .ofNat b.length) _ _ (by decide) (by decide) (by decide)
    (by decide)).mpr (by decide)

/-- An instrument with the id of its exchange has the key zero, whatever the hash. -/
theorem not_separatesDirections_sameId :
    ¬ ∃ hashStr32 : Bytes → UInt32, ∀ long short : Types.order.Object,
      orderFields.exchange long = orderFields.exchange short →
      orderFields.instrument long = orderFields.instrument short →
      orderFields.direction long.data = .ok .long → orderFields.direction short.data = .ok .short →
      SeparatesDirections hashStr32 long short := by
  rintro ⟨hashStr32, h⟩
  have hsep := h (openingOrder [88] [88] .buy) (openingOrder [88] [88] .sell) (by decide)
    (by decide) (by decide) (by decide)
  have hsame : orderFields.exchange (openingOrder [88] [88] .buy) =
      orderFields.instrument (openingOrder [88] [88] .buy) := by decide
  rw [separatesDirections_iff_key (by decide) (by decide) (by decide) (by decide), hashInstrument,
    hsame] at hsep
  exact hsep.1 UInt32.xor_self

end Kungfu.Wingchun
