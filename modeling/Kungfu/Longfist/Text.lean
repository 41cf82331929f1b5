import Kungfu.Common.ParseSafety
import Kungfu.Lib.JsonDelimited
import Kungfu.Longfist.Types

namespace Kungfu.Longfist

open Kungfu.Lib Kungfu.Common

theorem DataType.plain_of_unfixed {T : DataType} (h : T.schema.sizeFixed = false) :
    ∀ f ∈ T.schema.fields, f.type.plain = true := by
  have hall : (T.schema.fields.all fun f => f.type.plain) = true := by
    revert h
    cases T <;> decide
  exact List.all_eq_true.mp hall

theorem length_lt_of_all {o : Option Bytes} {t : Bytes} (h : o = some t)
    (hlen : o.all (fun t => t.length < 2 ^ 32) = true) : t.length < 2 ^ 32 := by
  rw [h, Option.all_some] at hlen
  exact of_decide_eq_true hlen

theorem ofText_toString (C : Json.Codec) (S : Schema) (r : S.Data)
    (hr : r.All fun t => t.Encodable) :
    ∃ t, S.toString C r = some t ∧
      (t.length < 2 ^ 32 → ∃ r', S.ofText C t = some r' ∧ r'.Eqv r) := by
  have hsome := S.toString_isSome C r (Record.validText_of_encodable hr)
  obtain ⟨t, ht⟩ := Option.isSome_iff_exists.mp hsome
  have hfinite := Record.finite_of_encodable hr
  exact ⟨t, ht, fun hlen => Schema.ofText_of_toString hfinite ht hlen⟩

def quotedInstrument : Types.instrumentKey.Data :=
  ((7 : BitVec 32), (FieldType.chars 32).ofBytes [54, 48, 34, 48],
    (FieldType.chars 16).ofBytes [83], (-1 : BitVec 8), ())

theorem ofText_toString_quotedInstrument :
    ∃ t, Types.instrumentKey.toString JsonText.codec quotedInstrument = some t ∧
      ∃ r', Types.instrumentKey.ofText JsonText.codec t = some r' ∧
        r'.Eqv quotedInstrument := by
  obtain ⟨t, ht, h⟩ := ofText_toString JsonText.codec Types.instrumentKey quotedInstrument
    (by decide)
  exact ⟨t, ht, h (length_lt_of_all ht (by decide))⟩

def withKey (key : Bytes) : Types.timeKeyValue.Data :=
  (Record.fresh Types.timeKeyValue.fields).set (.there .here : Member _ ⟨Types.string, "key"⟩) key

theorem encodable_withKey {key : Bytes} (h : Utf8.valid key = true) :
    (withKey key).All fun t => t.Encodable := by
  have hfresh : (Record.fresh Types.timeKeyValue.fields).All fun t => t.Encodable := by decide
  exact Record.all_set hfresh _ ⟨trivial, h, trivial⟩

theorem length_toString_escapedKey {t : Bytes}
    (h : Types.timeKeyValue.toString JsonText.codec (withKey [104, 34]) = some t) :
    t.length < 2 ^ 32 :=
  length_lt_of_all h (by decide)

def beforeKey : Bytes := [0x7b, 0x22, 0x6b, 0x65, 0x79, 0x22, 0x3a, 0x22]

theorem print_withKey (key : Bytes) :
    ∃ u, JsonText.print (withKey key).toJson = beforeKey ++ (JsonText.printString key ++ u) :=
  ⟨_, rfl⟩

theorem printString_replicate (n : Nat) :
    JsonText.printString (List.replicate n 97) = List.replicate n 97 ++ [JsonText.quote] := by
  have h : (List.replicate n (97 : UInt8)).flatMap JsonText.escape = List.replicate n 97 := by
    induction n with
    | zero => rfl
    | succ n ih => rw [List.replicate_succ, List.flatMap_cons, ih]; rfl
  rw [JsonText.printString, h]

theorem valid_replicate (n : Nat) : Utf8.valid (List.replicate n 97) = true :=
  Utf8.valid_of_ascii fun b hb => by
    rw [List.eq_of_mem_replicate hb]
    decide

theorem toString_longKey (n : Nat) :
    ∃ u, Types.timeKeyValue.toString JsonText.codec (withKey (List.replicate n 97)) =
      some (beforeKey ++ (List.replicate n 97 ++ u)) := by
  have hvalid : (withKey (List.replicate n 97)).toJson.validText = true :=
    Record.validText_toJson Types.timeKeyValue.names_valid _
      (Record.validText_of_encodable (encodable_withKey (valid_replicate n)))
  obtain ⟨u, hu⟩ := print_withKey (List.replicate n 97)
  rw [printString_replicate, List.append_assoc] at hu
  exact ⟨_, (if_pos hvalid).trans (congrArg some hu)⟩

theorem ofText_of_long {S : Schema} (hfields : S.fields ≠ []) {r : S.Data} {t : Bytes}
    (hfinite : r.All fun t => t.Finite) (h : S.toString JsonText.codec r = some t)
    (hlen : 2 ^ 32 ≤ t.length) : S.ofText JsonText.codec t = none := by
  obtain ⟨ms, hms⟩ : ∃ ms, r.toJson = .obj ms := Record.exists_toJson_eq_obj hfields r
  have hparse := JsonText.codec.parse_dump r.toJson t (Record.canonical_toJson r hfinite) h
  rw [hms] at hparse
  have hlt : (UInt32.ofNat t.length).toNat < t.length :=
    Nat.lt_of_lt_of_le (UInt32.toNat_lt _) hlen
  have htake : JsonText.codec.parse (t.take (UInt32.ofNat t.length).toNat) = none :=
    JsonText.parse_take hparse hlt
  rw [Schema.ofText, Schema.construct, htake]
  rfl

theorem not_ofText_toString_longKey :
    ¬ ∀ (C : Json.Codec) (S : Schema) (r : S.Data), (r.All fun t => t.Encodable) →
      ∃ t r', S.toString C r = some t ∧ S.ofText C t = some r' ∧
        r'.Eqv r := by
  intro h
  have hkey := encodable_withKey (valid_replicate (2 ^ 32))
  obtain ⟨t, r', ht, hr', -⟩ := h JsonText.codec Types.timeKeyValue _ hkey
  obtain ⟨u, hu⟩ := toString_longKey (2 ^ 32)
  have hlen : 2 ^ 32 ≤ t.length := by
    rw [ht, Option.some.injEq] at hu
    rw [hu, List.length_append, List.length_append, List.length_replicate]
    omega
  rw [ofText_of_long (List.cons_ne_nil _ _) (Record.finite_of_encodable hkey) ht hlen] at hr'
  cases hr'

theorem independent_iff (C : Json.Codec) (S : Schema) (bytes : Bytes) (length : UInt32) (m : Memory)
    (a : Nat) :
    S.Independent C bytes length m a ↔
      ∀ j, C.parse (bytes.take length.toNat) = some j → S.Sound j := by
  cases hj : C.parse (bytes.take length.toNat) with
  | none => simp [Schema.Independent, Schema.parse_of_none hj]
  | some j =>
    simp only [Schema.Independent, Schema.parse_of_some hj, Option.some.injEq, forall_eq']
    cases hss : restoreMembers j S.fields with
    | error e =>
      cases e with
      | exception => exact iff_of_true trivial (.inl (restoreMembers_eq_exception_iff.mp hss))
      | unchecked => exact iff_of_false id (Schema.not_sound_of_unchecked hss)
    | ok ss =>
      have hall := forall₂_of_restoreMembers hss
      rw [Schema.sound_iff_of_ok hss, ← Schema.forall₂_length_le_iff hall]
      refine and_iff_left_of_imp fun hlen => ⟨j, hj, fun x v hv => ?_⟩
      obtain ⟨s, hs, hs', hget⟩ := Record.get_load hall hlen
        (Memory.read_write_of_length (Record.length_toBytes _)) x
      obtain ⟨w, hw, hstore⟩ := Field.exists_index_of_restore_eq hs
      cases Option.some.inj (hv.symm.trans hw)
      rw [hget]
      exact FieldType.own_load hstore hs'

/-- `{"exchange_id":"","instrument_id":"aaa…","instrument_type":1,"key":7}` -/
def longId (n : Nat) : Json :=
  .obj [(Field.key ⟨Types.chars Types.exchangeIdLen, "exchange_id"⟩, .str []),
    (Field.key ⟨Types.chars Types.instrumentIdLen, "instrument_id"⟩, .str (List.replicate n 97)),
    (Field.key ⟨Types.Enums.instrumentType, "instrument_type"⟩, .int 1),
    (Field.key ⟨Types.uint32, "key"⟩, .int 7)]

def longIdStored : List Stored :=
  [⟨[7, 0, 0, 0], []⟩, ⟨List.replicate 33 97, []⟩, ⟨[], []⟩, ⟨[1], []⟩]

theorem exchangeId_longId :
    CString.text ((Record.load Types.instrumentKey.fields 0 longIdStored
      (Record.image Types.instrumentKey.fields 0 longIdStored
        (Memory.write (fun _ => 0) 0 (Record.fresh Types.instrumentKey.fields).toBytes))).get
          (.there (.there .here) :
            Member _ ⟨Types.chars Types.exchangeIdLen, "exchange_id"⟩)).toList =
      [97] := by
  decide

theorem not_independent_longId :
    ¬ ∀ (C : Json.Codec) (S : Schema) (bytes : Bytes) (length : UInt32) (m : Memory) (a : Nat),
      S.Independent C bytes length m a := by
  intro h
  have hparse : JsonText.codec.parse ((JsonText.print (longId 33)).take (200 : UInt32).toNat) =
      some (longId 33) := by
    rw [List.take_of_length_le (by decide)]
    exact JsonText.codec_parse_print _
  have hind := h JsonText.codec Types.instrumentKey (JsonText.print (longId 33)) 200 (fun _ => 0) 0
  have hstored : restoreMembers (longId 33) Types.instrumentKey.fields = .ok longIdStored := rfl
  simp only [Schema.Independent, Schema.parse_of_some hparse, hstored] at hind
  obtain ⟨-, j, hj, hown⟩ := hind
  cases Option.some.inj (hparse.symm.trans hj)
  obtain ⟨s, hs, htext⟩ := hown (.there (.there .here)) (.str []) rfl
  cases hs
  exact absurd (exchangeId_longId.symm.trans htext) (by decide)

end Kungfu.Longfist
