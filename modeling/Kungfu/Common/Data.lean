import Kungfu.Common.Json

namespace Kungfu.Common

open Kungfu.Lib

namespace Record

def assignMembers : {fs : List Field} → Record fs → List Json.Member → List Json.Member
  | [], _, ms => ms
  | f :: _, r, ms => assignMembers r.2 (Json.insert f.key (f.type.toJson r.1) ms)

def toJson : {fs : List Field} → Record fs → Json
  | [], _ => .null
  | _ :: _, r => .obj (assignMembers r [])

/-- The loop of `data::parse`, with `jobj[name]` for every member. -/
def restore (j : Json) : {fs : List Field} → Record fs → Option (Record fs)
  | [], _ => some ()
  | f :: _, r => do
    let v ← f.type.restoreFromJson r.1 (← j.index f.key)
    let vs ← restore j r.2
    return (v, vs)

end Record

namespace Schema

variable (C : Json.Codec) (S : Schema)

/-- `to_string`; `none` when `dump` throws. -/
def toString (r : S.Data) : Option Bytes := C.dump r.toJson

/-- `T(address, length)` on the bytes at the address: `parse` over a fresh record. -/
def construct (bytes : Bytes) (length : UInt32) : Option S.Data := do
  let j ← C.parse (bytes.take length.toNat)
  Record.restore j (.fresh S.fields)

/-- `T(text)`: the length becomes a `uint32_t`. -/
def ofText (text : Bytes) : Option S.Data := S.construct C text (.ofNat text.length)

end Schema

namespace Record

theorem exists_toJson_eq_obj (h : fs ≠ []) (r : Record fs) : ∃ ms, r.toJson = .obj ms := by
  cases fs with
  | nil => exact absurd rfl h
  | cons f fs => exact ⟨_, rfl⟩

theorem lookup_assignMembers_of_notMem {k : Bytes} (h : ∀ f ∈ fs, f.key ≠ k) (r : Record fs)
    (ms : List Json.Member) : Json.lookup k (r.assignMembers ms) = Json.lookup k ms := by
  induction fs generalizing ms with
  | nil => rfl
  | cons f fs ih =>
    rw [assignMembers, ih (fun g hg => h g (.tail _ hg)),
      Json.lookup_insert_of_ne (Ne.symm (h f (.head _)))]

theorem lookup_assignMembers (h : (fs.map Field.name).Nodup) (m : Member fs f) (r : Record fs)
    (ms : List Json.Member) :
    Json.lookup f.key (r.assignMembers ms) = some (f.type.toJson (r.get m)) := by
  induction m generalizing ms with
  | here =>
    have hf := (List.nodup_cons.mp h).1
    rw [assignMembers, lookup_assignMembers_of_notMem, Json.lookup_insert_self]
    · rfl
    · intro g hg hk
      exact hf (Field.key_inj.mp hk ▸ List.mem_map_of_mem hg)
  | there m ih => exact ih (List.nodup_cons.mp h).2 r.2 _

theorem sorted_assignMembers (r : Record fs) {ms : List Json.Member} (h : Json.Sorted ms) :
    Json.Sorted (r.assignMembers ms) := by
  induction fs generalizing ms with
  | nil => exact h
  | cons f fs ih => exact ih r.2 (Json.sorted_insert _ _ h)

theorem mem_assignMembers (r : Record fs) {ms : List Json.Member} {x : Json.Member}
    (h : x ∈ r.assignMembers ms) :
    x ∈ ms ∨ ∃ f, ∃ m : Member fs f, x = (f.key, f.type.toJson (r.get m)) := by
  induction fs generalizing ms with
  | nil => exact .inl h
  | cons f fs ih =>
    rcases ih r.2 h with hx | ⟨g, m, rfl⟩
    · rcases Json.mem_insert hx with rfl | hx
      · exact .inr ⟨f, .here, rfl⟩
      · exact .inl hx
    · exact .inr ⟨g, .there m, rfl⟩

theorem restore_eqv {j : Json} (r : Record fs)
    (h : ∀ {f} (m : Member fs f), j.index f.key = some (f.type.toJson (r.get m))) :
    ∃ r', restore j (fresh fs) = some r' ∧ r'.Eqv r := by
  induction fs with
  | nil => exact ⟨(), rfl, trivial⟩
  | cons f fs ih =>
    obtain ⟨v, hv, hv'⟩ := f.type.restoreFromJson_toJson r.1
    obtain ⟨vs, hvs, hvs'⟩ := ih r.2 fun m => h (.there m)
    refine ⟨(v, vs), ?_, hv', hvs'⟩
    have hj : j.index f.key = some (f.type.toJson r.1) := h .here
    simp only [restore, hj, fresh, Option.bind_eq_bind, Option.bind_some, hv, hvs]
    rfl

theorem index_toJson (h : (fs.map Field.name).Nodup) (m : Member fs f) (r : Record fs) :
    r.toJson.index f.key = some (f.type.toJson (r.get m)) := by
  cases fs with
  | nil => cases m
  | cons g fs =>
    rw [toJson, Json.index, lookup_assignMembers h m]
    rfl

theorem validText_toJson (hkeys : ∀ f ∈ fs, Utf8.valid f.key = true) (r : Record fs)
    (h : r.All fun t => t.ValidText) : r.toJson.validText = true := by
  cases fs with
  | nil => rfl
  | cons f fs =>
    have hmem : ∀ x ∈ r.assignMembers [], Utf8.valid x.1 = true ∧ x.2.validText = true := by
      intro x hx
      rcases mem_assignMembers r hx with hx | ⟨g, m, rfl⟩
      · cases hx
      · exact ⟨hkeys g m.mem, (g.type.validText_toJson).mpr (all_iff.mp h m)⟩
    simp only [toJson, Json.validText, Json.all, Bool.and_eq_true, Json.allMembers_iff,
      List.all_eq_true]
    exact ⟨fun x hx => (hmem x hx).1, fun x hx => (hmem x hx).2⟩

theorem canonical_toJson (r : Record fs) (h : r.All fun t => t.Finite) :
    r.toJson.canonical = true := by
  cases fs with
  | nil => rfl
  | cons f fs =>
    simp only [toJson, Json.canonical, Json.all, Bool.and_eq_true, Json.allMembers_iff,
      decide_eq_true_eq]
    refine ⟨sorted_assignMembers r List.Pairwise.nil, fun x hx => ?_⟩
    rcases mem_assignMembers r hx with hx | ⟨g, m, rfl⟩
    · cases hx
    · exact g.type.canonical_toJson (all_iff.mp h m)

theorem validText_of_encodable {r : Record fs} (h : r.All fun t => t.Encodable) :
    r.All fun t => t.ValidText :=
  all_imp (fun _ _ h => h.validText) h

theorem finite_of_encodable {r : Record fs} (h : r.All fun t => t.Encodable) :
    r.All fun t => t.Finite :=
  all_imp (fun _ _ h => h.finite) h

theorem finite_of_plain (h : ∀ f ∈ fs, f.type.plain = true) (r : Record fs) :
    r.All fun t => t.Finite :=
  all_iff.mpr fun m => FieldType.finite_of_plain (h _ m.mem) (r.get m)

theorem eq_of_eqv (h : ∀ f ∈ fs, f.type.plain = true) {r r' : Record fs} (hr : r'.Eqv r) :
    r' = r :=
  Record.ext fun m => FieldType.eq_of_eqv (h _ m.mem) (eqv_iff.mp hr m)

end Record

namespace Schema

theorem ofText_of_toString {C : Json.Codec} {S : Schema} {r : S.Data} {t : Bytes}
    (hfinite : r.All fun t => t.Finite) (h : S.toString C r = some t) (ht : t.length < 2 ^ 32) :
    ∃ r', S.ofText C t = some r' ∧ r'.Eqv r := by
  obtain ⟨r', hr', heqv⟩ :=
    Record.restore_eqv (j := r.toJson) r fun m => Record.index_toJson S.names_nodup m r
  refine ⟨r', ?_, heqv⟩
  have htake : t.take (UInt32.ofNat t.length).toNat = t := by
    rw [UInt32.toNat_ofNat_of_lt' ht, List.take_length]
  have hparse := C.parse_dump r.toJson t (Record.canonical_toJson r hfinite) h
  simp only [ofText, construct, htake, hparse, Option.bind_eq_bind, Option.bind_some, hr']

theorem ofText_of_toString_of_plain {C : Json.Codec} {S : Schema} {r : S.Data} {t : Bytes}
    (hplain : ∀ f ∈ S.fields, f.type.plain = true) (h : S.toString C r = some t)
    (ht : t.length < 2 ^ 32) : S.ofText C t = some r := by
  obtain ⟨r', hr', heqv⟩ := ofText_of_toString (Record.finite_of_plain hplain r) h ht
  rw [hr', Record.eq_of_eqv hplain heqv]

theorem toString_isSome (C : Json.Codec) (S : Schema) (r : S.Data)
    (h : r.All fun t => t.ValidText) : (S.toString C r).isSome := by
  rw [toString, C.dump_isSome]
  exact Record.validText_toJson S.names_valid r h

end Schema

end Kungfu.Common
