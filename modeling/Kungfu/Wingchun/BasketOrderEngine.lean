import Kungfu.Lib.KeyedMap
import Kungfu.Wingchun.HashInstrument

/-!
The components of baskets in `basketorder/basketorderengine.h`, kept under one 32-bit key each.
-/

namespace Kungfu.Wingchun

open Kungfu.Lib Kungfu.Common Kungfu.Longfist

abbrev BasketInstrument := Types.basketInstrument.Data

namespace BasketInstrument

def basketUid : Member Types.basketInstrument.fields ⟨Types.uint32, "basket_uid"⟩ :=
  .ofMem (by decide)

def instrumentId : Member Types.basketInstrument.fields
    ⟨Types.chars Types.instrumentIdLen, "instrument_id"⟩ := .ofMem (by decide)

def exchangeId : Member Types.basketInstrument.fields
    ⟨Types.chars Types.exchangeIdLen, "exchange_id"⟩ := .ofMem (by decide)

end BasketInstrument

structure Component where
  basketUid : UInt32
  exchangeId : Bytes
  instrumentId : Bytes
  deriving DecidableEq

def component (r : BasketInstrument) : Component where
  basketUid := .ofBitVec (r.get BasketInstrument.basketUid)
  exchangeId := CString.text (r.get BasketInstrument.exchangeId).toList
  instrumentId := CString.text (r.get BasketInstrument.instrumentId).toList

abbrev BasketInstrumentMap := KeyedMap.Map UInt32 BasketInstrument

/-- The ids end in the record. -/
structure Contained (r : BasketInstrument) : Prop where
  instrumentId : CString.Terminated (r.bytesFrom BasketInstrument.instrumentId)
  exchangeId : CString.Terminated (r.bytesFrom BasketInstrument.exchangeId)

section

variable (hashStr32 : Bytes → UInt32)

def Component.key (c : Component) : UInt32 :=
  hashBasketInstrument hashStr32 c.basketUid c.exchangeId c.instrumentId

/-- The key, of ids that are read on behind arrays without a NUL. -/
def basketInstrumentHashed (o : Types.basketInstrument.Object) : UInt32 :=
  hashBasketInstrument hashStr32 (.ofBitVec (o.data.get BasketInstrument.basketUid))
    (o.text BasketInstrument.exchangeId) (o.text BasketInstrument.instrumentId)

-- An id without a NUL is copied on over the members behind it, to which their own assignments
-- copy the same bytes; only what is copied on behind the record is not covered here.
def updateBasketInstrument (m : BasketInstrumentMap) (o : Types.basketInstrument.Object) :
    BasketInstrumentMap :=
  KeyedMap.insertOrAssign Schema.Object.data (fun b o => Record.assign b o.data) m
    (basketInstrumentHashed hashStr32 o) o

def basketInstruments (updates : List Types.basketInstrument.Object) : BasketInstrumentMap :=
  updates.foldl (updateBasketInstrument hashStr32) ∅

/-- Every component that was updated has one entry, which is its last update, and no update was
copied over the entry of another component or over what lies behind an entry. -/
structure KeepsComponents (updates : List Types.basketInstrument.Object) : Prop where
  entry : ∀ before o after, updates = before ++ o :: after →
    (∀ x ∈ after, component x.data ≠ component o.data) →
    ∃ k, ∃ b ∈ (basketInstruments hashStr32 updates).lookup k, Record.Eqv b o.data
  unique : ∀ k k', ∀ b ∈ (basketInstruments hashStr32 updates).lookup k,
    ∀ b' ∈ (basketInstruments hashStr32 updates).lookup k', component b = component b' → k = k'
  own : ∀ before o after, updates = before ++ o :: after →
    ∀ b ∈ (basketInstruments hashStr32 before).lookup (basketInstrumentHashed hashStr32 o),
      component b = component o.data ∧ Contained o.data

def Distinguishes (updates : List Types.basketInstrument.Object) : Prop :=
  ∀ o ∈ updates, ∀ o' ∈ updates,
    basketInstrumentHashed hashStr32 o = basketInstrumentHashed hashStr32 o' ↔
      component o.data = component o'.data

end

variable {hashStr32 : Bytes → UInt32} {updates before after : List Types.basketInstrument.Object}
  {o o' : Types.basketInstrument.Object} {a b r : BasketInstrument} {k : UInt32}

theorem component_of_eqv (h : Record.Eqv a b) : component a = component b := by
  have member {f : Field} (m : Member Types.basketInstrument.fields f) :
      f.type.Eqv (a.get m) (b.get m) := Record.eqv_iff.mp h m
  have huid : a.get BasketInstrument.basketUid = b.get BasketInstrument.basketUid :=
    member BasketInstrument.basketUid
  have hexchange : CString.text (a.get BasketInstrument.exchangeId).toList =
      CString.text (b.get BasketInstrument.exchangeId).toList := member BasketInstrument.exchangeId
  have hinstrument : CString.text (a.get BasketInstrument.instrumentId).toList =
      CString.text (b.get BasketInstrument.instrumentId).toList :=
    member BasketInstrument.instrumentId
  rw [component, huid, hexchange, hinstrument, component]

theorem assign_eqv (h : component b = component r) : Record.Eqv (Record.assign b r) r := by
  rw [component, component, Component.mk.injEq] at h
  obtain ⟨-, hexchange, hinstrument⟩ := h
  have chars {n : Nat} {v w : List.Vector UInt8 n}
      (h : CString.text v.toList = CString.text w.toList) :
      (FieldType.chars n).Eqv (charsAssign v w) w :=
    (congrArg CString.text (CString.assign_eq_self h)).trans h
  exact ⟨rfl, chars hinstrument, chars hexchange, rfl, rfl, rfl, rfl, trivial⟩

theorem component_assign (h : component b = component r) :
    component (Record.assign b r) = component r :=
  component_of_eqv (assign_eqv h)

theorem basketInstruments_append : basketInstruments hashStr32 (before ++ [o]) =
    updateBasketInstrument hashStr32 (basketInstruments hashStr32 before) o := by
  rw [basketInstruments, List.foldl_append]
  rfl

theorem exists_lookup_iff : (∃ b, b ∈ (basketInstruments hashStr32 updates).lookup k) ↔
    ∃ o ∈ updates, basketInstrumentHashed hashStr32 o = k := by
  have hmem : k ∈ basketInstruments hashStr32 updates ↔
      k ∈ (∅ : BasketInstrumentMap) ∨ k ∈ updates.map (basketInstrumentHashed hashStr32) :=
    KeyedMap.mem_feed updates
  rw [or_iff_right (AList.notMem_empty k), ← AList.lookup_isSome, Option.isSome_iff_exists,
    List.mem_map] at hmem
  exact hmem

theorem component_of_own
    (h : ∀ before o after, updates = before ++ o :: after →
      ∀ b ∈ (basketInstruments hashStr32 before).lookup (basketInstrumentHashed hashStr32 o),
        component b = component o.data ∧ Contained o.data)
    (ho : o ∈ updates)
    (hb : b ∈ (basketInstruments hashStr32 updates).lookup (basketInstrumentHashed hashStr32 o)) :
    component b = component o.data := by
  induction updates using List.reverseRecOn generalizing o b with
  | nil => cases ho
  | append_singleton before x ih =>
    have hprefix : ∀ front y back, before = front ++ y :: back →
        ∀ b ∈ (basketInstruments hashStr32 front).lookup (basketInstrumentHashed hashStr32 y),
          component b = component y.data ∧ Contained y.data :=
      fun front y back hsplit => h front y (back ++ [x]) (by simp [hsplit])
    rw [basketInstruments_append, updateBasketInstrument] at hb
    rw [List.mem_append, List.mem_singleton] at ho
    by_cases hkey : basketInstrumentHashed hashStr32 o = basketInstrumentHashed hashStr32 x
    · rw [hkey, KeyedMap.lookup_insertOrAssign] at hb
      cases hx : (basketInstruments hashStr32 before).lookup (basketInstrumentHashed hashStr32 x)
        with
      | none =>
        rw [hx] at hb
        cases hb
        rcases ho with ho | rfl
        · obtain ⟨b, hb⟩ := exists_lookup_iff.mpr ⟨o, ho, hkey⟩
          cases hx.symm.trans hb
        · rfl
      | some b' =>
        rw [hx] at hb
        cases hb
        have hb' := (h before x [] rfl b' hx).1
        rw [component_assign hb']
        rcases ho with ho | rfl
        · exact hb'.symm.trans (ih hprefix ho (hkey ▸ hx))
        · rfl
    · rw [KeyedMap.lookup_insertOrAssign_of_ne hkey] at hb
      exact ih hprefix (ho.resolve_right fun heq => hkey (heq ▸ rfl)) hb

theorem KeepsComponents.hashed_iff (h : KeepsComponents hashStr32 updates) (ho : o ∈ updates)
    (ho' : o' ∈ updates) :
    basketInstrumentHashed hashStr32 o = basketInstrumentHashed hashStr32 o' ↔
      component o.data = component o'.data := by
  obtain ⟨b, hb⟩ := exists_lookup_iff.mpr ⟨o, ho, rfl⟩
  have hcomponent := component_of_own h.own ho hb
  constructor
  · intro heq
    exact hcomponent.symm.trans (component_of_own h.own ho' (heq ▸ hb))
  · intro heq
    obtain ⟨b', hb'⟩ := exists_lookup_iff.mpr ⟨o', ho', rfl⟩
    have hcomponent' := component_of_own h.own ho' hb'
    exact h.unique _ _ b hb b' hb' (hcomponent.trans (heq.trans hcomponent'.symm))

theorem Distinguishes.of_subset (h : Distinguishes hashStr32 updates) (hsub : before ⊆ updates) :
    Distinguishes hashStr32 before :=
  fun o ho o' ho' => h o (hsub ho) o' (hsub ho')

theorem Distinguishes.exists_update (h : Distinguishes hashStr32 updates)
    (hb : b ∈ (basketInstruments hashStr32 updates).lookup k) :
    ∃ o ∈ updates, basketInstrumentHashed hashStr32 o = k ∧ component b = component o.data := by
  refine KeyedMap.lookup_feed_induction (P := fun k b => ∃ o ∈ updates,
    basketInstrumentHashed hashStr32 o = k ∧ component b = component o.data) ?_ ?_ ?_ k b hb
  · intro k b hb
    rw [AList.lookup_empty] at hb
    cases hb
  · intro o ho
    exact ⟨o, ho, rfl, rfl⟩
  · rintro o ho b ⟨o', ho', hkey, hb⟩
    exact ⟨o, ho, rfl, component_assign (hb.trans ((h o' ho' o ho).mp hkey))⟩

theorem Distinguishes.component_eq (h : Distinguishes hashStr32 (before ++ o :: after))
    (hb : b ∈ (basketInstruments hashStr32 before).lookup (basketInstrumentHashed hashStr32 o)) :
    component b = component o.data := by
  have hsub : before ⊆ before ++ o :: after := List.subset_append_left ..
  obtain ⟨x, hx, hkey, hb⟩ := (h.of_subset hsub).exists_update hb
  exact hb.trans ((h x (hsub hx) o (by simp)).mp hkey)

theorem keepsComponents_of_distinguishes (h : Distinguishes hashStr32 updates)
    (hcontained : ∀ before o after, updates = before ++ o :: after →
      (∃ x ∈ before, basketInstrumentHashed hashStr32 x = basketInstrumentHashed hashStr32 o) →
      Contained o.data) : KeepsComponents hashStr32 updates where
  entry := by
    rintro before o after rfl hafter
    have hlast : ∀ x ∈ after,
        basketInstrumentHashed hashStr32 x ≠ basketInstrumentHashed hashStr32 o :=
      fun x hx heq => hafter x hx ((h x (by simp [hx]) o (by simp)).mp heq)
    have hlookup : (basketInstruments hashStr32 (before ++ o :: after)).lookup
        (basketInstrumentHashed hashStr32 o) = KeyedMap.upsert _ _
          ((basketInstruments hashStr32 before).lookup (basketInstrumentHashed hashStr32 o)) o :=
      KeyedMap.lookup_feed_last hlast
    cases hbefore : (basketInstruments hashStr32 before).lookup
        (basketInstrumentHashed hashStr32 o) with
    | none =>
      rw [hbefore] at hlookup
      exact ⟨_, o.data, hlookup, Record.Eqv.refl o.data⟩
    | some b =>
      rw [hbefore] at hlookup
      exact ⟨_, _, hlookup, assign_eqv (h.component_eq hbefore)⟩
  unique := by
    intro k k' b hb b' hb' heq
    obtain ⟨o, ho, rfl, hcomponent⟩ := h.exists_update hb
    obtain ⟨o', ho', rfl, hcomponent'⟩ := h.exists_update hb'
    exact (h o ho o' ho').mpr (hcomponent.symm.trans (heq.trans hcomponent'))
  own := by
    rintro before o after rfl b hb
    exact ⟨h.component_eq hb, hcontained before o after rfl (exists_lookup_iff.mp ⟨b, hb⟩)⟩

theorem keepsComponents_iff (hashStr32 : Bytes → UInt32)
    (updates : List Types.basketInstrument.Object) :
    KeepsComponents hashStr32 updates ↔ Distinguishes hashStr32 updates ∧
      ∀ before o after, updates = before ++ o :: after →
        (∃ x ∈ before, basketInstrumentHashed hashStr32 x = basketInstrumentHashed hashStr32 o) →
        Contained o.data := by
  constructor
  · intro h
    refine ⟨fun o ho o' ho' => h.hashed_iff ho ho', fun before o after hsplit hx => ?_⟩
    obtain ⟨b, hb⟩ := exists_lookup_iff.mpr hx
    exact (h.own before o after hsplit b hb).2
  · rintro ⟨hdistinguishes, hcontained⟩
    exact keepsComponents_of_distinguishes hdistinguishes hcontained

theorem basketInstrumentHashed_of_terminated (h : o.data.Terminated) :
    basketInstrumentHashed hashStr32 o = (component o.data).key hashStr32 := by
  have hinstrument : o.text BasketInstrument.instrumentId = (component o.data).instrumentId :=
    Schema.Object.text_of_terminated (Record.all_iff.mp h BasketInstrument.instrumentId)
  have hexchange : o.text BasketInstrument.exchangeId = (component o.data).exchangeId :=
    Schema.Object.text_of_terminated (Record.all_iff.mp h BasketInstrument.exchangeId)
  rw [basketInstrumentHashed, hinstrument, hexchange]
  rfl

theorem contained_of_terminated (h : r.Terminated) : Contained r := by
  constructor
  · obtain ⟨rest, hrest⟩ := r.exists_bytesFrom BasketInstrument.instrumentId
    exact hrest ▸ List.mem_append_left _ (Record.all_iff.mp h BasketInstrument.instrumentId)
  · obtain ⟨rest, hrest⟩ := r.exists_bytesFrom BasketInstrument.exchangeId
    exact hrest ▸ List.mem_append_left _ (Record.all_iff.mp h BasketInstrument.exchangeId)

theorem keepsComponents_iff_of_terminated (h : ∀ o ∈ updates, o.data.Terminated) :
    KeepsComponents hashStr32 updates ↔ Set.InjOn (Component.key hashStr32)
      {c | ∃ o ∈ updates, component o.data = c} := by
  have hkey : ∀ o ∈ updates, basketInstrumentHashed hashStr32 o =
      (component o.data).key hashStr32 :=
    fun o ho => basketInstrumentHashed_of_terminated (h o ho)
  constructor
  · rintro hkeeps _ ⟨o, ho, rfl⟩ _ ⟨o', ho', rfl⟩ heq
    exact (hkeeps.hashed_iff ho ho').mp ((hkey o ho).trans (heq.trans (hkey o' ho').symm))
  · intro hinj
    apply keepsComponents_of_distinguishes
    · intro o ho o' ho'
      rw [hkey o ho, hkey o' ho']
      exact ⟨fun heq => hinj ⟨o, ho, rfl⟩ ⟨o', ho', rfl⟩ heq, congrArg _⟩
    · rintro before o after rfl -
      exact contained_of_terminated (h o (by simp))

def basketInstrumentOf (instrumentId exchangeId : Bytes) : Types.basketInstrument.Object where
  data := ((Record.fresh _).set BasketInstrument.instrumentId
    ((FieldType.chars _).ofBytes instrumentId)).set
      BasketInstrument.exchangeId ((FieldType.chars _).ofBytes exchangeId)
  behind := []

/-- Two components whose ids are exchanged share an entry, whatever the hash. -/
theorem not_keepsComponents_exchanged :
    ¬ ∃ hashStr32, KeepsComponents hashStr32
      [basketInstrumentOf [65] [66], basketInstrumentOf [66] [65]] := by
  rintro ⟨hashStr32, h⟩
  have hids : (basketInstrumentOf [65] [66]).text BasketInstrument.exchangeId = [66] ∧
      (basketInstrumentOf [65] [66]).text BasketInstrument.instrumentId = [65] ∧
      (basketInstrumentOf [66] [65]).text BasketInstrument.exchangeId = [65] ∧
      (basketInstrumentOf [66] [65]).text BasketInstrument.instrumentId = [66] := by
    decide
  have hkey : basketInstrumentHashed hashStr32 (basketInstrumentOf [65] [66]) =
      basketInstrumentHashed hashStr32 (basketInstrumentOf [66] [65]) := by
    obtain ⟨he, hi, he', hi'⟩ := hids
    rw [basketInstrumentHashed, basketInstrumentHashed, he, hi, he', hi', hashBasketInstrument,
      hashBasketInstrument, UInt32.xor_assoc, UInt32.xor_assoc, UInt32.xor_comm (hashStr32 [65])]
    rfl
  exact absurd ((h.hashed_iff (by simp) (by simp)).mp hkey) (by decide)

end Kungfu.Wingchun
