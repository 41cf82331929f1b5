import Kungfu.Lib.JsonGrammar
import Kungfu.Nlohmann.Parser

namespace Kungfu.Nlohmann

open Kungfu.Lib JsonText JsonGrammar

mutual

inductive Derives : List Token → Json → Prop
  | scalar : t.scalar = some v → t.overflows = false → Derives [t] v
  | emptyArray : Derives [.beginArray, .endArray] (.arr [])
  | array : DerivesItems ts xs → Derives (.beginArray :: (ts ++ [.endArray])) (.arr xs)
  | emptyObject : Derives [.beginObject, .endObject] (.obj [])
  | object : DerivesMembers ts ms →
    Derives (.beginObject :: (ts ++ [.endObject])) (.obj (collect [] ms))

inductive DerivesItems : List Token → List Json → Prop
  | one : Derives ts x → DerivesItems ts [x]
  | cons : Derives ts x → DerivesItems us xs →
    DerivesItems (ts ++ .valueSeparator :: us) (x :: xs)

inductive DerivesMembers : List Token → List Json.Member → Prop
  | one : Derives ts x → DerivesMembers (.valueString k :: .nameSeparator :: ts) [(k, x)]
  | cons : Derives ts x → DerivesMembers us ms →
    DerivesMembers (.valueString k :: .nameSeparator :: (ts ++ .valueSeparator :: us))
      ((k, x) :: ms)

end

def Token.stands : Token → Bool
  | .parseError _ | .endOfInput => false
  | _ => true

theorem stands_of_scalar {t : Token} {v : Json} (h : t.scalar = some v) : t.stands = true := by
  cases t <;> first | rfl | cases h

theorem Derives.exists_cons {ts : List Token} {v : Json} (h : Derives ts v) :
    ∃ t us, ts = t :: us ∧ t ≠ .endArray ∧ t.stands = true := by
  cases h with
  | scalar ht =>
    refine ⟨_, [], rfl, ?_, stands_of_scalar ht⟩
    rintro rfl
    cases ht
  | _ => exact ⟨_, _, rfl, by simp, rfl⟩

theorem DerivesItems.exists_cons {ts : List Token} {xs : List Json} (h : DerivesItems ts xs) :
    ∃ t us, ts = t :: us ∧ t ≠ .endArray := by
  cases h with
  | one hx =>
    obtain ⟨t, us, rfl, ht, -⟩ := hx.exists_cons
    exact ⟨t, us, rfl, ht⟩
  | cons hx =>
    obtain ⟨t, us, rfl, ht, -⟩ := hx.exists_cons
    exact ⟨t, _, rfl, ht⟩

theorem DerivesMembers.exists_cons {ts : List Token} {ms : List Json.Member}
    (h : DerivesMembers ts ms) : ∃ k us, ts = .valueString k :: .nameSeparator :: us := by
  cases h <;> exact ⟨_, _, rfl⟩

namespace Dom

theorem put_objectElement {d d' : Dom} {slot : Slot} {v : Json} (h : d.put slot v = .ok d')
    (objectElement : Option (Nat × Bytes)) :
    { d with objectElement := objectElement }.put slot v =
      .ok { d' with objectElement := objectElement } := by
  unfold Dom.put at h ⊢
  split at h <;> cases h <;> simp_all

theorem put_member (k : Bytes) (v root : Json) (p : Slot) (ms : List Json.Member)
    (rest : List (Slot × Container)) (objectElement : Option (Nat × Bytes)) :
    Dom.put (.member k) v ⟨root, (p, .object ms) :: rest, objectElement⟩ =
      .ok ⟨root, (p, .object (Json.insert k v ms)) :: rest, objectElement⟩ :=
  rfl

theorem startArray_eq {d : Dom} {slot : Slot} (h : d.slot = .ok slot) :
    d.startArray = .ok { d with refStack := (slot, .array []) :: d.refStack } := by
  rw [Dom.startArray, Dom.start, h]
  rfl

theorem startObject_eq {d : Dom} {slot : Slot} (h : d.slot = .ok slot) :
    d.startObject = .ok { d with refStack := (slot, .object []) :: d.refStack } := by
  rw [Dom.startObject, Dom.start, h]
  rfl

theorem put_key (k : Bytes) (root : Json) (p : Slot) (ms : List Json.Member)
    (rest : List (Slot × Container)) (objectElement : Option (Nat × Bytes)) :
    ∃ d, Dom.key k ⟨root, (p, .object ms) :: rest, objectElement⟩ = .ok d ∧
      d.slot = .ok (.member k) ∧ ∀ v, d.put (.member k) v =
        .ok ⟨root, (p, .object (Json.insert k v ms)) :: rest, some (rest.length + 1, k)⟩ := by
  refine ⟨_, rfl, if_pos rfl, fun v => ?_⟩
  rw [put_member]
  split
  · rw [Json.insert_insert]
    rfl
  · rfl

end Dom

section Complete

variable {states : List Bool} {d d' : Dom} {ts : List Token}

theorem parseValue_of_scalar {slot : Slot} {t : Token} {v : Json} (ht : t.scalar = some v)
    (hfinite : t.overflows = false) (hslot : d.slot = .ok slot) (hput : d.put slot v = .ok d') :
    parseValue states d (t :: ts) = evaluate states d' ts := by
  have harray : t ≠ .beginArray := by
    rintro rfl
    cases ht
  have hobject : t ≠ .beginObject := by
    rintro rfl
    cases ht
  have hhandle : d.handleValue v = .ok d' := by
    rw [Dom.handleValue, hslot]
    exact hput
  rw [parseValue_scalar harray hobject, ht]
  dsimp only
  rw [hfinite, if_neg Bool.false_ne_true, hhandle]

theorem evaluate_separator (states : List Bool) (d : Dom) (ts : List Token) :
    evaluate (true :: states) d (.valueSeparator :: ts) = parseValue (true :: states) d ts := by
  rw [evaluate]

theorem evaluate_endArray (h : d.endArray = .ok d') :
    evaluate (true :: states) d (.endArray :: ts) = evaluate states d' ts := by
  rw [evaluate, h]

theorem evaluate_member {k : Bytes} (h : d.key k = .ok d') :
    evaluate (false :: states) d (.valueSeparator :: .valueString k :: .nameSeparator :: ts) =
      parseValue (false :: states) d' ts := by
  rw [evaluate, h]

theorem evaluate_endObject (h : d.endObject = .ok d') :
    evaluate (false :: states) d (.endObject :: ts) = evaluate states d' ts := by
  rw [evaluate, h]

theorem parseValue_beginArray (h : d.startArray = .ok d') {t : Token} (ht : t ≠ .endArray) :
    parseValue states d (.beginArray :: t :: ts) = parseValue (true :: states) d' (t :: ts) := by
  rw [parseValue.eq_def]
  dsimp only
  rw [h]
  dsimp only
  split
  next heq =>
    cases heq
    exact absurd rfl ht
  next => rfl

theorem parseValue_emptyArray {d'' : Dom} (h : d.startArray = .ok d')
    (h' : d'.endArray = .ok d'') :
    parseValue states d (.beginArray :: .endArray :: ts) = evaluate states d'' ts := by
  rw [parseValue.eq_def]
  dsimp only
  rw [h]
  dsimp only
  rw [h']

theorem parseValue_emptyObject {d'' : Dom} (h : d.startObject = .ok d')
    (h' : d'.endObject = .ok d'') :
    parseValue states d (.beginObject :: .endObject :: ts) = evaluate states d'' ts := by
  rw [parseValue.eq_def]
  dsimp only
  rw [h]
  dsimp only
  rw [h']

theorem parseValue_beginObject (h : d.startObject = .ok d') (k : Bytes) :
    parseValue states d (.beginObject :: .valueString k :: .nameSeparator :: ts) =
      evaluate (false :: states) d'
        (.valueSeparator :: .valueString k :: .nameSeparator :: ts) := by
  rw [parseValue.eq_def]
  dsimp only
  rw [h]
  dsimp only
  rw [evaluate]

mutual

theorem Derives.parseValue : ∀ {ts : List Token} {v : Json}, Derives ts v →
    ∀ (states : List Bool) {d d' : Dom} {slot : Slot}, d.slot = .ok slot → d.put slot v = .ok d' →
      ∀ us : List Token, ∃ objectElement, parseValue states d (ts ++ us) =
        evaluate states { d' with objectElement := objectElement } us
  | _, _, .scalar ht hfinite, _, _, d', _, hslot, hput, _ =>
    ⟨d'.objectElement, parseValue_of_scalar ht hfinite hslot hput⟩
  | _, _, .emptyArray, _, _, d', _, hslot, hput, _ =>
    ⟨d'.objectElement, parseValue_emptyArray (Dom.startArray_eq hslot) hput⟩
  | _, _, .emptyObject, _, _, d', _, hslot, hput, _ =>
    ⟨d'.objectElement, parseValue_emptyObject (Dom.startObject_eq hslot) hput⟩
  | _, .arr xs, .array hxs, states, d, d', slot, hslot, hput, us => by
    have hput : Dom.put slot (.arr ([] ++ xs)) ⟨d.root, d.refStack, d.objectElement⟩ = .ok d' :=
      hput
    obtain ⟨objectElement, hitems⟩ := hxs.parseValue states hput us
    obtain ⟨t, ts, rfl, ht⟩ := hxs.exists_cons
    refine ⟨objectElement, ?_⟩
    rw [← hitems, List.cons_append, List.append_assoc]
    exact parseValue_beginArray (Dom.startArray_eq hslot) ht
  | _, _, @Derives.object _ ms hms, states, d, d', slot, hslot, hput, us => by
    have hput : Dom.put slot (.obj (collect [] ms)) ⟨d.root, d.refStack, d.objectElement⟩ =
        .ok d' := hput
    obtain ⟨objectElement, hmembers⟩ := hms.evaluate states hput us
    obtain ⟨k, ts, rfl⟩ := hms.exists_cons
    refine ⟨objectElement, ?_⟩
    rw [← hmembers, List.cons_append, List.append_assoc]
    exact parseValue_beginObject (Dom.startObject_eq hslot) k

theorem DerivesItems.parseValue : ∀ {ts : List Token} {xs : List Json}, DerivesItems ts xs →
    ∀ (states : List Bool) {root : Json} {slot : Slot} {ys : List Json}
      {rest : List (Slot × Container)} {objectElement : Option (Nat × Bytes)} {d' : Dom},
      Dom.put slot (.arr (ys ++ xs)) ⟨root, rest, objectElement⟩ = .ok d' → ∀ us : List Token,
        ∃ objectElement', parseValue (true :: states)
            ⟨root, (slot, .array ys) :: rest, objectElement⟩ (ts ++ .endArray :: us) =
          evaluate states { d' with objectElement := objectElement' } us
  | _, _, .one hx, states, root, slot, ys, rest, objectElement, d', hput, us => by
    obtain ⟨objectElement, hvalue⟩ := hx.parseValue (true :: states)
      (d := ⟨root, (slot, .array ys) :: rest, objectElement⟩) rfl rfl (.endArray :: us)
    exact ⟨objectElement,
      hvalue.trans (evaluate_endArray (Dom.put_objectElement hput objectElement))⟩
  | _, _, @DerivesItems.cons _ x vs xs hx hxs, states, root, slot, ys, rest, objectElement, d',
      hput, us => by
    obtain ⟨objectElement, hvalue⟩ := hx.parseValue (true :: states)
      (d := ⟨root, (slot, .array ys) :: rest, objectElement⟩) rfl rfl
      (.valueSeparator :: (vs ++ .endArray :: us))
    rw [List.append_cons ys x xs] at hput
    obtain ⟨objectElement', hitems⟩ :=
      hxs.parseValue states (Dom.put_objectElement hput objectElement) us
    refine ⟨objectElement', ?_⟩
    rw [List.append_assoc, List.cons_append, hvalue, evaluate_separator]
    exact hitems

theorem DerivesMembers.evaluate : ∀ {ts : List Token} {ms : List Json.Member},
    DerivesMembers ts ms → ∀ (states : List Bool) {root : Json} {slot : Slot}
      {ys : List Json.Member} {rest : List (Slot × Container)}
      {objectElement : Option (Nat × Bytes)} {d' : Dom},
      Dom.put slot (.obj (collect ys ms)) ⟨root, rest, objectElement⟩ = .ok d' →
        ∀ us : List Token, ∃ objectElement', evaluate (false :: states)
            ⟨root, (slot, .object ys) :: rest, objectElement⟩
            (.valueSeparator :: (ts ++ .endObject :: us)) =
          evaluate states { d' with objectElement := objectElement' } us
  | _, _, @DerivesMembers.one _ _ k hx, states, root, slot, ys, rest, objectElement, d', hput,
      us => by
    obtain ⟨d, hkey, hslot, hassign⟩ := Dom.put_key k root slot ys rest objectElement
    obtain ⟨objectElement, hvalue⟩ := hx.parseValue (false :: states) hslot (hassign _)
      (.endObject :: us)
    refine ⟨objectElement, (evaluate_member hkey).trans (hvalue.trans ?_)⟩
    exact evaluate_endObject (Dom.put_objectElement hput objectElement)
  | _, _, @DerivesMembers.cons _ _ vs _ k hx hms, states, root, slot, ys, rest, objectElement, d',
      hput, us => by
    obtain ⟨d, hkey, hslot, hassign⟩ := Dom.put_key k root slot ys rest objectElement
    obtain ⟨objectElement, hvalue⟩ := hx.parseValue (false :: states) hslot (hassign _)
      (.valueSeparator :: (vs ++ .endObject :: us))
    obtain ⟨objectElement', hmembers⟩ :=
      hms.evaluate states (Dom.put_objectElement hput objectElement) us
    refine ⟨objectElement', ?_⟩
    rw [List.cons_append, List.cons_append, List.append_assoc, List.cons_append,
      evaluate_member hkey, hvalue]
    exact hmembers

end

end Complete

section Sound

variable {states : List Bool} {d : Dom} {r : Dom × List Token}

inductive ValueStep (states : List Bool) (d : Dom) (r : Dom × List Token) : List Token → Prop
  | scalar : t.scalar = some v → t.overflows = false → d.handleValue v = .ok d' →
    evaluate states d' ts = .ok r → ValueStep states d r (t :: ts)
  | emptyArray : d.startArray = .ok d' → d'.endArray = .ok d'' → evaluate states d'' ts = .ok r →
    ValueStep states d r (.beginArray :: .endArray :: ts)
  | array : d.startArray = .ok d' → parseValue (true :: states) d' ts = .ok r →
    ValueStep states d r (.beginArray :: ts)
  | emptyObject : d.startObject = .ok d' → d'.endObject = .ok d'' →
    evaluate states d'' ts = .ok r → ValueStep states d r (.beginObject :: .endObject :: ts)
  | object : d.startObject = .ok d' → d'.key k = .ok d'' →
    parseValue (false :: states) d'' ts = .ok r →
    ValueStep states d r (.beginObject :: .valueString k :: .nameSeparator :: ts)

theorem valueStep {ts : List Token} (h : parseValue states d ts = .ok r) :
    ValueStep states d r ts := by
  rw [parseValue.eq_def] at h
  split at h
  · cases h
  next ts =>
    split at h
    · cases h
    next d' hstart =>
      split at h
      next ts =>
        split at h
        · cases h
        next d'' hend => exact .emptyObject hstart hend h
      next k ts =>
        split at h
        · cases h
        next d'' hkey => exact .object hstart hkey h
      next => cases h
      next => cases h
  next ts =>
    split at h
    · cases h
    next d' hstart =>
      split at h
      next ts =>
        split at h
        · cases h
        next d'' hend => exact .emptyArray hstart hend h
      next => exact .array hstart h
  next t ts _ _ =>
    split at h
    · cases h
    next v hv =>
      split at h
      · cases h
      next hfinite =>
        split at h
        · cases h
        next d' hhandle => exact .scalar hv (Bool.eq_false_iff.mpr hfinite) hhandle h

inductive ItemStep (states : List Bool) (d : Dom) (r : Dom × List Token) : List Token → Prop
  | separator : parseValue (true :: states) d ts = .ok r →
    ItemStep states d r (.valueSeparator :: ts)
  | endArray : d.endArray = .ok d' → evaluate states d' ts = .ok r →
    ItemStep states d r (.endArray :: ts)

inductive MemberStep (states : List Bool) (d : Dom) (r : Dom × List Token) : List Token → Prop
  | separator : d.key k = .ok d' → parseValue (false :: states) d' ts = .ok r →
    MemberStep states d r (.valueSeparator :: .valueString k :: .nameSeparator :: ts)
  | endObject : d.endObject = .ok d' → evaluate states d' ts = .ok r →
    MemberStep states d r (.endObject :: ts)

theorem itemStep {ts : List Token} (h : evaluate (true :: states) d ts = .ok r) :
    ItemStep states d r ts := by
  generalize hstates : true :: states = states' at h
  rw [evaluate.eq_def] at h
  split at h
  · cases hstates
  next =>
    cases hstates
    exact .separator h
  next =>
    cases hstates
    split at h
    · cases h
    next d' hend => exact .endArray hend h
  · cases hstates
  · cases h
  · cases h
  · cases hstates
  · cases h

theorem memberStep {ts : List Token} (h : evaluate (false :: states) d ts = .ok r) :
    MemberStep states d r ts := by
  generalize hstates : false :: states = states' at h
  rw [evaluate.eq_def] at h
  split at h
  · cases hstates
  · cases hstates
  · cases hstates
  next =>
    cases hstates
    split at h
    · cases h
    next d' hkey => exact .separator hkey h
  · cases h
  · cases h
  next =>
    cases hstates
    split at h
    · cases h
    next d' hend => exact .endObject hend h
  · cases h

theorem Dom.exists_slot {d' : Dom} {c : Container} (h : d.start c = .ok d') :
    ∃ slot, d.slot = .ok slot ∧ { d with refStack := (slot, c) :: d.refStack } = d' := by
  obtain ⟨slot, hslot, h⟩ := exists_of_bind h
  exact ⟨slot, hslot, Except.ok.inj h⟩

inductive Parsed (states : List Bool) (d : Dom) (r : Dom × List Token) : List Token → Prop
  | mk : Derives ts v → d.slot = .ok slot → d.put slot v = .ok d' →
    evaluate states { d' with objectElement := objectElement } us = .ok r →
    Parsed states d r (ts ++ us)

section Containers

variable (states : List Bool) (root : Json) (slot : Slot) (rest : List (Slot × Container))

inductive ParsedItems (ys : List Json) (r : Dom × List Token) : List Token → Prop
  | mk : DerivesItems ts xs →
    Dom.put slot (.arr (ys ++ xs)) ⟨root, rest, objectElement⟩ = .ok d' →
    evaluate states d' us = .ok r → ParsedItems ys r (ts ++ .endArray :: us)

inductive ParsedMembers (ys : List Json.Member) (r : Dom × List Token) : List Token → Prop
  | mk : DerivesMembers ts ms →
    Dom.put slot (.obj (collect ys ms)) ⟨root, rest, objectElement⟩ = .ok d' →
    evaluate states d' us = .ok r → ParsedMembers ys r (ts ++ .endObject :: us)

end Containers

section Containers

variable {n : Nat} {root : Json} {slot : Slot} {rest : List (Slot × Container)}
  (value : ∀ {states : List Bool} {d : Dom} {ts : List Token}, ts.length ≤ n →
    parseValue states d ts = .ok r → Parsed states d r ts)

include value

theorem parsedItems {ts : List Token} {ys : List Json} {objectElement : Option (Nat × Bytes)}
    (hlength : ts.length ≤ n)
    (h : parseValue (true :: states) ⟨root, (slot, .array ys) :: rest, objectElement⟩ ts = .ok r) :
    ParsedItems states root slot rest ys r ts := by
  induction hts : ts.length using Nat.strong_induction_on generalizing ts ys objectElement with
  | _ m ih =>
    subst hts
    obtain ⟨hx, hslot, hput, heval⟩ := value hlength h
    cases hslot
    cases hput
    cases itemStep heval with
    | separator hnext =>
      rw [List.length_append, List.length_cons] at hlength
      obtain ⟨hxs, hassign, hrest⟩ :=
        ih _ (by rw [List.length_append, List.length_cons]; omega) (by omega) hnext rfl
      rw [← List.append_cons] at hassign
      have hparsed := ParsedItems.mk (.cons hx hxs) hassign hrest
      rwa [List.append_assoc] at hparsed
    | endArray hend hrest => exact .mk (.one hx) hend hrest

theorem parsedMembers {ts : List Token} {ys : List Json.Member} {k : Bytes}
    {objectElement : Option (Nat × Bytes)} (hlength : ts.length ≤ n)
    (hkey : Dom.key k ⟨root, (slot, .object ys) :: rest, objectElement⟩ = .ok d)
    (h : parseValue (false :: states) d ts = .ok r) :
    ParsedMembers states root slot rest ys r (.valueString k :: .nameSeparator :: ts) := by
  induction hts : ts.length using Nat.strong_induction_on generalizing ts ys k d objectElement with
  | _ m ih =>
    subst hts
    obtain ⟨d', hkey', hslot', hassign⟩ := Dom.put_key k root slot ys rest objectElement
    cases hkey'.symm.trans hkey
    obtain ⟨hx, hslot, hput, heval⟩ := value hlength h
    cases hslot'.symm.trans hslot
    cases (hassign _).symm.trans hput
    cases memberStep heval with
    | @separator k _ ts hkey hnext =>
      rw [List.length_append, List.length_cons, List.length_cons, List.length_cons] at hlength
      have hmembers :=
        ih _ (by simp only [List.length_append, List.length_cons]; omega) (by omega) hkey hnext rfl
      generalize Token.valueString k :: .nameSeparator :: ts = us at hmembers ⊢
      obtain ⟨hms, hassign, hrest⟩ := hmembers
      have hparsed := ParsedMembers.mk (.cons hx hms) hassign hrest
      rwa [List.cons_append, List.cons_append, List.append_assoc] at hparsed
    | endObject hend hrest => exact .mk (.one hx) hend hrest

end Containers

theorem parsed {ts : List Token} (h : parseValue states d ts = .ok r) : Parsed states d r ts := by
  induction hts : ts.length using Nat.strong_induction_on generalizing states d ts with
  | _ m ih =>
    subst hts
    have hvalue {n : Nat} (hn : n < ts.length) {states : List Bool} {d : Dom} {ts : List Token}
        (hlength : ts.length ≤ n) (h : parseValue states d ts = .ok r) : Parsed states d r ts :=
      ih _ (Nat.lt_of_le_of_lt hlength hn) h rfl
    cases valueStep h with
    | scalar ht hfinite hhandle heval =>
      obtain ⟨slot, hslot, hput⟩ := exists_of_bind hhandle
      exact Parsed.mk (.scalar ht hfinite) hslot hput heval
    | emptyArray hstart hend heval =>
      obtain ⟨slot, hslot, rfl⟩ := Dom.exists_slot hstart
      exact Parsed.mk .emptyArray hslot hend heval
    | array hstart hnext =>
      obtain ⟨slot, hslot, rfl⟩ := Dom.exists_slot hstart
      obtain ⟨hxs, hput, heval⟩ := parsedItems (hvalue (Nat.lt_succ_self _)) (Nat.le_refl _) hnext
      have hput := Dom.put_objectElement hput d.objectElement
      have hparsed := Parsed.mk (.array hxs) hslot hput heval
      rwa [List.cons_append, List.append_assoc] at hparsed
    | emptyObject hstart hend heval =>
      obtain ⟨slot, hslot, rfl⟩ := Dom.exists_slot hstart
      exact Parsed.mk .emptyObject hslot hend heval
    | @object _ k _ ts hstart hkey hnext =>
      obtain ⟨slot, hslot, rfl⟩ := Dom.exists_slot hstart
      have hlt : ts.length < (Token.beginObject :: .valueString k :: .nameSeparator :: ts).length :=
        by simp only [List.length_cons]; omega
      have hmembers := parsedMembers (hvalue hlt) (Nat.le_refl _) hkey hnext
      generalize Token.valueString k :: .nameSeparator :: ts = us at hmembers ⊢
      obtain ⟨hms, hput, heval⟩ := hmembers
      have hput := Dom.put_objectElement hput d.objectElement
      have hparsed := Parsed.mk (.object hms) hslot hput heval
      rwa [List.cons_append, List.append_assoc] at hparsed

end Sound

theorem parse_of_derives {strtod : Bytes → BitVec 64} {s : Bytes} {j : Json} {ts us : List Token}
    (hlex : lex strtod s = ts ++ us) (hts : Derives ts j) (hus : front us = .endOfInput) :
    parse strtod s = .ok j := by
  obtain ⟨objectElement, hparse⟩ := hts.parseValue [] (d := .empty) rfl rfl us
  rw [parse, hlex, hparse, evaluate]
  exact if_pos hus

theorem parse_iff_derives {strtod : Bytes → BitVec 64} {s : Bytes} {j : Json} :
    parse strtod s = .ok j ↔
      ∃ ts us, lex strtod s = ts ++ us ∧ Derives ts j ∧ front us = .endOfInput := by
  constructor
  · intro h
    obtain ⟨⟨d, us⟩, hparse, h⟩ := exists_of_bind h
    have hparsed := parsed hparse
    generalize lex strtod s = ts at hparsed
    obtain ⟨hts, hslot, hput, heval⟩ := hparsed
    cases hslot
    cases hput
    rw [evaluate] at heval
    cases heval
    dsimp only at h
    split at h
    next hus =>
      cases h
      exact ⟨_, us, rfl, hts, hus⟩
    next => cases h
  · rintro ⟨ts, us, hlex, hts, hus⟩
    exact parse_of_derives hlex hts hus

end Kungfu.Nlohmann
