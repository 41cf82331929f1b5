import Kungfu.Nlohmann.Serializer

/-!
`parser::sax_parse_internal` with the DOM that `json_sax_dom_parser` builds.
-/

namespace Kungfu.Nlohmann

open Kungfu.Lib

/-- What ends a parse: an unexpected token, a number that overflows, or a failed assertion. -/
inductive ParseError where
  | unexpected (t : Token)
  | numberOverflow
  | assertion
  deriving DecidableEq

/-- Where the value that an element of `ref_stack` points to is. -/
inductive Slot where
  | root
  | item
  | member (key : Bytes)

/-- The array or object that an element of `ref_stack` points to, until it ends and is put into its
place. -/
inductive Container where
  | array (xs : List Json)
  | object (ms : List Json.Member)

structure Dom where
  root : Json
  refStack : List (Slot × Container)
  /-- The member of `object_element`, with the size of `ref_stack` when its key was read. -/
  objectElement : Option (Nat × Bytes)

namespace Dom

def empty : Dom where
  root := .null
  refStack := []
  objectElement := none

/-- Where `handle_value` puts the next value. An `object_element` that is not in the object at the
back of `ref_stack` counts as a failed assertion. -/
def slot (d : Dom) : Except ParseError Slot :=
  match d.refStack with
  | [] => .ok .root
  | (_, .array _) :: _ => .ok .item
  | (_, .object _) :: _ =>
    match d.objectElement with
    | some (size, k) => if size = d.refStack.length then .ok (.member k) else .error .assertion
    | none => .error .assertion

def put (slot : Slot) (v : Json) (d : Dom) : Except ParseError Dom :=
  match slot, d.refStack with
  | .root, [] => .ok { d with root := v }
  | .item, (p, .array xs) :: rest => .ok { d with refStack := (p, .array (xs ++ [v])) :: rest }
  | .member k, (p, .object ms) :: rest =>
    .ok { d with refStack := (p, .object (Json.insert k v ms)) :: rest }
  | _, _ => .error .assertion

def handleValue (v : Json) (d : Dom) : Except ParseError Dom := do
  let slot ← d.slot
  d.put slot v

def start (c : Container) (d : Dom) : Except ParseError Dom := do
  let slot ← d.slot
  return { d with refStack := (slot, c) :: d.refStack }

def startArray (d : Dom) : Except ParseError Dom := d.start (.array [])

def startObject (d : Dom) : Except ParseError Dom := d.start (.object [])

def key (k : Bytes) (d : Dom) : Except ParseError Dom :=
  match d.refStack with
  | (p, .object ms) :: rest =>
    let ms := if Json.lookup k ms = none then Json.insert k .null ms else ms
    .ok { d with
      refStack := (p, .object ms) :: rest
      objectElement := some (d.refStack.length, k) }
  | _ => .error .assertion

def endArray (d : Dom) : Except ParseError Dom :=
  match d.refStack with
  | (slot, .array xs) :: rest => { d with refStack := rest }.put slot (.arr xs)
  | _ => .error .assertion

def endObject (d : Dom) : Except ParseError Dom :=
  match d.refStack with
  | (slot, .object ms) :: rest => { d with refStack := rest }.put slot (.obj ms)
  | _ => .error .assertion

end Dom

def Token.scalar : Token → Option Json
  | .literalTrue => some (.bool true)
  | .literalFalse => some (.bool false)
  | .literalNull => some .null
  | .valueString s => some (.str s)
  | .valueUnsigned x => some (.int x.toNat)
  | .valueInteger x => some (.int x.toInt)
  | .valueFloat x => some (.float x)
  | _ => none

theorem scalar_convert (strtod : Bytes → BitVec 64) (type : NumberType) (w : Bytes) :
    (convert strtod type w).scalar ≠ none := by
  cases type with
  | float => simp [convert, Token.scalar]
  | unsigned | integer =>
    rw [convert]
    split <;> simp [Token.scalar]

def Token.overflows : Token → Bool
  | .valueFloat x => !Json.finite x
  | _ => false

def front : List Token → Token
  | [] => .endOfInput
  | t :: _ => t

mutual

/-- The loop of `sax_parse_internal` where a value begins, with the tokens from `last_token` on;
`true` on the stack of states is an array. The result is the DOM with the tokens behind it. -/
def parseValue (states : List Bool) (d : Dom) : List Token → Except ParseError (Dom × List Token)
  | [] => .error (.unexpected .endOfInput)
  | .beginObject :: ts =>
    match d.startObject with
    | .error err => .error err
    | .ok d =>
      match ts with
      | .endObject :: ts =>
        match d.endObject with
        | .error err => .error err
        | .ok d => evaluate states d ts
      | .valueString k :: .nameSeparator :: ts =>
        match d.key k with
        | .error err => .error err
        | .ok d => parseValue (false :: states) d ts
      | .valueString _ :: ts => .error (.unexpected (front ts))
      | ts => .error (.unexpected (front ts))
  | .beginArray :: ts =>
    match d.startArray with
    | .error err => .error err
    | .ok d =>
      match ts with
      | .endArray :: ts =>
        match d.endArray with
        | .error err => .error err
        | .ok d => evaluate states d ts
      | ts => parseValue (true :: states) d ts
  | t :: ts =>
    match t.scalar with
    | none => .error (.unexpected t)
    | some v =>
      if t.overflows then .error .numberOverflow
      else
        match d.handleValue v with
        | .error err => .error err
        | .ok d => evaluate states d ts

/-- The evaluation of the state behind a value, with the tokens behind it. -/
def evaluate (states : List Bool) (d : Dom) (ts : List Token) :
    Except ParseError (Dom × List Token) :=
  match states, ts with
  | [], ts => .ok (d, ts)
  | true :: states, .valueSeparator :: ts => parseValue (true :: states) d ts
  | true :: states, .endArray :: ts =>
    match d.endArray with
    | .error err => .error err
    | .ok d => evaluate states d ts
  | false :: states, .valueSeparator :: .valueString k :: .nameSeparator :: ts =>
    match d.key k with
    | .error err => .error err
    | .ok d => parseValue (false :: states) d ts
  | false :: _, .valueSeparator :: .valueString _ :: ts => .error (.unexpected (front ts))
  | false :: _, .valueSeparator :: ts => .error (.unexpected (front ts))
  | false :: states, .endObject :: ts =>
    match d.endObject with
    | .error err => .error err
    | .ok d => evaluate states d ts
  | _ :: _, ts => .error (.unexpected (front ts))

end

def parse (strtod : Bytes → BitVec 64) (s : Bytes) : Except ParseError Json := do
  let (d, ts) ← parseValue [] .empty (lex strtod s)
  if front ts = .endOfInput then return d.root else .error (.unexpected (front ts))

def Sound (v : Json) : Prop := v.canonical = true ∧ v.validText = true

namespace Container

def isArray : Container → Bool
  | .array _ => true
  | .object _ => false

def Sound : Container → Prop
  | .array xs => ∀ x ∈ xs, Nlohmann.Sound x
  | .object ms => Json.Sorted ms ∧ ∀ m ∈ ms, Utf8.valid m.1 = true ∧ Nlohmann.Sound m.2

end Container

def Slot.Fits : Slot → List (Slot × Container) → Prop
  | .root, [] => True
  | .item, (_, .array _) :: _ => True
  | .member k, (_, .object _) :: _ => Utf8.valid k = true
  | _, _ => False

/-- `ref_stack` goes with the stack of states: one container of the right kind for each, in its
place in the one in front of it. -/
def Fits : List Bool → List (Slot × Container) → Prop
  | [], [] => True
  | b :: states, (slot, c) :: rest => c.isArray = b ∧ c.Sound ∧ slot.Fits rest ∧ Fits states rest
  | _, _ => False

namespace Dom

structure Fits (d : Dom) (states : List Bool) : Prop where
  refStack : Nlohmann.Fits states d.refStack
  root : Sound d.root

structure Ready (d : Dom) (states : List Bool) : Prop extends d.Fits states where
  objectElement : states.head? = some false →
    ∃ k, Utf8.valid k = true ∧ d.objectElement = some (d.refStack.length, k)

variable {d : Dom} {states : List Bool}

theorem Fits.ready (h : d.Fits states) (hstates : states.head? ≠ some false) : d.Ready states :=
  { h with objectElement := fun h => absurd h hstates }

theorem Ready.slot (h : d.Ready states) : ∃ slot, d.slot = .ok slot ∧ slot.Fits d.refStack := by
  obtain ⟨root, refStack, objectElement⟩ := d
  cases refStack with
  | nil => exact ⟨.root, rfl, trivial⟩
  | cons top rest =>
    obtain ⟨p, c⟩ := top
    cases c with
    | array xs => exact ⟨.item, rfl, trivial⟩
    | object ms =>
      cases states with
      | nil => cases h.refStack
      | cons b states =>
        obtain ⟨rfl, -⟩ := h.refStack
        obtain ⟨k, hk, helement⟩ := h.objectElement rfl
        refine ⟨.member k, ?_, hk⟩
        dsimp only at helement
        rw [Dom.slot, helement]
        exact if_pos rfl

theorem Fits.put (h : d.Fits states) {slot : Slot} (hslot : slot.Fits d.refStack) {v : Json}
    (hv : Sound v) : ∃ d', d.put slot v = .ok d' ∧ d'.Fits states := by
  obtain ⟨root, refStack, objectElement⟩ := d
  cases refStack with
  | nil =>
    cases slot with
    | root => exact ⟨_, rfl, h.refStack, hv⟩
    | item | member => cases hslot
  | cons top rest =>
    obtain ⟨p, c⟩ := top
    cases states with
    | nil => cases h.refStack
    | cons b states =>
      obtain ⟨hb, hc, hp, hrest⟩ := h.refStack
      cases c with
      | array xs =>
        cases slot with
        | item =>
          refine ⟨_, rfl, ⟨hb, ?_, hp, hrest⟩, h.root⟩
          exact List.forall_mem_append.mpr ⟨hc, List.forall_mem_singleton.mpr hv⟩
        | root | member => cases hslot
      | object ms =>
        cases slot with
        | member k =>
          refine ⟨_, rfl, ⟨hb, ⟨Json.sorted_insert k v hc.1, fun m hm => ?_⟩, hp, hrest⟩, h.root⟩
          obtain rfl | hm := Json.mem_insert hm
          · exact ⟨hslot, hv⟩
          · exact hc.2 m hm
        | root | item => cases hslot

theorem Ready.handleValue (h : d.Ready states) {v : Json} (hv : Sound v) :
    ∃ d', d.handleValue v = .ok d' ∧ d'.Fits states := by
  obtain ⟨slot, hslot, hfits⟩ := h.slot
  obtain ⟨d', hput, hd'⟩ := h.toFits.put hfits hv
  exact ⟨d', by rw [Dom.handleValue, hslot]; exact hput, hd'⟩

theorem Ready.start (h : d.Ready states) {c : Container} (hc : c.Sound) :
    ∃ d', d.start c = .ok d' ∧ d'.Fits (c.isArray :: states) := by
  obtain ⟨slot, hslot, hfits⟩ := h.slot
  refine ⟨{ d with refStack := (slot, c) :: d.refStack }, ?_, ⟨rfl, hc, hfits, h.refStack⟩, h.root⟩
  rw [Dom.start, hslot]
  rfl

theorem sound_null : Sound .null := ⟨rfl, rfl⟩

theorem Fits.key (h : d.Fits (false :: states)) {k : Bytes} (hk : Utf8.valid k = true) :
    ∃ d', d.key k = .ok d' ∧ d'.Ready (false :: states) := by
  obtain ⟨root, refStack, objectElement⟩ := d
  cases refStack with
  | nil => cases h.refStack
  | cons top rest =>
    obtain ⟨p, c⟩ := top
    obtain ⟨hb, hc, hp, hrest⟩ := h.refStack
    cases c with
    | array => cases hb
    | object ms =>
      refine ⟨_, rfl, ⟨⟨hb, ?_, hp, hrest⟩, h.root⟩, fun _ => ⟨k, hk, rfl⟩⟩
      split
      · refine ⟨Json.sorted_insert k .null hc.1, fun m hm => ?_⟩
        obtain rfl | hm := Json.mem_insert hm
        · exact ⟨hk, sound_null⟩
        · exact hc.2 m hm
      · exact hc

theorem sound_arr {xs : List Json} (h : ∀ x ∈ xs, Sound x) : Sound (.arr xs) := by
  rw [Sound, Json.canonical, Json.validText, Json.all, Json.all]
  exact ⟨Json.allItems_iff.mpr fun x hx => (h x hx).1,
    Json.allItems_iff.mpr fun x hx => (h x hx).2⟩

theorem sound_obj {ms : List Json.Member} (h : Json.Sorted ms)
    (hms : ∀ m ∈ ms, Utf8.valid m.1 = true ∧ Sound m.2) : Sound (.obj ms) := by
  rw [Sound, Json.canonical, Json.validText, Json.all, Json.all, Bool.and_eq_true,
    Bool.and_eq_true]
  exact ⟨⟨decide_eq_true h, Json.allMembers_iff.mpr fun m hm => (hms m hm).2.1⟩,
    List.all_eq_true.mpr fun m hm => (hms m hm).1,
    Json.allMembers_iff.mpr fun m hm => (hms m hm).2.2⟩

theorem Fits.endArray (h : d.Fits (true :: states)) :
    ∃ d', d.endArray = .ok d' ∧ d'.Fits states := by
  obtain ⟨root, refStack, objectElement⟩ := d
  cases refStack with
  | nil => cases h.refStack
  | cons top rest =>
    obtain ⟨p, c⟩ := top
    obtain ⟨hb, hc, hp, hrest⟩ := h.refStack
    cases c with
    | object => cases hb
    | array xs =>
      exact Fits.put (d := ⟨root, rest, objectElement⟩) ⟨hrest, h.root⟩ hp (sound_arr hc)

theorem Fits.endObject (h : d.Fits (false :: states)) :
    ∃ d', d.endObject = .ok d' ∧ d'.Fits states := by
  obtain ⟨root, refStack, objectElement⟩ := d
  cases refStack with
  | nil => cases h.refStack
  | cons top rest =>
    obtain ⟨p, c⟩ := top
    obtain ⟨hb, hc, hp, hrest⟩ := h.refStack
    cases c with
    | array => cases hb
    | object ms =>
      exact Fits.put (d := ⟨root, rest, objectElement⟩) ⟨hrest, h.root⟩ hp (sound_obj hc.1 hc.2)

end Dom

def Token.Valid : Token → Prop
  | .valueString s => Utf8.valid s = true
  | _ => True

theorem sound_int {i : Int} (hlo : -2 ^ 63 ≤ i) (hhi : i < 2 ^ 64) : Sound (.int i) :=
  ⟨decide_eq_true ⟨hlo, hhi⟩, rfl⟩

theorem sound_scalar {t : Token} (ht : t.Valid) {v : Json} (hv : t.scalar = some v)
    (hfinite : t.overflows = false) : Sound v := by
  cases t with
  | valueUnsigned x =>
    cases hv
    have hlt := x.toNat_lt
    exact sound_int (by omega) (by omega)
  | valueInteger x =>
    cases hv
    have hle := x.le_toInt
    have hlt := x.toInt_lt
    exact sound_int hle (by omega)
  | valueFloat x =>
    cases hv
    rw [Token.overflows, Bool.not_eq_false'] at hfinite
    exact ⟨hfinite, rfl⟩
  | valueString s =>
    cases hv
    exact ⟨rfl, ht⟩
  | literalTrue | literalFalse | literalNull =>
    cases hv
    exact ⟨rfl, rfl⟩
  | _ => cases hv

inductive Safe : Except ParseError (Dom × List Token) → Prop
  | ok : Dom.Fits d [] → Safe (.ok (d, ts))
  | error : err ≠ .assertion → Safe (.error err)

theorem safe_unexpected (t : Token) : Safe (.error (.unexpected t)) := .error (by simp)

theorem parseValue_scalar {states : List Bool} {d : Dom} {t : Token} {ts : List Token}
    (harray : t ≠ .beginArray) (hobject : t ≠ .beginObject) :
    parseValue states d (t :: ts) =
      match t.scalar with
      | none => .error (.unexpected t)
      | some v =>
        if t.overflows then .error .numberOverflow
        else
          match d.handleValue v with
          | .error err => .error err
          | .ok d => evaluate states d ts := by
  cases t <;> first | rfl | contradiction

section Safety

variable {n : Nat}
  (value : ∀ {states : List Bool} {d : Dom} {ts : List Token}, ts.length < n →
    (∀ t ∈ ts, t.Valid) → d.Ready states → Safe (parseValue states d ts))
  (evaluation : ∀ {states : List Bool} {d : Dom} {ts : List Token}, ts.length < n →
    (∀ t ∈ ts, t.Valid) → d.Fits states → Safe (evaluate states d ts))

include value in
theorem key_safe {states : List Bool} {d : Dom} {k : Bytes} {ts : List Token}
    (hlength : ts.length < n) (hts : ∀ t ∈ ts, t.Valid) (hk : Utf8.valid k = true)
    (hd : d.Fits (false :: states)) :
    Safe (match d.key k with
      | .error err => .error err
      | .ok d => parseValue (false :: states) d ts) := by
  obtain ⟨d', hkey, hd'⟩ := hd.key hk
  rw [hkey]
  exact value hlength hts hd'

include evaluation in
theorem end_safe {states : List Bool} {r : Except ParseError Dom} {ts : List Token}
    (hlength : ts.length < n) (hts : ∀ t ∈ ts, t.Valid) :
    (∃ d, r = .ok d ∧ d.Fits states) →
      Safe (match r with
        | .error err => .error err
        | .ok d => evaluate states d ts) := by
  rintro ⟨d, rfl, hd⟩
  exact evaluation hlength hts hd

include value evaluation

theorem parseValue_safe {states : List Bool} {d : Dom} {ts : List Token} (hlength : ts.length ≤ n)
    (hts : ∀ t ∈ ts, t.Valid) (hd : d.Ready states) : Safe (parseValue states d ts) := by
  rw [parseValue.eq_def]
  split
  · exact safe_unexpected _
  next ts =>
    obtain ⟨d', hstart, hd'⟩ := hd.start (c := .object [])
      ⟨.nil, fun m hm => absurd hm List.not_mem_nil⟩
    have hts := (List.forall_mem_cons.mp hts).2
    rw [Dom.startObject, hstart]
    dsimp only
    split
    next ts =>
      exact end_safe evaluation (Nat.lt_of_succ_lt hlength) (List.forall_mem_cons.mp hts).2
        hd'.endObject
    next k ts =>
      obtain ⟨hk, hts⟩ := List.forall_mem_cons.mp hts
      rw [List.length_cons, List.length_cons, List.length_cons] at hlength
      exact key_safe value (by omega) (List.forall_mem_cons.mp hts).2 hk hd'
    next => exact safe_unexpected _
    next => exact safe_unexpected _
  next ts =>
    obtain ⟨d', hstart, hd'⟩ := hd.start (c := .array []) fun x hx => absurd hx List.not_mem_nil
    have hts := (List.forall_mem_cons.mp hts).2
    rw [Dom.startArray, hstart]
    dsimp only
    split
    next ts =>
      exact end_safe evaluation (Nat.lt_of_succ_lt hlength) (List.forall_mem_cons.mp hts).2
        hd'.endArray
    next => exact value hlength hts (hd'.ready (by simp [Container.isArray]))
  next t ts _ _ =>
    obtain ⟨ht, hts⟩ := List.forall_mem_cons.mp hts
    split
    · exact safe_unexpected _
    next v hv =>
      split
      next => exact .error (by simp)
      next hfinite =>
        exact end_safe evaluation hlength hts
          (hd.handleValue (sound_scalar ht hv (Bool.eq_false_iff.mpr hfinite)))

theorem evaluate_safe {states : List Bool} {d : Dom} {ts : List Token} (hlength : ts.length ≤ n)
    (hts : ∀ t ∈ ts, t.Valid) (hd : d.Fits states) : Safe (evaluate states d ts) := by
  rw [evaluate.eq_def]
  split
  · exact .ok hd
  next => exact value hlength (List.forall_mem_cons.mp hts).2 (hd.ready (by simp))
  next => exact end_safe evaluation hlength (List.forall_mem_cons.mp hts).2 hd.endArray
  next k ts =>
    obtain ⟨hk, hts⟩ := List.forall_mem_cons.mp (List.forall_mem_cons.mp hts).2
    rw [List.length_cons, List.length_cons, List.length_cons] at hlength
    exact key_safe value (by omega) (List.forall_mem_cons.mp hts).2 hk hd
  · exact safe_unexpected _
  · exact safe_unexpected _
  next => exact end_safe evaluation hlength (List.forall_mem_cons.mp hts).2 hd.endObject
  · exact safe_unexpected _

end Safety

/-- On every row of tokens the parser ends without a failed assertion, and what it accepts has a
text. -/
theorem parse_safe (n : Nat) :
    (∀ {states : List Bool} {d : Dom} {ts : List Token}, ts.length < n → (∀ t ∈ ts, t.Valid) →
      d.Ready states → Safe (parseValue states d ts)) ∧
    ∀ {states : List Bool} {d : Dom} {ts : List Token}, ts.length < n → (∀ t ∈ ts, t.Valid) →
      d.Fits states → Safe (evaluate states d ts) := by
  induction n with
  | zero => exact ⟨fun h => absurd h (Nat.not_lt_zero _), fun h => absurd h (Nat.not_lt_zero _)⟩
  | succ n ih =>
    obtain ⟨value, evaluation⟩ := ih
    exact ⟨fun h => parseValue_safe value evaluation (Nat.le_of_lt_succ h),
      fun h => evaluate_safe value evaluation (Nat.le_of_lt_succ h)⟩

theorem eq_of_scanLiteral {returnType t : Token} {literalText s rest : Bytes}
    (h : scanLiteral returnType literalText s = .ok (t, rest)) : t = returnType := by
  induction literalText generalizing s with
  | nil =>
    rw [scanLiteral] at h
    cases h
    rfl
  | cons l literalText ih =>
    cases s with
    | nil => cases h
    | cons c s =>
      rw [scanLiteral] at h
      split at h
      · exact ih h
      · cases h

theorem valid_convert (strtod : Bytes → BitVec 64) (type : NumberType) (text : Bytes) :
    (convert strtod type text).Valid := by
  cases type with
  | float => trivial
  | unsigned | integer =>
    rw [convert]
    split <;> trivial

theorem valid_scanToken {strtod : Bytes → BitVec 64} {c : UInt8} {s rest : Bytes} {t : Token}
    (h : scanToken strtod c s = .ok (t, rest)) : t.Valid := by
  rw [scanToken] at h
  split at h
  next hstructural =>
    cases h
    rw [structural] at hstructural
    split_ifs at hstructural <;> cases hstructural <;> trivial
  next hliteral =>
    rw [literal] at hliteral
    split_ifs at hliteral <;> cases hliteral <;> exact eq_of_scanLiteral h ▸ trivial
  next =>
    split at h
    · split at h <;> cases h
      exact valid_scanString rfl ‹_›
    · split at h
      · rw [scanNumber] at h
        split at h <;> cases h
        exact valid_convert ..
      · split at h <;> cases h
        trivial

theorem valid_scan {strtod : Bytes → BitVec 64} {s rest : Bytes} {t : Token}
    (h : scan strtod s = .ok (t, rest)) : t.Valid := by
  induction s with
  | nil =>
    cases h
    trivial
  | cons c s ih =>
    rw [scan] at h
    split at h
    · exact ih h
    · exact valid_scanToken h

theorem valid_tokens (strtod : Bytes → BitVec 64) (s : Bytes) :
    ∀ t ∈ tokens strtod s, t.Valid := by
  fun_induction tokens strtod s with
  | case1 => exact List.forall_mem_singleton.mpr trivial
  | case2 s t rest hscan hend ih => exact List.forall_mem_cons.mpr ⟨valid_scan hscan, ih⟩
  | case3 => exact List.forall_mem_singleton.mpr trivial

theorem valid_lex (strtod : Bytes → BitVec 64) (s : Bytes) : ∀ t ∈ lex strtod s, t.Valid := by
  rw [lex]
  split
  · exact valid_tokens strtod _
  · exact List.forall_mem_singleton.mpr trivial

theorem fits_empty : Dom.empty.Fits [] := ⟨trivial, Dom.sound_null⟩

theorem parse_sound (strtod : Bytes → BitVec 64) (s : Bytes) :
    (∃ j, parse strtod s = .ok j ∧ Sound j) ∨
      ∃ err, parse strtod s = .error err ∧ err ≠ .assertion := by
  have hsafe := (parse_safe ((lex strtod s).length + 1)).1 (Nat.lt_succ_self _) (valid_lex strtod s)
    (fits_empty.ready (by simp))
  rw [parse]
  generalize parseValue [] .empty (lex strtod s) = r at hsafe
  cases hsafe with
  | error herr => exact .inr ⟨_, rfl, herr⟩
  | @ok d ts hd =>
    dsimp only [bind, Except.bind]
    split
    · exact .inl ⟨d.root, rfl, hd.root⟩
    · exact .inr ⟨_, rfl, by simp⟩

end Kungfu.Nlohmann
