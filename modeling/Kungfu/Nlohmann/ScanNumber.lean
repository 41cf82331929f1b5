import Kungfu.Nlohmann.DumpInteger
import Kungfu.Nlohmann.ScanString

namespace Kungfu.Nlohmann

open Kungfu.Lib JsonText

inductive Token where
  | literalTrue
  | literalFalse
  | literalNull
  | valueString (s : Bytes)
  | valueUnsigned (x : UInt64)
  | valueInteger (x : Int64)
  | valueFloat (x : BitVec 64)
  | beginArray
  | beginObject
  | endArray
  | endObject
  | nameSeparator
  | valueSeparator
  | parseError (err : LexError)
  | endOfInput
  deriving DecidableEq

/-- `number_type`, before the number is converted. -/
inductive NumberType where
  | unsigned | integer | float
  deriving DecidableEq

inductive NumberState where
  | minus | zero | any1 | decimal1 | decimal2 | exponent | sign | any2

namespace NumberState

def next (c : UInt8) : NumberState → Option NumberState
  | .minus => if c = 0x30 then some .zero else if isDigit c then some .any1 else none
  | .zero =>
    if c = 0x2e then some .decimal1
    else if c = 0x65 ∨ c = 0x45 then some .exponent
    else none
  | .any1 =>
    if isDigit c then some .any1
    else if c = 0x2e then some .decimal1
    else if c = 0x65 ∨ c = 0x45 then some .exponent
    else none
  | .decimal1 => if isDigit c then some .decimal2 else none
  | .decimal2 =>
    if isDigit c then some .decimal2
    else if c = 0x65 ∨ c = 0x45 then some .exponent
    else none
  | .exponent =>
    if c = 0x2b ∨ c = 0x2d then some .sign else if isDigit c then some .any2 else none
  | .sign => if isDigit c then some .any2 else none
  | .any2 => if isDigit c then some .any2 else none

def error? : NumberState → Option LexError
  | .minus => some .numberMinus
  | .decimal1 => some .numberFraction
  | .exponent => some .numberExponent
  | .sign => some .numberExponentSign
  | .zero | .any1 | .decimal2 | .any2 => none

def enter (type : NumberType) : NumberState → NumberType
  | .minus => .integer
  | .decimal1 | .exponent => .float
  | _ => type

def scan (type : NumberType) (tokenBuffer : Bytes) (state : NumberState) :
    Bytes → Except LexError (NumberType × Bytes × Bytes)
  | [] =>
    match state.error? with
    | some err => .error err
    | none => .ok (type, tokenBuffer, [])
  | c :: s =>
    match state.next c with
    | some state' => scan (state'.enter type) (tokenBuffer ++ [c]) state' s
    | none =>
      match state.error? with
      | some err => .error err
      | none => .ok (type, tokenBuffer, c :: s)

def first (current : UInt8) : NumberState :=
  if current = 0x2d then .minus else if current = 0x30 then .zero else .any1

end NumberState

/-- `strtoull`, unless it sets `errno`. -/
def strtoull (text : Bytes) : Option UInt64 :=
  if readNat text < 2 ^ 64 then some (.ofNat (readNat text)) else none

/-- `strtoll` for a text with a sign. -/
def strtoll (text : Bytes) : Option Int64 :=
  if readNat text.tail ≤ 2 ^ 63 then some (.ofInt (-readNat text.tail)) else none

def convert (strtod : Bytes → BitVec 64) (type : NumberType) (text : Bytes) : Token :=
  match type with
  | .unsigned =>
    match strtoull text with
    | some x => .valueUnsigned x
    | none => .valueFloat (strtod text)
  | .integer =>
    match strtoll text with
    | some x => .valueInteger x
    | none => .valueFloat (strtod text)
  | .float => .valueFloat (strtod text)

def scanNumber (strtod : Bytes → BitVec 64) (current : UInt8) (s : Bytes) :
    Except LexError (Token × Bytes) :=
  let state := NumberState.first current
  match state.scan (state.enter .unsigned) [current] s with
  | .ok (type, text, rest) => .ok (convert strtod type text, rest)
  | .error err => .error err

def Digits (w : Bytes) : Prop := ∀ c ∈ w, isDigit c = true

def isMark (c : UInt8) : Bool := c = 0x2e ∨ c = 0x65 ∨ c = 0x45

inductive Whole : Bytes → Prop
  | zero : Whole [0x30]
  | digits : d ≠ 0x30 → isDigit d = true → Digits ds → Whole (d :: ds)

inductive Fraction : Bytes → Prop
  | none : Fraction []
  | some : isDigit d = true → Digits ds → Fraction (0x2e :: d :: ds)

inductive Signed : Bytes → Prop
  | digits : isDigit d = true → Digits ds → Signed (d :: ds)
  | sign : c = 0x2b ∨ c = 0x2d → isDigit d = true → Digits ds → Signed (c :: d :: ds)

inductive Exponent : Bytes → Prop
  | none : Exponent []
  | some : e = 0x65 ∨ e = 0x45 → Signed w → Exponent (e :: w)

def Unsigned (w : Bytes) : Prop :=
  ∃ whole fraction exponent, w = whole ++ (fraction ++ exponent) ∧ Whole whole ∧
    Fraction fraction ∧ Exponent exponent

inductive IsNumber : Bytes → Prop
  | positive : Unsigned w → IsNumber w
  | negative : Unsigned w → IsNumber (0x2d :: w)

/-- The type of a number. -/
def numberType (w : Bytes) : NumberType :=
  if w.any isMark then .float else if w.head? = some 0x2d then .integer else .unsigned

def Ends (s : Bytes) : Prop := ∀ c ∈ s.head?, isDigit c = false ∧ isMark c = false

namespace NumberState

def accepts : NumberState → Bytes → Prop
  | state, [] => state.error? = none
  | state, c :: w => ∃ state', state.next c = some state' ∧ accepts state' w

theorem digits_nil : Digits [] := fun _ hc => absurd hc List.not_mem_nil

theorem digits_cons {c : UInt8} {w : Bytes} : Digits (c :: w) ↔ isDigit c = true ∧ Digits w :=
  List.forall_mem_cons

theorem accepts_any2 {w : Bytes} : accepts .any2 w ↔ Digits w := by
  induction w with
  | nil => exact ⟨fun _ => digits_nil, fun _ => rfl⟩
  | cons c w ih =>
    rw [accepts, digits_cons, ← ih]
    by_cases hc : isDigit c = true <;> simp [next, hc]

theorem accepts_sign {w : Bytes} :
    accepts .sign w ↔ ∃ d ds, w = d :: ds ∧ isDigit d = true ∧ Digits ds := by
  cases w with
  | nil => simp [accepts, error?]
  | cons c w =>
    rw [accepts]
    by_cases hc : isDigit c = true <;> simp [next, hc, accepts_any2]

theorem not_sign {c : UInt8} (h : isDigit c = true) : ¬ (c = 0x2b ∨ c = 0x2d) := by
  rintro (rfl | rfl) <;> exact absurd h (by decide)

theorem accepts_exponent {w : Bytes} : accepts .exponent w ↔ Signed w := by
  constructor
  · intro h
    cases w with
    | nil => cases h
    | cons c w =>
      obtain ⟨state, hnext, h⟩ := h
      rw [next] at hnext
      split_ifs at hnext with hsign hdigit <;> cases hnext
      · obtain ⟨d, ds, rfl, hd, hds⟩ := accepts_sign.mp h
        exact .sign hsign hd hds
      · exact .digits hdigit (accepts_any2.mp h)
  · intro h
    cases h with
    | digits hd hds =>
      exact ⟨.any2, by rw [next, if_neg (not_sign hd), if_pos hd], accepts_any2.mpr hds⟩
    | sign hc hd hds => exact ⟨.sign, if_pos hc, accepts_sign.mpr ⟨_, _, rfl, hd, hds⟩⟩

theorem not_digit {c : UInt8} (h : isMark c = true) : ¬ isDigit c = true := by
  rw [isMark, decide_eq_true_eq] at h
  obtain rfl | rfl | rfl := h <;> decide

theorem accepts_decimal2 {w : Bytes} :
    accepts .decimal2 w ↔ ∃ ds e, w = ds ++ e ∧ Digits ds ∧ Exponent e := by
  constructor
  · intro h
    induction w with
    | nil => exact ⟨[], [], rfl, digits_nil, .none⟩
    | cons c w ih =>
      obtain ⟨state, hnext, h⟩ := h
      rw [next] at hnext
      split_ifs at hnext with hdigit he <;> cases hnext
      · obtain ⟨ds, e, rfl, hds, hexponent⟩ := ih h
        exact ⟨c :: ds, e, rfl, digits_cons.mpr ⟨hdigit, hds⟩, hexponent⟩
      · exact ⟨[], _, rfl, digits_nil, .some he (accepts_exponent.mp h)⟩
  · rintro ⟨ds, e, rfl, hds, hexponent⟩
    induction ds with
    | nil =>
      cases hexponent with
      | none => rfl
      | @some e w he hsigned =>
        have hdigit : ¬ isDigit e = true := not_digit (by simp [isMark, he])
        exact ⟨.exponent, by rw [next, if_neg hdigit, if_pos he], accepts_exponent.mpr hsigned⟩
    | cons d ds ih =>
      obtain ⟨hd, hds⟩ := digits_cons.mp hds
      exact ⟨.decimal2, if_pos hd, ih hds⟩

theorem accepts_decimal1 {w : Bytes} :
    accepts .decimal1 w ↔
      ∃ d ds e, w = d :: (ds ++ e) ∧ isDigit d = true ∧ Digits ds ∧ Exponent e := by
  cases w with
  | nil => simp [accepts, error?]
  | cons c w =>
    rw [accepts]
    by_cases hc : isDigit c = true <;> simp [next, hc, accepts_decimal2]

theorem accepts_zero {w : Bytes} :
    accepts .zero w ↔ ∃ f e, w = f ++ e ∧ Fraction f ∧ Exponent e := by
  constructor
  · intro h
    cases w with
    | nil => exact ⟨[], [], rfl, .none, .none⟩
    | cons c w =>
      obtain ⟨state, hnext, h⟩ := h
      rw [next] at hnext
      split_ifs at hnext with hpoint he <;> cases hnext
      · obtain ⟨d, ds, e, rfl, hd, hds, hexponent⟩ := accepts_decimal1.mp h
        exact ⟨c :: d :: ds, e, rfl, hpoint ▸ .some hd hds, hexponent⟩
      · exact ⟨[], _, rfl, .none, .some he (accepts_exponent.mp h)⟩
  · rintro ⟨f, e, rfl, hfraction, hexponent⟩
    cases hfraction with
    | some hd hds =>
      exact ⟨.decimal1, rfl, accepts_decimal1.mpr ⟨_, _, e, rfl, hd, hds, hexponent⟩⟩
    | none =>
      cases hexponent with
      | none => rfl
      | @some e w he hsigned =>
        have hpoint : e ≠ 0x2e := by
          rintro rfl
          exact absurd he (by decide)
        exact ⟨.exponent, by rw [next, if_neg hpoint, if_pos he], accepts_exponent.mpr hsigned⟩

theorem isMark_head {f e : Bytes} (hfraction : Fraction f) (hexponent : Exponent e) :
    ∀ c ∈ (f ++ e).head?, isMark c = true := by
  intro c hc
  cases hfraction with
  | some => exact Option.some.inj hc ▸ rfl
  | none =>
    cases hexponent with
    | none => cases hc
    | some he => exact Option.some.inj hc ▸ by simp [isMark, he]

theorem accepts_any1_iff_zero {w : Bytes} (h : ∀ c ∈ w.head?, ¬ isDigit c = true) :
    accepts .any1 w ↔ accepts .zero w := by
  cases w with
  | nil => exact Iff.rfl
  | cons c w =>
    have hnext : next c .any1 = next c .zero := if_neg (h c rfl)
    rw [accepts, accepts, hnext]

theorem accepts_any1 {w : Bytes} :
    accepts .any1 w ↔
      ∃ ds f e, w = ds ++ (f ++ e) ∧ Digits ds ∧ Fraction f ∧ Exponent e := by
  constructor
  · intro h
    induction w with
    | nil => exact ⟨[], [], [], rfl, digits_nil, .none, .none⟩
    | cons c w ih =>
      by_cases hdigit : isDigit c = true
      · obtain ⟨state, hnext, h⟩ := h
        rw [next, if_pos hdigit] at hnext
        cases hnext
        obtain ⟨ds, f, e, rfl, hds, hfraction, hexponent⟩ := ih h
        exact ⟨c :: ds, f, e, rfl, digits_cons.mpr ⟨hdigit, hds⟩, hfraction, hexponent⟩
      · have hhead : ∀ d ∈ (c :: w).head?, ¬ isDigit d = true :=
          fun d hd => Option.some.inj hd ▸ hdigit
        obtain ⟨f, e, hw, hfraction, hexponent⟩ :=
          accepts_zero.mp ((accepts_any1_iff_zero hhead).mp h)
        exact ⟨[], f, e, hw, digits_nil, hfraction, hexponent⟩
  · rintro ⟨ds, f, e, rfl, hds, hfraction, hexponent⟩
    induction ds with
    | nil =>
      have hhead : ∀ c ∈ (f ++ e).head?, ¬ isDigit c = true :=
        fun c hc => not_digit (isMark_head hfraction hexponent c hc)
      exact (accepts_any1_iff_zero hhead).mpr (accepts_zero.mpr ⟨f, e, rfl, hfraction, hexponent⟩)
    | cons d ds ih =>
      obtain ⟨hd, hds⟩ := digits_cons.mp hds
      exact ⟨.any1, if_pos hd, ih hds⟩

theorem first_digit {c : UInt8} (h : isDigit c = true) :
    first c = if c = 0x30 then .zero else .any1 := by
  rw [first, if_neg]
  rintro rfl
  exact absurd h (by decide)

theorem accepts_first {c : UInt8} {w : Bytes} (h : isDigit c = true) :
    accepts (first c) w ↔ Unsigned (c :: w) := by
  rw [first_digit h]
  constructor
  · intro haccepts
    split_ifs at haccepts with hzero
    · obtain ⟨f, e, rfl, hfraction, hexponent⟩ := accepts_zero.mp haccepts
      exact ⟨[c], f, e, rfl, hzero ▸ .zero, hfraction, hexponent⟩
    · obtain ⟨ds, f, e, rfl, hds, hfraction, hexponent⟩ := accepts_any1.mp haccepts
      exact ⟨c :: ds, f, e, rfl, .digits hzero h hds, hfraction, hexponent⟩
  · rintro ⟨whole, f, e, hw, hwhole, hfraction, hexponent⟩
    cases hwhole with
    | zero =>
      cases hw
      exact accepts_zero.mpr ⟨f, e, rfl, hfraction, hexponent⟩
    | digits hzero _ hds =>
      cases hw
      rw [if_neg hzero]
      exact accepts_any1.mpr ⟨_, f, e, rfl, hds, hfraction, hexponent⟩

theorem digit_of_unsigned {c : UInt8} {w : Bytes} (h : Unsigned (c :: w)) :
    isDigit c = true := by
  obtain ⟨whole, f, e, hw, hwhole, -⟩ := h
  cases hwhole with
  | zero =>
    cases hw
    rfl
  | digits _ hd =>
    cases hw
    exact hd

theorem not_unsigned_nil : ¬ Unsigned [] := by
  rintro ⟨whole, f, e, hw, hwhole, -⟩
  cases hwhole <;> cases hw

theorem accepts_minus {w : Bytes} : accepts .minus w ↔ Unsigned w := by
  cases w with
  | nil => simp [accepts, error?, not_unsigned_nil]
  | cons c w =>
    rw [accepts]
    by_cases hdigit : isDigit c = true
    · have hnext : next c .minus = some (first c) := by
        rw [first_digit hdigit, next]
        split_ifs <;> rfl
      simp [hnext, accepts_first hdigit]
    · have hzero : c ≠ 0x30 := by
        rintro rfl
        exact hdigit rfl
      have hnext : next c .minus = none := by rw [next, if_neg hzero, if_neg hdigit]
      have hunsigned : ¬ Unsigned (c :: w) := mt digit_of_unsigned hdigit
      simp [hnext, hunsigned]

theorem accepts_iff_isNumber {c : UInt8} (h : c = 0x2d ∨ isDigit c = true) {w : Bytes} :
    accepts (first c) w ↔ IsNumber (c :: w) := by
  by_cases hminus : c = 0x2d
  · subst hminus
    constructor
    · exact fun haccepts => .negative (accepts_minus.mp haccepts)
    · intro hnumber
      cases hnumber with
      | positive hw => exact absurd (digit_of_unsigned hw) (by decide)
      | negative hw => exact accepts_minus.mpr hw
  · rw [accepts_first (h.resolve_left hminus)]
    constructor
    · exact .positive
    · intro hnumber
      cases hnumber with
      | positive hw => exact hw
      | negative => exact absurd rfl hminus

theorem not_mark {c : UInt8} (h : isDigit c = true) : isMark c = false :=
  Bool.eq_false_iff.mpr fun hmark => not_digit hmark h

theorem enter_of_next {state state' : NumberState} {c : UInt8} (h : state.next c = some state')
    (type : NumberType) : state'.enter type = if isMark c = true then .float else type := by
  have hzero : isMark 0x30 = false := rfl
  have hplus : isMark 0x2b = false := rfl
  have hminus : isMark 0x2d = false := rfl
  have hpoint : isMark 0x2e = true := rfl
  have he : c = 0x65 ∨ c = 0x45 → isMark c = true := fun he => by simp [isMark, he]
  cases state <;> grind [next, enter, not_mark]

theorem accepts_of_scan {state : NumberState} {type type' : NumberType}
    {tokenBuffer text s rest : Bytes}
    (h : state.scan type tokenBuffer s = .ok (type', text, rest)) :
    ∃ w, s = w ++ rest ∧ text = tokenBuffer ++ w ∧ accepts state w ∧
      type' = if w.any isMark = true then .float else type := by
  induction s generalizing state type tokenBuffer with
  | nil =>
    rw [scan] at h
    split at h <;> cases h
    exact ⟨[], rfl, (List.append_nil _).symm, ‹_›, rfl⟩
  | cons c s ih =>
    rw [scan] at h
    split at h
    next state' hnext =>
      obtain ⟨w, rfl, rfl, hw, htype⟩ := ih h
      refine ⟨c :: w, rfl, List.append_assoc .., ⟨state', hnext, hw⟩, ?_⟩
      rw [htype, enter_of_next hnext, List.any_cons]
      grind
    next =>
      split at h <;> cases h
      exact ⟨[], rfl, (List.append_nil _).symm, ‹_›, rfl⟩

theorem next_of_not_mark {c : UInt8} (hdigit : isDigit c = false) (hmark : isMark c = false)
    {state : NumberState} (h : state.error? = none) : state.next c = none := by
  simp only [isMark, decide_eq_false_iff_not, not_or] at hmark
  cases state <;> simp_all [next, error?]

theorem scan_of_accepts {state : NumberState} {type : NumberType} {tokenBuffer w rest : Bytes}
    (h : accepts state w) (hrest : Ends rest) :
    state.scan type tokenBuffer (w ++ rest) =
      .ok (if w.any isMark = true then .float else type, tokenBuffer ++ w, rest) := by
  induction w generalizing state type tokenBuffer with
  | nil =>
    have herror : state.error? = none := h
    cases rest with
    | nil => simp [scan, herror]
    | cons c rest =>
      obtain ⟨hdigit, hmark⟩ := hrest c rfl
      simp [scan, herror, next_of_not_mark hdigit hmark herror]
  | cons c w ih =>
    obtain ⟨state', hnext, hw⟩ := h
    rw [List.cons_append, scan]
    simp only [hnext]
    rw [ih hw, enter_of_next hnext, List.append_assoc, List.any_cons]
    grind

end NumberState

theorem numberType_cons {c : UInt8} (h : c = 0x2d ∨ isDigit c = true) (w : Bytes) :
    numberType (c :: w) =
      if w.any isMark = true then .float else (NumberState.first c).enter .unsigned := by
  have hmark : isMark c = false := by
    obtain rfl | hdigit := h
    · rfl
    · exact NumberState.not_mark hdigit
  rw [numberType, List.any_cons, hmark, Bool.false_or, List.head?_cons, NumberState.first]
  congr 1
  split_ifs <;> simp_all [NumberState.enter]

theorem exists_cons_of_isNumber {w : Bytes} (h : IsNumber w) :
    ∃ c w', w = c :: w' ∧ (c = 0x2d ∨ isDigit c = true) := by
  cases h with
  | negative => exact ⟨0x2d, _, rfl, .inl rfl⟩
  | positive h =>
    cases w with
    | nil => exact absurd h NumberState.not_unsigned_nil
    | cons c w => exact ⟨c, w, rfl, .inr (NumberState.digit_of_unsigned h)⟩

theorem isNumber_of_scan {c : UInt8} (h : c = 0x2d ∨ isDigit c = true) {type : NumberType}
    {s text rest : Bytes}
    (hscan : (NumberState.first c).scan ((NumberState.first c).enter .unsigned) [c] s =
      .ok (type, text, rest)) :
    c :: s = text ++ rest ∧ IsNumber text ∧ type = numberType text := by
  obtain ⟨w, rfl, rfl, haccepts, rfl⟩ := NumberState.accepts_of_scan hscan
  rw [List.singleton_append, numberType_cons h]
  exact ⟨rfl, (NumberState.accepts_iff_isNumber h).mp haccepts, rfl⟩

theorem scan_of_isNumber {c : UInt8} (h : c = 0x2d ∨ isDigit c = true) {w rest : Bytes}
    (hnumber : IsNumber (c :: w)) (hrest : Ends rest) :
    (NumberState.first c).scan ((NumberState.first c).enter .unsigned) [c] (w ++ rest) =
      .ok (numberType (c :: w), c :: w, rest) := by
  rw [numberType_cons h]
  exact NumberState.scan_of_accepts ((NumberState.accepts_iff_isNumber h).mpr hnumber) hrest

theorem scan_grammar {c : UInt8} (h : c = 0x2d ∨ isDigit c = true) (s : Bytes) :
    (∀ type text rest, (NumberState.first c).scan ((NumberState.first c).enter .unsigned) [c] s =
        .ok (type, text, rest) →
      c :: s = text ++ rest ∧ IsNumber text ∧ type = numberType text) ∧
    ∀ w rest, s = w ++ rest → IsNumber (c :: w) → Ends rest →
      (NumberState.first c).scan ((NumberState.first c).enter .unsigned) [c] s =
        .ok (numberType (c :: w), c :: w, rest) := by
  constructor
  · exact fun _ _ _ hscan => isNumber_of_scan h hscan
  · rintro w rest rfl hnumber hrest
    exact scan_of_isNumber h hnumber hrest

theorem scan_grammar_exponent :
    (∀ type text rest, (NumberState.first 0x32).scan ((NumberState.first 0x32).enter .unsigned)
        [0x32] [0x65, 0x2d, 0x35, 0x2c] = .ok (type, text, rest) →
      [0x32, 0x65, 0x2d, 0x35, 0x2c] = text ++ rest ∧ IsNumber text ∧ type = numberType text) ∧
    ∀ w rest, [0x65, 0x2d, 0x35, 0x2c] = w ++ rest → IsNumber (0x32 :: w) → Ends rest →
      (NumberState.first 0x32).scan ((NumberState.first 0x32).enter .unsigned) [0x32]
        [0x65, 0x2d, 0x35, 0x2c] = .ok (numberType (0x32 :: w), 0x32 :: w, rest) :=
  scan_grammar (.inr rfl) [0x65, 0x2d, 0x35, 0x2c]

theorem printNat_pos {n : Nat} (h : 0 < n) :
    ∃ d ds, printNat n = d :: ds ∧ d ≠ 0x30 ∧ isDigit d = true ∧ Digits ds := by
  induction n using Nat.strong_induction_on with
  | _ n ih =>
    have hne : ∀ n < 10, 0 < n → UInt8.ofNat (48 + n) ≠ 0x30 := by
      decide
    by_cases hn : n < 10
    · exact ⟨.ofNat (48 + n), [], printNat_of_lt hn, hne n hn h, isDigit_ofNat hn,
        NumberState.digits_nil⟩
    · obtain ⟨d, ds, hprint, hd, hdigit, hds⟩ := ih (n / 10) (by omega) (by omega)
      have hlast := isDigit_ofNat (Nat.mod_lt n (by decide : 0 < 10))
      refine ⟨d, ds ++ [.ofNat (48 + n % 10)], ?_, hd, hdigit, fun c hc => ?_⟩
      · rw [printNat_of_le (by omega), hprint]
        rfl
      · obtain hc | hc := List.mem_append.mp hc
        · exact hds c hc
        · exact List.mem_singleton.mp hc ▸ hlast

theorem whole_printNat (n : Nat) : Whole (printNat n) := by
  obtain rfl | hn := Nat.eq_zero_or_pos n
  · exact .zero
  · obtain ⟨d, ds, hprint, hd, hdigit, hds⟩ := printNat_pos hn
    exact hprint ▸ .digits hd hdigit hds

theorem isNumber_printInt (i : Int) : IsNumber (printInt i) := by
  have hunsigned (n : Nat) : Unsigned (printNat n) :=
    ⟨_, [], [], (List.append_nil _).symm, whole_printNat n, .none, .none⟩
  rw [printInt]
  split
  · exact .negative (hunsigned _)
  · exact .positive (hunsigned _)

def integerToken (i : Int) : Token :=
  if i < 0 then .valueInteger (.ofInt i) else .valueUnsigned (.ofNat i.toNat)

theorem numberType_printInt (i : Int) :
    numberType (printInt i) = if i < 0 then .integer else .unsigned := by
  have hmark (n : Nat) : (printNat n).any isMark = false :=
    List.any_eq_false.mpr fun c hc =>
      Bool.eq_false_iff.mp (NumberState.not_mark (digit_mem_printNat c hc))
  rw [printInt]
  split
  · rw [numberType, List.any_cons, hmark]
    rfl
  · have hhead : (printNat i.natAbs).head? ≠ some 0x2d := by
      intro hhead
      exact absurd (digit_mem_printNat _ (List.mem_of_mem_head? hhead)) (by decide)
    rw [numberType, hmark, if_neg hhead]
    rfl

theorem convert_printInt (strtod : Bytes → BitVec 64) {i : Int} (hlo : -2 ^ 63 ≤ i)
    (hhi : i < 2 ^ 64) :
    convert strtod (if i < 0 then .integer else .unsigned) (printInt i) = integerToken i := by
  rw [printInt, integerToken]
  split
  next hneg =>
    have hread : readNat (minus :: printNat i.natAbs).tail = i.natAbs := readNat_printNat _
    have habs : -(i.natAbs : Int) = i := by omega
    rw [convert, strtoll, hread, if_pos (by omega), habs]
  next hneg =>
    have habs : i.natAbs = i.toNat := by omega
    rw [convert, strtoull, readNat_printNat, if_pos (by omega), habs]

theorem printInt_cons (i : Int) :
    ∃ c w, printInt i = c :: w ∧ (c = 0x2d ∨ isDigit c = true) := by
  rw [printInt]
  split
  · exact ⟨0x2d, _, rfl, .inl rfl⟩
  · obtain ⟨c, w, h⟩ := List.exists_cons_of_ne_nil (printNat_ne_nil i.natAbs)
    exact ⟨c, w, h, .inr (digit_mem_printNat c (h ▸ List.mem_cons_self))⟩

theorem scanNumber_printInt (strtod : Bytes → BitVec 64) {i : Int} (hlo : -2 ^ 63 ≤ i)
    (hhi : i < 2 ^ 64) {c : UInt8} {w rest : Bytes} (h : printInt i = c :: w)
    (hrest : Ends rest) :
    scanNumber strtod c (w ++ rest) = .ok (integerToken i, rest) := by
  have hc : c = 0x2d ∨ isDigit c = true := by
    obtain ⟨c', w', h', hc⟩ := printInt_cons i
    cases h.symm.trans h'
    exact hc
  rw [scanNumber, scan_of_isNumber hc (h ▸ isNumber_printInt i) hrest, ← h, numberType_printInt]
  dsimp only
  rw [convert_printInt strtod hlo hhi]

theorem scanNumber_dumpInteger (strtod : Bytes → BitVec 64) {numberBuffer : Bytes}
    (h : numberBuffer.length = 64) (x : Integer) {rest : Bytes} (hrest : Ends rest) :
    ∃ c w, dumpInteger numberBuffer x = some (c :: w) ∧ c :: w = printInt x.value ∧
      scanNumber strtod c (w ++ rest) = .ok (integerToken x.value, rest) := by
  obtain ⟨c, w, hprint, -⟩ := printInt_cons x.value
  obtain ⟨hlo, hhi⟩ := x.value_bounds
  refine ⟨c, w, ?_, hprint.symm, scanNumber_printInt strtod hlo hhi hprint hrest⟩
  rw [dumpInteger_eq h, hprint]

theorem scanNumber_dumpInteger_min :
    ∃ c w, dumpInteger (List.replicate 64 0x39) (.integer Int64.minValue) = some (c :: w) ∧
      c :: w = printInt (Integer.integer Int64.minValue).value ∧
      scanNumber (fun _ => 0) c (w ++ [comma]) =
        .ok (integerToken (Integer.integer Int64.minValue).value, [comma]) :=
  scanNumber_dumpInteger (fun _ => 0) List.length_replicate (.integer Int64.minValue) (by
    intro c hc
    cases hc
    decide)

end Kungfu.Nlohmann
