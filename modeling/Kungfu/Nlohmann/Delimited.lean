import Kungfu.Lib.JsonDelimited
import Kungfu.Nlohmann.Cut
import Kungfu.Nlohmann.RoundTrip

namespace Kungfu.Nlohmann

open Kungfu.Lib JsonText

def members : Json → Nat
  | .obj ms => ms.length
  | _ => 0

theorem length_insert (k : Bytes) (v : Json) (ms : List Json.Member) :
    (Json.insert k v ms).length ≤ ms.length + 1 := by
  induction ms with
  | nil => exact Nat.le_refl _
  | cons m ms ih =>
    rw [Json.insert]
    split_ifs
    · exact Nat.le_refl _
    · exact Nat.le_succ _
    · exact Nat.succ_le_succ ih

def Container.size : Container → Nat
  | .array _ => 0
  | .object ms => ms.length

namespace Dom

def size (d : Dom) : Nat := members d.root + (d.refStack.map fun x => x.2.size).sum

variable {d d' : Dom}

theorem size_put {slot : Slot} {v : Json} (h : d.put slot v = .ok d') :
    d'.size ≤ d.size + members v + 1 := by
  unfold put at h
  split at h <;> cases h
  next hstack =>
    simp only [size, hstack, List.map_nil, List.sum_nil]
    omega
  next hstack =>
    simp only [size, hstack, List.map_cons, List.sum_cons, Container.size]
    omega
  next k p ms rest hstack =>
    have hlength := length_insert k v ms
    simp only [size, hstack, List.map_cons, List.sum_cons, Container.size]
    omega

theorem size_handleValue {v : Json} (hv : members v = 0) (h : d.handleValue v = .ok d') :
    d'.size ≤ d.size + 1 := by
  obtain ⟨slot, -, hput⟩ := exists_of_bind h
  have hsize := size_put hput
  omega

theorem size_start {c : Container} (hc : c.size = 0) (h : d.start c = .ok d') :
    d'.size = d.size := by
  obtain ⟨slot, -, hd'⟩ := exists_of_bind h
  cases hd'
  rw [size, size, List.map_cons, List.sum_cons, hc, Nat.zero_add]

theorem size_key {k : Bytes} (h : d.key k = .ok d') : d'.size ≤ d.size + 1 := by
  unfold key at h
  split at h <;> cases h
  next p ms rest hstack =>
    have hlength := length_insert k .null ms
    simp only [size, hstack, List.map_cons, List.sum_cons, Container.size]
    split <;> omega

theorem size_endArray (h : d.endArray = .ok d') : d'.size ≤ d.size + 1 := by
  unfold endArray at h
  split at h
  next slot xs rest hstack =>
    have hsize := size_put h
    simp only [size, hstack, List.map_cons, List.sum_cons, members] at hsize ⊢
    omega
  next => cases h

theorem size_endObject (h : d.endObject = .ok d') : d'.size ≤ d.size + 1 := by
  unfold endObject at h
  split at h
  next slot ms rest hstack =>
    have hsize := size_put h
    simp only [size, hstack, List.map_cons, List.sum_cons, Container.size, members] at hsize ⊢
    omega
  next => cases h

end Dom

/-- Where the parser ends behind `n` brackets, with no more members than there were tokens. -/
def Closed (n size : Nat) (ts : List Token) (r : Except ParseError (Dom × List Token)) : Prop :=
  ∀ d ts', r = .ok (d, ts') → closes n ts = some ts' ∧ d.size + ts'.length ≤ size + ts.length

inductive ValueClosed (n size : Nat) :
    List Token → Except ParseError (Dom × List Token) → Prop
  | error : ValueClosed n size ts (.error err)
  | opens : t.opens = true → Closed (n + 1) size ts r → ValueClosed n size (t :: ts) r
  | scalar : t.shuts = false → t.opens = false → Closed n (size + 1) ts r →
    ValueClosed n size (t :: ts) r

section Closed

variable {n size size' : Nat} {t : Token} {ts : List Token}
  {r : Except ParseError (Dom × List Token)}

theorem closed_error (err : ParseError) : Closed n size ts (.error err) := by
  intro d ts' h
  cases h

theorem Closed.mono (h : Closed n size ts r) (hsize : size ≤ size') : Closed n size' ts r := by
  intro d ts' hr
  obtain ⟨hcloses, hlength⟩ := h d ts' hr
  exact ⟨hcloses, by omega⟩

theorem Closed.cons (h : Closed (n + 1) (size + 1) ts r) (hshuts : t.shuts = false)
    (hopens : t.opens = false) : Closed (n + 1) size (t :: ts) r := by
  intro d ts' hr
  obtain ⟨hcloses, hlength⟩ := h d ts' hr
  rw [closes, hshuts, hopens, List.length_cons]
  exact ⟨hcloses, by omega⟩

theorem Closed.shut (h : Closed n (size + 1) ts r) (hshuts : t.shuts = true) :
    Closed (n + 1) size (t :: ts) r := by
  intro d ts' hr
  obtain ⟨hcloses, hlength⟩ := h d ts' hr
  rw [closes, hshuts, List.length_cons]
  exact ⟨hcloses, by omega⟩

theorem not_shuts_of_opens (h : t.opens = true) : t.shuts = false := by
  cases t <;> first | rfl | cases h

theorem ValueClosed.closed (h : ValueClosed (n + 1) size ts r) : Closed (n + 1) size ts r := by
  cases h with
  | error => exact closed_error _
  | opens hopens h =>
    intro d ts' hr
    obtain ⟨hcloses, hlength⟩ := h d ts' hr
    rw [closes, not_shuts_of_opens hopens, hopens, List.length_cons]
    exact ⟨hcloses, by omega⟩
  | scalar hshuts hopens h => exact h.cons hshuts hopens

end Closed

theorem scalar_spec {t : Token} {v : Json} (h : t.scalar = some v) :
    t.shuts = false ∧ t.opens = false ∧ members v = 0 := by
  cases t <;> cases h <;> exact ⟨rfl, rfl, rfl⟩

section Parse

variable {n : Nat}
  (value : ∀ (states : List Bool) {d : Dom} {ts : List Token}, ts.length < n →
    ValueClosed states.length d.size ts (parseValue states d ts))
  (evaluation : ∀ {states : List Bool} {d : Dom} {ts : List Token}, ts.length < n →
    Closed states.length d.size ts (evaluate states d ts))

include value in
theorem key_closed {b : Bool} {states : List Bool} {d : Dom} {k : Bytes} {ts : List Token}
    (hlength : ts.length < n) :
    Closed (states.length + 1) d.size (.valueString k :: .nameSeparator :: ts)
      (match d.key k with
      | .error err => .error err
      | .ok d => parseValue (b :: states) d ts) := by
  split
  next => exact closed_error _
  next d' hkey =>
    have hclosed := (value (b :: states) (d := d') hlength).closed
    exact ((hclosed.mono ((Dom.size_key hkey).trans (Nat.le_succ _))).cons rfl rfl).cons rfl rfl

include evaluation in
theorem end_closed {states : List Bool} {d : Dom} {r : Except ParseError Dom} {t : Token}
    {ts : List Token} (hlength : ts.length < n) (ht : t.shuts = true) :
    (∀ d', r = .ok d' → d'.size ≤ d.size + 1) →
      Closed (states.length + 1) d.size (t :: ts)
        (match r with
        | .error err => .error err
        | .ok d => evaluate states d ts) := by
  intro hr
  cases r with
  | error => exact closed_error _
  | ok d' => exact ((evaluation hlength).mono (hr d' rfl)).shut ht

include value evaluation

theorem parseValue_closed {states : List Bool} {d : Dom} {ts : List Token}
    (hlength : ts.length ≤ n) :
    ValueClosed states.length d.size ts (parseValue states d ts) := by
  rw [parseValue.eq_def]
  split
  · exact .error
  next ts =>
    split
    next => exact .error
    next d' hstart =>
      refine .opens rfl ?_
      rw [← Dom.size_start rfl hstart]
      split
      next ts =>
        exact end_closed (t := .endObject) evaluation (Nat.lt_of_succ_lt hlength) rfl
          fun _ => Dom.size_endObject
      next k ts =>
        rw [List.length_cons, List.length_cons, List.length_cons] at hlength
        exact key_closed value (by omega)
      next => exact closed_error _
      next => exact closed_error _
  next ts =>
    split
    next => exact .error
    next d' hstart =>
      refine .opens rfl ?_
      rw [← Dom.size_start rfl hstart]
      split
      next ts =>
        exact end_closed (t := .endArray) evaluation (Nat.lt_of_succ_lt hlength) rfl
          fun _ => Dom.size_endArray
      next => exact (value (true :: states) hlength).closed
  next t ts _ _ =>
    split
    · exact .error
    next v hv =>
      obtain ⟨hshuts, hopens, hmembers⟩ := scalar_spec hv
      split
      next => exact .error
      next =>
        refine .scalar hshuts hopens ?_
        split
        next => exact closed_error _
        next d' hhandle => exact (evaluation hlength).mono (Dom.size_handleValue hmembers hhandle)

theorem evaluate_closed {states : List Bool} {d : Dom} {ts : List Token}
    (hlength : ts.length ≤ n) :
    Closed states.length d.size ts (evaluate states d ts) := by
  rw [evaluate.eq_def]
  split
  next =>
    intro d' ts' h
    cases h
    exact ⟨by rw [List.length_nil, closes], Nat.le_refl _⟩
  next states ts =>
    exact ((value (true :: states) hlength).closed.mono (Nat.le_succ _)).cons rfl rfl
  next => exact end_closed (t := .endArray) evaluation hlength rfl fun _ => Dom.size_endArray
  next k ts =>
    rw [List.length_cons, List.length_cons, List.length_cons] at hlength
    exact ((key_closed value (by omega)).mono (Nat.le_succ _)).cons rfl rfl
  · exact closed_error _
  · exact closed_error _
  next => exact end_closed (t := .endObject) evaluation hlength rfl fun _ => Dom.size_endObject
  · exact closed_error _

end Parse

theorem parse_closed (n : Nat) :
    (∀ (states : List Bool) {d : Dom} {ts : List Token}, ts.length < n →
      ValueClosed states.length d.size ts (parseValue states d ts)) ∧
    ∀ {states : List Bool} {d : Dom} {ts : List Token}, ts.length < n →
      Closed states.length d.size ts (evaluate states d ts) := by
  induction n with
  | zero =>
    exact ⟨fun _ _ _ h => absurd h (Nat.not_lt_zero _), fun h => absurd h (Nat.not_lt_zero _)⟩
  | succ n ih =>
    obtain ⟨value, evaluation⟩ := ih
    exact ⟨fun _ _ _ h => parseValue_closed value evaluation (Nat.le_of_lt_succ h),
      fun h => evaluate_closed value evaluation (Nat.le_of_lt_succ h)⟩

theorem closes_of_parseValue {t : Token} {ts ts' : List Token} {d : Dom}
    (h : parseValue [] .empty (t :: ts) = .ok (d, ts')) :
    (∃ v, t.scalar = some v ∧ d.root = v) ∨
      t.opens = true ∧ closes 1 ts = some ts' ∧ members d.root + ts'.length ≤ ts.length := by
  have hclosed : ValueClosed 0 Dom.empty.size (t :: ts) (parseValue [] .empty (t :: ts)) :=
    (parse_closed (ts.length + 2)).1 [] (Nat.lt_succ_self _)
  rw [h] at hclosed
  cases hclosed with
  | opens hopens hclosed =>
    obtain ⟨hcloses, hlength⟩ := hclosed _ _ rfl
    have hsize : members d.root ≤ d.size := Nat.le_add_right ..
    have hempty : Dom.empty.size = 0 := rfl
    exact .inr ⟨hopens, hcloses, by omega⟩
  | scalar _ hopens =>
    have harray : t ≠ .beginArray := by
      rintro rfl
      cases hopens
    have hobject : t ≠ .beginObject := by
      rintro rfl
      cases hopens
    rw [parseValue_scalar harray hobject] at h
    split at h
    · cases h
    next v hv =>
      split at h
      · cases h
      · have hhandle : Dom.empty.handleValue v = .ok { Dom.empty with root := v } := rfl
        rw [hhandle] at h
        dsimp only at h
        rw [evaluate.eq_def] at h
        cases h
        exact .inl ⟨v, hv, rfl⟩

theorem closes_of_parse {strtod : Bytes → BitVec 64} {s : Bytes} {j : Json}
    (h : parse strtod s = .ok j) :
    ∃ t ts, lex strtod s = t :: ts ∧ (t.scalar = some j ∨ t.opens = true ∧
      ∃ ts', closes 1 ts = some ts' ∧ members j + ts'.length ≤ ts.length) := by
  obtain ⟨⟨d, ts'⟩, hparse, hend⟩ := exists_of_bind h
  cases hlex : lex strtod s with
  | nil =>
    rw [hlex, parseValue] at hparse
    cases hparse
  | cons t ts =>
    rw [hlex] at hparse
    dsimp only at hend
    split at hend <;> cases hend
    obtain ⟨v, hv, rfl⟩ | ⟨hopens, hcloses, hlength⟩ := closes_of_parseValue hparse
    · exact ⟨t, ts, rfl, .inl hv⟩
    · exact ⟨t, ts, rfl, .inr ⟨hopens, ts', hcloses, hlength⟩⟩

theorem skipBom_take {s s' : Bytes} (h : skipBom s = .ok s') :
    ∃ bom, s = bom ++ s' ∧ (∀ k, skipBom (bom ++ s'.take k) = .ok (s'.take k)) ∧
      ∀ k < bom.length, skipBom (bom.take k) = .ok [] ∨ skipBom (bom.take k) = .error .bom := by
  cases s with
  | nil =>
    cases h
    exact ⟨[], rfl, fun k => by rw [List.take_nil]; rfl, fun k hk => absurd hk (Nat.not_lt_zero k)⟩
  | cons c s =>
    by_cases hc : c = 0xef
    · subst hc
      rw [skipBom.eq_def] at h
      dsimp only at h
      rw [if_pos rfl] at h
      split at h
      next d e s =>
        split at h <;> cases h
        next hde =>
          obtain ⟨rfl, rfl⟩ := hde
          refine ⟨[0xef, 0xbb, 0xbf], rfl, fun k => rfl, fun k hk => ?_⟩
          match k, hk with
          | 0, _ => exact .inl rfl
          | 1, _ | 2, _ => exact .inr rfl
      next => cases h
    · have hskip (s : Bytes) : skipBom (c :: s) = .ok (c :: s) := if_neg hc
      rw [hskip] at h
      cases h
      refine ⟨[], rfl, fun k => ?_, fun k hk => absurd hk (Nat.not_lt_zero k)⟩
      cases k with
      | zero => rfl
      | succ k => exact hskip _

theorem ne_of_opens {t : Token} (h : t.opens = true) :
    t ≠ .endOfInput ∧ (∀ err, t ≠ .parseError err) ∧ t.scalar = none := by
  cases t with
  | beginArray | beginObject => exact ⟨by simp, by simp, rfl⟩
  | _ => cases h

theorem scan_of_lex {strtod : Bytes → BitVec 64} {s : Bytes} {t : Token} {ts : List Token}
    (h : lex strtod s = t :: ts) (hopens : t.opens = true) :
    ∃ s' rest, skipBom s = .ok s' ∧ scan strtod s' = .ok (t, rest) ∧ tokens strtod rest = ts := by
  obtain ⟨hend, herror, -⟩ := ne_of_opens hopens
  rw [lex] at h
  split at h
  next s' hskip =>
    rw [tokens_eq] at h
    split at h
    next t' rest hscan =>
      split at h <;> cases h
      next heq => exact absurd heq hend
      next => exact ⟨s', rest, hskip, hscan, rfl⟩
    next err _ =>
      cases h
      exact absurd rfl (herror err)
  next err _ =>
    cases h
    exact absurd rfl (herror err)

theorem not_parse_end {strtod : Bytes → BitVec 64} {s : Bytes} {t : Token} {ts : List Token}
    (hlex : lex strtod s = t :: ts) (ht : t = .endOfInput ∨ ∃ err, t = .parseError err) (j : Json) :
    parse strtod s ≠ .ok j := by
  intro h
  obtain ⟨t', ts', hlex', ht'⟩ := closes_of_parse h
  cases hlex.symm.trans hlex'
  obtain hscalar | ⟨hopens, -⟩ := ht'
  · obtain rfl | ⟨err, rfl⟩ := ht <;> cases hscalar
  · obtain ⟨hend, herror, -⟩ := ne_of_opens hopens
    obtain heq | ⟨err, heq⟩ := ht
    · exact hend heq
    · exact herror err heq

section Cut

variable {strtod : Bytes → BitVec 64} {bom w rest : Bytes} {t : Token}

theorem not_parse_bom {k : Nat}
    (h : skipBom (bom.take k) = .ok [] ∨ skipBom (bom.take k) = .error .bom) (j : Json) :
    parse strtod (bom.take k) ≠ .ok j := by
  obtain h | h := h
  · have hlex : lex strtod (bom.take k) = [.endOfInput] := by
      rw [lex, h]
      exact tokens_nil
    exact not_parse_end hlex (.inl rfl) j
  · have hlex : lex strtod (bom.take k) = [.parseError .bom] := by
      rw [lex, h]
    exact not_parse_end hlex (.inr ⟨_, rfl⟩) j

theorem not_parse_token {s : Bytes} (hskip : skipBom s = .ok w)
    (h : ∀ t' s', scan strtod w = .ok (t', s') → t' = .endOfInput) (j : Json) :
    parse strtod s ≠ .ok j := by
  cases hscan : scan strtod w with
  | error err =>
    have hlex : lex strtod s = [.parseError err] := by
      rw [lex, hskip]
      dsimp only
      rw [tokens_eq, hscan]
    exact not_parse_end hlex (.inr ⟨err, rfl⟩) j
  | ok r =>
    obtain ⟨t', s'⟩ := r
    obtain rfl := h t' s' hscan
    have hlex : lex strtod s = [.endOfInput] := by
      rw [lex, hskip]
      dsimp only
      rw [tokens_eq, hscan]
      rfl
    exact not_parse_end hlex (.inl rfl) j

theorem not_parse_open {s : Bytes} {ts : List Token} (hlex : lex strtod s = t :: ts)
    (hopens : t.opens = true) (hcloses : closes 1 ts = none) (j : Json) :
    parse strtod s ≠ .ok j := by
  intro h
  obtain ⟨t', ts', hlex', ht'⟩ := closes_of_parse h
  cases hlex.symm.trans hlex'
  obtain hscalar | ⟨-, ts', hsome, -⟩ := ht'
  · rw [(ne_of_opens hopens).2.2] at hscalar
    cases hscalar
  · rw [hcloses] at hsome
    cases hsome

end Cut

/-- The codec of the library is delimited: an object ends with its closing brace. -/
theorem codec_delimited (D : Doubles) : (codec D).Delimited where
  object s ms h := by
    obtain ⟨t, ts, hlex, hscalar | ⟨hopens, ts', hcloses, hlength⟩⟩ :=
      closes_of_parse (ok_of_toOption h)
    · cases t <;> cases hscalar
    obtain ⟨s', rest, hskip, hscan, rfl⟩ := scan_of_lex hlex hopens
    obtain ⟨bom, rfl, hbom, hcut⟩ := skipBom_take hskip
    obtain ⟨w, rfl, hw, htaken⟩ := scan_take hscan (ne_of_opens hopens).1
    obtain ⟨m, hm, hcount, hrest⟩ := exists_closes hcloses
    have hpos := List.length_pos_iff.mpr hw
    refine ⟨bom.length + (w.length + m), ?_, ?_, fun k hk => ?_⟩
    · rw [List.length_append, List.length_append]
      omega
    · have hmembers : members (.obj ms) = ms.length := rfl
      omega
    · have hnot : ∀ j, parse D.strtod ((bom ++ (w ++ rest)).take k) ≠ .ok j := by
        by_cases hkbom : k < bom.length
        · rw [List.take_append_of_le_length (Nat.le_of_lt hkbom)]
          exact not_parse_bom (hcut k hkbom)
        · have hskip := hbom (k - bom.length)
          rw [List.take_append, List.take_of_length_le (Nat.le_of_not_lt hkbom)]
          by_cases hkw : k - bom.length < w.length
          · rw [List.take_append_of_le_length (Nat.le_of_lt hkw)] at hskip ⊢
            refine not_parse_token hskip fun t' s' hs => ?_
            obtain ⟨-, hend | ⟨-, hscalar⟩⟩ := htaken.cut _ hkw t' s' hs
            · exact hend
            · exact absurd (ne_of_opens hopens).2.2 hscalar
          · rw [List.take_append, List.take_of_length_le (Nat.le_of_not_lt hkw)] at hskip ⊢
            refine not_parse_open (t := t) ?_ hopens (hrest (k - bom.length - w.length) (by omega))
            rw [lex, hskip]
            dsimp only
            rw [tokens_eq, htaken.reads]
            exact if_neg (ne_of_opens hopens).1
      have hparse : (codec D).parse ((bom ++ (w ++ rest)).take k) =
          (parse D.strtod ((bom ++ (w ++ rest)).take k)).toOption := rfl
      rw [hparse]
      cases heq : parse D.strtod ((bom ++ (w ++ rest)).take k) with
      | ok j => exact absurd heq (hnot j)
      | error => rfl

end Kungfu.Nlohmann
