import Kungfu.Lib.Reader
import Kungfu.Nlohmann.Parser

namespace Kungfu.Nlohmann

open Kungfu.Lib JsonText Reader

section Strings

theorem delimiting_getCodepoint (fs : List Nat) (n : Nat) : Delimiting (getCodepoint fs n) := by
  induction fs generalizing n with
  | nil => exact delimiting_some n
  | cons f fs ih =>
    have hnext : getCodepoint (f :: fs) n = next fun c s =>
        (hexValue c).bind fun d => getCodepoint fs (n + d <<< f) s := by
      funext s
      cases s with
      | nil => rfl
      | cons c s =>
        rw [getCodepoint, next]
        cases hexValue c <;> rfl
    rw [hnext]
    refine .next fun c => ?_
    cases hexValue c with
    | some d => exact ih _
    | none => exact delimiting_none

theorem delimiting_nextByteInRange (added : Bytes) (rs : List (UInt8 × UInt8)) :
    Delimiting (orNone (nextByteInRange added rs)) := by
  induction rs generalizing added with
  | nil =>
    have hsome : orNone (nextByteInRange added []) = fun s => some (added, s) := by
      funext s
      rw [orNone, nextByteInRange]
      rfl
    exact hsome ▸ delimiting_some added
  | cons r rs ih =>
    have hnext : orNone (nextByteInRange added (r :: rs)) = next fun c s =>
        if r.1 ≤ c ∧ c ≤ r.2 then orNone (nextByteInRange (added ++ [c]) rs) s else none := by
      funext s
      cases s with
      | nil => rfl
      | cons c s =>
        rw [orNone, nextByteInRange, next, orNone]
        split <;> rfl
    rw [hnext]
    exact .next fun c => .ite (ih _) delimiting_none

theorem delimiting_scanLowSurrogate (codepoint1 : Nat) :
    Delimiting (orNone (scanLowSurrogate codepoint1)) := by
  have hnext : orNone (scanLowSurrogate codepoint1) = next fun b => next fun c s =>
      if b = 0x5c ∧ c = 0x75 then
        Reader.bind (getCodepoint factors 0) (fun codepoint2 s =>
          if 0xdc00 ≤ codepoint2 ∧ codepoint2 ≤ 0xdfff then
            some (translate (surrogates (.ofNat codepoint1) (.ofNat codepoint2)).toNat, s)
          else none) s
      else none := by
    funext s
    match s with
    | [] | [b] => rfl
    | b :: c :: s =>
      rw [orNone, scanLowSurrogate, next, next, Reader.bind]
      split
      · cases getCodepoint factors 0 s with
        | none => rfl
        | some x =>
          dsimp only [Option.bind_some]
          split <;> rfl
      · rfl
  rw [hnext]
  exact .next fun b => .next fun c => .ite
    ((delimiting_getCodepoint _ _).bind fun codepoint2 => .ite (delimiting_some _) delimiting_none)
    delimiting_none

theorem delimiting_scanUnicode : Delimiting (orNone scanUnicode) := by
  have hbind : orNone scanUnicode = Reader.bind (getCodepoint factors 0) fun codepoint1 s =>
      if 0xd800 ≤ codepoint1 ∧ codepoint1 ≤ 0xdbff then
        orNone (scanLowSurrogate codepoint1) s
      else if 0xdc00 ≤ codepoint1 ∧ codepoint1 ≤ 0xdfff then none
      else some (translate codepoint1, s) := by
    funext s
    rw [orNone, scanUnicode, Reader.bind]
    cases getCodepoint factors 0 s with
    | none => rfl
    | some x =>
      dsimp only [Option.bind_some]
      split
      · rfl
      · split <;> rfl
  rw [hbind]
  exact (delimiting_getCodepoint _ _).bind fun codepoint1 =>
    .ite (delimiting_scanLowSurrogate codepoint1) (.ite delimiting_none (delimiting_some _))

theorem delimiting_scanEscape : Delimiting (orNone scanEscape) := by
  have hnext : orNone scanEscape = next fun c s =>
      (unescape c).elim (if c = 0x75 then orNone scanUnicode s else none)
        fun b => some ([b], s) := by
    funext s
    cases s with
    | nil => rfl
    | cons c s =>
      rw [orNone, scanEscape, next, orNone]
      cases unescape c with
      | some b => rfl
      | none =>
        dsimp only [Option.elim_none]
        split <;> rfl
  rw [hnext]
  refine .next fun c => ?_
  cases unescape c with
  | some b => exact delimiting_some [b]
  | none => exact .ite delimiting_scanUnicode delimiting_none

theorem delimiting_scanChar (b : UInt8) : Delimiting (orNone (scanChar b)) := by
  by_cases hescape : b = 0x5c
  · have heq : scanChar b = scanEscape := by
      funext s
      exact if_pos hescape
    exact heq ▸ delimiting_scanEscape
  · have heq : orNone (scanChar b) = fun s =>
        if b < 0x20 then none
        else (ranges b).bind fun rs => orNone (nextByteInRange [b] rs) s := by
      funext s
      rw [orNone, scanChar, if_neg hescape]
      split
      · rfl
      · cases ranges b <;> rfl
    rw [heq]
    refine .ite delimiting_none ?_
    cases ranges b with
    | some rs => exact delimiting_nextByteInRange [b] rs
    | none => exact delimiting_none

theorem orNone_eq_some {ε σ α : Type} {f : List σ → Except ε (α × List σ)} {s rest : List σ}
    {a : α} : orNone f s = some (a, rest) ↔ f s = .ok (a, rest) := by
  rw [orNone]
  cases f s <;> simp [Except.toOption]

theorem orNone_scanString (tokenBuffer : Bytes) :
    orNone (scanString tokenBuffer) = next fun b s =>
      if b = 0x22 then some (tokenBuffer, s)
      else Reader.bind (orNone (scanChar b)) (fun added =>
        orNone (scanString (tokenBuffer ++ added))) s := by
  funext s
  cases s with
  | nil =>
    rw [orNone, scanString]
    rfl
  | cons b s =>
    rw [orNone, scanString, next]
    split
    · rfl
    · rw [Reader.bind, orNone]
      split
      next hscan =>
        rw [hscan]
        rfl
      next hscan =>
        rw [hscan]
        rfl

theorem delimiting_scanString (tokenBuffer : Bytes) :
    Delimiting (orNone (scanString tokenBuffer)) := by
  intro s text rest h
  replace h := orNone_eq_some.mp h
  fun_induction scanString tokenBuffer s with
  | case1 => cases h
  | case2 tokenBuffer s =>
    cases h
    refine ⟨[0x22], rfl, ?_⟩
    rw [orNone_scanString]
    refine Delimits.next ?_
    simp only [if_pos]
    exact delimits_nil _
  | case3 tokenBuffer b s hquote added s' hscan ih =>
    obtain ⟨v, rfl, hv⟩ := delimiting_scanChar b (orNone_eq_some.mpr hscan)
    obtain ⟨w, rfl, hw⟩ := ih h
    refine ⟨b :: (v ++ w), by rw [List.cons_append, List.append_assoc], ?_⟩
    rw [orNone_scanString]
    refine Delimits.next ?_
    simp only [if_neg hquote]
    exact hv.bind hw
  | case4 => cases h

theorem delimiting_scanLiteral (returnType : Token) (literalText : Bytes) :
    Delimiting (orNone (scanLiteral returnType literalText)) := by
  induction literalText with
  | nil =>
    have hsome : orNone (scanLiteral returnType []) = fun s => some (returnType, s) := by
      funext s
      rw [orNone, scanLiteral]
      rfl
    exact hsome ▸ delimiting_some returnType
  | cons l literalText ih =>
    have hnext : orNone (scanLiteral returnType (l :: literalText)) = next fun c s =>
        if c = l then orNone (scanLiteral returnType literalText) s else none := by
      funext s
      cases s with
      | nil => rfl
      | cons c s =>
        rw [orNone, scanLiteral, next, orNone]
        split <;> rfl
    rw [hnext]
    exact .next fun c => .ite ih delimiting_none

end Strings

def Token.opens : Token → Bool
  | .beginArray | .beginObject => true
  | _ => false

def Token.shuts : Token → Bool
  | .endArray | .endObject => true
  | _ => false

structure Taken (f : Bytes → Except LexError (Token × Bytes)) (w rest : Bytes) (t : Token) :
    Prop where
  reads : ∀ k, f (w ++ rest.take k) = .ok (t, rest.take k)
  cut : ∀ k < w.length, ∀ t' s, f (w.take k) = .ok (t', s) →
    s = [] ∧ (t' = .endOfInput ∨ t'.shuts = false ∧ t.scalar ≠ none)

section Taken

variable {f g : Bytes → Except LexError (Token × Bytes)} {w rest : Bytes} {t : Token}

theorem Taken.congr (h : Taken f w rest t) (heq : ∀ s, g s = f s) : Taken g w rest t where
  reads k := (heq _).trans (h.reads k)
  cut k hk t' s hs := h.cut k hk t' s ((heq _).symm.trans hs)

theorem taken_nil (t : Token) (rest : Bytes) : Taken (fun s => .ok (t, s)) [] rest t where
  reads _ := rfl
  cut _ hk := absurd hk (Nat.not_lt_zero _)

theorem taken_of_delimits {α : Type} {r : Bytes → Except LexError (α × Bytes)} {a : α}
    (h : Delimits (orNone r) w a) (mk : α → Token) (rest : Bytes)
    (hf : ∀ s, orNone f s = (orNone r s).map fun x => (mk x.1, x.2)) :
    Taken f w rest (mk a) where
  reads k := by
    rw [← orNone_eq_some, hf, h.reads, Option.map_some]
  cut k hk t' s hs := by
    rw [← orNone_eq_some, hf, h.cut k hk] at hs
    cases hs

end Taken

theorem NumberState.scan_take {state : NumberState} {type type' : NumberType}
    {tokenBuffer text s rest : Bytes}
    (h : state.scan type tokenBuffer s = .ok (type', text, rest)) :
    ∃ w, s = w ++ rest ∧
      (∀ k, state.scan type tokenBuffer (w ++ rest.take k) = .ok (type', text, rest.take k)) ∧
      ∀ k, ∀ type₁ text₁ s₁, state.scan type tokenBuffer (w.take k) = .ok (type₁, text₁, s₁) →
        s₁ = [] := by
  induction s generalizing state type tokenBuffer with
  | nil =>
    rw [scan] at h
    split at h <;> cases h
    next herror =>
      refine ⟨[], rfl, fun k => ?_, fun k type₁ text₁ s₁ h₁ => ?_⟩
      · rw [List.take_nil, List.append_nil, scan, herror]
      · rw [List.take_nil, scan, herror] at h₁
        cases h₁
        rfl
  | cons c s ih =>
    rw [scan] at h
    split at h
    next state' hnext =>
      obtain ⟨w, rfl, hreads, hcut⟩ := ih h
      refine ⟨c :: w, rfl, fun k => ?_, fun k type₁ text₁ s₁ h₁ => ?_⟩
      · rw [List.cons_append, scan, hnext]
        exact hreads k
      · cases k with
        | zero =>
          rw [List.take_zero, scan] at h₁
          split at h₁ <;> cases h₁
          rfl
        | succ k =>
          rw [List.take_succ_cons, scan, hnext] at h₁
          exact hcut k type₁ text₁ s₁ h₁
    next hnext =>
      split at h <;> cases h
      next herror =>
        have hdone : ∀ s, s.head? = some c ∨ s = [] →
            state.scan type' text s = .ok (type', text, s) := by
          rintro s (hs | rfl)
          · obtain ⟨s, rfl⟩ := List.head?_eq_some_iff.mp hs
            rw [scan, hnext, herror]
          · rw [scan, herror]
        refine ⟨[], rfl, fun k => hdone _ ?_, fun k type₁ text₁ s₁ h₁ => ?_⟩
        · cases k with
          | zero => exact .inr rfl
          | succ k => exact .inl rfl
        · rw [List.take_nil, hdone [] (.inr rfl)] at h₁
          cases h₁
          rfl

section Tokens

variable {strtod : Bytes → BitVec 64}

theorem shuts_convert (type : NumberType) (text : Bytes) :
    (convert strtod type text).shuts = false := by
  cases type with
  | float => rfl
  | unsigned | integer =>
    rw [convert]
    split <;> rfl

theorem scanNumber_take {c : UInt8} {s rest : Bytes} {t : Token}
    (h : scanNumber strtod c s = .ok (t, rest)) :
    ∃ w, s = w ++ rest ∧ Taken (scanNumber strtod c) w rest t := by
  rw [scanNumber] at h
  split at h <;> cases h
  next hscan =>
    obtain ⟨w, rfl, hreads, hcut⟩ := NumberState.scan_take hscan
    refine ⟨w, rfl, fun k => ?_, fun k _ t' s hs => ?_⟩
    · rw [scanNumber, hreads k]
    · rw [scanNumber] at hs
      split at hs <;> cases hs
      next hscan =>
        exact ⟨hcut k _ _ _ hscan, .inr ⟨shuts_convert .., scalar_convert strtod _ _⟩⟩

theorem scanToken_take {c : UInt8} {s rest : Bytes} {t : Token}
    (h : scanToken strtod c s = .ok (t, rest)) (ht : t ≠ .endOfInput) :
    ∃ w, s = w ++ rest ∧ Taken (scanToken strtod c) w rest t := by
  cases hstructural : structural c with
  | some t' =>
    have heq : ∀ s, scanToken strtod c s = .ok (t', s) := fun s => by rw [scanToken, hstructural]
    cases (heq s).symm.trans h
    exact ⟨[], rfl, (taken_nil _ _).congr heq⟩
  | none =>
    cases hliteral : literal c with
    | some l =>
      have heq : ∀ s, scanToken strtod c s = scanLiteral l.1 l.2 s := fun s => by
        rw [scanToken, hstructural, hliteral]
      obtain ⟨w, rfl, hw⟩ :=
        delimiting_scanLiteral l.1 l.2 (orNone_eq_some.mpr ((heq s).symm.trans h))
      refine ⟨w, rfl, taken_of_delimits hw id rest fun s => ?_⟩
      rw [orNone, heq]
      exact Option.map_id'.symm
    | none =>
      by_cases hquote : c = quote
      · have heq : ∀ s, orNone (scanToken strtod c) s =
            (orNone (scanString []) s).map fun x => (.valueString x.1, x.2) := fun s => by
          rw [orNone, scanToken, hstructural, hliteral]
          dsimp only
          rw [if_pos hquote, orNone]
          cases scanString [] s <;> rfl
        have hsome := (heq s).symm.trans (orNone_eq_some.mpr h)
        obtain ⟨⟨text, rest'⟩, hscan, htoken⟩ := Option.map_eq_some_iff.mp hsome
        cases htoken
        obtain ⟨w, rfl, hw⟩ := delimiting_scanString [] hscan
        exact ⟨w, rfl, taken_of_delimits hw .valueString rest' heq⟩
      · by_cases hnumber : c = 0x2d ∨ isDigit c = true
        · have heq : ∀ s, scanToken strtod c s = scanNumber strtod c s := fun s => by
            rw [scanToken, hstructural, hliteral]
            dsimp only
            rw [if_neg hquote, if_pos hnumber]
          obtain ⟨w, rfl, hw⟩ := scanNumber_take ((heq s).symm.trans h)
          exact ⟨w, rfl, hw.congr heq⟩
        · rw [scanToken, hstructural, hliteral] at h
          dsimp only at h
          rw [if_neg hquote, if_neg hnumber] at h
          split at h <;> cases h
          exact absurd rfl ht

theorem scan_take {s rest : Bytes} {t : Token} (h : scan strtod s = .ok (t, rest))
    (ht : t ≠ .endOfInput) :
    ∃ w, s = w ++ rest ∧ w ≠ [] ∧ Taken (scan strtod) w rest t := by
  induction s with
  | nil =>
    cases h
    exact absurd rfl ht
  | cons c s ih =>
    have hskip : ∀ {w : Bytes} {g : Bytes → Except LexError (Token × Bytes)},
        (∀ s, scan strtod (c :: s) = g s) → Taken g w rest t →
          Taken (scan strtod) (c :: w) rest t := by
      intro w g hg hw
      refine ⟨fun k => (hg _).trans (hw.reads k), fun k hk t' s hs => ?_⟩
      cases k with
      | zero =>
        cases hs
        exact ⟨rfl, .inl rfl⟩
      | succ k => exact hw.cut k (Nat.lt_of_succ_lt_succ hk) t' s ((hg _).symm.trans hs)
    by_cases hspace : isWhitespace c = true
    · have heq : ∀ s, scan strtod (c :: s) = scan strtod s := fun s => if_pos hspace
      obtain ⟨w, rfl, -, hw⟩ := ih ((heq s).symm.trans h)
      exact ⟨c :: w, rfl, List.cons_ne_nil c w, hskip heq hw⟩
    · have heq : ∀ s, scan strtod (c :: s) = scanToken strtod c s := fun s => if_neg hspace
      obtain ⟨w, rfl, hw⟩ := scanToken_take ((heq s).symm.trans h) ht
      exact ⟨c :: w, rfl, List.cons_ne_nil c w, hskip heq hw⟩

theorem shuts_of_take {s : Bytes}
    (h : ∀ t s', scan strtod s = .ok (t, s') → s' = [] ∧ t.shuts = false) :
    ∀ t ∈ tokens strtod s, t.shuts = false := by
  intro t ht
  rw [tokens_eq] at ht
  split at ht
  next t' s' hscan =>
    obtain ⟨rfl, ht'⟩ := h t' s' hscan
    split at ht
    · exact List.mem_singleton.mp ht ▸ ht'
    · rw [tokens_nil] at ht
      obtain rfl | ht := List.mem_cons.mp ht
      · exact ht'
      · exact List.mem_singleton.mp ht ▸ rfl
  next => exact List.mem_singleton.mp ht ▸ rfl

def closes : Nat → List Token → Option (List Token)
  | 0, ts => some ts
  | _ + 1, [] => none
  | n + 1, t :: ts => closes (if t.shuts then n else if t.opens then n + 2 else n + 1) ts

theorem closes_of_shuts {ts : List Token} (h : ∀ t ∈ ts, t.shuts = false) (n : Nat) :
    closes (n + 1) ts = none := by
  induction ts generalizing n with
  | nil => rfl
  | cons t ts ih =>
    obtain ⟨ht, hts⟩ := List.forall_mem_cons.mp h
    rw [closes, if_neg (Bool.eq_false_iff.mp ht)]
    split <;> exact ih hts _

theorem exists_closes {s : Bytes} {n : Nat} {ts : List Token}
    (h : closes (n + 1) (tokens strtod s) = some ts) :
    ∃ m ≤ s.length, (tokens strtod s).length ≤ m + ts.length ∧
      ∀ k < m, closes (n + 1) (tokens strtod (s.take k)) = none := by
  fun_induction tokens strtod s generalizing n with
  | case1 | case3 => cases h
  | case2 s t rest hscan hend ih =>
    obtain ⟨w, rfl, hw, hreads, hcut⟩ := scan_take hscan hend
    have hpos := List.length_pos_iff.mpr hw
    have htokens (k : Nat) :
        tokens strtod (w ++ rest.take k) = t :: tokens strtod (rest.take k) := by
      rw [tokens_eq, hreads k]
      exact if_neg hend
    have hfirst : ∀ k < w.length, closes (n + 1) (tokens strtod ((w ++ rest).take k)) = none := by
      intro k hk
      rw [List.take_append_of_le_length (Nat.le_of_lt hk)]
      refine closes_of_shuts (shuts_of_take fun t' s' hs => ?_) n
      obtain ⟨hs', rfl | ⟨hshuts, -⟩⟩ := hcut k hk t' s' hs
      · exact ⟨hs', rfl⟩
      · exact ⟨hs', hshuts⟩
    rw [closes] at h
    generalize hdepth : (if t.shuts then n else if t.opens then n + 2 else n + 1) = depth at h
    cases depth with
    | zero =>
      rw [closes] at h
      cases h
      refine ⟨w.length, ?_, ?_, hfirst⟩
      · rw [List.length_append]
        exact Nat.le_add_right ..
      · rw [List.length_cons]
        omega
    | succ depth =>
      obtain ⟨m, hm, hlength, hrest⟩ := ih h
      refine ⟨w.length + m, ?_, ?_, fun k hk => ?_⟩
      · rw [List.length_append]
        omega
      · rw [List.length_cons]
        omega
      · by_cases hkw : k < w.length
        · exact hfirst k hkw
        · rw [List.take_append, List.take_of_length_le (Nat.le_of_not_lt hkw), htokens, closes,
            hdepth]
          exact hrest _ (by omega)

end Tokens

end Kungfu.Nlohmann
