import Kungfu.Lib.JsonText

namespace Kungfu.Lib

/-- An object has an end in its text behind which there are more characters than it has members,
and what is cut off before that end is not a JSON text. -/
structure Json.Codec.Delimited (C : Json.Codec) : Prop where
  object : ∀ t ms, C.parse t = some (.obj ms) →
    ∃ stop ≤ t.length, ms.length < stop ∧ ∀ k < stop, C.parse (t.take k) = none

namespace JsonText

theorem strip_append_right {e t r : Text} (h : strip e t = some r) (u : Text) :
    t.length = e.length + r.length ∧ strip e (t ++ u) = some (r ++ u) := by
  rw [strip] at h
  split at h
  next hp =>
    obtain ⟨t, rfl⟩ := hp
    rw [List.drop_left] at h
    cases h
    exact ⟨List.length_append, by rw [List.append_assoc, strip_append]⟩
  next => cases h

theorem strip_append_right_none {c : UInt8} {t : Text} (h : strip [c] t = none)
    (ht : 0 < t.length) (u : Text) : strip [c] (t ++ u) = none := by
  cases t with
  | nil => cases ht
  | cons d t =>
    have hne : c ≠ d := by
      rintro rfl
      simp at h
    exact strip_of_ne hne _

theorem separator_append_right {first : Bool} {t r : Text}
    (h : (if first then some t else strip [comma] t) = some r) (u : Text) :
    r.length ≤ t.length ∧
      (if first then some (t ++ u) else strip [comma] (t ++ u)) = some (r ++ u) := by
  cases first with
  | true =>
    cases h
    exact ⟨Nat.le_refl _, rfl⟩
  | false =>
    obtain ⟨hlen, happend⟩ := strip_append_right h u
    exact ⟨by omega, happend⟩

theorem exists_of_map_cons {o : Option (Text × Text)} {c : UInt8} {s r : Text}
    (h : o.map (fun x => (c :: x.1, x.2)) = some (s, r)) :
    ∃ s', o = some (s', r) ∧ c :: s' = s := by
  obtain ⟨⟨s', r'⟩, hs, heq⟩ := Option.map_eq_some_iff.mp h
  cases heq
  exact ⟨s', hs, rfl⟩

theorem parseString_append {t s r : Text} (h : parseString t = some (s, r)) (u : Text) :
    r.length < t.length ∧ parseString (t ++ u) = some (s, r ++ u) := by
  fun_induction parseString t generalizing s with
  | case1 | case3 | case5 => cases h
  | case2 cs =>
    cases h
    exact ⟨Nat.lt_succ_self _, parseString_quote _⟩
  | case4 a b hi lo rest hq ih =>
    obtain ⟨s', hs, rfl⟩ := exists_of_map_cons h
    obtain ⟨hlen, happend⟩ := ih hs
    refine ⟨by simp only [List.length_cons]; omega, ?_⟩
    simp only [List.cons_append, parseString_unicode, happend, Option.map_some]
  | case6 e es he hq ih =>
    obtain ⟨s', hs, rfl⟩ := exists_of_map_cons h
    obtain ⟨hlen, happend⟩ := ih hs
    refine ⟨by simp only [List.length_cons]; omega, ?_⟩
    simp only [List.cons_append, parseString_backslash he, happend, Option.map_some]
  | case7 c cs hq hb ih =>
    obtain ⟨s', hs, rfl⟩ := exists_of_map_cons h
    obtain ⟨hlen, happend⟩ := ih hs
    refine ⟨by simp only [List.length_cons]; omega, ?_⟩
    simp only [List.cons_append, parseString_plain hq hb, happend, Option.map_some]

theorem parseNat_append {t r : Text} {n : Nat} (h : parseNat t = some (n, r)) :
    r.length < t.length ∧ ∀ u, r ≠ [] → parseNat (t ++ u) = some (n, r ++ u) := by
  rw [parseNat] at h
  split at h
  · cases h
  next hdigits =>
    cases h
    have hsplit := congrArg List.length (List.takeWhile_append_dropWhile (p := isDigit) (l := t))
    have hpos := List.length_pos_iff.mpr hdigits
    rw [List.length_append] at hsplit
    refine ⟨by omega, fun u hr => ?_⟩
    have hrest := List.length_pos_iff.mpr hr
    have hshort : (t.takeWhile isDigit).length ≠ t.length := by omega
    rw [parseNat, List.takeWhile_append, if_neg hshort, if_neg hdigits, List.dropWhile_append,
      if_neg (by simpa using hr)]

/-- What `f` reads at the front of `t`, `g` reads when more text follows. -/
def ReadsOn {α : Type} (f g : Text → Option (α × Text)) (t : Text) : Prop :=
  ∀ a r, f t = some (a, r) → r.length < t.length ∧ ∀ u, r ≠ [] → g (t ++ u) = some (a, r ++ u)

theorem ReadsOn.map {α β : Type} {f g : Text → Option (α × Text)} {t : Text} (h : ReadsOn f g t)
    (mk : α → β) :
    ReadsOn (fun t => (f t).map fun x => (mk x.1, x.2)) (fun t => (g t).map fun x => (mk x.1, x.2))
      t := by
  intro b r hr
  obtain ⟨⟨a, r⟩, ha, heq⟩ := Option.map_eq_some_iff.mp hr
  cases heq
  obtain ⟨hlen, happend⟩ := h a r ha
  exact ⟨hlen, fun u hu => congrArg (Option.map _) (happend u hu)⟩

theorem readsOn_strip {α : Type} (e t : Text) (a : α) (he : e ≠ []) :
    ReadsOn (fun t => (strip e t).map fun r => (a, r)) (fun t => (strip e t).map fun r => (a, r))
      t := by
  intro b r hr
  obtain ⟨r, hs, heq⟩ := Option.map_eq_some_iff.mp hr
  cases heq
  have hpos := List.length_pos_iff.mpr he
  have hlen := (strip_append_right hs []).1
  exact ⟨by omega, fun u _ => congrArg (Option.map _) (strip_append_right hs u).2⟩

theorem ReadsOn.of_eq {α : Type} {f g f' g' : Text → Option (α × Text)} {t : Text}
    (h : ReadsOn f g t) (hf : f' t = f t) (hg : ∀ u, g' (t ++ u) = g (t ++ u)) :
    ReadsOn f' g' t := by
  intro a r hr
  obtain ⟨hlen, happend⟩ := h a r (hf ▸ hr)
  exact ⟨hlen, fun u hu => (hg u).trans (happend u hu)⟩

theorem ReadsOn.cons {α : Type} {f g f' g' : Text → Option (α × Text)} {c : UInt8} {t : Text}
    (h : ReadsOn f g t) (hf : f' (c :: t) = f t) (hg : ∀ u, g' (c :: (t ++ u)) = g (t ++ u)) :
    ReadsOn f' g' (c :: t) := by
  intro a r hr
  obtain ⟨hlen, happend⟩ := h a r (hf ▸ hr)
  exact ⟨Nat.lt_succ_of_lt hlen, fun u hu => (hg u).trans (happend u hu)⟩

theorem parseItems_of_strip_none {t : Text} (h : strip [closeArr] t = none) (n : Nat)
    (first : Bool) : parseItems (n + 1) first t =
      (if first then some t else strip [comma] t).bind fun t =>
        (parseValue n t).bind fun x =>
          (parseItems n false x.2).bind fun xs => some (x.1 :: xs.1, xs.2) := by
  rw [parseItems, h]
  cases first <;> rfl

theorem parseMembers_of_strip_none {t : Text} (h : strip [closeObj] t = none) (n : Nat)
    (first : Bool) : parseMembers (n + 1) first t =
      (if first then some t else strip [comma] t).bind fun t =>
        (strip [quote] t).bind fun t =>
          (parseString t).bind fun k =>
            (strip [colon] k.2).bind fun t =>
              (parseValue n t).bind fun x =>
                (parseMembers n false x.2).bind fun ms => some ((k.1, x.1) :: ms.1, ms.2) := by
  rw [parseMembers, h]
  cases first <;> rfl

mutual

theorem parseValue_readsOn : ∀ (n m : Nat) (t : Text), n ≤ m →
    ReadsOn (parseValue n) (parseValue m) t
  | 0, _, _, _ => nofun
  | _ + 1, _, [], _ => nofun
  | n + 1, 0, c :: t, h => absurd h (Nat.not_succ_le_zero n)
  | n + 1, m + 1, c :: t, h => by
    have h := Nat.le_of_succ_le_succ h
    have hstring : ReadsOn parseString parseString t := fun s r hs =>
      ⟨(parseString_append hs []).1, fun u _ => (parseString_append hs u).2⟩
    have hitems : ReadsOn (parseItems n true) (parseItems m true) t := fun xs r hxs =>
      have hitems := parseItems_append n m h hxs
      ⟨hitems.1, fun u _ => hitems.2 u⟩
    have hmembers : ReadsOn (parseMembers n true) (parseMembers m true) t := fun ms r hms =>
      have hmembers := parseMembers_append n m h hms
      ⟨by omega, fun u _ => hmembers.2 u⟩
    have hnat : ∀ t, ReadsOn parseNat parseNat t := fun t k r hk => parseNat_append hk
    by_cases hquote : c = quote
    · exact (hstring.map Json.str).cons (by rw [parseValue, if_pos hquote])
        fun u => by rw [parseValue, if_pos hquote]
    by_cases harr : c = openArr
    · exact (hitems.map Json.arr).cons (by rw [parseValue, if_neg hquote, if_pos harr])
        fun u => by rw [parseValue, if_neg hquote, if_pos harr]
    by_cases hobj : c = openObj
    · exact (hmembers.map Json.obj).cons
        (by rw [parseValue, if_neg hquote, if_neg harr, if_pos hobj])
        fun u => by rw [parseValue, if_neg hquote, if_neg harr, if_pos hobj]
    have hletter : ∀ k u, parseValue (k + 1) (c :: u) = _ := fun k u => by
      rw [parseValue, if_neg hquote, if_neg harr, if_neg hobj]
    by_cases hnull : c = 0x6e
    · exact (readsOn_strip ull t Json.null (by decide)).cons (by rw [hletter, if_pos hnull])
        fun u => by rw [hletter, if_pos hnull]
    by_cases htrue : c = 0x74
    · exact (readsOn_strip rue t (Json.bool true) (by decide)).cons
        (by rw [hletter, if_neg hnull, if_pos htrue])
        fun u => by rw [hletter, if_neg hnull, if_pos htrue]
    by_cases hfalse : c = 0x66
    · exact (readsOn_strip alse t (Json.bool false) (by decide)).cons
        (by rw [hletter, if_neg hnull, if_neg htrue, if_pos hfalse])
        fun u => by rw [hletter, if_neg hnull, if_neg htrue, if_pos hfalse]
    have hnumber : ∀ k u, parseValue (k + 1) (c :: u) = _ := fun k u => by
      rw [hletter, if_neg hnull, if_neg htrue, if_neg hfalse]
    by_cases hfloat : c = 0x64
    · exact ((hnat t).map fun k => Json.float (.ofNat 64 k)).cons (by rw [hnumber, if_pos hfloat])
        fun u => by rw [hnumber, if_pos hfloat]
    by_cases hminus : c = minus
    · exact ((hnat t).map fun k => Json.int (-k)).cons
        (by rw [hnumber, if_neg hfloat, if_pos hminus])
        fun u => by rw [hnumber, if_neg hfloat, if_pos hminus]
    exact ((hnat (c :: t)).map fun k => Json.int k).of_eq
      (by rw [hnumber, if_neg hfloat, if_neg hminus])
      fun u => by rw [List.cons_append, hnumber, if_neg hfloat, if_neg hminus]

theorem parseItems_append : ∀ (n m : Nat) {first : Bool} {t r : Text} {xs : List Json}, n ≤ m →
    parseItems n first t = some (xs, r) →
    r.length < t.length ∧ ∀ u, parseItems m first (t ++ u) = some (xs, r ++ u)
  | n + 1, m + 1, first, t, r, xs, h, hxs => by
    have h := Nat.le_of_succ_le_succ h
    cases hclose : strip [closeArr] t with
    | some t' =>
      rw [parseItems, hclose] at hxs
      cases hxs
      have hlen := (strip_append_right hclose []).1
      rw [List.length_singleton] at hlen
      exact ⟨by omega, fun u => by rw [parseItems, (strip_append_right hclose u).2]⟩
    | none =>
      simp only [parseItems_of_strip_none hclose, Option.bind_eq_some_iff] at hxs
      obtain ⟨t₁, ht₁, ⟨x, t₂⟩, hx, ⟨xs, r'⟩, hrest, heq⟩ := hxs
      dsimp only at hrest heq
      cases heq
      obtain ⟨hlen₁, -⟩ := separator_append_right ht₁ []
      obtain ⟨hlen₂, hx⟩ := parseValue_readsOn n m t₁ h x t₂ hx
      obtain ⟨hlen₃, hrest⟩ := parseItems_append n m h hrest
      have ht₂ : t₂ ≠ [] := List.length_pos_iff.mp (by omega)
      refine ⟨by omega, fun u => ?_⟩
      rw [parseItems_of_strip_none (strip_append_right_none hclose (by omega) u)]
      simp only [(separator_append_right ht₁ u).2, hx u ht₂, hrest u, Option.bind_some]

theorem parseMembers_append : ∀ (n m : Nat) {first : Bool} {t r : Text} {ms : List Json.Member},
    n ≤ m → parseMembers n first t = some (ms, r) →
    ms.length + r.length < t.length ∧ ∀ u, parseMembers m first (t ++ u) = some (ms, r ++ u)
  | n + 1, m + 1, first, t, r, ms, h, hms => by
    have h := Nat.le_of_succ_le_succ h
    cases hclose : strip [closeObj] t with
    | some t' =>
      rw [parseMembers, hclose] at hms
      cases hms
      have hlen := (strip_append_right hclose []).1
      rw [List.length_singleton] at hlen
      exact ⟨by simpa using by omega, fun u => by
        rw [parseMembers, (strip_append_right hclose u).2]⟩
    | none =>
      simp only [parseMembers_of_strip_none hclose, Option.bind_eq_some_iff] at hms
      obtain ⟨t₁, ht₁, t₂, ht₂, ⟨k, t₃⟩, hk, t₄, ht₄, ⟨x, t₅⟩, hx, ⟨ms, r'⟩, hrest, heq⟩ := hms
      dsimp only at ht₄ hrest heq
      cases heq
      obtain ⟨hlen₁, -⟩ := separator_append_right ht₁ []
      obtain ⟨hlen₂, -⟩ := strip_append_right ht₂ []
      obtain ⟨hlen₃, -⟩ := parseString_append hk []
      obtain ⟨hlen₄, -⟩ := strip_append_right ht₄ []
      obtain ⟨hlen₅, hx⟩ := parseValue_readsOn n m t₄ h x t₅ hx
      obtain ⟨hlen₆, hrest⟩ := parseMembers_append n m h hrest
      have ht₅ : t₅ ≠ [] := List.length_pos_iff.mp (by omega)
      refine ⟨by simp only [List.length_cons]; omega, fun u => ?_⟩
      rw [parseMembers_of_strip_none (strip_append_right_none hclose (by omega) u)]
      simp only [(separator_append_right ht₁ u).2, (strip_append_right ht₂ u).2,
        (parseString_append hk u).2, (strip_append_right ht₄ u).2, hx u ht₅, hrest u,
        Option.bind_some]

end

theorem parse_eq_some {t : Text} {j : Json} (h : parse t = some j) :
    parseValue (t.length + 1) t = some (j, []) := by
  rw [parse] at h
  split at h
  next heq =>
    cases h
    exact heq
  next => cases h

theorem parseMembers_of_parseValue {n : Nat} {cs r : Text} {j : Json}
    (h : parseValue (n + 1) (openObj :: cs) = some (j, r)) :
    ∃ ms, j = .obj ms ∧ parseMembers n true cs = some (ms, r) := by
  rw [parseValue, if_neg (by decide), if_neg (by decide), if_pos rfl] at h
  obtain ⟨⟨ms, r⟩, hms, heq⟩ := Option.map_eq_some_iff.mp h
  cases heq
  exact ⟨ms, rfl, hms⟩

theorem exists_cons_of_parseValue_obj {n : Nat} {t r : Text} {ms : List Json.Member}
    (h : parseValue n t = some (.obj ms, r)) : ∃ cs, t = openObj :: cs := by
  cases n with
  | zero => cases h
  | succ n =>
    cases t with
    | nil => cases h
    | cons c cs =>
      by_cases hobj : c = openObj
      · exact ⟨cs, by rw [hobj]⟩
      · rw [parseValue] at h
        split_ifs at h <;> simp at h

theorem parseMembers_of_parse {t : Text} {ms : List Json.Member} (h : parse t = some (.obj ms)) :
    ∃ cs, t = openObj :: cs ∧ parseMembers t.length true cs = some (ms, []) := by
  have hvalue := parse_eq_some h
  obtain ⟨cs, rfl⟩ := exists_cons_of_parseValue_obj hvalue
  obtain ⟨_, heq, hms⟩ := parseMembers_of_parseValue hvalue
  cases heq
  exact ⟨cs, rfl, hms⟩

theorem codec_parse_print (j : Json) : codec.parse (print j) = some j := parse_print j

theorem parse_take {t : Text} {ms : List Json.Member} (h : parse t = some (.obj ms)) {k : Nat}
    (hk : k < t.length) : parse (t.take k) = none := by
  obtain ⟨cs, rfl, hms⟩ := parseMembers_of_parse h
  cases k with
  | zero => rfl
  | succ k =>
    by_contra hne
    obtain ⟨j, hj⟩ := Option.ne_none_iff_exists'.mp hne
    rw [List.take_succ_cons] at hj
    obtain ⟨ms', -, hms'⟩ := parseMembers_of_parseValue (parse_eq_some hj)
    have hle : (openObj :: cs.take k).length ≤ (openObj :: cs).length := by
      simp
    have hmore := (parseMembers_append _ _ hle hms').2 (cs.drop k)
    rw [List.take_append_drop, hms, Option.some.injEq, Prod.mk.injEq] at hmore
    have hlen := congrArg List.length hmore.2
    simp only [List.nil_append, List.length_nil, List.length_drop, List.length_cons] at hlen hk
    omega

theorem delimited : codec.Delimited where
  object t ms h := by
    obtain ⟨cs, rfl, hms⟩ := parseMembers_of_parse h
    refine ⟨_, Nat.le_refl _, ?_, fun k hk => parse_take h hk⟩
    have := (parseMembers_append _ _ (Nat.le_refl _) hms).1
    simp only [List.length_cons]
    omega

end JsonText

end Kungfu.Lib
