import Kungfu.Nlohmann.TokenGrammar

namespace Kungfu.Nlohmann

open Kungfu.Lib JsonText JsonGrammar

theorem scalar_integerToken {i : Int} (hlo : -2 ^ 63 ≤ i) (hhi : i < 2 ^ 64) :
    (integerToken i).scalar = some (.int i) := by
  have hvalue := value_ofInt hlo hhi
  rw [Integer.ofInt] at hvalue
  rw [integerToken]
  split <;> simp_all [Token.scalar, Integer.value]

mutual

theorem derives_toTokens : ∀ j : Json, j.canonical = true → Derives (toTokens j) j
  | .null, _ => .scalar rfl rfl
  | .bool true, _ => .scalar rfl rfl
  | .bool false, _ => .scalar rfl rfl
  | .int i, hj => by
    obtain ⟨hlo, hhi⟩ : -2 ^ 63 ≤ i ∧ i < 2 ^ 64 := of_decide_eq_true hj
    have hfinite : (integerToken i).overflows = false := by
      rw [integerToken]
      split <;> rfl
    exact .scalar (scalar_integerToken hlo hhi) hfinite
  | .float bits, hj => by
    have hfinite : Json.finite bits = true := hj
    exact .scalar rfl (by rw [Token.overflows, hfinite]; rfl)
  | .str s, _ => .scalar rfl rfl
  | .arr [], _ => .emptyArray
  | .arr (x :: xs), hj =>
    .array (derives_itemTokens (x :: xs) (List.cons_ne_nil x xs) (canonical_arr hj))
  | .obj [], _ => .emptyObject
  | .obj (m :: ms), hj => by
    obtain ⟨hsorted, hms⟩ := canonical_obj hj
    have hobject := Derives.object (derives_memberTokens (m :: ms) (List.cons_ne_nil m ms) hms)
    rwa [collect_of_sorted hsorted, List.nil_append] at hobject

theorem derives_itemTokens : ∀ xs : List Json, xs ≠ [] → (∀ x ∈ xs, x.canonical = true) →
    DerivesItems (itemTokens xs) xs
  | [], h, _ => absurd rfl h
  | x :: xs, _, hxs => by
    obtain ⟨hx, hxs⟩ := List.forall_mem_cons.mp hxs
    rw [itemTokens]
    split_ifs with hempty
    · rw [hempty, List.append_nil]
      exact .one (derives_toTokens x hx)
    · exact .cons (derives_toTokens x hx) (derives_itemTokens xs hempty hxs)

theorem derives_memberTokens : ∀ ms : List Json.Member, ms ≠ [] →
    (∀ m ∈ ms, m.2.canonical = true) → DerivesMembers (memberTokens ms) ms
  | [], h, _ => absurd rfl h
  | (k, x) :: ms, _, hms => by
    obtain ⟨hx, hms⟩ := List.forall_mem_cons.mp hms
    rw [memberTokens]
    split_ifs with hempty
    · rw [hempty, List.append_nil]
      exact .one (derives_toTokens x hx)
    · exact .cons (derives_toTokens x hx) (derives_memberTokens ms hempty hms)

end

theorem ne_of_number {c : UInt8} (h : c = 0x2d ∨ isDigit c = true) : c ≠ 0xef := by
  rintro rfl
  exact absurd h (by decide)

theorem head_dump {D : Doubles} {handler : ErrorHandler} {ensureAscii : Bool} {j : Json}
    {out : Bytes} (hj : j.canonical = true) (h : dump D handler ensureAscii j = .ok out) :
    ∃ c s, out = c :: s ∧ c ≠ 0xef := by
  cases j with
  | null =>
    rw [dump] at h
    cases h
    exact ⟨_, _, rfl, by decide⟩
  | bool b =>
    cases b <;> rw [dump] at h <;> cases h <;> exact ⟨_, _, rfl, by decide⟩
  | int i =>
    obtain ⟨c, w, hprint, hc⟩ := printInt_cons (Integer.ofInt i).value
    rw [dump, dumpInteger_eq List.length_replicate, hprint] at h
    cases h
    exact ⟨c, w, rfl, ne_of_number hc⟩
  | float bits =>
    have hfinite : Json.finite bits = true := hj
    obtain ⟨c, w, hw, hc⟩ := exists_cons_of_isNumber (D.isNumber bits hfinite)
    rw [dump, dumpFloat, if_pos hfinite, hw] at h
    cases h
    exact ⟨c, w, rfl, ne_of_number hc⟩
  | str s =>
    rw [dump] at h
    obtain ⟨cs, hcs, hout⟩ := exists_of_bind h
    cases hout
    exact ⟨_, _, rfl, by decide⟩
  | arr xs | obj ms =>
    rw [dump] at h
    obtain ⟨cs, hcs, hout⟩ := exists_of_bind h
    cases hout
    exact ⟨_, _, rfl, by decide⟩

theorem lex_dump {D : Doubles} {ensureAscii : Bool} {j : Json} {out : Bytes}
    (hj : j.canonical = true) (h : dump D .strict ensureAscii j = .ok out) :
    lex D.strtod out = toTokens j ++ [.endOfInput] := by
  obtain ⟨c, s, rfl, hc⟩ := head_dump hj h
  have htokens := tokens_dump j hj h ends_nil
  rw [List.append_nil, tokens_nil] at htokens
  have hbom : skipBom (c :: s) = .ok (c :: s) := by
    unfold skipBom
    exact if_neg hc
  rw [lex, hbom]
  exact htokens

theorem parse_dump {D : Doubles} {ensureAscii : Bool} {j : Json} {out : Bytes}
    (hj : j.canonical = true) (h : dump D .strict ensureAscii j = .ok out) :
    parse D.strtod out = .ok j :=
  parse_of_derives (lex_dump hj h) (derives_toTokens j hj) rfl

inductive Dumped (valid : Prop) : Except DumpError Bytes → Prop
  | ok : valid → Dumped valid (.ok out)
  | error : ¬ valid → err ≠ .overrun → Dumped valid (.error err)

section Dumped

variable {valid valid' : Prop} {x : Except DumpError Bytes} {f : Bytes → Except DumpError Bytes}

theorem Dumped.bind (h : Dumped valid x) (hf : ∀ out, x = .ok out → Dumped valid' (f out)) :
    Dumped (valid ∧ valid') (x >>= f) := by
  cases h with
  | ok hvalid =>
    have hf := hf _ rfl
    change Dumped _ (f _)
    generalize f _ = r at hf
    cases hf with
    | ok hvalid' => exact .ok ⟨hvalid, hvalid'⟩
    | error hvalid' herr => exact .error (fun h => hvalid' h.2) herr
  | error hvalid herr => exact .error (fun h => hvalid h.1) herr

theorem Dumped.congr (h : Dumped valid x) (hvalid : valid ↔ valid') : Dumped valid' x :=
  propext hvalid ▸ h

variable (D : Doubles) (ensureAscii : Bool)

theorem dumped_dumpString (s : Bytes) :
    Dumped (Utf8.valid s = true) (dumpString .strict ensureAscii s) := by
  rw [dumpString]
  obtain ⟨hvalid, us, -, -, hdump⟩ | ⟨hvalid, err, herr, hdump⟩ :=
    dumpEscaped_strict ensureAscii s
  · rw [hdump]
    exact .ok hvalid
  · rw [hdump]
    exact .error (Bool.eq_false_iff.mp hvalid) herr

theorem validText_arr {xs : List Json} :
    (∀ x ∈ xs, x.validText = true) ↔ (Json.arr xs).validText = true := by
  rw [Json.validText, Json.all, Bool.true_and]
  exact Json.allItems_iff.symm

theorem validText_obj {ms : List Json.Member} :
    (∀ m ∈ ms, Utf8.valid m.1 = true ∧ m.2.validText = true) ↔
      (Json.obj ms).validText = true := by
  rw [Json.validText, Json.all, Bool.and_eq_true, Json.allMembers_iff, List.all_eq_true]
  exact forall₂_and

mutual

theorem dumped_dump : ∀ j : Json, Dumped (j.validText = true) (dump D .strict ensureAscii j)
  | .null => by
    rw [dump]
    exact .ok rfl
  | .bool b => by
    cases b <;> rw [dump] <;> exact .ok rfl
  | .int i => by
    rw [dump, dumpInteger_eq List.length_replicate]
    exact .ok rfl
  | .float bits => by
    rw [dump]
    exact .ok rfl
  | .str s => by
    rw [dump]
    exact dumped_dumpString ensureAscii s
  | .arr xs => by
    rw [dump]
    exact ((dumped_dumpItems xs).bind fun out _ => .ok trivial).congr
      ((and_iff_left trivial).trans validText_arr)
  | .obj ms => by
    rw [dump]
    exact ((dumped_dumpMembers ms).bind fun out _ => .ok trivial).congr
      ((and_iff_left trivial).trans validText_obj)

theorem dumped_dumpItems : ∀ xs : List Json,
    Dumped (∀ x ∈ xs, x.validText = true) (dumpItems D .strict ensureAscii xs)
  | [] => by
    rw [dumpItems]
    exact .ok fun x hx => absurd hx List.not_mem_nil
  | x :: xs => by
    rw [dumpItems]
    refine ((dumped_dump x).bind fun out _ =>
      (dumped_dumpItems xs).bind fun rest _ => .ok trivial).congr ?_
    rw [and_iff_left trivial, List.forall_mem_cons]

theorem dumped_dumpMembers : ∀ ms : List Json.Member,
    Dumped (∀ m ∈ ms, Utf8.valid m.1 = true ∧ m.2.validText = true)
      (dumpMembers D .strict ensureAscii ms)
  | [] => by
    rw [dumpMembers]
    exact .ok fun m hm => absurd hm List.not_mem_nil
  | (k, x) :: ms => by
    rw [dumpMembers]
    refine ((dumped_dumpString ensureAscii k).bind fun key _ => (dumped_dump x).bind fun out _ =>
      (dumped_dumpMembers ms).bind fun rest _ => .ok trivial).congr ?_
    rw [and_iff_left trivial, List.forall_mem_cons, and_assoc]

end

end Dumped

theorem isSome_dump (D : Doubles) (j : Json) :
    (dump D .strict false j).toOption.isSome = j.validText := by
  have hdumped := dumped_dump D false j
  generalize dump D .strict false j = r at hdumped
  cases hdumped with
  | ok hvalid => exact hvalid.symm
  | error hvalid => exact (Bool.eq_false_iff.mpr hvalid).symm

theorem ok_of_toOption {ε α : Type} {x : Except ε α} {a : α} (h : x.toOption = some a) :
    x = .ok a := by
  cases x <;> cases h
  rfl

def codec (D : Doubles) : Json.Codec where
  dump j := (dump D .strict false j).toOption
  parse s := (parse D.strtod s).toOption
  dump_isSome := isSome_dump D
  parse_dump _ _ hj h := by
    rw [parse_dump hj (ok_of_toOption h)]
    rfl

theorem parse_dump_of_validText (D : Doubles) (ensureAscii : Bool) {j : Json}
    (hj : j.canonical = true) (hvalid : j.validText = true) :
    ∃ out, dump D .strict ensureAscii j = .ok out ∧ parse D.strtod out = .ok j := by
  have hdumped := dumped_dump D ensureAscii j
  generalize hdump : dump D .strict ensureAscii j = r at hdumped
  cases hdumped with
  | ok => exact ⟨_, rfl, parse_dump hj hdump⟩
  | error hinvalid => exact absurd hvalid hinvalid

theorem dump_roundTrips (D : Doubles) (ensureAscii : Bool) {j : Json} (hj : j.canonical = true) :
    (j.validText = true ∧ ∃ out, dump D .strict ensureAscii j = .ok out ∧
      parse D.strtod out = .ok j) ∨
    (j.validText = false ∧ ∃ err, err ≠ .overrun ∧ dump D .strict ensureAscii j = .error err) := by
  cases hvalid : j.validText with
  | true => exact .inl ⟨rfl, parse_dump_of_validText D ensureAscii hj hvalid⟩
  | false =>
    refine .inr ⟨rfl, ?_⟩
    have hdumped := dumped_dump D ensureAscii j
    generalize dump D .strict ensureAscii j = r at hdumped
    cases hdumped with
    | ok h => exact absurd h (Bool.eq_false_iff.mp hvalid)
    | error _ herr => exact ⟨_, herr, rfl⟩

theorem dump_roundTrips_arr :
    ((Json.arr [.null, .float 0]).validText = true ∧
      ∃ out, dump .decimal .strict true (.arr [.null, .float 0]) = .ok out ∧
        parse Doubles.decimal.strtod out = .ok (.arr [.null, .float 0])) ∨
    ((Json.arr [.null, .float 0]).validText = false ∧
      ∃ err, err ≠ .overrun ∧ dump .decimal .strict true (.arr [.null, .float 0]) = .error err) :=
  dump_roundTrips .decimal true rfl

theorem parse_roundTrips (D : Doubles) (ensureAscii : Bool) (s : Bytes) :
    (∃ j, parse D.strtod s = .ok j ∧ j.canonical = true ∧
      ∃ out, dump D .strict ensureAscii j = .ok out ∧ parse D.strtod out = .ok j) ∨
    ∃ err, parse D.strtod s = .error err ∧ err ≠ .assertion := by
  obtain ⟨j, hj, hcanonical, hvalid⟩ | herror := parse_sound D.strtod s
  · exact .inl ⟨j, hj, hcanonical, parse_dump_of_validText D ensureAscii hcanonical hvalid⟩
  · exact .inr herror

end Kungfu.Nlohmann
