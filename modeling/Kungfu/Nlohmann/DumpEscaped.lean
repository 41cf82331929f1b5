import Kungfu.Nlohmann.Decode

namespace Kungfu.Nlohmann

open Kungfu.Lib

abbrev Bytes := List UInt8

inductive ErrorHandler where
  | strict | replace | ignore

/-- What ends `dump_escaped` early: a write behind the string buffer, or a `type_error` with the
index of the byte or with the last byte. -/
inductive DumpError where
  | overrun
  | invalid (i : Nat) (byte : UInt8)
  | incomplete (last : Option UInt8)

def bufferSize : Nat := 512

structure Escaper where
  output : Bytes
  buffer : Bytes
  bytesAfterLastAccept : Nat
  undumpedChars : Nat
  state : UInt8
  codepoint : UInt32

def hexDigit (n : Nat) : UInt8 := .ofNat (if n < 10 then 0x30 + n else 0x57 + n)

def unicodeEscape (n : UInt16) : Bytes :=
  [0x5c, 0x75, hexDigit (n.toNat / 4096), hexDigit (n.toNat / 256 % 16),
    hexDigit (n.toNat / 16 % 16), hexDigit (n.toNat % 16)]

def shortEscape (codepoint : UInt32) : Option UInt8 :=
  if codepoint = 0x08 then some 0x62
  else if codepoint = 0x09 then some 0x74
  else if codepoint = 0x0a then some 0x6e
  else if codepoint = 0x0c then some 0x66
  else if codepoint = 0x0d then some 0x72
  else if codepoint = 0x22 then some 0x22
  else if codepoint = 0x5c then some 0x5c
  else none

/-- What a code point is escaped to, with the bytes that are written for it: `snprintf` ends with a
NUL. There is none where the byte is copied. -/
def escape (ensureAscii : Bool) (codepoint : UInt32) : Option (Bytes × Nat) :=
  match shortEscape codepoint with
  | some c => some ([0x5c, c], 2)
  | none =>
    if codepoint ≤ 0x1f ∨ ensureAscii ∧ 0x7f ≤ codepoint then
      if codepoint ≤ 0xffff then some (unicodeEscape codepoint.toUInt16, 7)
      else
        let high := (0xd7c0 : UInt32) + (codepoint >>> (10 : UInt32))
        let low := (0xdc00 : UInt32) + (codepoint &&& (0x3ff : UInt32))
        some (unicodeEscape high.toUInt16 ++ unicodeEscape low.toUInt16, 13)
    else none

namespace Escaper

def start : Escaper where
  output := []
  buffer := []
  bytesAfterLastAccept := 0
  undumpedChars := 0
  state := utf8Accept
  codepoint := 0

def decode (e : Escaper) (b : UInt8) : Escaper :=
  let r := Nlohmann.decode e.state e.codepoint b
  { e with state := r.1, codepoint := r.2 }

/-- Writes `n` bytes at `bytes`, of which all but a NUL count. -/
def put (e : Escaper) (cs : Bytes) (n : Nat) : Except DumpError Escaper :=
  if e.buffer.length + n ≤ bufferSize then .ok { e with buffer := e.buffer ++ cs }
  else .error .overrun

def flush (e : Escaper) : Escaper :=
  if bufferSize - e.buffer.length < 13 then
    { e with output := e.output ++ e.buffer, buffer := [] }
  else e

variable (handler : ErrorHandler) (ensureAscii : Bool)

def dumpCodepoint (e : Escaper) (b : UInt8) : Except DumpError Escaper :=
  match escape ensureAscii e.codepoint with
  | some (cs, n) => e.put cs n
  | none => e.put [b] 1

def accept (e : Escaper) (b : UInt8) : Except DumpError Escaper := do
  let e ← e.dumpCodepoint ensureAscii b
  let e := e.flush
  return { e with bytesAfterLastAccept := e.buffer.length, undumpedChars := 0 }

def replacement : Bytes :=
  if ensureAscii then [0x5c, 0x75, 0x66, 0x66, 0x66, 0x64] else [0xef, 0xbf, 0xbd]

/-- The case `UTF8_REJECT` of the handlers that go on. -/
def reject (e : Escaper) : Except DumpError Escaper :=
  let e := { e with buffer := e.buffer.take e.bytesAfterLastAccept }
  match handler with
  | .replace => do
    let e ← e.put (replacement ensureAscii) (replacement ensureAscii).length
    let e := e.flush
    return { e with bytesAfterLastAccept := e.buffer.length }
  | _ => .ok e

/-- The case of an incomplete code point. -/
def advance (e : Escaper) (b : UInt8) : Except DumpError Escaper := do
  let e ← if ensureAscii then .ok e else e.put [b] 1
  return { e with undumpedChars := e.undumpedChars + 1 }

def loop (i : Nat) : Bytes → Escaper → Except DumpError Escaper
  | [], e => .ok e
  | b :: s, e =>
    let e := e.decode b
    if e.state = utf8Accept then
      match e.accept ensureAscii b with
      | .ok e => loop (i + 1) s e
      | .error err => .error err
    else if e.state = utf8Reject then
      match handler with
      | .strict => .error (.invalid i b)
      | .ignore | .replace =>
        match e.reject handler ensureAscii with
        | .ok e' =>
          let e' := { e' with undumpedChars := 0, state := utf8Accept }
          -- the byte is read again when it came behind others that were not dumped
          if 0 < e.undumpedChars then loop i (b :: s) e' else loop (i + 1) s e'
        | .error err => .error err
    else
      match e.advance ensureAscii b with
      | .ok e => loop (i + 1) s e
      | .error err => .error err
termination_by s e => (s.length, e.undumpedChars)

end Escaper

def dumpEscaped (handler : ErrorHandler) (ensureAscii : Bool) (s : Bytes) :
    Except DumpError Bytes := do
  let e ← Escaper.loop handler ensureAscii 0 s .start
  if e.state = utf8Accept then return e.output ++ e.buffer
  else
    let accepted := e.output ++ e.buffer.take e.bytesAfterLastAccept
    match handler with
    | .strict => .error (.incomplete s.getLast?)
    | .ignore => return accepted
    | .replace => return accepted ++ Escaper.replacement ensureAscii

/-- The characters that a handler puts in the place of ill-formed bytes. -/
def ErrorHandler.substitute : ErrorHandler → List Bytes
  | .replace => [[0xef, 0xbf, 0xbd]]
  | .strict | .ignore => []

def escapeChar (ensureAscii : Bool) (u : Bytes) : Bytes :=
  ((escape ensureAscii (.ofNat (Utf8.scalar u))).map Prod.fst).getD u

theorem shortEscape_lt {codepoint : UInt32} {c : UInt8} (h : shortEscape codepoint = some c) :
    codepoint < 0x80 := by
  rw [shortEscape] at h
  grind

theorem length_escape {ensureAscii : Bool} {codepoint : UInt32} {cs : Bytes} {n : Nat}
    (h : escape ensureAscii codepoint = some (cs, n)) : cs.length ≤ n ∧ n ≤ 13 := by
  rw [escape] at h
  split at h
  · cases h
    exact ⟨Nat.le_of_ble_eq_true rfl, by decide⟩
  · split at h
    · split at h <;> cases h <;> exact ⟨Nat.le_of_ble_eq_true rfl, by decide⟩
    · cases h

theorem lt_of_escape {codepoint : UInt32} {cs : Bytes} {n : Nat}
    (h : escape false codepoint = some (cs, n)) : codepoint < 0x80 := by
  rw [escape] at h
  split at h
  next hshort => exact shortEscape_lt hshort
  next =>
    split at h
    next hcontrol => grind
    next => cases h

theorem lt_of_not_escape {codepoint : UInt32} (h : escape true codepoint = none) :
    codepoint < 0x80 := by
  rw [escape] at h
  split at h
  · cases h
  · split at h
    next => split at h <;> cases h
    next hascii => grind

namespace Escaper

variable {ensureAscii : Bool}

/-- Between two bytes: the characters so far are dumped, and the bytes behind them are at most the
beginning of one more. -/
structure Between (ensureAscii : Bool) (e : Escaper) (us : List Bytes) (accepted p : Bytes)
    (q : Utf8) : Prop where
  reads : Reads p q e.codepoint
  state : e.state = code q
  undumpedChars : e.undumpedChars = p.length
  buffer : e.buffer = accepted ++ if ensureAscii then [] else p
  bytesAfterLastAccept : e.bytesAfterLastAccept = accepted.length
  room : accepted.length ≤ 499
  output : e.output ++ accepted = us.flatMap (escapeChar ensureAscii)

theorem between_start (ensureAscii : Bool) : Between ensureAscii .start [] [] [] .accept where
  reads := reads_nil _
  state := rfl
  undumpedChars := rfl
  buffer := by cases ensureAscii <;> rfl
  bytesAfterLastAccept := rfl
  room := Nat.zero_le _
  output := rfl

variable {e : Escaper} {us : List Bytes} {accepted p : Bytes} {q : Utf8}

theorem flush_spec (e : Escaper) (h : e.buffer.length ≤ bufferSize) :
    e.flush.output ++ e.flush.buffer = e.output ++ e.buffer ∧ e.flush.buffer.length ≤ 499 := by
  rw [flush]
  split
  next => exact ⟨List.append_nil _, Nat.zero_le _⟩
  next hroom =>
    rw [bufferSize] at h hroom
    exact ⟨rfl, by omega⟩

theorem state_flush (e : Escaper) : e.flush.state = e.state := by
  rw [flush]
  split <;> rfl

theorem put_of_le {e : Escaper} {cs : Bytes} {n : Nat} (h : e.buffer.length + n ≤ bufferSize) :
    e.put cs n = .ok { e with buffer := e.buffer ++ cs } :=
  if_pos h

theorem eq_nil_of_lt {p : Bytes} {b : UInt8} {codepoint : UInt32} (hchar : Utf8.Char (p ++ [b]))
    (hcodepoint : codepoint.toNat = Utf8.scalar (p ++ [b])) (h : codepoint < 0x80) : p = [] := by
  obtain ⟨b', hb', -⟩ | ⟨hscalar, -⟩ := Utf8.scalar_cases hchar
  · have hb' : p ++ [b] = [] ++ [b'] := hb'
    exact (List.append_inj' hb' rfl).1
  · have hlt : Utf8.scalar (p ++ [b]) < 0x80 := hcodepoint ▸ UInt32.lt_iff_toNat_lt.mp h
    omega

theorem Between.dumpCodepoint (h : Between ensureAscii e us accepted p q) (e₁ : Escaper)
    (h₁ : e₁.buffer = e.buffer) {b : UInt8} (hchar : Utf8.Char (p ++ [b]))
    (hcodepoint : e₁.codepoint.toNat = Utf8.scalar (p ++ [b])) :
    e₁.dumpCodepoint ensureAscii b =
        .ok { e₁ with buffer := accepted ++ escapeChar ensureAscii (p ++ [b]) } ∧
      (accepted ++ escapeChar ensureAscii (p ++ [b])).length ≤ bufferSize := by
  have hroom := h.room
  have hp := h.reads.pending.length_le
  have hof : UInt32.ofNat (Utf8.scalar (p ++ [b])) = e₁.codepoint := by
    rw [← hcodepoint, UInt32.ofNat_toNat]
  rw [escapeChar, hof, Escaper.dumpCodepoint]
  cases hescape : escape ensureAscii e₁.codepoint with
  | some r =>
    obtain ⟨cs, n⟩ := r
    obtain ⟨hcs, hn⟩ := length_escape hescape
    have hbuffer : e₁.buffer = accepted := by
      rw [h₁, h.buffer]
      cases ensureAscii with
      | true => exact List.append_nil accepted
      | false =>
        rw [eq_nil_of_lt hchar hcodepoint (lt_of_escape hescape)]
        exact List.append_nil accepted
    dsimp only [Option.map_some, Option.getD_some]
    rw [put_of_le (by rw [hbuffer, bufferSize]; omega), hbuffer]
    refine ⟨rfl, ?_⟩
    rw [List.length_append, bufferSize]
    omega
  | none =>
    have hbuffer : e₁.buffer = accepted ++ p := by
      rw [h₁, h.buffer]
      cases ensureAscii with
      | true =>
        rw [eq_nil_of_lt hchar hcodepoint (lt_of_not_escape hescape)]
        rfl
      | false => rfl
    dsimp only [Option.map_none, Option.getD_none]
    rw [put_of_le (by rw [hbuffer, List.length_append, bufferSize]; omega), hbuffer,
      List.append_assoc]
    refine ⟨rfl, ?_⟩
    rw [List.length_append, List.length_append, List.length_singleton, bufferSize]
    omega

theorem Between.state_decode (h : Between ensureAscii e us accepted p q) (b : UInt8) :
    (e.decode b).state = code (q.step b) := by
  rw [← decode_fst q e.codepoint b, ← h.state]
  rfl

theorem Between.codepoint_decode (h : Between ensureAscii e us accepted p q) {b : UInt8}
    (hb : q.step b ≠ .reject) : (e.decode b).codepoint.toNat = Utf8.scalar (p ++ [b]) := by
  rw [← h.reads.decode_snd hb, ← h.state]
  rfl

theorem Between.accept (h : Between ensureAscii e us accepted p q) {b : UInt8}
    (hb : q.step b = .accept) (hchar : Utf8.Char (p ++ [b])) :
    ∃ e' accepted', (e.decode b).accept ensureAscii b = .ok e' ∧
      Between ensureAscii e' (us ++ [p ++ [b]]) accepted' [] .accept := by
  obtain ⟨hput, hlength⟩ :=
    h.dumpCodepoint (e.decode b) rfl hchar (h.codepoint_decode (by simp [hb]))
  let e₁ := { e.decode b with buffer := accepted ++ escapeChar ensureAscii (p ++ [b]) }
  obtain ⟨houtput, hroom⟩ := flush_spec e₁ hlength
  refine ⟨{ e₁.flush with bytesAfterLastAccept := e₁.flush.buffer.length, undumpedChars := 0 },
    e₁.flush.buffer, ?_, ?_⟩
  · rw [Escaper.accept, hput]
    rfl
  · refine ⟨reads_nil _, ?_, rfl, ?_, rfl, hroom, ?_⟩
    · exact (state_flush e₁).trans ((h.state_decode b).trans (congrArg code hb))
    · cases ensureAscii <;> exact (List.append_nil _).symm
    · rw [houtput, List.flatMap_append, List.flatMap_singleton, ← h.output, List.append_assoc]
      rfl

theorem escapeChar_replacement :
    escapeChar ensureAscii [0xef, 0xbf, 0xbd] = replacement ensureAscii := by
  cases ensureAscii <;> decide

theorem Between.reject (h : Between ensureAscii e us accepted p q) {handler : ErrorHandler}
    (hhandler : handler ≠ .strict) (b : UInt8) :
    ∃ e' accepted', (e.decode b).reject handler ensureAscii = .ok e' ∧
      Between ensureAscii { e' with undumpedChars := 0, state := utf8Accept }
        (us ++ handler.substitute) accepted' [] .accept := by
  let e₁ := { e.decode b with buffer := e.buffer.take e.bytesAfterLastAccept }
  have hbuffer : e₁.buffer = accepted := by
    change e.buffer.take e.bytesAfterLastAccept = accepted
    rw [h.buffer, h.bytesAfterLastAccept, List.take_left]
  cases handler with
  | strict => exact absurd rfl hhandler
  | ignore =>
    refine ⟨e₁, accepted, rfl, reads_nil _, rfl, rfl, ?_, h.bytesAfterLastAccept, h.room, ?_⟩
    · cases ensureAscii <;> exact hbuffer.trans (List.append_nil _).symm
    · exact h.output.trans (congrArg _ (List.append_nil us).symm)
  | replace =>
    have hroom := h.room
    have hlength : (replacement ensureAscii).length ≤ 6 := by
      cases ensureAscii <;> decide
    have hfits : e₁.buffer.length + (replacement ensureAscii).length ≤ bufferSize := by
      rw [hbuffer, bufferSize]
      omega
    let e₂ := { e₁ with buffer := e₁.buffer ++ replacement ensureAscii }
    obtain ⟨houtput, hroom'⟩ := flush_spec e₂ (by rwa [List.length_append])
    refine ⟨{ e₂.flush with bytesAfterLastAccept := e₂.flush.buffer.length }, e₂.flush.buffer, ?_,
      ?_⟩
    · exact congrArg (fun r => r >>= fun e => Except.ok
        { e.flush with bytesAfterLastAccept := e.flush.buffer.length }) (put_of_le hfits)
    · refine ⟨reads_nil _, rfl, rfl, ?_, rfl, hroom', ?_⟩
      · cases ensureAscii <;> exact (List.append_nil _).symm
      · rw [houtput, List.flatMap_append, ← h.output, List.append_assoc, ← hbuffer]
        exact congrArg (fun cs => e.output ++ (e₁.buffer ++ cs))
          (escapeChar_replacement.symm.trans (List.append_nil _).symm)

theorem Between.advance (h : Between ensureAscii e us accepted p q) {b : UInt8}
    (hb : q.step b ≠ .reject) (hpending : Utf8.Pending (p ++ [b]) (q.step b)) :
    ∃ e', (e.decode b).advance ensureAscii b = .ok e' ∧
      Between ensureAscii e' us accepted (p ++ [b]) (q.step b) := by
  have hreads : Reads (p ++ [b]) (q.step b) (e.decode b).codepoint :=
    ⟨hpending, fun _ => h.codepoint_decode hb⟩
  have hundumped : (e.decode b).undumpedChars + 1 = (p ++ [b]).length := by
    rw [List.length_append, List.length_singleton, ← h.undumpedChars]
    rfl
  cases ensureAscii with
  | true =>
    exact ⟨_, rfl, hreads, h.state_decode b, hundumped, h.buffer, h.bytesAfterLastAccept, h.room,
      h.output⟩
  | false =>
    have hroom := h.room
    have hp := h.reads.pending.length_le
    have hbuffer : (e.decode b).buffer = accepted ++ p := h.buffer
    have hfits : (e.decode b).buffer.length + 1 ≤ bufferSize := by
      rw [hbuffer, List.length_append, bufferSize]
      omega
    refine ⟨{ e.decode b with
        buffer := (e.decode b).buffer ++ [b]
        undumpedChars := (e.decode b).undumpedChars + 1 }, ?_, hreads, h.state_decode b, hundumped,
      ?_, h.bytesAfterLastAccept, h.room, h.output⟩
    · exact congrArg (fun r => r >>= fun e => Except.ok
        { e with undumpedChars := e.undumpedChars + 1 }) (put_of_le hfits)
    · exact (congrArg (· ++ [b]) hbuffer).trans (List.append_assoc ..)

/-- What the loop leaves of the rest of a text behind pending bytes: more characters are dumped, and
the last bytes may be pending again; or the text is not valid and the handler is strict. -/
inductive Outcome (handler : ErrorHandler) (ensureAscii : Bool) (us : List Bytes) (p : Bytes)
    (q : Utf8) (s : Bytes) : Except DumpError Escaper → Prop
  | ok {e' : Escaper} {us' : List Bytes} {accepted' p' : Bytes} {q' : Utf8} :
    Between ensureAscii e' (us ++ us') accepted' p' q' →
    (∀ us'', Utf8.Cleaned handler.substitute p' us'' →
      Utf8.Cleaned handler.substitute (p ++ s) (us' ++ us'')) →
    (handler = .strict → s.foldl Utf8.step q = q' ∧ us'.flatten ++ p' = p ++ s) →
    Outcome handler ensureAscii us p q s (.ok e')
  | invalid {i : Nat} {b : UInt8} : handler = .strict → s.foldl Utf8.step q = .reject →
    Outcome handler ensureAscii us p q s (.error (.invalid i b))

variable {handler : ErrorHandler} {s : Bytes}

theorem Outcome.char {b : UInt8} (hb : q.step b = .accept) (hchar : Utf8.Char (p ++ [b]))
    {r : Except DumpError Escaper}
    (h : Outcome handler ensureAscii (us ++ [p ++ [b]]) [] .accept s r) :
    Outcome handler ensureAscii us p q (b :: s) r := by
  cases h with
  | @ok e' us' _ _ _ hbetween hcleaned hstrict =>
    rw [List.append_assoc] at hbetween
    refine .ok hbetween (fun us'' h'' => ?_) fun hhandler => ?_
    · rw [List.append_cons]
      exact .char hchar (hcleaned us'' h'')
    · obtain ⟨hfold, hflatten⟩ := hstrict hhandler
      refine ⟨by rw [List.foldl_cons, hb, hfold], ?_⟩
      rw [List.flatten_append, List.flatten_singleton, List.append_assoc, hflatten]
      exact (List.append_cons p b s).symm
  | invalid hhandler hfold =>
    exact .invalid hhandler (by rw [List.foldl_cons, hb, hfold])

theorem Outcome.pending {b : UInt8} {r : Except DumpError Escaper}
    (h : Outcome handler ensureAscii us (p ++ [b]) (q.step b) s r) :
    Outcome handler ensureAscii us p q (b :: s) r := by
  cases h with
  | ok hbetween hcleaned hstrict =>
    rw [← List.append_cons] at hcleaned hstrict
    exact .ok hbetween hcleaned hstrict
  | invalid hhandler hfold => exact .invalid hhandler hfold

theorem Outcome.illFormed (hhandler : handler ≠ .strict) {s' : Bytes} (p' : Bytes)
    (hs : p ++ s = p' ++ s') (hill : Utf8.IllFormed s' p') {r : Except DumpError Escaper}
    (h : Outcome handler ensureAscii (us ++ handler.substitute) [] .accept s' r) :
    Outcome handler ensureAscii us p q s r := by
  cases h with
  | ok hbetween hcleaned _ =>
    rw [List.append_assoc] at hbetween
    refine .ok hbetween (fun us'' h'' => ?_) fun h => absurd h hhandler
    rw [hs, List.append_assoc]
    exact .illFormed hill (hcleaned us'' h'')
  | invalid h => exact absurd h hhandler

theorem handler_cases (handler : ErrorHandler) : handler = .strict ∨ handler ≠ .strict := by
  cases handler <;> simp

theorem loop_accept {i : Nat} {b : UInt8} {e' : Escaper}
    (hstate : (e.decode b).state = utf8Accept)
    (haccept : (e.decode b).accept ensureAscii b = .ok e') :
    loop handler ensureAscii i (b :: s) e = loop handler ensureAscii (i + 1) s e' := by
  rw [loop.eq_def]
  dsimp only
  rw [if_pos hstate, haccept]

theorem loop_advance {i : Nat} {b : UInt8} {e' : Escaper} (hstate : (e.decode b).state = code q)
    (haccept : q ≠ .accept) (hreject : q ≠ .reject)
    (hadvance : (e.decode b).advance ensureAscii b = .ok e') :
    loop handler ensureAscii i (b :: s) e = loop handler ensureAscii (i + 1) s e' := by
  rw [loop.eq_def]
  dsimp only
  have haccept : (e.decode b).state ≠ utf8Accept :=
    fun h => haccept (code_inj (r := .accept) (hstate.symm.trans h))
  have hreject : (e.decode b).state ≠ utf8Reject :=
    fun h => hreject (code_inj (r := .reject) (hstate.symm.trans h))
  rw [if_neg haccept, if_neg hreject, hadvance]

theorem loop_strict {i : Nat} {b : UInt8} (hstate : (e.decode b).state = utf8Reject) :
    loop .strict ensureAscii i (b :: s) e = .error (.invalid i b) := by
  rw [loop.eq_def]
  dsimp only
  rw [if_neg (hstate ▸ by decide), if_pos hstate]

theorem loop_reject {i : Nat} {b : UInt8} {e' : Escaper} (hhandler : handler ≠ .strict)
    (hstate : (e.decode b).state = utf8Reject)
    (hreject : (e.decode b).reject handler ensureAscii = .ok e') :
    loop handler ensureAscii i (b :: s) e =
      if 0 < e.undumpedChars then
        loop handler ensureAscii i (b :: s) { e' with undumpedChars := 0, state := utf8Accept }
      else
        loop handler ensureAscii (i + 1) s { e' with undumpedChars := 0, state := utf8Accept } := by
  rw [loop.eq_def]
  dsimp only
  rw [if_neg (hstate ▸ by decide), if_pos hstate]
  cases handler with
  | strict => exact absurd rfl hhandler
  | ignore | replace =>
    rw [hreject]
    rfl

theorem loop_cons (b : UInt8)
    (ih : ∀ (i : Nat) {e : Escaper} {us : List Bytes} {accepted p : Bytes} {q : Utf8},
      Between ensureAscii e us accepted p q →
        Outcome handler ensureAscii us p q s (loop handler ensureAscii i s e))
    (i : Nat) (h : Between ensureAscii e us accepted p q) (hp : p = [] ∨ q.step b ≠ .reject) :
    Outcome handler ensureAscii us p q (b :: s) (loop handler ensureAscii i (b :: s) e) := by
  have hstate := h.state_decode b
  have hsteps := h.reads.pending.steps b
  generalize hq : q.step b = q' at hstate hsteps hp
  cases hsteps with
  | accept hchar =>
    obtain ⟨e', accepted', haccept, hbetween⟩ := h.accept hq hchar
    rw [loop_accept hstate haccept]
    exact (ih _ hbetween).char hq hchar
  | pending hne hpending =>
    have hreject : q' ≠ .reject := by
      rintro rfl
      exact hpending
    subst hq
    obtain ⟨e', hadvance, hbetween⟩ := h.advance hreject hpending
    rw [loop_advance hstate hne hreject hadvance]
    exact (ih _ hbetween).pending
  | reject =>
    obtain rfl := hp.resolve_right fun hne => hne rfl
    obtain rfl := Utf8.accept_of_pending_nil h.reads.pending
    obtain rfl | hhandler := handler_cases handler
    · rw [loop_strict hstate]
      exact .invalid rfl (by rw [List.foldl_cons, hq, Utf8.foldl_step_reject])
    · obtain ⟨e', accepted', hreject, hbetween⟩ := h.reject hhandler b
      rw [loop_reject hhandler hstate hreject, if_neg (h.undumpedChars ▸ lt_irrefl 0)]
      exact (ih (i + 1) hbetween).illFormed (p := []) (s := b :: s) hhandler [b] rfl
        (Utf8.illFormed_byte hq s)

theorem loop_spec (handler : ErrorHandler) (s : Bytes) (i : Nat)
    (h : Between ensureAscii e us accepted p q) :
    Outcome handler ensureAscii us p q s (loop handler ensureAscii i s e) := by
  induction s generalizing i e us accepted p q with
  | nil =>
    rw [loop]
    have h : Between ensureAscii e (us ++ []) accepted p q := (List.append_nil us).symm ▸ h
    refine .ok h (fun us'' h'' => ?_) fun _ => ⟨rfl, ?_⟩
    · rwa [List.append_nil]
    · exact (List.append_nil p).symm
  | cons b s ih =>
    by_cases hp : p = [] ∨ q.step b ≠ .reject
    · exact loop_cons b (fun i _ _ _ _ _ h => ih i h) i h hp
    -- the byte is read again, from the beginning, after what is pending has been dropped
    · obtain ⟨hp, hb⟩ := not_or.mp hp
      have hb := not_not.mp hb
      have hstate := (h.state_decode b).trans (congrArg code hb)
      obtain rfl | hhandler := handler_cases handler
      · rw [loop_strict hstate]
        exact .invalid rfl (by rw [List.foldl_cons, hb, Utf8.foldl_step_reject])
      · obtain ⟨e', accepted', hreject, hbetween⟩ := h.reject hhandler b
        have hill : Utf8.IllFormed (b :: s) p :=
          h.reads.pending.illFormed hp fun c hc => Option.some.inj hc ▸ hb
        rw [loop_reject hhandler hstate hreject,
          if_pos (h.undumpedChars ▸ List.length_pos_iff.mpr hp)]
        exact (loop_cons b (fun i _ _ _ _ _ h => ih i h) i hbetween (.inl rfl)).illFormed
          hhandler p rfl hill

theorem Between.state_iff (h : Between ensureAscii e us accepted p q) :
    e.state = utf8Accept ↔ p = [] := by
  rw [h.state]
  constructor
  · intro hcode
    obtain rfl := code_inj (r := .accept) hcode
    exact h.reads.pending
  · intro hp
    subst hp
    rw [Utf8.accept_of_pending_nil h.reads.pending, code]

theorem Between.finish (h : Between ensureAscii e us accepted [] q) :
    e.output ++ e.buffer = us.flatMap (escapeChar ensureAscii) := by
  rw [← h.output, h.buffer]
  cases ensureAscii <;> exact congrArg _ (List.append_nil accepted)

theorem Between.take (h : Between ensureAscii e us accepted p q) :
    e.output ++ e.buffer.take e.bytesAfterLastAccept = us.flatMap (escapeChar ensureAscii) := by
  rw [← h.output, h.buffer, h.bytesAfterLastAccept, List.take_left]

end Escaper

variable {handler : ErrorHandler} {ensureAscii : Bool} {s : Bytes}

theorem dumpEscaped_cleaned (hhandler : handler ≠ .strict) :
    ∃ us, Utf8.Cleaned handler.substitute s us ∧
      dumpEscaped handler ensureAscii s = .ok (us.flatMap (escapeChar ensureAscii)) := by
  have houtcome := Escaper.loop_spec handler s 0 (Escaper.between_start ensureAscii)
  rw [dumpEscaped]
  generalize Escaper.loop handler ensureAscii 0 s .start = r at houtcome
  cases houtcome with
  | invalid h => exact absurd h hhandler
  | @ok e us accepted p q h hcleaned _ =>
    have h : Escaper.Between ensureAscii e us accepted p q := h
    dsimp only [bind, Except.bind]
    by_cases hp : p = []
    · subst hp
      refine ⟨us, us.append_nil ▸ hcleaned [] .nil, ?_⟩
      rw [if_pos (h.state_iff.mpr rfl), h.finish]
      rfl
    · have hill : Utf8.IllFormed [] p :=
        h.reads.pending.illFormed hp fun b hb => absurd hb (Option.not_mem_none b)
      have hpending : Utf8.Cleaned handler.substitute (p ++ []) (handler.substitute ++ []) :=
        .illFormed hill .nil
      rw [List.append_nil, List.append_nil] at hpending
      refine ⟨us ++ handler.substitute, hcleaned _ hpending, ?_⟩
      rw [if_neg (mt h.state_iff.mp hp), h.take, List.flatMap_append]
      cases handler with
      | strict => exact absurd rfl hhandler
      | ignore => exact congrArg Except.ok (List.append_nil _).symm
      | replace =>
        rw [← Escaper.escapeChar_replacement]
        exact congrArg (fun cs => Except.ok (us.flatMap (escapeChar ensureAscii) ++ cs))
          (List.append_nil _).symm

theorem dumpEscaped_cleaned_incomplete :
    ∃ us, Utf8.Cleaned [[0xef, 0xbf, 0xbd]] [0xc3, 0x41] us ∧
      dumpEscaped .replace false [0xc3, 0x41] = .ok (us.flatMap (escapeChar false)) :=
  @dumpEscaped_cleaned .replace false [0xc3, 0x41] (by simp)

theorem dumpEscaped_strict (ensureAscii : Bool) (s : Bytes) :
    (Utf8.valid s = true ∧ ∃ us : List Bytes, (∀ u ∈ us, Utf8.Char u) ∧ us.flatten = s ∧
      dumpEscaped .strict ensureAscii s = .ok (us.flatMap (escapeChar ensureAscii))) ∨
    (Utf8.valid s = false ∧ ∃ err, err ≠ .overrun ∧
      dumpEscaped .strict ensureAscii s = .error err) := by
  have houtcome := Escaper.loop_spec .strict s 0 (Escaper.between_start ensureAscii)
  rw [dumpEscaped, Utf8.valid, decide_eq_true_eq, decide_eq_false_iff_not]
  generalize Escaper.loop .strict ensureAscii 0 s .start = r at houtcome
  cases houtcome with
  | @invalid i b _ hfold =>
    exact .inr ⟨hfold ▸ by decide, .invalid i b, by simp, rfl⟩
  | @ok e us accepted p q h hcleaned hstrict =>
    have h : Escaper.Between ensureAscii e us accepted p q := h
    obtain ⟨hfold, hflatten⟩ := hstrict rfl
    dsimp only [bind, Except.bind]
    by_cases hp : p = []
    · subst hp
      have hus := (hcleaned [] .nil).valid fun u hu => absurd hu List.not_mem_nil
      rw [List.append_nil] at hus hflatten
      refine .inl ⟨hfold.trans (Utf8.accept_of_pending_nil h.reads.pending), us, hus, hflatten, ?_⟩
      rw [if_pos (h.state_iff.mpr rfl), h.finish]
      rfl
    · refine .inr ⟨?_, .incomplete s.getLast?, by simp, ?_⟩
      · rw [hfold]
        rintro rfl
        exact hp h.reads.pending
      · rw [if_neg (mt h.state_iff.mp hp)]

end Kungfu.Nlohmann
