import Kungfu.Longfist.Text
import Kungfu.Yijinjing.Journal.Frame

/-!
The `write` templates of `journal.h` over `open_frame` and `close_frame`, and `event::data`.
-/

namespace Kungfu.Yijinjing.Journal

open Kungfu.Lib Kungfu.Common Kungfu.Longfist

/-- A journal under its writer: the frame at the write position, the payload bytes that may
be written there while it is open, and the addresses of the frames closed so far. -/
structure JournalState where
  memory : Memory
  frame : Nat
  room : Nat
  closed : List Nat

inductive Failure where
  | exception
  | overrun

abbrev Write := EStateM Failure JournalState

/-- `open_frame` and `close_frame`, whose bodies are not part of the sources. -/
structure FrameOps where
  openFrame (triggerTime : BitVec 64) (msgType length : BitVec 32) : JournalState → JournalState
  closeFrame (dataLength : Nat) (genTime : BitVec 64) : JournalState → JournalState
  openFrame_headerLength : ∀ t ty len j, Frame.headerLength (openFrame t ty len j).memory
    (openFrame t ty len j).frame = .ofNat 32 headerSize
  openFrame_room : ∀ t ty len j, (openFrame t ty len j).room = len.toNat
  openFrame_space : ∀ t ty len j,
    (openFrame t ty len j).frame + headerSize + len.toNat < 2 ^ 64
  openFrame_closed : ∀ t ty len j, (openFrame t ty len j).closed = j.closed
  closeFrame_headerLength : ∀ n g j, Frame.headerLength (closeFrame n g j).memory j.frame =
    Frame.headerLength j.memory j.frame
  closeFrame_dataLength : ∀ n g j,
    Frame.dataLength (closeFrame n g j).memory j.frame = .ofNat 32 n
  closeFrame_payload : ∀ n g j, (closeFrame n g j).memory.read (j.frame + headerSize) n =
    j.memory.read (j.frame + headerSize) n
  closeFrame_closed : ∀ n g j, (closeFrame n g j).closed = j.closed ++ [j.frame]

def memcpy (bytes : Bytes) : Write Unit := fun j =>
  if bytes.length ≤ j.room then
    .ok () { j with memory := j.memory.write (Frame.dataAddress j.memory j.frame) bytes }
  else .error .overrun j

def setAddress : Option (BitVec 32 × BitVec 32) → Write Unit
  | none => pure ()
  | some (source, dest) => do
    modify fun j => { j with memory := HeaderField.source.set source j.memory j.frame }
    modify fun j => { j with memory := HeaderField.dest.set dest j.memory j.frame }

section

variable (C : Json.Codec) (ops : FrameOps)

/-- What a `write` copies: the object of a size-fixed type, the text of any other. The text is
made before a frame is opened. -/
def payload {S : Schema} (r : S.Data) : Write Bytes :=
  if S.sizeFixed then pure r.toBytes
  else
    match S.toString C r with
    | some t => pure t
    | none => throw .exception

/-- The rest of a `write`. The length becomes a `uint32_t` for `open_frame` only. -/
def writeFrame (triggerTime : BitVec 64) (msgType : BitVec 32) (bytes : Bytes)
    (address : Option (BitVec 32 × BitVec 32)) (genTime : BitVec 64) : Write Unit := do
  modify (ops.openFrame triggerTime msgType (.ofNat 32 bytes.length))
  memcpy bytes
  setAddress address
  modify (ops.closeFrame bytes.length genTime)

variable (now : BitVec 64) {S : Schema}

def write (triggerTime : BitVec 64) (r : S.Data) (msgType : BitVec 32) : Write Unit := do
  writeFrame ops triggerTime msgType (← payload C r) none now

def writeAs (triggerTime : BitVec 64) (r : S.Data) (source dest : BitVec 32) : Write Unit := do
  writeFrame ops triggerTime S.tag.toBitVec (← payload C r) (some (source, dest)) now

def writeAt (genTime triggerTime : BitVec 64) (r : S.Data) : Write Unit := do
  writeFrame ops triggerTime S.tag.toBitVec (← payload C r) none genTime

def data (S : Schema) (m : Memory) (a : Nat) : Option S.Data :=
  if S.sizeFixed then some (.ofBytes S.fields (m.read (Frame.dataAddress m a) S.size))
  else S.construct C (m.read (Frame.dataAddress m a) (Frame.dataLength m a).toNat)
    (.ofBitVec (Frame.dataLength m a))

end

/-- A text that cannot be made throws and nothing else happens, or one frame is closed that
holds the record. -/
def RoundTrips (C : Json.Codec) {S : Schema} (r : S.Data) (w : Write Unit)
    (j : JournalState) : Prop :=
  (S.sizeFixed = false ∧ S.toString C r = none ∧ w j = .error .exception j) ∨
    ∃ j' a, w j = .ok () j' ∧ j'.closed = j.closed ++ [a] ∧ data C S j'.memory a = some r

variable {C : Json.Codec} {S : Schema}

theorem setAddress_spec (address : Option (BitVec 32 × BitVec 32)) (j : JournalState) :
    ∃ m, setAddress address j = .ok () { j with memory := m } ∧
      Frame.headerLength m j.frame = Frame.headerLength j.memory j.frame ∧
      ∀ n, m.read (j.frame + headerSize) n = j.memory.read (j.frame + headerSize) n := by
  cases address with
  | none => exact ⟨j.memory, rfl, rfl, fun _ => rfl⟩
  | some p =>
    refine ⟨HeaderField.dest.set p.2 (HeaderField.source.set p.1 j.memory j.frame) j.frame,
      rfl, ?_, fun n => ?_⟩
    · simp [Frame.headerLength]
    · rw [HeaderField.read_set, HeaderField.read_set]

theorem writeFrame_eq (ops : FrameOps) (t : BitVec 64) (ty : BitVec 32) (bytes : Bytes)
    (address : Option (BitVec 32 × BitVec 32)) (g : BitVec 64) (j : JournalState) :
    writeFrame ops t ty bytes address g j =
      (do
        memcpy bytes
        setAddress address
        modify (ops.closeFrame bytes.length g)) (ops.openFrame t ty (.ofNat 32 bytes.length) j) :=
  rfl

theorem writeFrame_spec (ops : FrameOps) {bytes : Bytes} (hlen : bytes.length < 2 ^ 32)
    (t g : BitVec 64) (ty : BitVec 32) (address : Option (BitVec 32 × BitVec 32))
    (j : JournalState) :
    ∃ j' a, writeFrame ops t ty bytes address g j = .ok () j' ∧
      j'.closed = j.closed ++ [a] ∧
      Frame.dataLength j'.memory a = .ofNat 32 bytes.length ∧
      j'.memory.read (Frame.dataAddress j'.memory a) bytes.length = bytes := by
  have hnat : (BitVec.ofNat 32 bytes.length).toNat = bytes.length := by
    rw [BitVec.toNat_ofNat, Nat.mod_eq_of_lt hlen]
  generalize hopen : ops.openFrame t ty (.ofNat 32 bytes.length) j = opened
  have hheader : Frame.headerLength opened.memory opened.frame = .ofNat 32 headerSize :=
    hopen ▸ ops.openFrame_headerLength ..
  have hroom : bytes.length ≤ opened.room := by
    rw [← hopen, ops.openFrame_room, hnat]
  have hspace : opened.frame + headerSize < 2 ^ 64 := by
    have := ops.openFrame_space t ty (.ofNat 32 bytes.length) j
    rw [hopen] at this
    omega
  have hdata := Frame.dataAddress_of_headerLength hheader hspace
  let copied := { opened with
    memory := opened.memory.write (opened.frame + headerSize) bytes }
  have hcopy : memcpy bytes opened = .ok () copied := by
    rw [memcpy, if_pos hroom, hdata]
  obtain ⟨m, hset, hset_header, hset_read⟩ := setAddress_spec address copied
  let closed := ops.closeFrame bytes.length g { copied with memory := m }
  have hrun : writeFrame ops t ty bytes address g j = .ok () closed := by
    rw [writeFrame_eq, hopen]
    simp only [bind, EStateM.bind, hcopy, hset]
    rfl
  have hclosed_header : Frame.headerLength closed.memory opened.frame = .ofNat 32 headerSize := by
    rw [ops.closeFrame_headerLength _ _ { copied with memory := m }, hset_header]
    exact (HeaderField.get_write bytes).trans hheader
  refine ⟨closed, opened.frame, hrun, ?_, ops.closeFrame_dataLength .., ?_⟩
  · rw [ops.closeFrame_closed, ← ops.openFrame_closed t ty (.ofNat 32 bytes.length) j, hopen]
  · rw [Frame.dataAddress_of_headerLength hclosed_header hspace,
      ops.closeFrame_payload _ _ { copied with memory := m }, hset_read]
    exact Memory.read_write_same

inductive Call where
  | write (triggerTime : BitVec 64) (msgType : BitVec 32)
  | writeAs (triggerTime : BitVec 64) (source dest : BitVec 32)
  | writeAt (genTime triggerTime : BitVec 64)

def Call.run (C : Json.Codec) (ops : FrameOps) (now : BitVec 64) (r : S.Data) : Call → Write Unit
  | .write t ty => Journal.write C ops now t r ty
  | .writeAs t source dest => Journal.writeAs C ops now t r source dest
  | .writeAt g t => Journal.writeAt C ops g t r

theorem Call.run_eq (C : Json.Codec) (ops : FrameOps) (now : BitVec 64) (r : S.Data) (call : Call) :
    ∃ t ty address g, call.run C ops now r =
      payload C r >>= fun bytes => writeFrame ops t ty bytes address g := by
  cases call with
  | write t ty => exact ⟨t, ty, none, now, rfl⟩
  | writeAs t source dest => exact ⟨t, _, some (source, dest), now, rfl⟩
  | writeAt g t => exact ⟨t, _, none, g, rfl⟩

theorem data_of_fixed (hfixed : S.sizeFixed = true) {r : S.Data} {m : Memory} {a : Nat}
    (h : m.read (Frame.dataAddress m a) r.toBytes.length = r.toBytes) :
    data C S m a = some r := by
  have hsize : r.toBytes.length = S.size := r.length_toBytes
  have hfields : ∀ f ∈ S.fields, f.type.sizeFixed = true := List.all_eq_true.mp hfixed
  rw [data, if_pos hfixed, ← hsize, h, Record.ofBytes_toBytes hfields]

theorem data_of_unfixed {T : DataType} (hunfixed : T.schema.sizeFixed = false)
    {r : T.schema.Data} {t : Bytes} (ht : T.schema.toString C r = some t)
    (hlen : t.length < 2 ^ 32) {m : Memory} {a : Nat}
    (hlength : Frame.dataLength m a = .ofNat 32 t.length)
    (h : m.read (Frame.dataAddress m a) t.length = t) : data C T.schema m a = some r := by
  have hplain := DataType.plain_of_unfixed hunfixed
  have hnat : (BitVec.ofNat 32 t.length).toNat = t.length := by
    rw [BitVec.toNat_ofNat, Nat.mod_eq_of_lt hlen]
  rw [data, if_neg (by simp [hunfixed]), hlength, hnat, h]
  exact Schema.ofText_of_toString_of_plain hplain ht hlen

theorem payload_of_unfixed (hunfixed : S.sizeFixed = false) {r : S.Data} {t : Bytes}
    (ht : S.toString C r = some t) : payload C r = pure t := by
  rw [payload, if_neg (by simp [hunfixed]), ht]

theorem payload_of_throw (hunfixed : S.sizeFixed = false) {r : S.Data}
    (ht : S.toString C r = none) : payload C r = throw .exception := by
  rw [payload, if_neg (by simp [hunfixed]), ht]

def Writable (C : Json.Codec) {S : Schema} (r : S.Data) : Prop :=
  S.sizeFixed = true ∨ ∃ t, S.toString C r = some t ∧ t.length < 2 ^ 32

theorem run_closes {T : DataType} {r : T.schema.Data} (h : Writable C r) (ops : FrameOps)
    (now : BitVec 64) (call : Call) (j : JournalState) :
    ∃ j' a, call.run C ops now r j = .ok () j' ∧ j'.closed = j.closed ++ [a] ∧
      data C T.schema j'.memory a = some r := by
  obtain ⟨t, ty, address, g, hrun⟩ := call.run_eq C ops now r
  rw [hrun]
  cases hfixed : T.schema.sizeFixed with
  | true =>
    have hsize : r.toBytes.length < 2 ^ 32 := by
      rw [Record.length_toBytes]
      exact T.size_lt
    obtain ⟨j', a, hw, hclosed, -, hread⟩ := writeFrame_spec ops hsize t g ty address j
    refine ⟨j', a, ?_, hclosed, data_of_fixed hfixed hread⟩
    rw [payload, if_pos hfixed]
    exact hw
  | false =>
    obtain ⟨text, htext, hlen⟩ := h.resolve_left (by simp [hfixed])
    obtain ⟨j', a, hw, hclosed, hlength, hread⟩ := writeFrame_spec ops hlen t g ty address j
    refine ⟨j', a, ?_, hclosed, data_of_unfixed hfixed htext hlen hlength hread⟩
    rw [payload_of_unfixed hfixed htext]
    exact hw

theorem run_throws (hunfixed : S.sizeFixed = false) {r : S.Data} (ht : S.toString C r = none)
    (ops : FrameOps) (now : BitVec 64) (call : Call) (j : JournalState) :
    call.run C ops now r j = .error .exception j := by
  obtain ⟨t, ty, address, g, hrun⟩ := call.run_eq C ops now r
  rw [hrun, payload_of_throw hunfixed ht]
  rfl

theorem run_roundTrips (C : Json.Codec) (ops : FrameOps) (now : BitVec 64) (T : DataType)
    (r : T.schema.Data) (hlen : T.schema.sizeFixed = false →
      ∀ t, T.schema.toString C r = some t → t.length < 2 ^ 32)
    (call : Call) (j : JournalState) : RoundTrips C r (call.run C ops now r) j := by
  cases hfixed : T.schema.sizeFixed with
  | true => exact .inr (run_closes (.inl hfixed) ops now call j)
  | false =>
    cases htext : T.schema.toString C r with
    | none => exact .inl ⟨hfixed, htext, run_throws hfixed htext ops now call j⟩
    | some text =>
      exact .inr (run_closes (.inr ⟨text, htext, hlen hfixed text htext⟩) ops now call j)

theorem wrapped_add_lt (a : Nat) (len : BitVec 32) :
    (if a + headerSize + len.toNat < 2 ^ 64 then a else 0) + headerSize + len.toNat < 2 ^ 64 := by
  have := len.isLt
  rw [headerSize_eq]
  split_ifs <;> omega

/-- Frames one behind the other, from the start again when the address space is used up. -/
def plainFrames : FrameOps where
  openFrame t ty len j :=
    let a := if j.frame + headerSize + len.toNat < 2 ^ 64 then j.frame else 0
    let m := HeaderField.msgType.set ty (HeaderField.triggerTime.set t j.memory a) a
    { j with memory := Frame.setHeaderLength m a, frame := a, room := len.toNat }
  closeFrame n g j :=
    { memory :=
        Frame.setDataLength (HeaderField.genTime.set g j.memory j.frame) j.frame (.ofNat 32 n)
      frame := j.frame + headerSize + n
      room := 0
      closed := j.closed ++ [j.frame] }
  openFrame_headerLength _ _ _ _ := Frame.headerLength_setHeaderLength ..
  openFrame_room _ _ _ _ := rfl
  openFrame_space _ _ len j := wrapped_add_lt j.frame len
  openFrame_closed _ _ _ _ := rfl
  closeFrame_headerLength _ g j :=
    (Frame.headerLength_setDataLength ..).trans (Frame.headerLength_set_genTime j.memory j.frame g)
  closeFrame_dataLength _ _ _ := Frame.dataLength_setDataLength ..
  closeFrame_payload _ g _ :=
    (Frame.read_setDataLength ..).trans (HeaderField.read_set (f := .genTime) g _)
  closeFrame_closed _ _ _ := rfl

theorem run_roundTrips_escapedKey :
    RoundTrips (S := DataType.timeKeyValue.schema) JsonText.codec (withKey [104, 34])
      (Call.run JsonText.codec plainFrames 1 (withKey [104, 34]) (.writeAs 2 3 4))
      ⟨fun _ => 0, 4096, 0, []⟩ := by
  refine run_roundTrips JsonText.codec plainFrames 1 .timeKeyValue (withKey [104, 34])
    (fun _ t ht => ?_) (.writeAs 2 3 4) _
  exact length_toString_escapedKey ht

theorem writeFrame_overrun (ops : FrameOps) {bytes : Bytes} (hlen : 2 ^ 32 ≤ bytes.length)
    (t g : BitVec 64) (ty : BitVec 32) (address : Option (BitVec 32 × BitVec 32))
    (j : JournalState) :
    ∃ j', writeFrame ops t ty bytes address g j = .error .overrun j' := by
  generalize hopen : ops.openFrame t ty (.ofNat 32 bytes.length) j = opened
  have hroom : ¬ bytes.length ≤ opened.room := by
    rw [← hopen, ops.openFrame_room]
    have := (BitVec.ofNat 32 bytes.length).isLt
    omega
  have hcopy : memcpy bytes opened = .error .overrun opened := by
    rw [memcpy, if_neg hroom]
  refine ⟨opened, ?_⟩
  rw [writeFrame_eq, hopen]
  simp only [bind, EStateM.bind, hcopy]

theorem run_overrun (ops : FrameOps) (hunfixed : S.sizeFixed = false) {r : S.Data} {text : Bytes}
    (ht : S.toString C r = some text) (hlen : 2 ^ 32 ≤ text.length) (now : BitVec 64) (call : Call)
    (j : JournalState) : ∃ j', call.run C ops now r j = .error .overrun j' := by
  obtain ⟨t, ty, address, g, hrun⟩ := call.run_eq C ops now r
  rw [hrun, payload_of_unfixed hunfixed ht]
  exact writeFrame_overrun ops hlen t g ty address j

/-- Without the bound on texts a key of 4 GiB is copied beyond its frame. -/
theorem not_run_roundTrips_longKey :
    ¬ ∀ (C : Json.Codec) (ops : FrameOps) (now : BitVec 64) (T : DataType) (r : T.schema.Data)
      (call : Call) (j : JournalState), RoundTrips C r (call.run C ops now r) j := by
  intro h
  obtain ⟨u, hu⟩ := toString_longKey (2 ^ 32)
  have hlen : 2 ^ 32 ≤ (beforeKey ++ (List.replicate (2 ^ 32) 97 ++ u)).length := by
    rw [List.length_append, List.length_append, List.length_replicate]
    omega
  obtain ⟨j', hover⟩ := run_overrun plainFrames (by decide) hu hlen 0 (.write 0 0)
    ⟨fun _ => 0, 0, 0, []⟩
  rcases h JsonText.codec plainFrames 0 .timeKeyValue _ (.write 0 0) ⟨fun _ => 0, 0, 0, []⟩ with
    ⟨-, hnone, -⟩ | ⟨j'', a, hok, -⟩
  · exact absurd (hnone.symm.trans hu) nofun
  · exact absurd (hok.symm.trans hover) nofun

end Kungfu.Yijinjing.Journal
