import Kungfu.Common.Field
import Mathlib.Logic.Function.Iterate

/-!
The poll loop of `socket/poller_epoll.h`, step by step over the results of its system calls: which
entries of `epoll_events_` it looks at, and what it hands to the handlers.
-/

namespace Kungfu.Yijinjing.Socket

open Kungfu.Common

def maxEvents : Nat := 100

def rcvBufferSize : Nat := 2048

def pollInEvent : UInt32 := 1

def pollOutEvent : UInt32 := 2

def epollIn : UInt32 := 1

def epollOut : UInt32 := 4

structure PollEvent (H : Type) where
  fd : Int32
  events : UInt32
  rcvHandler : H

structure EpollEvent where
  events : UInt32
  data : UInt64
  deriving DecidableEq

/-- What the first loop passes to `epoll_ctl`; the flags are set in a word that is not
initialised. -/
def registrations {H : Type} (events : List (PollEvent H)) (garbage : Nat → UInt32) :
    List EpollEvent :=
  events.zipIdx.map fun x => {
    events := garbage x.2 ||| (if x.1.events &&& pollInEvent ≠ 0 then epollIn else 0) |||
      (if x.1.events &&& pollOutEvent ≠ 0 then epollOut else 0)
    data := .ofNat x.2 }

/-- What the system calls return, by the number of the call: `none` is -1, and else `epoll_wait`
fills entries with the data of registrations, and `read` bytes of the buffer. `stops` tells which
calls of a handler call `stop()`. -/
structure SystemCalls (registered : List EpollEvent) where
  epollWait : Nat → Option (List EpollEvent)
  read : Nat → Option Bytes
  stops : Nat → Bool
  epollWait_le : ∀ i, ∀ filled ∈ epollWait i, filled.length ≤ maxEvents
  epollWait_data : ∀ i, ∀ filled ∈ epollWait i, ∀ e ∈ filled, ∃ r ∈ registered, e.data = r.data
  read_le : ∀ i, ∀ bytes ∈ read i, bytes.length ≤ rcvBufferSize

def returned {α : Type} : Option (List α) → Int
  | none => -1
  | some xs => xs.length

def toSize (n : Int) : Nat := (n % 2 ^ 64).toNat

structure HandlerCall (H : Type) where
  rcvHandler : H
  buffer : Bytes
  length : Nat
  result : Option Bytes

/-- A pass of the inner loop, with the entries that the latest `epoll_wait` has filled. -/
structure Examination (H : Type) where
  idx : Nat
  filled : List EpollEvent
  call : Option (HandlerCall H)

inductive Phase where
  | outer
  | inner (idx n : Nat)
  | returned
  | threw
  | outOfBounds

structure Poller (H : Type) where
  live : Bool
  buffer : Bytes
  epollEvents : Nat → EpollEvent
  phase : Phase
  waits : Nat
  reads : Nat
  calls : Nat
  filled : List EpollEvent
  log : List (Examination H)

namespace Poller

variable {H : Type}

/-- `poll` in front of its outer loop; the members are not initialised. -/
def start (buffer : Bytes) (epollEvents : Nat → EpollEvent) : Poller H where
  live := true
  buffer := buffer
  epollEvents := epollEvents
  phase := .outer
  waits := 0
  reads := 0
  calls := 0
  filled := []
  log := []

section

variable {registered : List EpollEvent} (events : List (PollEvent H))
  (sys : SystemCalls registered) (p : Poller H)

/-- `epoll_wait(epoll_fd_, epoll_events_, MAX_EVENTS, 0)`. -/
def wait : Poller H :=
  let result := sys.epollWait p.waits
  let filled := result.getD []
  { p with
    epollEvents := fun i => filled[i]?.getD (p.epollEvents i)
    phase := .inner 0 (toSize (returned result))
    waits := p.waits + 1
    filled := filled }

def examine (idx : Nat) (call : Option (HandlerCall H)) (phase : Phase) : Poller H :=
  { p with log := p.log ++ [⟨idx, p.filled, call⟩], phase := phase }

def receive : Poller H :=
  let bytes := (sys.read p.reads).getD []
  { p with
    buffer := bytes ++ List.replicate (rcvBufferSize - bytes.length) 0
    reads := p.reads + 1 }

def dispatch (pollEv : PollEvent H) (idx n : Nat) : Poller H :=
  let result := sys.read p.reads
  let length := toSize (returned result)
  let p := p.receive sys
  if 0 < length then
    { p.examine idx (some ⟨pollEv.rcvHandler, p.buffer, length, result⟩) (.inner (idx + 1) n) with
      live := p.live && !sys.stops p.calls
      calls := p.calls + 1 }
  else p.examine idx none (.inner (idx + 1) n)

def body (idx n : Nat) : Poller H :=
  if idx < maxEvents then
    if (p.epollEvents idx).events &&& epollIn ≠ 0 then
      match events[(p.epollEvents idx).data.toNat]? with
      | none => p.examine idx none .threw
      | some pollEv => p.dispatch sys pollEv idx n
    else p.examine idx none (.inner (idx + 1) n)
  else p.examine idx none .outOfBounds

def step : Poller H :=
  match p.phase with
  | .outer => if p.live then p.wait sys else { p with phase := .returned }
  | .inner idx n => if idx < n then p.body events sys idx n else { p with phase := .outer }
  | .returned | .threw | .outOfBounds => p

def run (k : Nat) : Poller H := (step events sys)^[k] p

def ErrorFree : Prop :=
  (∀ i < p.waits, (sys.epollWait i).isSome) ∧ ∀ i < p.reads, (sys.read i).isSome

end

end Poller

structure Examination.Sound {H : Type} (events : List (PollEvent H)) (x : Examination H) :
    Prop where
  filled : x.idx < x.filled.length
  call : ∀ c ∈ x.call, ∃ e pollEv bytes, x.filled[x.idx]? = some e ∧ e.events &&& epollIn ≠ 0 ∧
    events[e.data.toNat]? = some pollEv ∧ c.rcvHandler = pollEv.rcvHandler ∧
    c.result = some bytes ∧ c.length = bytes.length ∧ 0 < c.length ∧ c.length ≤ rcvBufferSize ∧
    c.buffer.take c.length = bytes

def Poller.InBounds {H : Type} (events : List (PollEvent H)) (p : Poller H) : Prop :=
  ∀ x ∈ p.log, x.Sound events

theorem toSize_natCast {n : Nat} (h : n < 2 ^ 64) : toSize n = n := by
  rw [toSize]
  omega

theorem toSize_neg_one : toSize (-1) = 2 ^ 64 - 1 := rfl

theorem toSize_returned_some {α : Type} {xs : List α} (h : xs.length < 2 ^ 64) :
    toSize (returned (some xs)) = xs.length := toSize_natCast h

namespace Poller

section

variable {H : Type} {registered : List EpollEvent} {events : List (PollEvent H)}
  {sys : SystemCalls registered} {p : Poller H} {idx n k : Nat} {pollEv : PollEvent H}

@[simp] theorem dispatch_reads : (p.dispatch sys pollEv idx n).reads = p.reads + 1 := by
  unfold dispatch
  dsimp only
  split <;> rfl

@[simp] theorem dispatch_waits : (p.dispatch sys pollEv idx n).waits = p.waits := by
  unfold dispatch
  dsimp only
  split <;> rfl

theorem exists_log_body :
    ∃ call, (p.body events sys idx n).log = p.log ++ [⟨idx, p.filled, call⟩] := by
  unfold body dispatch
  dsimp only
  split
  · split
    · split
      · exact ⟨_, rfl⟩
      · split
        · exact ⟨_, rfl⟩
        · exact ⟨_, rfl⟩
    · exact ⟨_, rfl⟩
  · exact ⟨_, rfl⟩

theorem run_succ : p.run events sys (k + 1) = (p.run events sys k).step events sys :=
  Function.iterate_succ_apply' _ k p

theorem body_counts : (p.body events sys idx n).waits = p.waits ∧
    p.reads ≤ (p.body events sys idx n).reads := by
  unfold body
  split
  · split
    · split
      · exact ⟨rfl, le_rfl⟩
      · exact ⟨dispatch_waits, by rw [dispatch_reads]; exact Nat.le_succ _⟩
    · exact ⟨rfl, le_rfl⟩
  · exact ⟨rfl, le_rfl⟩

theorem ErrorFree.of_step (h : (p.step events sys).ErrorFree sys) : p.ErrorFree sys := by
  have hcounts : p.waits ≤ (p.step events sys).waits ∧ p.reads ≤ (p.step events sys).reads := by
    unfold step
    split
    · split
      · exact ⟨Nat.le_succ _, le_rfl⟩
      · exact ⟨le_rfl, le_rfl⟩
    · split
      · exact ⟨body_counts.1.ge, body_counts.2⟩
      · exact ⟨le_rfl, le_rfl⟩
    all_goals exact ⟨le_rfl, le_rfl⟩
  exact ⟨fun i hi => h.1 i (hi.trans_le hcounts.1), fun i hi => h.2 i (hi.trans_le hcounts.2)⟩

end

section

variable {H : Type} {events : List (PollEvent H)} {garbage : Nat → UInt32}
  {sys : SystemCalls (registrations events garbage)} {p : Poller H} {idx n k : Nat}

theorem exists_getElem?_of_filled {i : Nat} {filled : List EpollEvent} {e : EpollEvent}
    (h : sys.epollWait i = some filled) (he : e ∈ filled) :
    ∃ pollEv, events[e.data.toNat]? = some pollEv := by
  obtain ⟨r, hr, hdata⟩ := sys.epollWait_data i filled h e he
  obtain ⟨⟨pollEv, j⟩, hx, rfl⟩ := List.mem_map.mp hr
  have hj : j < events.length := by
    have hlt := List.snd_lt_of_mem_zipIdx hx
    omega
  have hle : e.data.toNat ≤ j := by
    rw [hdata, UInt64.toNat_ofNat']
    exact Nat.mod_le ..
  exact ⟨_, List.getElem?_eq_getElem (hle.trans_lt hj)⟩

/-- As long as there was no error, the inner loop goes over the entries that were filled. -/
structure Inv (events : List (PollEvent H)) (p : Poller H) : Prop where
  log : p.InBounds events
  registered : ∀ e ∈ p.filled, ∃ pollEv, events[e.data.toNat]? = some pollEv
  filled_le : p.filled.length ≤ maxEvents
  entries : ∀ i < p.filled.length, p.filled[i]? = some (p.epollEvents i)
  inner : ∀ idx n, p.phase = .inner idx n → n = p.filled.length

theorem inv_start (buffer : Bytes) (epollEvents : Nat → EpollEvent) :
    (start buffer epollEvents : Poller H).Inv events :=
  ⟨nofun, nofun, Nat.zero_le _, nofun, nofun⟩

theorem Inv.examine (h : p.Inv events) {call : Option (HandlerCall H)} {phase : Phase}
    (hsound : (⟨idx, p.filled, call⟩ : Examination H).Sound events)
    (hphase : ∀ i m, phase = .inner i m → m = p.filled.length) :
    (p.examine idx call phase).Inv events := by
  refine ⟨fun x hx => ?_, h.registered, h.filled_le, h.entries, hphase⟩
  rcases List.mem_append.mp hx with hx | hx
  · exact h.log x hx
  · obtain rfl := List.mem_singleton.mp hx
    exact hsound

theorem Inv.receive (h : p.Inv events) : (p.receive sys).Inv events :=
  ⟨h.log, h.registered, h.filled_le, h.entries, h.inner⟩

theorem sound_none {filled : List EpollEvent} (h : idx < filled.length) :
    (⟨idx, filled, none⟩ : Examination H).Sound events := ⟨h, nofun⟩

theorem Inv.wait (h : p.Inv events) {filled : List EpollEvent}
    (hwait : sys.epollWait p.waits = some filled) : (p.wait sys).Inv events := by
  have hle := sys.epollWait_le _ _ hwait
  rw [Poller.wait, hwait]
  refine ⟨h.log, fun e he => exists_getElem?_of_filled hwait he, hle, fun i hi => ?_, ?_⟩
  · have hi' : i < filled.length := hi
    change filled[i]? = some (filled[i]?.getD _)
    rw [List.getElem?_eq_getElem hi', Option.getD_some]
  · rintro idx n hphase
    cases hphase
    exact toSize_returned_some (hle.trans_lt (by decide))

theorem Inv.dispatch (h : p.Inv events) (hidx : idx < p.filled.length)
    (hready : (p.epollEvents idx).events &&& epollIn ≠ 0) {pollEv : PollEvent H}
    (hev : events[(p.epollEvents idx).data.toNat]? = some pollEv) {bytes : Bytes}
    (hread : sys.read p.reads = some bytes) (hn : n = p.filled.length) :
    (p.dispatch sys pollEv idx n).Inv events := by
  have hle := sys.read_le _ _ hread
  have hlength : toSize (returned (some bytes)) = bytes.length :=
    toSize_returned_some (hle.trans_lt (by decide))
  have hphase : ∀ i m, Phase.inner (idx + 1) n = .inner i m → m = p.filled.length := by
    rintro i m hphase
    cases hphase
    exact hn
  have hreceive : (p.receive sys).Inv events := h.receive
  have hbuffer : (p.receive sys).buffer.take bytes.length = bytes := by
    rw [Poller.receive, hread]
    exact List.take_left' rfl
  rw [Poller.dispatch, hread, hlength]
  split
  next hpos =>
    have hsound : (⟨idx, p.filled, some ⟨pollEv.rcvHandler, (p.receive sys).buffer, bytes.length,
        some bytes⟩⟩ : Examination H).Sound events := by
      refine ⟨hidx, fun c hc => ?_⟩
      cases hc
      exact ⟨_, _, _, h.entries idx hidx, hready, hev, rfl, rfl, rfl, hpos, hle, hbuffer⟩
    have hexamine := hreceive.examine hsound hphase
    exact ⟨hexamine.log, hexamine.registered, hexamine.filled_le, hexamine.entries, hexamine.inner⟩
  next => exact hreceive.examine (sound_none hidx) hphase

theorem Inv.body (h : p.Inv events) (hidx : idx < p.filled.length) (hn : n = p.filled.length)
    (herr : (p.body events sys idx n).ErrorFree sys) : (p.body events sys idx n).Inv events := by
  have hphase : ∀ i m, Phase.inner (idx + 1) n = .inner i m → m = p.filled.length := by
    rintro i m hphase
    cases hphase
    exact hn
  rw [Poller.body, if_pos (hidx.trans_le h.filled_le)] at herr ⊢
  split
  next hready =>
    obtain ⟨pollEv, hev⟩ := h.registered _ (List.mem_of_getElem? (h.entries idx hidx))
    rw [if_pos hready] at herr
    simp only [hev] at herr ⊢
    obtain ⟨bytes, hread⟩ := Option.isSome_iff_exists.mp
      (herr.2 p.reads (by rw [dispatch_reads]; exact Nat.lt_succ_self _))
    exact h.dispatch hidx hready hev hread hn
  next => exact h.examine (sound_none hidx) hphase

theorem Inv.step (h : p.Inv events) (herr : (p.step events sys).ErrorFree sys) :
    (p.step events sys).Inv events := by
  rw [Poller.step] at herr ⊢
  split
  next =>
    split
    next hphase hlive =>
      rw [hphase] at herr
      simp only [if_pos hlive] at herr
      obtain ⟨filled, hwait⟩ := Option.isSome_iff_exists.mp (herr.1 p.waits (Nat.lt_succ_self _))
      exact h.wait hwait
    next => exact ⟨h.log, h.registered, h.filled_le, h.entries, nofun⟩
  next idx n hphase =>
    have hn := h.inner idx n hphase
    split
    next hlt =>
      rw [hphase] at herr
      simp only [if_pos hlt] at herr
      exact h.body (hn ▸ hlt) hn herr
    next => exact ⟨h.log, h.registered, h.filled_le, h.entries, nofun⟩
  all_goals exact h

theorem Inv.run (h : p.Inv events) (herr : (p.run events sys k).ErrorFree sys) :
    (p.run events sys k).Inv events := by
  induction k with
  | zero => exact h
  | succ k ih =>
    rw [run_succ] at herr ⊢
    exact (ih herr.of_step).step herr

theorem not_inBounds_of_read_none (hbound : idx < maxEvents)
    (hready : (p.epollEvents idx).events &&& epollIn ≠ 0) {pollEv : PollEvent H}
    (hev : events[(p.epollEvents idx).data.toNat]? = some pollEv)
    (hread : sys.read p.reads = none) : ¬ (p.body events sys idx n).InBounds events := by
  intro hsound
  rw [Poller.body, if_pos hbound, if_pos hready] at hsound
  simp only [hev, Poller.dispatch, hread, returned, toSize_neg_one] at hsound
  obtain ⟨-, hcall⟩ := hsound _ (List.mem_append_right _ (.head _))
  obtain ⟨e, pollEv', bytes, -, -, -, -, hresult, -⟩ := hcall _ rfl
  cases hresult

/-- After an `epoll_wait` that failed the first entry is examined all the same. -/
theorem not_inBounds_of_wait_none (hwait : sys.epollWait p.waits = none) :
    ¬ ((p.wait sys).step events sys).InBounds events := by
  intro hsound
  have hstep : (p.wait sys).step events sys =
      (p.wait sys).body events sys 0 (toSize (returned (sys.epollWait p.waits))) := by
    rw [Poller.step]
    simp only [Poller.wait, hwait]
    rfl
  obtain ⟨call, hlog⟩ : ∃ call,
      ((p.wait sys).body events sys 0 (toSize (returned (sys.epollWait p.waits)))).log =
        (p.wait sys).log ++ [⟨0, (p.wait sys).filled, call⟩] := exists_log_body
  rw [InBounds, hstep, hlog] at hsound
  have hfilled := (hsound _ (List.mem_append_right _ (.head _))).filled
  rw [Poller.wait, hwait] at hfilled
  exact absurd hfilled (Nat.lt_irrefl 0)

theorem ErrorFree.body (h : p.ErrorFree sys) (hinv : p.Inv events) (hidx : idx < p.filled.length)
    (hnext : (p.body events sys idx n).InBounds events) :
    (p.body events sys idx n).ErrorFree sys := by
  have hbound := hidx.trans_le hinv.filled_le
  by_cases hready : (p.epollEvents idx).events &&& epollIn ≠ 0
  · obtain ⟨pollEv, hev⟩ := hinv.registered _ (List.mem_of_getElem? (hinv.entries idx hidx))
    cases hread : sys.read p.reads with
    | none => exact absurd hnext (not_inBounds_of_read_none hbound hready hev hread)
    | some bytes =>
      rw [Poller.body, if_pos hbound, if_pos hready]
      simp only [hev]
      refine ⟨fun i hi => h.1 i (by rwa [dispatch_waits] at hi), fun i hi => ?_⟩
      rw [dispatch_reads] at hi
      obtain hi | rfl := Nat.lt_succ_iff_lt_or_eq.mp hi
      · exact h.2 i hi
      · rw [hread]
        rfl
  · rw [Poller.body, if_pos hbound, if_neg hready]
    exact h

theorem ErrorFree.step (h : p.ErrorFree sys) (hinv : p.Inv events)
    (hnext : (p.step events sys).InBounds events)
    (hafter : ((p.step events sys).step events sys).InBounds events) :
    (p.step events sys).ErrorFree sys := by
  cases hphase : p.phase with
  | outer =>
    by_cases hlive : p.live = true
    · have hstep : p.step events sys = p.wait sys := by
        rw [Poller.step, hphase]
        exact if_pos hlive
      rw [hstep] at hafter ⊢
      cases hwait : sys.epollWait p.waits with
      | none => exact absurd hafter (not_inBounds_of_wait_none hwait)
      | some filled =>
        refine ⟨fun i hi => ?_, h.2⟩
        obtain hi | rfl := Nat.lt_succ_iff_lt_or_eq.mp hi
        · exact h.1 i hi
        · rw [hwait]
          rfl
    · rw [Poller.step, hphase]
      simp only [if_neg hlive]
      exact h
  | inner idx n =>
    by_cases hlt : idx < n
    · have hstep : p.step events sys = p.body events sys idx n := by
        rw [Poller.step, hphase]
        exact if_pos hlt
      rw [hstep] at hnext ⊢
      exact h.body hinv (hinv.inner idx n hphase ▸ hlt) hnext
    · rw [Poller.step, hphase]
      simp only [if_neg hlt]
      exact h
  | returned | threw | outOfBounds =>
    rw [Poller.step, hphase]
    exact h

theorem inBounds_iff (events : List (PollEvent H)) (garbage : Nat → UInt32)
    (sys : SystemCalls (registrations events garbage)) (buffer : Bytes)
    (epollEvents : Nat → EpollEvent) :
    (∀ k, ((start buffer epollEvents).run events sys k).InBounds events) ↔
      ∀ k, ((start buffer epollEvents).run events sys k).ErrorFree sys := by
  have hstart : (start buffer epollEvents : Poller H).Inv events := inv_start buffer epollEvents
  constructor
  · intro hbounds k
    induction k with
    | zero => exact ⟨nofun, nofun⟩
    | succ k ih =>
      have hnext := hbounds (k + 1)
      have hafter := hbounds (k + 2)
      rw [run_succ] at hnext hafter ⊢
      rw [run_succ] at hafter
      exact ih.step (hstart.run ih) hnext hafter
  · intro herr k
    exact (hstart.run (herr k)).log

/-- One descriptor is ready, and reading it fails: its handler is called with a length of
`2^64 - 1`. -/
theorem not_inBounds_readError :
    ¬ ∀ (events : List (PollEvent Unit)) (garbage : Nat → UInt32)
      (sys : SystemCalls (registrations events garbage)) (buffer : Bytes)
      (epollEvents : Nat → EpollEvent) (k : Nat),
      ((start buffer epollEvents).run events sys k).InBounds events := by
  intro h
  let events : List (PollEvent Unit) := [⟨3, pollInEvent, ()⟩]
  let sys : SystemCalls (registrations events fun _ => 0) := {
    epollWait := fun _ => some [⟨epollIn, 0⟩]
    read := fun _ => none
    stops := fun _ => true
    epollWait_le := fun _ _ hfilled => by
      cases hfilled
      decide
    epollWait_data := fun _ _ hfilled e he => by
      cases hfilled
      exact ⟨⟨1, 0⟩, by decide, by rw [List.mem_singleton.mp he]⟩
    read_le := fun _ _ hbytes => by cases hbytes }
  have hbody : (((start [] fun _ => ⟨0, 0⟩).wait sys).body events sys 0 1).InBounds events :=
    h events (fun _ => 0) sys [] (fun _ => ⟨0, 0⟩) 2
  exact not_inBounds_of_read_none (by decide) (by decide) rfl rfl hbody

end

end Poller

end Kungfu.Yijinjing.Socket
