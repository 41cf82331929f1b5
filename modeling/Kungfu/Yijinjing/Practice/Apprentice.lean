import Kungfu.Common.Field

/-!
The timers of `practice/apprentice.h`: `timer`, `time_interval` and `timeout` over the event stream,
with the counter and the checkpoints they share.
-/

namespace Kungfu.Yijinjing.Practice

open Kungfu.Common

def timeTag : Int32 := 10003

structure Event where
  genTime : Int64
  msgType : Int32
  payload : Bytes
  deriving DecidableEq

/-- A call of one of the three functions, durations in nanoseconds. -/
inductive Request where
  | timer (nanotime : Int64)
  | timeInterval (duration : Int64)
  | timeout (duration : Int64)
  deriving DecidableEq

def Request.durationNs (now : Int64) : Request → Int64
  | .timer nanotime => nanotime - now
  | .timeInterval duration => duration
  | .timeout duration => duration

inductive Output where
  | passed (e : Event)
  | timeout (e : Event)
  deriving DecidableEq

/-- An operator that was applied, and what came out of it. `pending` while `events_` still has
to hand it the current event. -/
structure Registration where
  request : Request
  id : Int32
  durationNs : Int64
  pending : Bool
  subscribed : Bool
  outputs : List Output
  deriving DecidableEq

/-- What the predicate of a `filter` does: `rearm` writes a `TimeRequest` and moves the checkpoint
before it lets the event through, `raise` throws a `timeout_error`. -/
inductive Verdict where
  | reject | pass | rearm | raise
  deriving DecidableEq

namespace Registration

variable (reg : Registration) (checkpoint : Int64) (e : Event)

def due : Bool := checkpoint + reg.durationNs < e.genTime

/-- The `filter` over `events_`. -/
def test : Verdict :=
  match reg.request with
  | .timer _ => if e.msgType = timeTag ∧ reg.due checkpoint e then .pass else .reject
  | .timeInterval _ => if e.msgType = timeTag ∧ reg.due checkpoint e then .rearm else .reject
  | .timeout _ => if reg.due checkpoint e then .raise else .reject

/-- The `filter` over the source of the operator, which only `timeout` has. -/
def testSource : Verdict :=
  match reg.request with
  | .timer _ | .timeInterval _ => .reject
  | .timeout _ => if e.msgType ≠ timeTag then .rearm else .reject

/-- The registration after a verdict; `first()` ends a timer with its first event. -/
def conclude : Verdict → Registration
  | .reject => reg
  | .pass => { reg with subscribed := false, outputs := reg.outputs ++ [.passed e] }
  | .rearm => { reg with outputs := reg.outputs ++ [.passed e] }
  | .raise => { reg with subscribed := false, outputs := reg.outputs ++ [.timeout e] }

end Registration

structure TimeRequest where
  id : Int32
  duration : Int64
  repeats : Int64
  deriving DecidableEq

structure Apprentice where
  now : Int64
  current : Option Event
  timerUsageCount : Int32
  timerCheckpoints : Int32 → Int64
  requests : List TimeRequest
  registrations : List Registration

/-- A step of a run: `events_` takes the next event, one of the functions is called and its operator
applied, a registration is handed the current event, or the source of one hands it an event. -/
inductive Action where
  | event (e : Event)
  | register (r : Request)
  | deliver (i : Nat)
  | emit (i : Nat) (e : Event)
  deriving DecidableEq

namespace Apprentice

def init (now : Int64) : Apprentice where
  now := now
  current := none
  timerUsageCount := 0
  timerCheckpoints _ := 0
  requests := []
  registrations := []

variable (s : Apprentice)

def writeTimeRequest (id : Int32) (duration : Int64) : Apprentice :=
  { s with requests := s.requests ++ [⟨id, duration, 1⟩] }

def setCheckpoint (id : Int32) : Apprentice :=
  { s with timerCheckpoints := Function.update s.timerCheckpoints id s.now }

def setRegistration (i : Nat) (reg : Registration) : Apprentice :=
  { s with registrations := s.registrations.set i reg }

def register (r : Request) : Apprentice :=
  let id := s.timerUsageCount
  let durationNs := r.durationNs s.now
  let s := (s.writeTimeRequest id durationNs).setCheckpoint id
  { s with
    timerUsageCount := id + 1
    registrations := s.registrations ++ [⟨r, id, durationNs, false, true, []⟩] }

def conclude (i : Nat) (reg : Registration) (e : Event) (v : Verdict) : Apprentice :=
  let s := if v = .rearm then (s.writeTimeRequest reg.id reg.durationNs).setCheckpoint reg.id else s
  s.setRegistration i (reg.conclude e v)

/-- `events_` begins to hand out an event, and `now()` is its `gen_time`. -/
def take (e : Event) : Apprentice :=
  { s with
    now := e.genTime
    current := some e
    registrations := s.registrations.map fun reg => { reg with pending := reg.subscribed } }

/-- A step, unless it is not enabled: an event comes when the one before it has been handed to every
subscriber, and is handed to each of them once. -/
def step : Action → Option Apprentice
  | .event e =>
    if s.registrations.any Registration.pending then none else some (s.take e)
  | .register r => some (s.register r)
  | .deliver i => do
    let reg ← s.registrations[i]?
    let e ← s.current
    if reg.pending then
      let reg := { reg with pending := false }
      some (s.conclude i reg e (reg.test (s.timerCheckpoints reg.id) e))
    else none
  | .emit i e => do
    let reg ← s.registrations[i]?
    if reg.subscribed then some (s.conclude i reg e (reg.testSource e)) else some s

def exec (as : List Action) : Option Apprentice := as.foldlM step s

end Apprentice

end Kungfu.Yijinjing.Practice
