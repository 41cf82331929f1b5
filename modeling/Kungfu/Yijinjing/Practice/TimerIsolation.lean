import Kungfu.Yijinjing.Practice.Timers

namespace Kungfu.Yijinjing.Practice

def Event.isTimeAfter (nanotime : Int64) (e : Event) : Bool :=
  e.msgType = timeTag ∧ nanotime < e.genTime

def Action.event? : Action → Option Event
  | .event e => some e
  | .register _ | .deliver _ | .emit _ _ => none

/-- The events behind the `i`-th call, `n` calls having been made. -/
def eventsAfter (i : Nat) : Nat → List Action → List Event
  | _, [] => []
  | n, .register _ :: as => if n = i then as.filterMap Action.event? else eventsAfter i (n + 1) as
  | n, .event _ :: as | n, .deliver _ :: as | n, .emit _ _ :: as => eventsAfter i n as

def Registration.handled (reg : Registration) (es : List Event) : List Event :=
  if reg.pending then es.dropLast else es

/-- What has come out of a timer: the first event it waits for, when that has been handed over. -/
def Registration.firstDue (reg : Registration) (nanotime : Int64) (es : List Event) :
    Option Event :=
  (reg.handled es).find? (Event.isTimeAfter nanotime)

namespace Apprentice

/-- A timer after the events `es` of its time. -/
structure Waiting (s : Apprentice) (nanotime : Int64) (es : List Event) (reg : Registration) :
    Prop where
  request : reg.request = .timer nanotime
  deadline : s.timerCheckpoints reg.id + reg.durationNs = nanotime
  current : reg.pending = true → reg.subscribed = true ∧ es.getLast? = s.current
  outputs : reg.outputs = (reg.firstDue nanotime es).toList.map .passed
  subscribed : reg.subscribed = (reg.firstDue nanotime es).isNone

variable {s s' : Apprentice} {i j : Nat} {reg : Registration} {e : Event} {a : Action}
  {nanotime : Int64} {es : List Event}

theorem waiting_register (s : Apprentice) (nanotime : Int64) :
    (s.register (.timer nanotime)).Waiting nanotime []
      ⟨.timer nanotime, s.timerUsageCount, nanotime - s.now, false, true, []⟩ where
  request := rfl
  deadline := by
    rw [register_timerCheckpoints_self, Int64.add_comm, Int64.sub_add_cancel]
  current := nofun
  outputs := rfl
  subscribed := rfl

theorem Waiting.congr (h : s.Waiting nanotime es reg) (hcurrent : s'.current = s.current)
    (hcheckpoint : s'.timerCheckpoints reg.id = s.timerCheckpoints reg.id) :
    s'.Waiting nanotime es reg :=
  ⟨h.request, hcheckpoint ▸ h.deadline, hcurrent ▸ h.current, h.outputs, h.subscribed⟩

theorem Waiting.take (h : s.Waiting nanotime es reg) (hidle : reg.pending = false) (e : Event) :
    (s.take e).Waiting nanotime (es ++ [e]) { reg with pending := reg.subscribed } := by
  have hhandled : reg.firstDue nanotime es = es.find? (Event.isTimeAfter nanotime) := by
    rw [Registration.firstDue, Registration.handled, hidle]
    rfl
  have hdue : Registration.firstDue { reg with pending := reg.subscribed } nanotime (es ++ [e]) =
      reg.firstDue nanotime es := by
    rw [hhandled]
    cases hsub : reg.subscribed with
    | true => simp [Registration.firstDue, Registration.handled]
    | false =>
      have hsome := h.subscribed
      rw [hsub, hhandled, Eq.comm, Option.isNone_eq_false_iff, Option.isSome_iff_exists] at hsome
      obtain ⟨x, hx⟩ := hsome
      simp [Registration.firstDue, Registration.handled, List.find?_append, hx]
  refine ⟨h.request, h.deadline, fun hpending => ⟨hpending, by simp [Apprentice.take]⟩, ?_, ?_⟩
  · rw [hdue]
    exact h.outputs
  · rw [hdue]
    exact h.subscribed

theorem Waiting.deliver (h : s.Waiting nanotime es reg) (hpending : reg.pending = true)
    (hcurrent : s.current = some e) :
    (s.conclude i { reg with pending := false } e (reg.test (s.timerCheckpoints reg.id) e)).Waiting
      nanotime es (({ reg with pending := false } : Registration).conclude e
        (reg.test (s.timerCheckpoints reg.id) e)) := by
  obtain ⟨hsub, hlast⟩ := h.current hpending
  obtain ⟨hs, rfl⟩ := List.getLast?_eq_some_iff.mp (hlast.trans hcurrent)
  have hnone : hs.find? (Event.isTimeAfter nanotime) = none := by
    have hisNone := h.subscribed
    rw [hsub, Eq.comm, Option.isNone_iff_eq_none] at hisNone
    simpa [Registration.firstDue, Registration.handled, hpending] using hisNone
  have hempty : reg.outputs = [] := by
    have houtputs := h.outputs
    simpa [Registration.firstDue, Registration.handled, hpending, hnone] using houtputs
  have htest : reg.test (s.timerCheckpoints reg.id) e =
      if e.isTimeAfter nanotime then .pass else .reject := by
    simp [Registration.test, h.request, Registration.due, h.deadline, Event.isTimeAfter]
  have hfind : (hs ++ [e]).find? (Event.isTimeAfter nanotime) =
      if e.isTimeAfter nanotime then some e else none := by
    rw [List.find?_append, hnone, Option.none_or, List.find?_singleton]
  rw [htest]
  cases hdue : e.isTimeAfter nanotime with
  | true =>
    refine ⟨h.request, ?_, nofun, ?_, ?_⟩
    · exact h.deadline
    · simp [Registration.conclude, Registration.firstDue, Registration.handled, hfind, hdue, hempty]
    · simp [Registration.conclude, Registration.firstDue, Registration.handled, hfind, hdue]
  | false =>
    refine ⟨h.request, ?_, nofun, ?_, ?_⟩
    · exact h.deadline
    · simp [Registration.conclude, Registration.firstDue, Registration.handled, hfind, hdue, hempty]
    · simp [Registration.conclude, Registration.firstDue, Registration.handled, hfind, hdue, hsub]

theorem Waiting.emit (h : s.Waiting nanotime es reg) (hi : s.registrations[i]? = some reg)
    (e : Event) : s.conclude i reg e (reg.testSource e) = s := by
  have htest : reg.testSource e = .reject := by rw [Registration.testSource, h.request]
  obtain ⟨hlt, hget⟩ := List.getElem?_eq_some_iff.mp hi
  rw [htest, conclude, if_neg (by decide), Registration.conclude, setRegistration, ← hget,
    List.set_getElem_self]

def WaitingAt (s : Apprentice) (i : Nat) (nanotime : Int64) (es : List Event) : Prop :=
  ∃ reg, s.registrations[i]? = some reg ∧ s.Waiting nanotime es reg

theorem WaitingAt.step (h : s.WaitingAt i nanotime es) (hnum : s.Numbered)
    (hlen : s.registrations.length < 2 ^ 31) (hstep : s.step a = some s') :
    s'.WaitingAt i nanotime (es ++ a.event?.toList) := by
  obtain ⟨reg, hreg, hwait⟩ := h
  obtain ⟨hlt, -⟩ := List.getElem?_eq_some_iff.mp hreg
  have others : ∀ {j e v} {reg' reg'' : Registration}, j ≠ i → s.registrations[j]? = some reg' →
      reg''.id = reg'.id → (s.conclude j reg'' e v).WaitingAt i nanotime es := by
    intro j e v reg' reg'' hne hj hid
    refine ⟨reg, ?_, hwait.congr (conclude_current ..) ?_⟩
    · rw [conclude_registrations, List.getElem?_set_ne hne, hreg]
    · exact conclude_timerCheckpoints_of_ne (hid ▸ hnum.id_ne hlen hreg hj hne)
  cases a with
  | event e =>
    obtain ⟨hany, rfl⟩ := step_event hstep
    have hidle : reg.pending = false :=
      Bool.eq_false_iff.mpr (List.any_eq_false.mp hany reg (List.mem_of_getElem? hreg))
    exact ⟨_, by rw [getElem?_take, hreg]; rfl, hwait.take hidle e⟩
  | register r =>
    cases hstep
    rw [Action.event?, Option.toList_none, List.append_nil]
    refine ⟨reg, ?_, hwait.congr rfl ?_⟩
    · rw [getElem?_register, if_neg (by omega), hreg]
    · exact register_timerCheckpoints_of_ne (hnum.id_ne_count hlen hreg)
  | deliver j =>
    obtain ⟨reg', e, hj, hcurrent, hpending, rfl⟩ := step_deliver hstep
    rw [Action.event?, Option.toList_none, List.append_nil]
    by_cases hne : j = i
    · subst hne
      obtain rfl := Option.some.inj (hreg.symm.trans hj)
      exact ⟨_, by rw [conclude_registrations, List.getElem?_set_self hlt], hwait.deliver hpending
        hcurrent⟩
    · exact others hne hj rfl
  | emit j e =>
    obtain ⟨reg', hj, rfl⟩ := step_emit hstep
    rw [Action.event?, Option.toList_none, List.append_nil]
    split
    · by_cases hne : j = i
      · subst hne
        obtain rfl := Option.some.inj (hreg.symm.trans hj)
        rw [hwait.emit hreg]
        exact ⟨reg, hreg, hwait⟩
      · exact others hne hj rfl
    · exact ⟨reg, hreg, hwait⟩

theorem WaitingAt.exec {as : List Action} (h : s.WaitingAt i nanotime es) (hnum : s.Numbered)
    (hcalls : s.registrations.length + (as.map Action.calls).sum < 2 ^ 31)
    (hexec : s.exec as = some s') :
    s'.WaitingAt i nanotime (es ++ as.filterMap Action.event?) := by
  induction as generalizing s es with
  | nil =>
    cases hexec
    rwa [List.filterMap_nil, List.append_nil]
  | cons a as ih =>
    obtain ⟨u, hstep, hexec, hnum', hlen, hcalls⟩ := exec_cons_of_calls hnum hcalls hexec
    have hu := ih (h.step hnum hlen hstep) hnum' hcalls hexec
    have hevents : a.event?.toList ++ as.filterMap Action.event? =
        (a :: as).filterMap Action.event? := by
      cases a <;> rfl
    rwa [List.append_assoc, hevents] at hu

theorem request_conclude {reg' reg'' : Registration} {v : Verdict}
    (hi : s.registrations[i]? = some reg) (hj : s.registrations[j]? = some reg')
    (hsame : reg''.request = reg'.request) :
    ∃ r, (s.conclude j reg'' e v).registrations[i]? = some r ∧ r.request = reg.request := by
  rw [conclude_registrations]
  by_cases hne : j = i
  · subst hne
    obtain rfl := Option.some.inj (hi.symm.trans hj)
    obtain ⟨hlt, -⟩ := List.getElem?_eq_some_iff.mp hi
    exact ⟨_, List.getElem?_set_self hlt, (Registration.conclude_request ..).trans hsame⟩
  · exact ⟨reg, by rw [List.getElem?_set_ne hne, hi], rfl⟩

theorem request_step (hstep : s.step a = some s') (hi : s.registrations[i]? = some reg) :
    ∃ reg', s'.registrations[i]? = some reg' ∧ reg'.request = reg.request := by
  cases a with
  | event e =>
    obtain ⟨-, rfl⟩ := step_event hstep
    exact ⟨{ reg with pending := reg.subscribed }, by rw [getElem?_take, hi]; rfl, rfl⟩
  | register r =>
    cases hstep
    obtain ⟨hlt, -⟩ := List.getElem?_eq_some_iff.mp hi
    exact ⟨reg, by rw [getElem?_register, if_neg (by omega), hi], rfl⟩
  | deliver j =>
    obtain ⟨reg', e, hj, -, -, rfl⟩ := step_deliver hstep
    exact request_conclude hi hj rfl
  | emit j e =>
    obtain ⟨reg', hj, rfl⟩ := step_emit hstep
    split
    · exact request_conclude hi hj rfl
    · exact ⟨reg, hi, rfl⟩

theorem request_exec {as : List Action} (hexec : s.exec as = some s')
    (hi : s.registrations[i]? = some reg) :
    ∃ reg', s'.registrations[i]? = some reg' ∧ reg'.request = reg.request := by
  induction as generalizing s reg with
  | nil =>
    cases hexec
    exact ⟨reg, hi, rfl⟩
  | cons a as ih =>
    obtain ⟨u, hstep, hexec⟩ := exec_cons hexec
    obtain ⟨reg', hi', hrequest⟩ := request_step hstep hi
    obtain ⟨reg'', hi'', hrequest'⟩ := ih hexec hi'
    exact ⟨reg'', hi'', hrequest'.trans hrequest⟩

theorem waitingAt_exec {as : List Action} (hnum : s.Numbered)
    (hcalls : s.registrations.length + (as.map Action.calls).sum < 2 ^ 31)
    (hle : s.registrations.length ≤ i) (hexec : s.exec as = some s')
    (hi : s'.registrations[i]? = some reg) (hrequest : reg.request = .timer nanotime) :
    s'.WaitingAt i nanotime (eventsAfter i s.registrations.length as) := by
  induction as generalizing s with
  | nil =>
    cases hexec
    rw [List.getElem?_eq_none hle] at hi
    cases hi
  | cons a as ih =>
    obtain ⟨u, hstep, hrest, hnum', -, hcalls'⟩ := exec_cons_of_calls hnum hcalls hexec
    have hlen := length_step hstep
    cases a with
    | register r =>
      rw [Action.calls] at hlen
      cases hstep
      rw [eventsAfter]
      split
      next heq =>
        have hnew : (s.register r).registrations[i]? =
            some ⟨r, s.timerUsageCount, r.durationNs s.now, false, true, []⟩ := by
          rw [getElem?_register, if_pos heq.symm]
        obtain ⟨reg', hi', hsame⟩ := request_exec hrest hnew
        obtain rfl := Option.some.inj (hi.symm.trans hi')
        obtain rfl : r = .timer nanotime := hsame.symm.trans hrequest
        exact WaitingAt.exec ⟨_, hnew, waiting_register s nanotime⟩ hnum' hcalls' hrest
      next hne =>
        rw [← hlen]
        exact ih hnum' hcalls' (by omega) hrest
    | _ =>
      rw [Action.calls, Nat.add_zero] at hlen
      rw [eventsAfter, ← hlen]
      exact ih hnum' hcalls' (by omega) hrest

theorem isolated (now : Int64) (as : List Action) (hcalls : (as.map Action.calls).sum < 2 ^ 31)
    (s : Apprentice) (hexec : (init now).exec as = some s) (i : Nat) (reg : Registration)
    (hi : s.registrations[i]? = some reg) :
    (∃ s' reg', (init now).exec (solo i 0 as) = some s' ∧ s'.registrations = [reg'] ∧
      reg'.outputs = reg.outputs) ∧
    ∀ nanotime, reg.request = .timer nanotime →
      reg.outputs = (reg.firstDue nanotime (eventsAfter i 0 as)).toList.map .passed := by
  have hnum := numbered_init now
  have hsum : (init now).registrations.length + (as.map Action.calls).sum < 2 ^ 31 := by
    simpa [init] using hcalls
  constructor
  · obtain ⟨s', hs', halone⟩ := (alone_init now).exec hnum hsum hexec
    exact ⟨s', reg.first, hs', halone.registrations_of_some hi, rfl⟩
  · intro nanotime hrequest
    obtain ⟨reg', hi', hwait⟩ := waitingAt_exec hnum hsum (Nat.zero_le i) hexec hi hrequest
    obtain rfl := Option.some.inj (hi.symm.trans hi')
    exact hwait.outputs

/-- A timer, an interval and a timeout that is raised by the event after its source was heard. -/
def threeTimers : List Action := [
  .event ⟨1, 101, []⟩,
  .register (.timer 5), .register (.timeInterval 2),
  .event ⟨4, timeTag, []⟩, .deliver 1, .deliver 0,
  .register (.timeout 1),
  .event ⟨6, 101, []⟩, .emit 2 ⟨6, 101, []⟩, .deliver 2, .deliver 0, .deliver 1,
  .event ⟨8, timeTag, []⟩, .deliver 1, .deliver 2, .deliver 0]

theorem isolated_threeTimers :
    ∃ s reg, (init 0).exec threeTimers = some s ∧ s.registrations[0]? = some reg ∧
      (∃ s' reg', (init 0).exec (solo 0 0 threeTimers) = some s' ∧ s'.registrations = [reg'] ∧
        reg'.outputs = reg.outputs) ∧
      reg.outputs = (reg.firstDue 5 (eventsAfter 0 0 threeTimers)).toList.map .passed := by
  have hi : ((init 0).exec threeTimers).map (fun s => s.registrations[0]?) =
      some (some ⟨.timer 5, 0, 4, false, false, [.passed ⟨8, timeTag, []⟩]⟩) := by
    decide
  obtain ⟨s, hexec, hi⟩ := Option.map_eq_some_iff.mp hi
  obtain ⟨hsolo, hfirst⟩ := isolated 0 threeTimers (by decide) s hexec 0 _ hi
  exact ⟨s, _, hexec, hi, hsolo, hfirst 5 rfl⟩

end Apprentice

end Kungfu.Yijinjing.Practice
