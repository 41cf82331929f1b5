import Kungfu.Yijinjing.Practice.TimerIsolation
import Kungfu.Yijinjing.Practice.TimerView

namespace Kungfu.Yijinjing.Practice

def passes (d : Int) : Int → List Event → List Event
  | _, [] => []
  | last, e :: es =>
    if e.msgType = timeTag ∧ last + d < e.time then e :: passes d e.time es else passes d last es

variable {d last : Int} {e : Event} {es : List Event}

theorem passes_concat : passes d last (es ++ [e]) = passes d last es ++
    if e.msgType = timeTag ∧ lastTime last (passes d last es) + d < e.time then [e] else [] := by
  induction es generalizing last with
  | nil => rfl
  | cons x es ih =>
    rw [List.cons_append, passes, passes]
    by_cases h : x.msgType = timeTag ∧ last + d < x.time
    · rw [if_pos h, if_pos h, ih, lastTime_cons, List.cons_append]
    · rw [if_neg h, if_neg h, ih]

theorem lt_of_mem_passes {x : Event} (hle : ∀ e ∈ es, last ≤ e.time)
    (hsorted : es.Pairwise (·.time ≤ ·.time)) (hx : x ∈ passes d last es) : last + d < x.time := by
  induction es generalizing last with
  | nil => cases hx
  | cons e es ih =>
    obtain ⟨hhead, hsorted⟩ := List.pairwise_cons.mp hsorted
    rw [passes] at hx
    split at hx
    next hpass =>
      rcases List.mem_cons.mp hx with rfl | hx
      · exact hpass.2
      · have hlt := ih hhead hsorted hx
        have hlast := hle e (.head _)
        omega
    next => exact ih (fun e he => hle e (.tail _ he)) hsorted hx

theorem passes_pairwise (hsorted : es.Pairwise (·.time ≤ ·.time)) :
    (passes d last es).Pairwise fun x y => x.time + d < y.time := by
  induction es generalizing last with
  | nil => exact .nil
  | cons e es ih =>
    obtain ⟨hhead, hsorted⟩ := List.pairwise_cons.mp hsorted
    rw [passes]
    split
    · exact .cons (fun x hx => lt_of_mem_passes hhead hsorted hx) (ih hsorted)
    · exact ih hsorted

namespace View

structure Fired (v : View) (d : Int64) (start : Int) (hs : List Event) : Prop where
  checkpoint : v.checkpoint.toInt = lastTime start (passes d.toInt start hs)
  outputs : v.registration.outputs = (passes d.toInt start hs).map .passed
  requests : v.requests =
    List.replicate ((passes d.toInt start hs).length + 1) ⟨v.registration.id, d, 1⟩

/-- An interval after the events `es` since its call. -/
structure Ticking (v : View) (d : Int64) (start : Int) (es : List Event) : Prop where
  request : v.registration.request = .timeInterval d
  durationNs : v.registration.durationNs = d
  subscribed : v.registration.subscribed = true
  current : v.registration.pending = true →
    ∃ hs e, es = hs ++ [e] ∧ v.current = some e ∧ v.now = e.genTime
  fired : InRange d.toInt start (passes d.toInt start (v.registration.handled es)) →
    v.Fired d start (v.registration.handled es)

variable {v v' : View} {i : Nat} {d now : Int64} {start : Int} {e : Event} {es hs : List Event}
  {a : Action} {as : List Action}

theorem ticking_registered (current : Option Event) (id : Int32) :
    (registered now current (.timeInterval d) id).Ticking d now.toInt [] :=
  ⟨rfl, rfl, rfl, nofun, fun _ => ⟨rfl, rfl, rfl⟩⟩

theorem handled_of_idle {reg : Registration} (hidle : reg.pending = false) :
    reg.handled es = es := by
  rw [Registration.handled, hidle]
  rfl

theorem handled_concat_of_pending {reg : Registration} (hpending : reg.pending = true) :
    reg.handled (hs ++ [e]) = hs := by
  rw [Registration.handled, if_pos hpending, List.dropLast_concat]

theorem Ticking.take (h : v.Ticking d start es) (hidle : v.registration.pending = false) :
    (v.take e).Ticking d start (es ++ [e]) := by
  have hfired := h.fired
  rw [handled_of_idle hidle] at hfired
  refine ⟨h.request, h.durationNs, h.subscribed, fun _ => ⟨es, e, rfl, rfl, rfl⟩, ?_⟩
  rw [handled_concat_of_pending (show (v.take e).registration.pending = true from h.subscribed)]
  exact fun hrange =>
    ⟨(hfired hrange).checkpoint, (hfired hrange).outputs, (hfired hrange).requests⟩

theorem Fired.test_eq (h : v.Fired d start hs) (hrequest : v.registration.request = .timeInterval d)
    (hduration : v.registration.durationNs = d)
    (hrange : InRange d.toInt start (passes d.toInt start hs)) :
    v.registration.test v.checkpoint e =
      if e.msgType = timeTag ∧ lastTime start (passes d.toInt start hs) + d.toInt < e.time
      then .rearm else .reject := by
  have hsum : InInt64 (v.checkpoint.toInt + v.registration.durationNs.toInt) := by
    rw [h.checkpoint, hduration]
    exact hrange.last
  rw [Registration.test, hrequest]
  simp only [Registration.due_iff hsum, h.checkpoint, hduration]

theorem Fired.conclude (h : v.Fired d start hs) (hduration : v.registration.durationNs = d)
    (hnow : v.now = e.genTime) :
    (v.conclude { v.registration with pending := false } e
      (if e.msgType = timeTag ∧ lastTime start (passes d.toInt start hs) + d.toInt < e.time
        then .rearm else .reject)).Fired d start (hs ++ [e]) := by
  split
  next hpass =>
    refine ⟨?_, ?_, ?_⟩
    · rw [passes_concat, if_pos hpass, lastTime_concat, conclude_rearm_checkpoint, hnow, Event.time]
    · rw [passes_concat, if_pos hpass, List.map_append, ← h.outputs]
      rfl
    · rw [passes_concat, if_pos hpass, List.length_append, List.length_singleton,
        List.replicate_succ', conclude_rearm_requests, h.requests, hduration]
      rfl
  next hpass =>
    refine ⟨?_, ?_, ?_⟩
    · rw [passes_concat, if_neg hpass, List.append_nil, conclude_reject_checkpoint, h.checkpoint]
    · rw [passes_concat, if_neg hpass, List.append_nil, ← h.outputs]
      rfl
    · rw [passes_concat, if_neg hpass, List.append_nil, conclude_reject_requests, h.requests]
      rfl

theorem conclude_pending {reg : Registration} {verdict : Verdict} :
    (v.conclude reg e verdict).registration.pending = reg.pending := by
  cases verdict <;> rfl

theorem Ticking.deliver (h : v.Ticking d start es) (hcurrent : v.current = some e)
    (hpending : v.registration.pending = true) :
    (v.conclude { v.registration with pending := false } e
      (v.registration.test v.checkpoint e)).Ticking d start es := by
  obtain ⟨hs, e', rfl, he', hnow⟩ := h.current hpending
  obtain rfl := Option.some.inj (hcurrent.symm.trans he')
  have hfired := h.fired
  rw [handled_concat_of_pending hpending] at hfired
  have hidle : (v.conclude { v.registration with pending := false } e
      (v.registration.test v.checkpoint e)).registration.pending = false := conclude_pending
  have hverdict : v.registration.test v.checkpoint e = .rearm ∨
      v.registration.test v.checkpoint e = .reject := by
    rw [Registration.test, h.request]
    by_cases hdue : e.msgType = timeTag ∧ v.registration.due v.checkpoint e = true
    · exact .inl (if_pos hdue)
    · exact .inr (if_neg hdue)
  refine ⟨?_, ?_, ?_, fun hpending' => absurd hpending' (by rw [hidle]; decide), ?_⟩
  · exact (Registration.conclude_request ..).trans h.request
  · rcases hverdict with hv | hv <;> rw [hv] <;> exact h.durationNs
  · rcases hverdict with hv | hv <;> rw [hv] <;> exact h.subscribed
  · rw [handled_of_idle hidle]
    intro hrange
    rw [passes_concat] at hrange
    have hbefore := hfired hrange.of_append
    rw [hbefore.test_eq h.request h.durationNs hrange.of_append]
    exact hbefore.conclude h.durationNs hnow

theorem Ticking.emit (h : v.Ticking d start es) :
    v.conclude v.registration e (v.registration.testSource e) = v := by
  have htest : v.registration.testSource e = .reject := by rw [Registration.testSource, h.request]
  rw [htest, conclude_reject_self]

theorem Ticking.step (h : v.Ticking d start es) (hstep : v.step i a = some v') :
    v'.Ticking d start (es ++ a.event?.toList) := by
  cases a with
  | event e =>
    obtain ⟨hidle, rfl⟩ := step_event hstep
    exact h.take hidle
  | register r =>
    cases hstep
    rwa [Action.event?, Option.toList_none, List.append_nil]
  | deliver j =>
    rw [Action.event?, Option.toList_none, List.append_nil]
    by_cases hj : j = i
    · subst hj
      obtain ⟨e, hcurrent, hpending, rfl⟩ := step_deliver hstep
      exact h.deliver hcurrent hpending
    · rw [View.step, if_neg hj] at hstep
      cases hstep
      exact h
  | emit j e =>
    rw [Action.event?, Option.toList_none, List.append_nil]
    rw [View.step, h.emit, ite_self] at hstep
    cases hstep
    exact h

theorem Ticking.exec (h : v.Ticking d start es) (hexec : v.exec i as = some v') :
    v'.Ticking d start (es ++ as.filterMap Action.event?) := by
  induction as generalizing v es with
  | nil =>
    cases hexec
    rwa [List.filterMap_nil, List.append_nil]
  | cons a as ih =>
    rw [View.exec, List.foldlM_cons, Option.bind_eq_bind, Option.bind_eq_some_iff] at hexec
    obtain ⟨u, hstep, hexec⟩ := hexec
    have hv' := ih (h.step hstep) hexec
    have hevents : a.event?.toList ++ as.filterMap Action.event? =
        (a :: as).filterMap Action.event? := by
      cases a <;> rfl
    rwa [List.append_assoc, hevents] at hv'

end View

namespace Apprentice

theorem timeInterval_spaced (now d : Int64) (pre post : List Action) (s : Apprentice)
    (reg : Registration)
    (hcalls : ((pre ++ .register (.timeInterval d) :: post).map Action.calls).sum < 2 ^ 31)
    (hexec : (init now).exec (pre ++ .register (.timeInterval d) :: post) = some s)
    (hi : s.registrations[(pre.map Action.calls).sum]? = some reg)
    (hsorted : (post.filterMap Action.event?).Pairwise (·.time ≤ ·.time))
    (hrange : InRange d.toInt (pre.foldl Action.nowAfter now).toInt
      (passes d.toInt (pre.foldl Action.nowAfter now).toInt
        (reg.handled (post.filterMap Action.event?)))) :
    let passed := passes d.toInt (pre.foldl Action.nowAfter now).toInt
      (reg.handled (post.filterMap Action.event?))
    reg.outputs = passed.map .passed ∧
      (passed.Pairwise fun x y => x.time + d.toInt < y.time) ∧
      s.requests.filter (·.id = reg.id) = List.replicate (passed.length + 1) ⟨reg.id, d, 1⟩ := by
  intro passed
  obtain ⟨current, v, hv, hshows⟩ := shows_exec hcalls hexec
  obtain rfl := Option.some.inj (hi.symm.trans hshows.registration)
  have hfired := ((View.ticking_registered current _).exec hv).fired hrange
  refine ⟨hfired.outputs, passes_pairwise ?_, ?_⟩
  · unfold Registration.handled
    split
    · exact hsorted.sublist (List.dropLast_sublist _)
    · exact hsorted
  · rw [← hshows.requests, hfired.requests]
    rfl

theorem timeInterval_spaced_gap :
    let pre : List Action := [.event ⟨1, 101, []⟩, .register (.timer 5)]
    let post : List Action := [
      .event ⟨4, timeTag, []⟩, .deliver 1, .deliver 0,
      .event ⟨20, timeTag, []⟩, .deliver 0, .deliver 1]
    ∃ s reg, (init 0).exec (pre ++ .register (.timeInterval 2) :: post) = some s ∧
      s.registrations[1]? = some reg ∧
      s.requests.filter (·.id = reg.id) = [⟨1, 2, 1⟩, ⟨1, 2, 1⟩, ⟨1, 2, 1⟩] := by
  intro pre post
  have hi : ((init 0).exec (pre ++ .register (.timeInterval 2) :: post)).map
      (fun s => s.registrations[1]?) = some (some ⟨.timeInterval 2, 1, 2, false, true,
        [.passed ⟨4, timeTag, []⟩, .passed ⟨20, timeTag, []⟩]⟩) := by
    decide
  obtain ⟨s, hexec, hi⟩ := Option.map_eq_some_iff.mp hi
  exact ⟨s, _, hexec, hi, (timeInterval_spaced 0 2 pre post s _ (by decide) hexec hi (by decide)
    (by decide)).2.2⟩

/-- The longest duration there is: added to the checkpoint it is a time in the past. -/
theorem not_timeInterval_spaced_max : ¬ ∀ (now d : Int64) (pre post : List Action) (s : Apprentice)
    (reg : Registration),
    ((pre ++ .register (.timeInterval d) :: post).map Action.calls).sum < 2 ^ 31 →
    (init now).exec (pre ++ .register (.timeInterval d) :: post) = some s →
    s.registrations[(pre.map Action.calls).sum]? = some reg →
    (post.filterMap Action.event?).Pairwise (·.time ≤ ·.time) →
    reg.outputs = (passes d.toInt (pre.foldl Action.nowAfter now).toInt
      (reg.handled (post.filterMap Action.event?))).map .passed := by
  intro h
  let post : List Action := [.event ⟨2, timeTag, []⟩, .deliver 0]
  have hi : ((init 1).exec ([] ++ .register (.timeInterval Int64.maxValue) :: post)).map
      (fun s => s.registrations[0]?) = some (some ⟨.timeInterval Int64.maxValue, 0,
        Int64.maxValue, false, true, [.passed ⟨2, timeTag, []⟩]⟩) := by
    decide
  obtain ⟨s, hexec, hi⟩ := Option.map_eq_some_iff.mp hi
  exact absurd (h 1 Int64.maxValue [] post s _ (by decide) hexec hi (by decide)) (by decide)

end Apprentice

end Kungfu.Yijinjing.Practice
