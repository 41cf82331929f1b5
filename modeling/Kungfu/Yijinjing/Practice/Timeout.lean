import Kungfu.Yijinjing.Practice.TimerIsolation
import Kungfu.Yijinjing.Practice.TimerView
import Mathlib.Data.List.Chain
import Mathlib.Data.List.Infix

namespace Kungfu.Yijinjing.Practice

/-- The source of the `i`-th registration is a part of `events_` and hears an event before the
watchdog does; `o` is the event that it may still emit. -/
def Merged (i : Nat) : Option Event → List Action → Prop
  | _, [] => True
  | _, .event e :: as => Merged i (some e) as
  | o, .register _ :: as => Merged i o as
  | o, .deliver j :: as => Merged i (if j = i then none else o) as
  | o, .emit j e :: as => if j = i then o = some e ∧ Merged i none as else Merged i o as

def markLast (l : List (Event × Bool)) : List (Event × Bool) :=
  l.dropLast ++ l.getLast?.toList.map fun x => (x.1, true)

def heard (i : Nat) (l : List (Event × Bool)) : Action → List (Event × Bool)
  | .event e => l ++ [(e, false)]
  | .emit j _ => if j = i then markLast l else l
  | .register _ | .deliver _ => l

/-- The events, each with whether the source of the `i`-th registration emits it. -/
def stream (i : Nat) (as : List Action) : List (Event × Bool) := as.foldl (heard i) []

def beats (l : List (Event × Bool)) : List Event :=
  (l.filter fun x => x.2 ∧ x.1.msgType ≠ timeTag).map Prod.fst

def late (d start : Int) (l : List (Event × Bool)) : Bool :=
  l.getLast?.any fun x => lastTime start (beats l) + d < x.1.time

def firstLate (d start : Int) (l : List (Event × Bool)) : Option (List (Event × Bool)) :=
  l.inits.find? (late d start)

/-- The event that raises the timeout, of those that the watchdog was handed. -/
def alarm (d start : Int) (watched : List (Event × Bool)) : Option Event :=
  (firstLate d start watched).bind fun p => p.getLast?.map Prod.fst

def untilAlarm (d start : Int) (watched l : List (Event × Bool)) : List (Event × Bool) :=
  (firstLate d start watched).getD l

def Registration.watched (reg : Registration) (l : List (Event × Bool)) : List (Event × Bool) :=
  if reg.pending then l.dropLast else l

structure Steady (d start : Int) (l : List (Event × Bool)) : Prop where
  gaps : (start :: (beats l).map Event.time).IsChain fun s t => t ≤ s + d
  last : ∀ x ∈ l.getLast?, x.1.time ≤ lastTime start (beats l) + d

section

variable {d start : Int} {l p q : List (Event × Bool)} {x : Event × Bool} {e : Event} {i : Nat}
  {as : List Action}

theorem beats_append : beats (p ++ q) = beats p ++ beats q := by
  rw [beats, List.filter_append, List.map_append, beats, beats]

theorem beats_concat_false : beats (l ++ [(e, false)]) = beats l := by
  rw [beats_append]
  exact List.append_nil _

theorem beats_concat_true :
    beats (l ++ [(e, true)]) = beats l ++ if e.msgType ≠ timeTag then [e] else [] := by
  rw [beats_append]
  by_cases h : e.msgType = timeTag <;> simp [beats, h]

theorem markLast_concat : markLast (l ++ [x]) = l ++ [(x.1, true)] := by
  rw [markLast, List.dropLast_concat, List.getLast?_concat]
  rfl

theorem late_concat :
    late d start (l ++ [x]) = decide (lastTime start (beats (l ++ [x])) + d < x.1.time) := by
  rw [late, List.getLast?_concat, Option.any_some]

theorem firstLate_concat : firstLate d start (l ++ [x]) =
    (firstLate d start l).or (if late d start (l ++ [x]) then some (l ++ [x]) else none) := by
  have hinits : (l ++ [x]).inits = l.inits ++ [l ++ [x]] := List.inits_append l [x]
  rw [firstLate, hinits, List.find?_append, List.find?_singleton, firstLate]

theorem untilAlarm_concat :
    untilAlarm d start (l ++ [x]) (l ++ [x]) = untilAlarm d start l (l ++ [x]) := by
  rw [untilAlarm, firstLate_concat, untilAlarm]
  cases firstLate d start l with
  | some p => rfl
  | none => split <;> rfl

theorem map_fst_foldl_heard :
    (as.foldl (heard i) l).map Prod.fst = l.map Prod.fst ++ as.filterMap Action.event? := by
  induction as generalizing l with
  | nil => exact (List.append_nil _).symm
  | cons a as ih =>
    rw [List.foldl_cons, ih]
    cases a with
    | event e => simp [heard, Action.event?]
    | register r => rfl
    | deliver j => rfl
    | emit j e =>
      have hmark : (markLast l).map Prod.fst = l.map Prod.fst := by
        rcases List.eq_nil_or_concat' l with rfl | ⟨l, x, rfl⟩
        · rfl
        · simp [markLast_concat]
      rw [heard]
      split
      · rw [hmark]
        rfl
      · rfl

theorem Steady.not_late (h : Steady d start l) (hsorted : l.Pairwise (·.1.time ≤ ·.1.time))
    (hp : p <+: l) : late d start p = false := by
  rcases List.eq_nil_or_concat' p with rfl | ⟨r, x, rfl⟩
  · rfl
  obtain ⟨q, rfl⟩ := hp
  obtain ⟨-, -, hrq⟩ := List.pairwise_append.mp hsorted
  have hx : ∀ y ∈ q, x.1.time ≤ y.1.time := fun y hy => hrq x (by simp) y hy
  rw [late_concat, decide_eq_false_iff_not, not_lt]
  cases hq : beats q with
  | nil =>
    have hlast := h.last
    rw [beats_append, hq, List.append_nil] at hlast
    rcases List.eq_nil_or_concat' q with rfl | ⟨q, y, rfl⟩
    · exact hlast x (by simp)
    · exact (hx y (by simp)).trans (hlast y (by simp [← List.append_assoc]))
  | cons b bs =>
    obtain ⟨y, hy, rfl⟩ : ∃ y ∈ q, y.1 = b := by
      have hb : b ∈ beats q := hq ▸ .head _
      obtain ⟨y, hy, rfl⟩ := List.mem_map.mp hb
      exact ⟨y, List.mem_of_mem_filter hy, rfl⟩
    have hchain := h.gaps
    rw [beats_append, hq, List.map_append, ← List.cons_append, List.isChain_append] at hchain
    exact (hx y hy).trans (hchain.2.2 _ (getLast?_times start _) _ rfl)

theorem Steady.firstLate_eq_none (h : Steady d start l)
    (hsorted : l.Pairwise (·.1.time ≤ ·.1.time)) (hp : p <+: l) : firstLate d start p = none := by
  rw [firstLate, List.find?_eq_none]
  intro r hr
  rw [h.not_late hsorted (((List.mem_inits r p).mp hr).trans hp)]
  decide

end

namespace View

/-- A timeout whose watchdog was handed the events `watched` out of `l`. -/
structure Heeded (v : View) (d start : Int) (watched l : List (Event × Bool)) : Prop where
  subscribed : v.registration.subscribed = (firstLate d start watched).isNone
  checkpoint : v.registration.subscribed = true → v.checkpoint.toInt = lastTime start (beats l)
  outputs : v.registration.outputs = (beats (untilAlarm d start watched l)).map .passed ++
    (alarm d start watched).toList.map .timeout

/-- A timeout after the events `done`, of which the watchdog was handed all that it is to be
handed, and perhaps one that is being handed out; the source may still emit `o`. -/
structure Watching (v : View) (d : Int64) (start : Int) (o : Option Event)
    (done : List (Event × Bool)) (handing : Option (Event × Bool)) : Prop where
  request : v.registration.request = .timeout d
  durationNs : v.registration.durationNs = d
  closed : v.registration.pending = false → v.registration.subscribed = true → handing = none
  pending : v.registration.pending = true → v.registration.subscribed = true ∧ handing.isSome
  current : ∀ x ∈ handing, v.current = some x.1 ∧ v.now = x.1.genTime
  free : ∀ e ∈ o, handing = some (e, false)
  heeded : InRange d.toInt start
      (beats (untilAlarm d.toInt start done (done ++ handing.toList))) →
    v.Heeded d.toInt start done (done ++ handing.toList)

variable {v v' : View} {i : Nat} {d now : Int64} {start : Int} {e : Event} {o : Option Event}
  {done l : List (Event × Bool)} {handing : Option (Event × Bool)} {x : Event × Bool} {a : Action}
  {as : List Action}

theorem watching_registered (current : Option Event) (id : Int32) :
    (registered now current (.timeout d) id).Watching d now.toInt none [] none :=
  ⟨rfl, rfl, fun _ _ => rfl, nofun, nofun, nofun, fun _ => ⟨rfl, fun _ => rfl, rfl⟩⟩

theorem Watching.settle (h : v.Watching d start o done handing)
    (hidle : v.registration.pending = false)
    (hrange : InRange d.toInt start
      (beats (untilAlarm d.toInt start (done ++ handing.toList) (done ++ handing.toList)))) :
    v.Heeded d.toInt start (done ++ handing.toList) (done ++ handing.toList) := by
  have hheeded := h.heeded
  cases handing with
  | none =>
    simp only [Option.toList_none, List.append_nil] at hheeded hrange ⊢
    exact hheeded hrange
  | some x =>
    simp only [Option.toList_some] at hheeded hrange ⊢
    rw [untilAlarm_concat] at hrange
    obtain ⟨hsub, hcheckpoint, houtputs⟩ := hheeded hrange
    have hdead : v.registration.subscribed = false :=
      Bool.eq_false_iff.mpr fun hs => absurd (h.closed hidle hs) nofun
    rw [hdead, Eq.comm, Option.isNone_eq_false_iff, Option.isSome_iff_exists] at hsub
    obtain ⟨p, hp⟩ := hsub
    have hsame : firstLate d.toInt start (done ++ [x]) = firstLate d.toInt start done := by
      rw [firstLate_concat, hp, Option.some_or]
    refine ⟨by rw [hsame, hp, hdead]; rfl, hcheckpoint, ?_⟩
    rw [untilAlarm_concat, alarm, hsame]
    exact houtputs

theorem Watching.take (h : v.Watching d start o done handing)
    (hidle : v.registration.pending = false) (e : Event) :
    (v.take e).Watching d start (some e) (done ++ handing.toList) (some (e, false)) := by
  have hbeats : beats (untilAlarm d.toInt start (done ++ handing.toList)
      (done ++ handing.toList ++ [(e, false)])) =
      beats (untilAlarm d.toInt start (done ++ handing.toList) (done ++ handing.toList)) := by
    rw [untilAlarm, untilAlarm]
    cases firstLate d.toInt start (done ++ handing.toList) with
    | some p => rfl
    | none => exact beats_concat_false
  refine ⟨h.request, h.durationNs, fun hp hs => absurd (hp.symm.trans hs) nofun,
    fun hp => ⟨hp, rfl⟩, fun x hx => ?_, fun e' he' => ?_, fun hrange => ?_⟩
  · cases hx
    exact ⟨rfl, rfl⟩
  · cases he'
    rfl
  · rw [Option.toList_some, hbeats] at hrange
    obtain ⟨hsub, hcheckpoint, houtputs⟩ := h.settle hidle hrange
    refine ⟨hsub, fun hs => ?_, ?_⟩
    · rw [Option.toList_some, beats_concat_false]
      exact hcheckpoint hs
    · rw [Option.toList_some, hbeats]
      exact houtputs

theorem inRange_unmark {d : Int} (h : InRange d start
      (beats (untilAlarm d start done (done ++ [(e, true)])))) :
    InRange d start (beats (untilAlarm d start done (done ++ [(e, false)]))) := by
  rw [untilAlarm] at h ⊢
  cases hfirst : firstLate d start done with
  | some p => rwa [hfirst] at h
  | none =>
    rw [hfirst, Option.getD_none, beats_concat_true] at h
    rw [Option.getD_none, beats_concat_false]
    exact h.of_append

theorem Heeded.conclude_source {d : Int} (h : v.Heeded d start done (done ++ [(e, false)]))
    (hsub : v.registration.subscribed = true) (hnow : v.now = e.genTime) :
    (v.conclude v.registration e (if e.msgType ≠ timeTag then .rearm else .reject)).Heeded d start
      done (done ++ [(e, true)]) := by
  obtain ⟨hfirst, hcheckpoint, houtputs⟩ := h
  rw [hsub, Eq.comm, Option.isNone_iff_eq_none] at hfirst
  rw [alarm, untilAlarm, hfirst, Option.getD_none, beats_concat_false] at houtputs
  rw [beats_concat_false] at hcheckpoint
  split
  next hbeat =>
    refine ⟨by rw [hfirst]; exact hsub, fun _ => ?_, ?_⟩
    · rw [beats_concat_true, if_pos hbeat, lastTime_concat, conclude_rearm_checkpoint, hnow,
        Event.time]
    · rw [alarm, untilAlarm, hfirst, Option.getD_none, beats_concat_true, if_pos hbeat,
        conclude_registration, Registration.conclude, houtputs]
      simp
  next hbeat =>
    rw [conclude_reject_self]
    refine ⟨by rw [hfirst]; exact hsub, fun hs => ?_, ?_⟩
    · rw [beats_concat_true, if_neg hbeat, List.append_nil, hcheckpoint hs]
    · rw [alarm, untilAlarm, hfirst, Option.getD_none, beats_concat_true, if_neg hbeat,
        List.append_nil, houtputs]

theorem Heeded.mark_of_unsubscribed {d : Int} (h : v.Heeded d start done (done ++ [(e, false)]))
    (hsub : v.registration.subscribed = false) :
    v.Heeded d start done (done ++ [(e, true)]) := by
  obtain ⟨hfirst, -, houtputs⟩ := h
  have hsome := hfirst
  rw [hsub, Eq.comm, Option.isNone_eq_false_iff, Option.isSome_iff_exists] at hsome
  obtain ⟨p, hp⟩ := hsome
  refine ⟨hfirst, fun hs => absurd (hsub.symm.trans hs) nofun, ?_⟩
  rw [untilAlarm, hp] at houtputs ⊢
  exact houtputs

theorem conclude_source_fields {verdict : Verdict} (hv : verdict = .rearm ∨ verdict = .reject) :
    (v.registration.conclude e verdict).durationNs = v.registration.durationNs ∧
      (v.registration.conclude e verdict).pending = v.registration.pending ∧
      (v.registration.conclude e verdict).subscribed = v.registration.subscribed := by
  rcases hv with rfl | rfl <;> exact ⟨rfl, rfl, rfl⟩

theorem Watching.emit (h : v.Watching d start (some e) done handing)
    (hstep : v.step i (.emit i e) = some v') :
    v'.Watching d start none done (some (e, true)) := by
  obtain rfl := h.free e rfl
  have hheeded := h.heeded
  obtain ⟨hcurrent, hnow⟩ := h.current _ rfl
  have hopen : v.registration.pending = false → v.registration.subscribed ≠ true :=
    fun hp hs => Option.some_ne_none _ (h.closed hp hs)
  rw [Option.toList_some] at hheeded
  cases hsub : v.registration.subscribed with
  | false =>
    rw [View.step, hsub, if_neg (by simp)] at hstep
    cases hstep
    refine ⟨h.request, h.durationNs, fun _ hs => absurd (hsub.symm.trans hs) Bool.false_ne_true,
      fun hp => ⟨(h.pending hp).1, rfl⟩, fun x hx => ?_,
      fun a ha => absurd ha (Option.not_mem_none a),
      fun hrange => (hheeded (inRange_unmark hrange)).mark_of_unsubscribed hsub⟩
    cases hx
    exact ⟨hcurrent, hnow⟩
  | true =>
    have htest : v.registration.testSource e =
        if e.msgType ≠ timeTag then .rearm else .reject := by
      rw [Registration.testSource, h.request]
    have hverdict : v.registration.testSource e = .rearm ∨
        v.registration.testSource e = .reject := by
      rw [htest]
      split
      · exact .inl rfl
      · exact .inr rfl
    obtain ⟨hduration, hpending, hsubscribed⟩ := conclude_source_fields (v := v) (e := e) hverdict
    rw [View.step, if_pos ⟨rfl, hsub⟩] at hstep
    cases hstep
    refine ⟨(Registration.conclude_request ..).trans h.request, hduration.trans h.durationNs,
      fun hp _ => absurd hsub (hopen (hpending.symm.trans hp)),
      fun _ => ⟨hsubscribed.trans hsub, rfl⟩, fun x hx => ?_,
      fun a ha => absurd ha (Option.not_mem_none a), fun hrange => ?_⟩
    · cases hx
      exact ⟨hcurrent, hnow⟩
    · rw [htest]
      exact (hheeded (inRange_unmark hrange)).conclude_source hsub hnow

theorem Heeded.conclude_watchdog {d : Int} (h : v.Heeded d start done (done ++ [x]))
    (hsub : v.registration.subscribed = true) (he : x.1 = e) :
    (v.conclude { v.registration with pending := false } e
      (if late d start (done ++ [x]) then .raise else .reject)).Heeded d start (done ++ [x])
      (done ++ [x]) := by
  obtain ⟨hfirst, hcheckpoint, houtputs⟩ := h
  rw [hsub, Eq.comm, Option.isNone_iff_eq_none] at hfirst
  rw [alarm, untilAlarm, hfirst, Option.getD_none] at houtputs
  have hconcat : firstLate d start (done ++ [x]) =
      if late d start (done ++ [x]) then some (done ++ [x]) else none := by
    rw [firstLate_concat, hfirst, Option.none_or]
  split
  next hlate =>
    rw [if_pos hlate] at hconcat
    refine ⟨by rw [hconcat]; rfl, nofun, ?_⟩
    rw [alarm, untilAlarm, hconcat, Option.getD_some, conclude_registration, Registration.conclude,
      houtputs]
    simp [he]
  next hlate =>
    rw [if_neg hlate] at hconcat
    refine ⟨by rw [hconcat]; exact hsub, fun _ => hcheckpoint hsub, ?_⟩
    rw [alarm, untilAlarm, hconcat, Option.getD_none, conclude_registration, Registration.conclude,
      houtputs]

theorem Watching.deliver (h : v.Watching d start o done handing) (hcurrent : v.current = some e)
    (hpending : v.registration.pending = true) :
    (v.conclude { v.registration with pending := false } e
      (v.registration.test v.checkpoint e)).Watching d start none (done ++ handing.toList)
        none := by
  obtain ⟨hsub, hsome⟩ := h.pending hpending
  obtain ⟨x, rfl⟩ := Option.isSome_iff_exists.mp hsome
  obtain ⟨hcurrent', -⟩ := h.current x rfl
  have he : x.1 = e := Option.some.inj (hcurrent'.symm.trans hcurrent)
  have hheeded := h.heeded
  rw [Option.toList_some] at hheeded ⊢
  have htest : v.registration.test v.checkpoint e =
      if v.registration.due v.checkpoint e then .raise else .reject := by
    rw [Registration.test, h.request]
  have hfields : ∀ verdict, verdict = .raise ∨ verdict = .reject →
      (Registration.conclude { v.registration with pending := false } e verdict).durationNs = d ∧
      (Registration.conclude { v.registration with pending := false } e verdict).pending =
        false := by
    rintro _ (rfl | rfl) <;> exact ⟨h.durationNs, rfl⟩
  obtain ⟨hduration, hidle⟩ := hfields (v.registration.test v.checkpoint e) (by
    rw [htest]
    split
    · exact .inl rfl
    · exact .inr rfl)
  refine ⟨(Registration.conclude_request ..).trans h.request, hduration, fun _ _ => rfl,
    fun hp => absurd (hidle.symm.trans hp) Bool.false_ne_true,
    fun a ha => absurd ha (Option.not_mem_none a), fun a ha => absurd ha (Option.not_mem_none a),
    fun hrange => ?_⟩
  rw [Option.toList_none, List.append_nil, untilAlarm_concat] at hrange
  rw [Option.toList_none, List.append_nil]
  have hbefore := hheeded hrange
  have hcheckpoint := hbefore.checkpoint hsub
  have hfirst := hbefore.subscribed
  rw [hsub, Eq.comm, Option.isNone_iff_eq_none] at hfirst
  have hsum : InInt64 (v.checkpoint.toInt + v.registration.durationNs.toInt) := by
    rw [hcheckpoint, h.durationNs]
    rw [untilAlarm, hfirst, Option.getD_none] at hrange
    exact hrange.last
  have hdue : v.registration.due v.checkpoint e = late d.toInt start (done ++ [x]) := by
    rw [Bool.eq_iff_iff, Registration.due_iff hsum, hcheckpoint, h.durationNs, late_concat, he,
      decide_eq_true_eq]
  rw [htest, hdue]
  exact hbefore.conclude_watchdog hsub he

theorem Watching.step (h : v.Watching d start o done handing) (hmerged : Merged i o (a :: as))
    (hstep : v.step i a = some v') :
    ∃ o' done' handing', v'.Watching d start o' done' handing' ∧ Merged i o' as ∧
      done' ++ handing'.toList = heard i (done ++ handing.toList) a := by
  cases a with
  | event e =>
    obtain ⟨hidle, rfl⟩ := step_event hstep
    exact ⟨_, _, _, h.take hidle e, hmerged, rfl⟩
  | register r =>
    cases hstep
    exact ⟨_, _, _, h, hmerged, rfl⟩
  | deliver j =>
    rw [Merged] at hmerged
    by_cases hj : j = i
    · subst hj
      rw [if_pos rfl] at hmerged
      obtain ⟨e, hcurrent, hpending, rfl⟩ := step_deliver hstep
      exact ⟨_, _, _, h.deliver hcurrent hpending, hmerged, List.append_nil _⟩
    · rw [if_neg hj] at hmerged
      rw [View.step, if_neg hj] at hstep
      cases hstep
      exact ⟨_, _, _, h, hmerged, rfl⟩
  | emit j e =>
    rw [Merged] at hmerged
    by_cases hj : j = i
    · subst hj
      rw [if_pos rfl] at hmerged
      obtain ⟨rfl, hmerged⟩ := hmerged
      refine ⟨_, _, _, h.emit hstep, hmerged, ?_⟩
      rw [h.free e rfl, heard, if_pos rfl, Option.toList_some, Option.toList_some, markLast_concat]
    · rw [if_neg hj] at hmerged
      rw [View.step, if_neg fun hc => hj hc.1] at hstep
      cases hstep
      exact ⟨_, _, _, h, hmerged, by rw [heard, if_neg hj]⟩

theorem Watching.exec (h : v.Watching d start o done handing) (hmerged : Merged i o as)
    (hexec : v.exec i as = some v') :
    ∃ o' done' handing', v'.Watching d start o' done' handing' ∧
      done' ++ handing'.toList = as.foldl (heard i) (done ++ handing.toList) := by
  induction as generalizing v o done handing with
  | nil =>
    cases hexec
    exact ⟨o, done, handing, h, rfl⟩
  | cons a as ih =>
    rw [View.exec, List.foldlM_cons, Option.bind_eq_bind, Option.bind_eq_some_iff] at hexec
    obtain ⟨u, hstep, hexec⟩ := hexec
    obtain ⟨o', done', handing', hu, hmerged, hheard⟩ := h.step hmerged hstep
    rw [List.foldl_cons, ← hheard]
    exact ih hu hmerged hexec

theorem Watching.heeded_watched (h : v.Watching d start o done handing)
    (hl : done ++ handing.toList = l)
    (hrange : InRange d.toInt start
      (beats (untilAlarm d.toInt start (v.registration.watched l) l))) :
    v.Heeded d.toInt start (v.registration.watched l) l := by
  subst hl
  cases hpending : v.registration.pending with
  | false =>
    have hwatched : v.registration.watched (done ++ handing.toList) = done ++ handing.toList := by
      rw [Registration.watched, hpending]
      rfl
    rw [hwatched] at hrange ⊢
    exact h.settle hpending hrange
  | true =>
    obtain ⟨x, rfl⟩ := Option.isSome_iff_exists.mp (h.pending hpending).2
    have hwatched : v.registration.watched (done ++ (some x).toList) = done := by
      rw [Registration.watched, if_pos hpending, Option.toList_some, List.dropLast_concat]
    rw [hwatched] at hrange ⊢
    exact h.heeded hrange

end View

namespace Apprentice

theorem timeout_exact (now d : Int64) (pre post : List Action) (s : Apprentice) (reg : Registration)
    (hcalls : ((pre ++ .register (.timeout d) :: post).map Action.calls).sum < 2 ^ 31)
    (hexec : (init now).exec (pre ++ .register (.timeout d) :: post) = some s)
    (hi : s.registrations[(pre.map Action.calls).sum]? = some reg)
    (hmerged : Merged (pre.map Action.calls).sum none post)
    (hsorted : (post.filterMap Action.event?).Pairwise (·.time ≤ ·.time))
    (hrange : let l := stream (pre.map Action.calls).sum post
      let start := (pre.foldl Action.nowAfter now).toInt
      InRange d.toInt start (beats (untilAlarm d.toInt start (reg.watched l) l))) :
    let l := stream (pre.map Action.calls).sum post
    let start := (pre.foldl Action.nowAfter now).toInt
    reg.outputs = (beats (untilAlarm d.toInt start (reg.watched l) l)).map .passed ++
        (alarm d.toInt start (reg.watched l)).toList.map .timeout ∧
      (Steady d.toInt start l → reg.outputs = (beats l).map .passed) := by
  intro l start
  obtain ⟨current, v, hv, hshows⟩ := shows_exec hcalls hexec
  obtain rfl := Option.some.inj (hi.symm.trans hshows.registration)
  obtain ⟨o, done, handing, hwatching, hl⟩ :=
    (View.watching_registered current _).exec hmerged hv
  have hheeded : v.Heeded d.toInt start (v.registration.watched l) l :=
    hwatching.heeded_watched hl hrange
  refine ⟨hheeded.outputs, fun hsteady => ?_⟩
  have hstream : l.Pairwise (·.1.time ≤ ·.1.time) := by
    have hmap : l.map Prod.fst = post.filterMap Action.event? := map_fst_foldl_heard
    rw [← hmap, List.pairwise_map] at hsorted
    exact hsorted
  have hprefix : v.registration.watched l <+: l := by
    unfold Registration.watched
    split
    · exact List.dropLast_prefix l
    · exact List.prefix_rfl
  have hnone := hsteady.firstLate_eq_none hstream hprefix
  rw [hheeded.outputs, untilAlarm, alarm, hnone]
  exact List.append_nil _

theorem timeout_exact_late :
    let pre : List Action := [.event ⟨1, 101, []⟩]
    let post : List Action := [
      .event ⟨2, 101, []⟩, .emit 0 ⟨2, 101, []⟩, .deliver 0,
      .event ⟨5, timeTag, []⟩, .deliver 0]
    ∃ s reg, (init 0).exec (pre ++ .register (.timeout 2) :: post) = some s ∧
      s.registrations[0]? = some reg ∧
      reg.outputs = (beats (untilAlarm 2 1 (reg.watched (stream 0 post)) (stream 0 post))).map
        .passed ++ [.timeout ⟨5, timeTag, []⟩] := by
  intro pre post
  have hi : ((init 0).exec (pre ++ .register (.timeout 2) :: post)).map
      (fun s => s.registrations[0]?) = some (some ⟨.timeout 2, 0, 2, false, false,
        [.passed ⟨2, 101, []⟩, .timeout ⟨5, timeTag, []⟩]⟩) := by
    decide
  obtain ⟨s, hexec, hi⟩ := Option.map_eq_some_iff.mp hi
  exact ⟨s, _, hexec, hi, (timeout_exact 0 2 pre post s _ (by decide) hexec hi ⟨rfl, trivial⟩
    (by decide) (by decide)).1⟩

/-- The longest duration there is: the checkpoint and it make a time in the past. -/
theorem not_timeout_exact_max : ¬ ∀ (now d : Int64) (pre post : List Action) (s : Apprentice)
    (reg : Registration),
    ((pre ++ .register (.timeout d) :: post).map Action.calls).sum < 2 ^ 31 →
    (init now).exec (pre ++ .register (.timeout d) :: post) = some s →
    s.registrations[(pre.map Action.calls).sum]? = some reg →
    Merged (pre.map Action.calls).sum none post →
    (post.filterMap Action.event?).Pairwise (·.time ≤ ·.time) →
    let l := stream (pre.map Action.calls).sum post
    let start := (pre.foldl Action.nowAfter now).toInt
    reg.outputs = (beats (untilAlarm d.toInt start (reg.watched l) l)).map .passed ++
      (alarm d.toInt start (reg.watched l)).toList.map .timeout := by
  intro h
  let post : List Action := [.event ⟨2, 101, []⟩, .deliver 0]
  have hi : ((init 1).exec ([] ++ .register (.timeout Int64.maxValue) :: post)).map
      (fun s => s.registrations[0]?) = some (some ⟨.timeout Int64.maxValue, 0, Int64.maxValue,
        false, false, [.timeout ⟨2, 101, []⟩]⟩) := by
    decide
  obtain ⟨s, hexec, hi⟩ := Option.map_eq_some_iff.mp hi
  exact absurd (h 1 Int64.maxValue [] post s _ (by decide) hexec hi trivial (by decide)) (by decide)

end Apprentice

end Kungfu.Yijinjing.Practice
