import Kungfu.Yijinjing.Practice.Timers

namespace Kungfu.Yijinjing.Practice

def Event.time (e : Event) : Int := e.genTime.toInt

def InInt64 (n : Int) : Prop := -2 ^ 63 ≤ n ∧ n < 2 ^ 63

instance (n : Int) : Decidable (InInt64 n) := inferInstanceAs (Decidable (_ ∧ _))

theorem toInt_add_of_inInt64 {x y : Int64} (h : InInt64 (x.toInt + y.toInt)) :
    (x + y).toInt = x.toInt + y.toInt := by
  rw [Int64.toInt_add]
  exact Int.bmod_eq_of_le h.1 h.2

theorem Registration.due_iff {reg : Registration} {checkpoint : Int64} {e : Event}
    (h : InInt64 (checkpoint.toInt + reg.durationNs.toInt)) :
    reg.due checkpoint e = true ↔ checkpoint.toInt + reg.durationNs.toInt < e.time := by
  rw [due, decide_eq_true_eq, Int64.lt_iff_toInt_lt, toInt_add_of_inInt64 h, Event.time]

def lastTime (start : Int) (es : List Event) : Int := es.getLast?.elim start Event.time

theorem lastTime_concat (start : Int) (es : List Event) (e : Event) :
    lastTime start (es ++ [e]) = e.time := by
  rw [lastTime, List.getLast?_concat, Option.elim_some]

theorem lastTime_cons (start : Int) (e : Event) (es : List Event) :
    lastTime start (e :: es) = lastTime e.time es := by
  rw [lastTime, List.getLast?_cons, Option.elim_some, lastTime]
  cases es.getLast? <;> rfl

theorem getLast?_times (start : Int) (es : List Event) :
    (start :: es.map Event.time).getLast? = some (lastTime start es) := by
  rw [List.getLast?_cons, List.getLast?_map, lastTime]
  cases es.getLast? <;> rfl

def InRange (d start : Int) (es : List Event) : Prop :=
  ∀ t ∈ start :: es.map Event.time, InInt64 (t + d)

instance (d start : Int) (es : List Event) : Decidable (InRange d start es) :=
  inferInstanceAs (Decidable (∀ t ∈ _, InInt64 _))

theorem InRange.last {d start : Int} {es : List Event} (h : InRange d start es) :
    InInt64 (lastTime start es + d) :=
  h _ (List.mem_of_getLast? (getLast?_times start es))

theorem InRange.of_append {d start : Int} {es fs : List Event} (h : InRange d start (es ++ fs)) :
    InRange d start es := by
  intro t ht
  refine h t ?_
  rw [List.map_append, ← List.cons_append]
  exact List.mem_append_left _ ht

/-- What concerns one registration in the state of an apprentice. -/
structure View where
  now : Int64
  current : Option Event
  checkpoint : Int64
  requests : List TimeRequest
  registration : Registration

namespace View

variable (v : View)

def conclude (reg : Registration) (e : Event) (verdict : Verdict) : View where
  now := v.now
  current := v.current
  checkpoint := if verdict = .rearm then v.now else v.checkpoint
  requests := v.requests ++ if verdict = .rearm then [⟨reg.id, reg.durationNs, 1⟩] else []
  registration := reg.conclude e verdict

def take (e : Event) : View :=
  { v with
    now := e.genTime
    current := some e
    registration := { v.registration with pending := v.registration.subscribed } }

def step (i : Nat) : Action → Option View
  | .event e => if v.registration.pending then none else some (v.take e)
  | .register _ => some v
  | .deliver j =>
    if j = i then do
      let e ← v.current
      if v.registration.pending then
        let reg := { v.registration with pending := false }
        some (v.conclude reg e (reg.test v.checkpoint e))
      else none
    else some v
  | .emit j e =>
    if j = i ∧ v.registration.subscribed then
      some (v.conclude v.registration e (v.registration.testSource e))
    else some v

def exec (i : Nat) (as : List Action) : Option View := as.foldlM (fun v a => v.step i a) v

variable {v} {v' : View} {i : Nat} {e : Event} {as : List Action}

@[simp] theorem conclude_registration {reg : Registration} {verdict : Verdict} :
    (v.conclude reg e verdict).registration = reg.conclude e verdict := rfl

@[simp] theorem conclude_reject_checkpoint {reg : Registration} :
    (v.conclude reg e .reject).checkpoint = v.checkpoint := rfl

@[simp] theorem conclude_rearm_checkpoint {reg : Registration} :
    (v.conclude reg e .rearm).checkpoint = v.now := rfl

@[simp] theorem conclude_reject_requests {reg : Registration} :
    (v.conclude reg e .reject).requests = v.requests := List.append_nil _

@[simp] theorem conclude_rearm_requests {reg : Registration} :
    (v.conclude reg e .rearm).requests = v.requests ++ [⟨reg.id, reg.durationNs, 1⟩] := rfl

@[simp] theorem conclude_reject_self : v.conclude v.registration e .reject = v := by
  rw [conclude, if_neg nofun, if_neg nofun, List.append_nil]
  rfl

theorem step_event (h : v.step i (.event e) = some v') :
    v.registration.pending = false ∧ v' = v.take e := by
  rw [step] at h
  split at h
  · cases h
  next hidle =>
    cases h
    exact ⟨Bool.eq_false_iff.mpr hidle, rfl⟩

theorem step_deliver (h : v.step i (.deliver i) = some v') :
    ∃ e, v.current = some e ∧ v.registration.pending = true ∧
      v' = v.conclude { v.registration with pending := false } e
        (v.registration.test v.checkpoint e) := by
  simp only [step, if_pos, Option.bind_eq_bind, Option.bind_eq_some_iff] at h
  obtain ⟨e, he, h⟩ := h
  split at h
  next hpending =>
    cases h
    exact ⟨e, he, hpending, rfl⟩
  · cases h

end View

namespace Apprentice

structure Shows (s : Apprentice) (i : Nat) (v : View) : Prop where
  now : v.now = s.now
  current : v.current = s.current
  registration : s.registrations[i]? = some v.registration
  checkpoint : v.checkpoint = s.timerCheckpoints v.registration.id
  requests : v.requests = s.requests.filter (·.id = v.registration.id)

variable {s s' : Apprentice} {v : View} {i j : Nat} {reg : Registration} {e : Event}
  {verdict : Verdict} {a : Action}

theorem conclude_requests : (s.conclude i reg e verdict).requests =
    s.requests ++ if verdict = .rearm then [⟨reg.id, reg.durationNs, 1⟩] else [] := by
  unfold conclude
  split
  · rfl
  · exact (List.append_nil _).symm

theorem Shows.conclude (h : s.Shows i v) (hid : reg.id = v.registration.id) :
    (s.conclude i reg e verdict).Shows i (v.conclude reg e verdict) := by
  obtain ⟨hlt, -⟩ := List.getElem?_eq_some_iff.mp h.registration
  have hcheckpoint : (s.conclude i reg e verdict).timerCheckpoints reg.id =
      if verdict = .rearm then s.now else s.timerCheckpoints reg.id :=
    conclude_timerCheckpoints_self
  refine ⟨h.now.trans conclude_now.symm, h.current.trans conclude_current.symm, ?_, ?_, ?_⟩
  · rw [conclude_registrations, List.getElem?_set_self hlt, View.conclude]
  · rw [View.conclude, Registration.conclude_id, hcheckpoint, h.now, h.checkpoint, hid]
  · rw [View.conclude, Registration.conclude_id, conclude_requests, List.filter_append,
      h.requests, hid]
    split <;> simp

theorem Shows.conclude_of_ne (h : s.Shows i v) (hji : j ≠ i) (hne : reg.id ≠ v.registration.id) :
    (s.conclude j reg e verdict).Shows i v := by
  refine ⟨h.now.trans conclude_now.symm, h.current.trans conclude_current.symm, ?_, ?_, ?_⟩
  · rw [conclude_registrations, List.getElem?_set_ne hji, h.registration]
  · rw [conclude_timerCheckpoints_of_ne hne.symm, h.checkpoint]
  · rw [conclude_requests, List.filter_append, ← h.requests]
    split <;> simp [hne]

theorem Shows.event (h : s.Shows i v) (hstep : s.step (.event e) = some s') :
    ∃ v', v.step i (.event e) = some v' ∧ s'.Shows i v' := by
  obtain ⟨hany, rfl⟩ := Apprentice.step_event hstep
  have hidle : v.registration.pending = false := Bool.eq_false_iff.mpr
    (List.any_eq_false.mp hany _ (List.mem_of_getElem? h.registration))
  refine ⟨v.take e, if_neg (by rw [hidle]; decide), rfl, rfl, ?_, h.checkpoint, h.requests⟩
  rw [getElem?_take, h.registration]
  rfl

theorem Shows.register (h : s.Shows i v) (hnum : s.Numbered)
    (hlen : s.registrations.length < 2 ^ 31) (r : Request) : (s.register r).Shows i v := by
  obtain ⟨hlt, -⟩ := List.getElem?_eq_some_iff.mp h.registration
  have hne : v.registration.id ≠ s.timerUsageCount := hnum.id_ne_count hlen h.registration
  refine ⟨h.now, h.current, ?_, ?_, ?_⟩
  · rw [getElem?_register, if_neg (Nat.ne_of_lt hlt), h.registration]
  · rw [register_timerCheckpoints_of_ne hne, h.checkpoint]
  · have hrequests : (s.register r).requests =
        s.requests ++ [⟨s.timerUsageCount, r.durationNs s.now, 1⟩] := rfl
    rw [hrequests, List.filter_append, ← h.requests]
    simp [hne.symm]

theorem Shows.deliver (h : s.Shows i v) (hnum : s.Numbered)
    (hlen : s.registrations.length < 2 ^ 31) (hstep : s.step (.deliver j) = some s') :
    ∃ v', v.step i (.deliver j) = some v' ∧ s'.Shows i v' := by
  obtain ⟨reg, e, hj, hcurrent, hpending, rfl⟩ := Apprentice.step_deliver hstep
  by_cases hji : j = i
  · subst hji
    obtain rfl := Option.some.inj (h.registration.symm.trans hj)
    refine ⟨_, ?_, h.conclude rfl⟩
    rw [View.step, if_pos rfl, h.current, hcurrent, ← h.checkpoint]
    exact if_pos hpending
  · exact ⟨v, if_neg hji,
      h.conclude_of_ne hji (hnum.id_ne hlen h.registration hj hji).symm⟩

theorem Shows.emit (h : s.Shows i v) (hnum : s.Numbered)
    (hlen : s.registrations.length < 2 ^ 31) (hstep : s.step (.emit j e) = some s') :
    ∃ v', v.step i (.emit j e) = some v' ∧ s'.Shows i v' := by
  obtain ⟨reg, hj, rfl⟩ := Apprentice.step_emit hstep
  by_cases hji : j = i
  · subst hji
    obtain rfl := Option.some.inj (h.registration.symm.trans hj)
    split
    next hsub => exact ⟨_, if_pos ⟨rfl, hsub⟩, h.conclude rfl⟩
    next hsub => exact ⟨v, if_neg fun hc => hsub hc.2, h⟩
  · refine ⟨v, if_neg fun hc => hji hc.1, ?_⟩
    split
    · exact h.conclude_of_ne hji (hnum.id_ne hlen h.registration hj hji).symm
    · exact h

theorem Shows.step (h : s.Shows i v) (hnum : s.Numbered) (hlen : s.registrations.length < 2 ^ 31)
    (hstep : s.step a = some s') : ∃ v', v.step i a = some v' ∧ s'.Shows i v' := by
  cases a with
  | event e => exact h.event hstep
  | register r =>
    cases hstep
    exact ⟨v, rfl, h.register hnum hlen r⟩
  | deliver j => exact h.deliver hnum hlen hstep
  | emit j e => exact h.emit hnum hlen hstep

theorem Shows.exec {as : List Action} (h : s.Shows i v) (hnum : s.Numbered)
    (hcalls : s.registrations.length + (as.map Action.calls).sum < 2 ^ 31)
    (hexec : s.exec as = some s') : ∃ v', v.exec i as = some v' ∧ s'.Shows i v' := by
  induction as generalizing s v with
  | nil =>
    cases hexec
    exact ⟨v, rfl, h⟩
  | cons a as ih =>
    obtain ⟨u, hstep, hexec, hnum', hlen, hcalls⟩ := exec_cons_of_calls hnum hcalls hexec
    obtain ⟨w, hw, hshows⟩ := h.step hnum hlen hstep
    obtain ⟨v', hv', hshows'⟩ := ih hshows hnum' hcalls hexec
    exact ⟨v', by rw [View.exec, List.foldlM_cons, hw]; exact hv', hshows'⟩

def Issued (s : Apprentice) : Prop :=
  ∀ r ∈ s.requests, ∃ j < s.registrations.length, r.id = Int32.ofNat j

theorem Issued.conclude (h : s.Issued) (hnum : s.Numbered) (hj : s.registrations[j]? = some reg)
    {reg' : Registration} (hid : reg'.id = reg.id) : (s.conclude j reg' e verdict).Issued := by
  obtain ⟨hlt, -⟩ := List.getElem?_eq_some_iff.mp hj
  intro r hr
  rw [conclude_requests, List.mem_append] at hr
  rw [conclude_registrations, List.length_set]
  rcases hr with hr | hr
  · exact h r hr
  · split at hr
    · obtain rfl := List.mem_singleton.mp hr
      exact ⟨j, hlt, hid.trans (hnum.id j reg hj)⟩
    · cases hr

theorem Issued.step (h : s.Issued) (hnum : s.Numbered) (hstep : s.step a = some s') :
    s'.Issued := by
  cases a with
  | event e =>
    obtain ⟨-, rfl⟩ := Apprentice.step_event hstep
    intro r hr
    obtain ⟨j, hj, hid⟩ := h r hr
    exact ⟨j, by rwa [take, List.length_map], hid⟩
  | register req =>
    cases hstep
    intro r hr
    rw [register_registrations, List.length_append, List.length_singleton]
    rcases List.mem_append.mp hr with hr | hr
    · obtain ⟨j, hj, hid⟩ := h r hr
      exact ⟨j, by omega, hid⟩
    · obtain rfl := List.mem_singleton.mp hr
      exact ⟨s.registrations.length, by omega, hnum.count⟩
  | deliver j =>
    obtain ⟨reg, e, hj, -, -, rfl⟩ := Apprentice.step_deliver hstep
    exact h.conclude hnum hj rfl
  | emit j e =>
    obtain ⟨reg, hj, rfl⟩ := Apprentice.step_emit hstep
    split
    · exact h.conclude hnum hj rfl
    · exact h

end Apprentice

def Action.nowAfter (now : Int64) : Action → Int64
  | .event e => e.genTime
  | .register _ | .deliver _ | .emit _ _ => now

def View.registered (now : Int64) (current : Option Event) (r : Request) (id : Int32) : View where
  now := now
  current := current
  checkpoint := now
  requests := [⟨id, r.durationNs now, 1⟩]
  registration := ⟨r, id, r.durationNs now, false, true, []⟩

namespace Apprentice

variable {s s' : Apprentice} {a : Action} {as : List Action}

theorem now_step (hstep : s.step a = some s') : s'.now = a.nowAfter s.now := by
  cases a with
  | event e =>
    obtain ⟨-, rfl⟩ := step_event hstep
    rfl
  | register r =>
    cases hstep
    rfl
  | deliver j =>
    obtain ⟨reg, e, -, -, -, rfl⟩ := step_deliver hstep
    exact conclude_now
  | emit j e =>
    obtain ⟨reg, -, rfl⟩ := step_emit hstep
    split
    · exact conclude_now
    · rfl

structure After (s : Apprentice) (now : Int64) (calls : Nat) : Prop where
  numbered : s.Numbered
  issued : s.Issued
  now : s.now = now
  length : s.registrations.length = calls

theorem After.exec {now : Int64} {calls : Nat} (h : s.After now calls)
    (hexec : s.exec as = some s') :
    s'.After (as.foldl Action.nowAfter now) (calls + (as.map Action.calls).sum) := by
  induction as generalizing s now calls with
  | nil =>
    cases hexec
    exact h
  | cons a as ih =>
    obtain ⟨u, hstep, hexec⟩ := exec_cons hexec
    have hu : u.After (a.nowAfter now) (calls + a.calls) :=
      ⟨h.numbered.step hstep, h.issued.step h.numbered hstep, by rw [now_step hstep, h.now],
        by rw [length_step hstep, h.length]⟩
    have hs' := ih hu hexec
    rwa [List.foldl_cons, List.map_cons, List.sum_cons, ← Nat.add_assoc]

theorem After.shows_register {now : Int64} {calls : Nat} (h : s.After now calls)
    (hcalls : calls < 2 ^ 31) (r : Request) :
    (s.register r).Shows calls (.registered now s.current r (Int32.ofNat calls)) := by
  have hcount : s.timerUsageCount = Int32.ofNat calls := h.length ▸ h.numbered.count
  refine ⟨h.now.symm, rfl, ?_, ?_, ?_⟩
  · rw [getElem?_register, if_pos h.length.symm, hcount, h.now]
    rfl
  · rw [View.registered, ← hcount, register_timerCheckpoints_self, h.now]
  · have hrequests : (s.register r).requests =
        s.requests ++ [⟨Int32.ofNat calls, r.durationNs now, 1⟩] := by
      rw [← hcount, ← h.now]
      rfl
    have hfresh : s.requests.filter (·.id = Int32.ofNat calls) = [] := by
      rw [List.filter_eq_nil_iff]
      intro q hq
      obtain ⟨j, hj, hid⟩ := h.issued q hq
      rw [h.length] at hj
      rw [hid, decide_eq_true_eq]
      exact fun heq => Nat.ne_of_lt hj (ofNat_int32_inj (by omega) hcalls heq)
    rw [View.registered, hrequests, List.filter_append, hfresh]
    simp

theorem shows_exec {now : Int64} {pre post : List Action} {r : Request}
    (hcalls : ((pre ++ .register r :: post).map Action.calls).sum < 2 ^ 31)
    (hexec : (init now).exec (pre ++ .register r :: post) = some s) :
    ∃ current v, (View.registered (pre.foldl Action.nowAfter now) current r
        (Int32.ofNat (pre.map Action.calls).sum)).exec (pre.map Action.calls).sum post = some v ∧
      s.Shows (pre.map Action.calls).sum v := by
  rw [exec, List.foldlM_append, Option.bind_eq_bind, Option.bind_eq_some_iff] at hexec
  obtain ⟨u, hpre, hexec⟩ := hexec
  have hinit : (init now).After now 0 :=
    ⟨numbered_init now, fun _ hq => absurd hq List.not_mem_nil, rfl, rfl⟩
  have hu := hinit.exec hpre
  rw [Nat.zero_add] at hu
  obtain ⟨w, hstep, hpost⟩ := exec_cons hexec
  cases hstep
  rw [List.map_append, List.map_cons, List.sum_append, List.sum_cons, Action.calls] at hcalls
  have hlen : (u.register r).registrations.length = (pre.map Action.calls).sum + 1 := by
    rw [register_registrations, List.length_append, hu.length, List.length_singleton]
  obtain ⟨v, hv, hshows⟩ := (hu.shows_register (by omega) r).exec
    (hu.numbered.step (a := .register r) rfl) (by omega) hpost
  exact ⟨u.current, v, hv, hshows⟩

end Apprentice

end Kungfu.Yijinjing.Practice
