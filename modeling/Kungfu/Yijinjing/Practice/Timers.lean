import Kungfu.Yijinjing.Practice.Apprentice

namespace Kungfu.Yijinjing.Practice

def Registration.first (reg : Registration) : Registration := { reg with id := 0 }

def Action.calls : Action → Nat
  | .register _ => 1
  | .event _ | .deliver _ | .emit _ _ => 0

/-- What an action is, after `n` calls, for one registration alone. -/
def Action.alone (i n : Nat) : Action → List Action
  | .event e => [.event e]
  | .register r => if n = i then [.register r] else []
  | .deliver j => if j = i then [.deliver 0] else []
  | .emit j e => if j = i then [.emit 0 e] else []

/-- The run in which one registration is the only one. -/
def solo (i : Nat) : Nat → List Action → List Action
  | _, [] => []
  | n, a :: as => a.alone i n ++ solo i (n + a.calls) as

@[simp] theorem Registration.conclude_id (reg : Registration) (e : Event) (v : Verdict) :
    (reg.conclude e v).id = reg.id := by
  cases v <;> rfl

@[simp] theorem Registration.conclude_request (reg : Registration) (e : Event) (v : Verdict) :
    (reg.conclude e v).request = reg.request := by
  cases v <;> rfl

namespace Apprentice

variable {s s' : Apprentice} {i j : Nat} {reg : Registration} {e : Event} {v : Verdict} {a : Action}

section Conclude

@[simp] theorem conclude_now : (s.conclude i reg e v).now = s.now := by
  unfold conclude
  split <;> rfl

@[simp] theorem conclude_current : (s.conclude i reg e v).current = s.current := by
  unfold conclude
  split <;> rfl

@[simp] theorem conclude_timerUsageCount :
    (s.conclude i reg e v).timerUsageCount = s.timerUsageCount := by
  unfold conclude
  split <;> rfl

@[simp] theorem conclude_registrations :
    (s.conclude i reg e v).registrations = s.registrations.set i (reg.conclude e v) := by
  unfold conclude
  split <;> rfl

@[simp] theorem conclude_timerCheckpoints_self : (s.conclude i reg e v).timerCheckpoints reg.id =
    if v = .rearm then s.now else s.timerCheckpoints reg.id := by
  unfold conclude
  split
  · exact Function.update_self ..
  · rfl

theorem conclude_timerCheckpoints_of_ne {id : Int32} (h : id ≠ reg.id) :
    (s.conclude i reg e v).timerCheckpoints id = s.timerCheckpoints id := by
  unfold conclude
  split
  · exact Function.update_of_ne h ..
  · rfl

end Conclude

section Register

variable {r : Request}

@[simp] theorem register_timerUsageCount :
    (s.register r).timerUsageCount = s.timerUsageCount + 1 := rfl

@[simp] theorem register_registrations : (s.register r).registrations =
    s.registrations ++ [⟨r, s.timerUsageCount, r.durationNs s.now, false, true, []⟩] := rfl

@[simp] theorem register_timerCheckpoints_self :
    (s.register r).timerCheckpoints s.timerUsageCount = s.now := Function.update_self ..

theorem register_timerCheckpoints_of_ne {id : Int32} (h : id ≠ s.timerUsageCount) :
    (s.register r).timerCheckpoints id = s.timerCheckpoints id := Function.update_of_ne h ..

theorem getElem?_register : (s.register r).registrations[j]? =
    if j = s.registrations.length then
      some ⟨r, s.timerUsageCount, r.durationNs s.now, false, true, []⟩
    else s.registrations[j]? := by
  rw [register_registrations]
  split
  next hj => rw [hj, List.getElem?_concat_length]
  next hj =>
    by_cases hlt : j < s.registrations.length
    · exact List.getElem?_append_left hlt
    · rw [List.getElem?_eq_none (by simp; omega), List.getElem?_eq_none (by omega)]

end Register

theorem getElem?_take : (s.take e).registrations[j]? =
    s.registrations[j]?.map fun reg => { reg with pending := reg.subscribed } := List.getElem?_map

section Step

theorem step_event (h : s.step (.event e) = some s') :
    s.registrations.any Registration.pending = false ∧ s' = s.take e := by
  rw [step] at h
  split at h
  · cases h
  next hany =>
    cases h
    exact ⟨Bool.eq_false_iff.mpr hany, rfl⟩

theorem step_deliver (h : s.step (.deliver j) = some s') :
    ∃ reg e, s.registrations[j]? = some reg ∧ s.current = some e ∧ reg.pending = true ∧
      s' = s.conclude j { reg with pending := false } e
        (reg.test (s.timerCheckpoints reg.id) e) := by
  simp only [step, Option.bind_eq_bind, Option.bind_eq_some_iff] at h
  obtain ⟨reg, hreg, e, he, h⟩ := h
  split at h
  next hpending =>
    cases h
    exact ⟨reg, e, hreg, he, hpending, rfl⟩
  · cases h

theorem step_emit (h : s.step (.emit j e) = some s') :
    ∃ reg, s.registrations[j]? = some reg ∧
      s' = if reg.subscribed then s.conclude j reg e (reg.testSource e) else s := by
  simp only [step, Option.bind_eq_bind, Option.bind_eq_some_iff] at h
  obtain ⟨reg, hreg, h⟩ := h
  refine ⟨reg, hreg, ?_⟩
  split at h <;> simp_all

end Step

structure Numbered (s : Apprentice) : Prop where
  count : s.timerUsageCount = Int32.ofNat s.registrations.length
  id : ∀ (j : Nat) (reg : Registration), s.registrations[j]? = some reg → reg.id = Int32.ofNat j

theorem ofNat_int32_inj {m n : Nat} (hm : m < 2 ^ 31) (hn : n < 2 ^ 31)
    (h : Int32.ofNat m = Int32.ofNat n) : m = n := by
  have hint := congrArg Int32.toInt h
  rw [Int32.toInt_ofNat_of_lt hm, Int32.toInt_ofNat_of_lt hn] at hint
  exact Int.ofNat_inj.mp hint

theorem Numbered.id_ne (h : s.Numbered) (hlen : s.registrations.length < 2 ^ 31)
    (hi : s.registrations[i]? = some reg) {reg' : Registration}
    (hj : s.registrations[j]? = some reg') (hne : j ≠ i) : reg.id ≠ reg'.id := by
  obtain ⟨hilt, -⟩ := List.getElem?_eq_some_iff.mp hi
  obtain ⟨hjlt, -⟩ := List.getElem?_eq_some_iff.mp hj
  rw [h.id i reg hi, h.id j reg' hj]
  exact fun heq => hne (ofNat_int32_inj (by omega) (by omega) heq).symm

theorem Numbered.id_ne_count (h : s.Numbered) (hlen : s.registrations.length < 2 ^ 31)
    (hi : s.registrations[i]? = some reg) : reg.id ≠ s.timerUsageCount := by
  obtain ⟨hilt, -⟩ := List.getElem?_eq_some_iff.mp hi
  rw [h.id i reg hi, h.count]
  exact fun heq => Nat.ne_of_lt hilt (ofNat_int32_inj (by omega) hlen heq)

theorem Numbered.conclude (h : s.Numbered) (hreg : s.registrations[j]? = some reg)
    {reg' : Registration} (hid : reg'.id = reg.id) : (s.conclude j reg' e v).Numbered := by
  refine ⟨by simpa using h.count, fun k reg'' hreg'' => ?_⟩
  rw [conclude_registrations, List.getElem?_set] at hreg''
  split at hreg''
  next hjk =>
    subst hjk
    split at hreg''
    · cases hreg''
      rw [Registration.conclude_id, hid]
      exact h.id j reg hreg
    · cases hreg''
  · exact h.id k reg'' hreg''

theorem Numbered.step (h : s.Numbered) (hstep : s.step a = some s') : s'.Numbered := by
  cases a with
  | event e =>
    obtain ⟨-, rfl⟩ := step_event hstep
    refine ⟨by simpa [take] using h.count, fun j reg hreg => ?_⟩
    rw [getElem?_take, Option.map_eq_some_iff] at hreg
    obtain ⟨reg, hreg, rfl⟩ := hreg
    exact h.id j reg hreg
  | register r =>
    cases hstep
    refine ⟨?_, fun j reg hreg => ?_⟩
    · rw [register_timerUsageCount, h.count, register_registrations, List.length_append,
        List.length_singleton, Int32.ofNat_add]
      rfl
    · rw [getElem?_register] at hreg
      split at hreg
      next hj =>
        cases hreg
        rw [h.count, hj]
      · exact h.id j reg hreg
  | deliver j =>
    obtain ⟨reg, e, hreg, -, -, rfl⟩ := step_deliver hstep
    exact h.conclude hreg rfl
  | emit j e =>
    obtain ⟨reg, hreg, rfl⟩ := step_emit hstep
    split
    · exact h.conclude hreg rfl
    · exact h

structure Alone (i : Nat) (s s' : Apprentice) : Prop where
  now : s'.now = s.now
  current : s'.current = s.current
  registrations :
    s'.registrations = (s.registrations[i]?).toList.map Registration.first
  checkpoint : ∀ reg : Registration, s.registrations[i]? = some reg →
    s'.timerCheckpoints 0 = s.timerCheckpoints reg.id
  count : s.registrations.length ≤ i → s'.timerUsageCount = 0

variable {t : Apprentice}

theorem Alone.registrations_of_some (h : Alone i s t) (hreg : s.registrations[i]? = some reg) :
    t.registrations = [reg.first] := by
  rw [h.registrations, hreg]
  rfl

theorem Alone.conclude_of_ne (h : Alone i s t) (hnum : s.Numbered)
    (hlen : s.registrations.length < 2 ^ 31) (hne : j ≠ i)
    (hj : s.registrations[j]? = some reg) {reg' : Registration} (hid : reg'.id = reg.id) :
    Alone i (s.conclude j reg' e v) t := by
  have hget : (s.conclude j reg' e v).registrations[i]? = s.registrations[i]? := by
    rw [conclude_registrations, List.getElem?_set_ne hne]
  refine ⟨by simpa using h.now, by simpa using h.current, by rw [hget]; exact h.registrations,
    fun reg'' hreg'' => ?_, fun hle => h.count (by simpa using hle)⟩
  rw [hget] at hreg''
  rw [h.checkpoint reg'' hreg'',
    conclude_timerCheckpoints_of_ne (hid ▸ hnum.id_ne hlen hreg'' hj hne)]

theorem Alone.conclude (h : Alone i s t) (hi : s.registrations[i]? = some reg)
    (reg' : Registration) (hid : reg'.id = reg.id) :
    Alone i (s.conclude i reg' e v) (t.conclude 0 reg'.first e v) := by
  obtain ⟨hilt, -⟩ := List.getElem?_eq_some_iff.mp hi
  have hget : (s.conclude i reg' e v).registrations[i]? = some (reg'.conclude e v) := by
    rw [conclude_registrations, List.getElem?_set_self hilt]
  refine ⟨by simpa using h.now, by simpa using h.current, ?_, fun reg'' hreg'' => ?_,
    fun hle => by simpa using h.count (by simpa using hle)⟩
  · rw [hget, conclude_registrations, h.registrations_of_some hi]
    cases v <;> rfl
  · rw [hget] at hreg''
    cases hreg''
    have hs : (s.conclude i reg' e v).timerCheckpoints reg'.id =
        if v = .rearm then s.now else s.timerCheckpoints reg'.id := conclude_timerCheckpoints_self
    have ht : (t.conclude 0 reg'.first e v).timerCheckpoints 0 =
        if v = .rearm then t.now else t.timerCheckpoints 0 := conclude_timerCheckpoints_self
    rw [Registration.conclude_id, hs, ht, h.now, h.checkpoint reg hi, hid]

theorem Alone.event (h : Alone i s t) (hstep : s.step (.event e) = some s') :
    ∃ t', t.step (.event e) = some t' ∧ Alone i s' t' := by
  obtain ⟨hany, rfl⟩ := step_event hstep
  have hidle : t.registrations.any Registration.pending = false := by
    rw [h.registrations, List.any_map, List.any_eq_false]
    intro reg hreg
    exact List.any_eq_false.mp hany reg (List.mem_of_getElem? (Option.mem_toList.mp hreg))
  refine ⟨t.take e, by rw [Apprentice.step, hidle]; rfl, rfl, rfl, ?_, fun reg hreg => ?_,
    fun hle => h.count (by simpa [take] using hle)⟩
  · rw [getElem?_take, take, h.registrations]
    cases s.registrations[i]? <;> rfl
  · rw [getElem?_take, Option.map_eq_some_iff] at hreg
    obtain ⟨reg, hreg, rfl⟩ := hreg
    exact h.checkpoint reg hreg

theorem Alone.register (h : Alone s.registrations.length s t) (r : Request) :
    Alone s.registrations.length (s.register r) (t.register r) := by
  have hcount := h.count (Nat.le_refl _)
  have hnil : t.registrations = [] := by
    rw [h.registrations, List.getElem?_eq_none (Nat.le_refl _)]
    rfl
  refine ⟨h.now, h.current, ?_, fun reg hreg => ?_, fun hle => ?_⟩
  · rw [getElem?_register, if_pos rfl, register_registrations, hnil, hcount, h.now]
    rfl
  · rw [getElem?_register, if_pos rfl] at hreg
    cases hreg
    rw [register_timerCheckpoints_self, ← hcount, register_timerCheckpoints_self, h.now]
  · simp only [register_registrations, List.length_append, List.length_singleton] at hle
    omega

theorem Alone.register_of_ne (h : Alone i s t) (hnum : s.Numbered)
    (hlen : s.registrations.length < 2 ^ 31) (hne : i ≠ s.registrations.length) (r : Request) :
    Alone i (s.register r) t := by
  have hget : (s.register r).registrations[i]? = s.registrations[i]? := by
    rw [getElem?_register, if_neg hne]
  refine ⟨h.now, h.current, by rw [hget]; exact h.registrations, fun reg hreg => ?_, fun hle => ?_⟩
  · rw [hget] at hreg
    rw [h.checkpoint reg hreg, register_timerCheckpoints_of_ne (hnum.id_ne_count hlen hreg)]
  · simp only [register_registrations, List.length_append, List.length_singleton] at hle
    exact h.count (by omega)

theorem Alone.deliver (h : Alone i s t) (hstep : s.step (.deliver i) = some s') :
    ∃ t', t.step (.deliver 0) = some t' ∧ Alone i s' t' := by
  obtain ⟨reg, e, hreg, he, hpending, rfl⟩ := step_deliver hstep
  have hfirst : t.registrations[0]? = some reg.first := by rw [h.registrations_of_some hreg]; rfl
  have hcurrent : t.current = some e := h.current.trans he
  refine ⟨_, ?_, h.conclude hreg { reg with pending := false } rfl⟩
  have htest : reg.first.test (t.timerCheckpoints 0) e =
      reg.test (s.timerCheckpoints reg.id) e := by
    rw [h.checkpoint reg hreg]
    rfl
  rw [← htest]
  simp only [Apprentice.step, hfirst, hcurrent, Option.bind_eq_bind, Option.bind_some]
  exact if_pos hpending

theorem Alone.emit (h : Alone i s t) (hstep : s.step (.emit i e) = some s') :
    ∃ t', t.step (.emit 0 e) = some t' ∧ Alone i s' t' := by
  obtain ⟨reg, hreg, rfl⟩ := step_emit hstep
  have hfirst : t.registrations[0]? = some reg.first := by rw [h.registrations_of_some hreg]; rfl
  simp only [Apprentice.step, hfirst, Option.bind_eq_bind, Option.bind_some]
  cases hsub : reg.subscribed with
  | true => exact ⟨_, if_pos hsub, h.conclude hreg _ rfl⟩
  | false => exact ⟨t, if_neg (by simpa [Registration.first] using hsub), h⟩

theorem Alone.step (h : Alone i s t) (hnum : s.Numbered) (hlen : s.registrations.length < 2 ^ 31)
    (hstep : s.step a = some s') :
    ∃ t', t.exec (a.alone i s.registrations.length) = some t' ∧ Alone i s' t' := by
  have one : ∀ a', (∃ t', t.step a' = some t' ∧ Alone i s' t') →
      ∃ t', t.exec [a'] = some t' ∧ Alone i s' t' := by
    rintro a' ⟨t', ht', halone⟩
    exact ⟨t', by rw [exec, List.foldlM_cons, ht']; rfl, halone⟩
  cases a with
  | event e => exact one _ (h.event hstep)
  | register r =>
    cases hstep
    rw [Action.alone]
    split
    next hi =>
      subst hi
      exact one _ ⟨_, rfl, h.register r⟩
    next hne => exact ⟨t, rfl, h.register_of_ne hnum hlen (Ne.symm hne) r⟩
  | deliver j =>
    rw [Action.alone]
    split
    next hj =>
      subst hj
      exact one _ (h.deliver hstep)
    next hne =>
      obtain ⟨reg, e, hreg, -, -, rfl⟩ := step_deliver hstep
      exact ⟨t, rfl, h.conclude_of_ne hnum hlen hne hreg rfl⟩
  | emit j e =>
    rw [Action.alone]
    split
    next hj =>
      subst hj
      exact one _ (h.emit hstep)
    next hne =>
      obtain ⟨reg, hreg, rfl⟩ := step_emit hstep
      refine ⟨t, rfl, ?_⟩
      split
      · exact h.conclude_of_ne hnum hlen hne hreg rfl
      · exact h

theorem length_step (hstep : s.step a = some s') :
    s'.registrations.length = s.registrations.length + a.calls := by
  cases a with
  | event e =>
    obtain ⟨-, rfl⟩ := step_event hstep
    exact List.length_map ..
  | register r =>
    cases hstep
    exact List.length_append
  | deliver j =>
    obtain ⟨reg, e, -, -, -, rfl⟩ := step_deliver hstep
    simp [Action.calls]
  | emit j e =>
    obtain ⟨reg, -, rfl⟩ := step_emit hstep
    split <;> simp [Action.calls]

theorem exec_cons {as : List Action} (h : s.exec (a :: as) = some s') :
    ∃ u, s.step a = some u ∧ u.exec as = some s' := by
  rwa [exec, List.foldlM_cons, Option.bind_eq_bind, Option.bind_eq_some_iff] at h

theorem exec_cons_of_calls {as : List Action} (hnum : s.Numbered)
    (hcalls : s.registrations.length + ((a :: as).map Action.calls).sum < 2 ^ 31)
    (hexec : s.exec (a :: as) = some s') :
    ∃ u, s.step a = some u ∧ u.exec as = some s' ∧ u.Numbered ∧
      s.registrations.length < 2 ^ 31 ∧
      u.registrations.length + (as.map Action.calls).sum < 2 ^ 31 := by
  obtain ⟨u, hstep, hexec⟩ := exec_cons hexec
  rw [List.map_cons, List.sum_cons] at hcalls
  have hlen := length_step hstep
  exact ⟨u, hstep, hexec, hnum.step hstep, by omega, by omega⟩

theorem Alone.exec {as : List Action} (h : Alone i s t) (hnum : s.Numbered)
    (hcalls : s.registrations.length + (as.map Action.calls).sum < 2 ^ 31)
    (hexec : s.exec as = some s') :
    ∃ t', t.exec (solo i s.registrations.length as) = some t' ∧ Alone i s' t' := by
  induction as generalizing s t with
  | nil =>
    cases hexec
    exact ⟨t, rfl, h⟩
  | cons a as ih =>
    obtain ⟨u, hstep, hexec, hnum', hlen, hcalls⟩ := exec_cons_of_calls hnum hcalls hexec
    obtain ⟨u', hu', halone⟩ := h.step hnum hlen hstep
    obtain ⟨t', ht', halone'⟩ := ih halone hnum' hcalls hexec
    refine ⟨t', ?_, halone'⟩
    rw [solo, ← length_step hstep, Apprentice.exec, List.foldlM_append]
    exact Option.bind_eq_some_iff.mpr ⟨u', hu', ht'⟩

theorem numbered_init (now : Int64) : (init now).Numbered := ⟨rfl, nofun⟩

theorem alone_init (now : Int64) : Alone i (init now) (init now) :=
  ⟨rfl, rfl, rfl, nofun, fun _ => rfl⟩

end Apprentice

end Kungfu.Yijinjing.Practice
