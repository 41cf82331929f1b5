import Kungfu.Yijinjing.Practice.TimerIsolation
import Kungfu.Yijinjing.Practice.TimerView

namespace Kungfu.Yijinjing.Practice

def Output.isPassed : Output → Bool
  | .passed _ => true
  | .timeout _ => false

def Request.repeats : Request → Bool
  | .timer _ => false
  | .timeInterval _ | .timeout _ => true

namespace Registration

def rearms (reg : Registration) : Nat :=
  if reg.request.repeats then reg.outputs.countP Output.isPassed else 0

/-- The requests that a registration accounts for. -/
def asked (reg : Registration) : List TimeRequest :=
  List.replicate (reg.rearms + 1) ⟨reg.id, reg.durationNs, 1⟩

structure Answers (reg : Registration) (v : Verdict) : Prop where
  rearm : v = .rearm → reg.request.repeats = true
  pass : v = .pass → reg.request.repeats = false

variable {reg : Registration} {v : Verdict}

theorem answers_test (reg : Registration) (checkpoint : Int64) (e : Event) :
    reg.Answers (reg.test checkpoint e) := by
  unfold test
  split
  next h => exact ⟨by split <;> simp, fun _ => by rw [h]; rfl⟩
  next h => exact ⟨fun _ => by rw [h]; rfl, by split <;> simp⟩
  next h => exact ⟨fun _ => by rw [h]; rfl, by split <;> simp⟩

theorem answers_testSource (reg : Registration) (e : Event) :
    reg.Answers (reg.testSource e) := by
  unfold testSource
  split
  next => exact ⟨by simp, by simp⟩
  next => exact ⟨by simp, by simp⟩
  next h => exact ⟨fun _ => by rw [h]; rfl, by split <;> simp⟩

theorem asked_conclude (h : reg.Answers v) (e : Event) : (reg.conclude e v).asked =
    reg.asked ++ if v = .rearm then [⟨reg.id, reg.durationNs, 1⟩] else [] := by
  cases v with
  | reject => exact (List.append_nil _).symm
  | pass => simp [asked, rearms, conclude, h.pass rfl]
  | rearm =>
    simp only [asked, rearms, conclude, h.rearm rfl, if_true, List.countP_append]
    exact List.replicate_succ'
  | raise => simp [asked, rearms, conclude, Output.isPassed]

end Registration

namespace Apprentice

variable {s s' : Apprentice} {i : Nat} {reg : Registration} {a : Action}

theorem perm_flatMap_set {α β : Type*} {l : List α} {i : Nat} {x y : α} (h : l[i]? = some x)
    (f : α → List β) {bs : List β} (hy : f y = f x ++ bs) :
    (l.flatMap f ++ bs).Perm ((l.set i y).flatMap f) := by
  induction l generalizing i with
  | nil => cases h
  | cons z l ih =>
    cases i with
    | zero =>
      cases h
      rw [List.set_cons_zero, List.flatMap_cons, List.flatMap_cons, hy, List.append_assoc,
        List.append_assoc]
      exact List.perm_append_comm.append_left _
    | succ i =>
      rw [List.set_cons_succ, List.flatMap_cons, List.flatMap_cons, List.append_assoc]
      exact (ih h).append_left _

def Accounted (s : Apprentice) : Prop :=
  s.requests.Perm (s.registrations.flatMap Registration.asked)

theorem Accounted.conclude (h : s.Accounted) (hi : s.registrations[i]? = some reg)
    (reg' : Registration) (hasked : reg'.asked = reg.asked) {v : Verdict} (hv : reg'.Answers v)
    (e : Event) : (s.conclude i reg' e v).Accounted := by
  have hconclude : (reg'.conclude e v).asked =
      reg.asked ++ if v = .rearm then [⟨reg'.id, reg'.durationNs, 1⟩] else [] :=
    hasked ▸ Registration.asked_conclude hv e
  rw [Accounted, conclude_requests, conclude_registrations]
  exact (h.append_right _).trans (perm_flatMap_set hi Registration.asked hconclude)

theorem Accounted.step (h : s.Accounted) (hstep : s.step a = some s') : s'.Accounted := by
  cases a with
  | event e =>
    obtain ⟨-, rfl⟩ := step_event hstep
    have hasked : (s.take e).registrations.flatMap Registration.asked =
        s.registrations.flatMap Registration.asked := List.flatMap_map ..
    rw [Accounted, hasked]
    exact h
  | register r =>
    cases hstep
    have hasked : Registration.asked ⟨r, s.timerUsageCount, r.durationNs s.now, false, true, []⟩ =
        [⟨s.timerUsageCount, r.durationNs s.now, 1⟩] := by cases r <;> rfl
    rw [Accounted, register_registrations, List.flatMap_append, List.flatMap_singleton, hasked]
    exact h.append_right _
  | deliver j =>
    obtain ⟨reg, e, hreg, -, -, rfl⟩ := step_deliver hstep
    exact h.conclude hreg { reg with pending := false } rfl (Registration.answers_test _ _ e) e
  | emit j e =>
    obtain ⟨reg, hreg, rfl⟩ := step_emit hstep
    split
    · exact h.conclude hreg reg rfl (reg.answers_testSource e) e
    · exact h

theorem Accounted.exec {as : List Action} (h : s.Accounted) (hexec : s.exec as = some s') :
    s'.Accounted := by
  induction as generalizing s with
  | nil =>
    cases hexec
    exact h
  | cons a as ih =>
    obtain ⟨u, hstep, hexec⟩ := exec_cons hexec
    exact ih (h.step hstep) hexec

theorem accounted_init (now : Int64) : (init now).Accounted := .refl _

theorem requests_accounted (now : Int64) (as : List Action) (s : Apprentice)
    (hexec : (init now).exec as = some s) :
    s.requests.Perm (s.registrations.flatMap Registration.asked) :=
  (accounted_init now).exec hexec

theorem requests_accounted_threeTimers : ∃ s, (init 0).exec threeTimers = some s ∧
    s.requests.map TimeRequest.id = [0, 1, 1, 2, 2, 1] ∧
      s.requests.Perm (s.registrations.flatMap Registration.asked) := by
  have hids : ((init 0).exec threeTimers).map (fun s => s.requests.map TimeRequest.id) =
      some [0, 1, 1, 2, 2, 1] := by
    decide
  obtain ⟨s, hexec, hids⟩ := Option.map_eq_some_iff.mp hids
  exact ⟨s, hexec, hids, requests_accounted 0 threeTimers s hexec⟩

end Apprentice

end Kungfu.Yijinjing.Practice
