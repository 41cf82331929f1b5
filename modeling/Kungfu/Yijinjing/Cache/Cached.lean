import Kungfu.Common.Assign
import Kungfu.Longfist.Types

/-!
The profile load of `cache/cached.h`: every type of the profile is read into a `typed_bank`, with
up to ten attempts that may end in an exception anywhere.
-/

namespace Kungfu.Yijinjing.Cache

open Kungfu.Lib Kungfu.Common Kungfu.Longfist

/-- How an attempt goes: `get_all` throws, the receiver throws at a record, when it has assigned
some members of an entry that is there, or nothing throws. -/
inductive Attempt where
  | getAllThrows
  | receiverThrows (record members : Nat)
  | quiet

section

variable {S : Schema} (hash32 : Bytes → Int32 → UInt32) (records : List S.Data)

/-- `typed_bank::operator<<` of `state(0, 0, 0, data)` for one record after the other. -/
def receive (m : KeyedMap.Map UInt64 (State S)) (records : List S.Data) :
    KeyedMap.Map UInt64 (State S) :=
  KeyedMap.feed id State.assign (fun s => S.uid hash32 s.data) m
    (records.map fun data => ⟨0, 0, 0, data⟩)

def attemptPass (m : KeyedMap.Map UInt64 (State S)) :
    Attempt → KeyedMap.Map UInt64 (State S) × Bool
  | .getAllThrows => (m, false)
  | .receiverThrows k n =>
    match records[k]? with
    | some data =>
      (KeyedMap.alter (receive hash32 m (records.take k)) (S.uid hash32 data)
        (·.assignUpTo n ⟨0, 0, 0, data⟩), false)
    | none => (receive hash32 m records, true)
  | .quiet => (receive hash32 m records, true)

/-- The `while` loop when `get_all_count` is `count`: what it leaves, and the attempts made. -/
def retry (attempt : Nat → Attempt) (count : Nat) (m : KeyedMap.Map UInt64 (State S)) :
    KeyedMap.Map UInt64 (State S) × Nat :=
  if count < 10 then
    let r := attemptPass hash32 records m (attempt count)
    if r.2 then (r.1, count + 1) else retry attempt (count + 1) r.1
  else (m, count)
termination_by 10 - count

def Attempt.Completes (records : List S.Data) : Attempt → Prop
  | .getAllThrows => False
  | .receiverThrows k _ => records.length ≤ k
  | .quiet => True

end

def ProfileBank : Type := (T : ProfileType) → KeyedMap.Map UInt64 (State T.schema)

structure ProfileLoad where
  bank : ProfileBank
  attempts : ProfileType → Nat

section

variable (hash32 : Bytes → Int32 → UInt32) (records : (T : ProfileType) → List T.schema.Data)
  (attempt : ProfileType → Nat → Attempt)

def ProfileLoad.visit (l : ProfileLoad) (T : ProfileType) : ProfileLoad :=
  let r := retry hash32 (records T) (attempt T) 0 (l.bank T)
  { bank := Function.update l.bank T r.1, attempts := Function.update l.attempts T r.2 }

def profileGetAll (b : ProfileBank) : ProfileLoad :=
  ProfileType.all.foldl (ProfileLoad.visit hash32 records attempt) ⟨b, fun _ => 0⟩

end

section

variable {S : Schema} {hash32 : Bytes → Int32 → UInt32} {records : List S.Data}
  {m m' : KeyedMap.Map UInt64 (State S)} {a : Attempt} {attempt : Nat → Attempt}

abbrev Alike (hash32 : Bytes → Int32 → UInt32) (records : List S.Data)
    (m m' : KeyedMap.Map UInt64 (State S)) : Prop :=
  ∀ u, (receive hash32 m records).lookup u = (receive hash32 m' records).lookup u

theorem alike_receive_take (k : Nat) :
    Alike hash32 records (receive hash32 m (records.take k)) m :=
  KeyedMap.fedAlike_feed (State.overwriting_assign S) State.assign_self
    ((records.take_prefix k).map _)

theorem alike_alter {data : S.Data} (hdata : data ∈ records) (n : Nat) :
    Alike hash32 records
      (KeyedMap.alter m (S.uid hash32 data) (·.assignUpTo n ⟨0, 0, 0, data⟩)) m := by
  have hmem : (⟨0, 0, 0, data⟩ : State S) ∈ records.map fun data => ⟨0, 0, 0, data⟩ :=
    List.mem_map_of_mem hdata
  exact KeyedMap.fedAlike_alter (State.overwriting_assign S) hmem fun s => s.assign_assignUpTo n _

theorem attemptPass_of_completes (h : a.Completes records) :
    attemptPass hash32 records m a = (receive hash32 m records, true) := by
  cases a with
  | getAllThrows => cases h
  | receiverThrows k n => rw [attemptPass, List.getElem?_eq_none h]
  | quiet => rfl

theorem attemptPass_of_not_completes (h : ¬ a.Completes records) :
    (attemptPass hash32 records m a).2 = false ∧
      Alike hash32 records (attemptPass hash32 records m a).1 m := by
  cases a with
  | getAllThrows => exact ⟨rfl, fun _ => rfl⟩
  | receiverThrows k n =>
    have hlt : k < records.length := Nat.lt_of_not_le h
    rw [attemptPass, List.getElem?_eq_getElem hlt]
    exact ⟨rfl, fun u => (alike_alter (List.getElem_mem hlt) n u).trans (alike_receive_take k u)⟩
  | quiet => exact absurd trivial h

theorem retry_attempts_le {count : Nat} (hcount : count ≤ 10) :
    (retry hash32 records attempt count m).2 ≤ 10 := by
  fun_induction retry with
  | case1 count m hlt r hdone => exact hlt
  | case2 count m hlt r hdone ih => exact ih hlt
  | case3 count m hge => exact hcount

theorem lookup_retry {count n : Nat} (hcount : count ≤ n) (hn : n < 10)
    (h : (attempt n).Completes records) (u : UInt64) :
    (retry hash32 records attempt count m).1.lookup u = (receive hash32 m records).lookup u := by
  fun_induction retry with
  | case1 count m hlt r hdone =>
    by_cases hc : (attempt count).Completes records
    · rw [show r = _ from attemptPass_of_completes hc]
    · exact absurd hdone (by rw [show r.2 = false from (attemptPass_of_not_completes hc).1]; decide)
  | case2 count m hlt r hdone ih =>
    by_cases hc : (attempt count).Completes records
    · exact absurd (show r.2 = true by rw [show r = _ from attemptPass_of_completes hc]) hdone
    · have hne : count ≠ n := fun heq => hc (heq ▸ h)
      exact (ih (by omega)).trans ((attemptPass_of_not_completes hc).2 u)
  | case3 count m hge => omega

end

section

variable {hash32 : Bytes → Int32 → UInt32} {records : (T : ProfileType) → List T.schema.Data}
  {attempt : ProfileType → Nat → Attempt}

theorem foldl_visit_of_notMem {Ts : List ProfileType} {T : ProfileType} (hT : T ∉ Ts)
    (l : ProfileLoad) :
    (Ts.foldl (ProfileLoad.visit hash32 records attempt) l).bank T = l.bank T ∧
      (Ts.foldl (ProfileLoad.visit hash32 records attempt) l).attempts T = l.attempts T := by
  induction Ts generalizing l with
  | nil => exact ⟨rfl, rfl⟩
  | cons T' Ts ih =>
    rw [List.mem_cons, not_or] at hT
    obtain ⟨hbank, hattempts⟩ := ih hT.2 (l.visit hash32 records attempt T')
    exact ⟨hbank.trans (Function.update_of_ne hT.1 ..),
      hattempts.trans (Function.update_of_ne hT.1 ..)⟩

theorem foldl_visit {Ts : List ProfileType} (hnodup : Ts.Nodup) {T : ProfileType} (hT : T ∈ Ts)
    (l : ProfileLoad) :
    (Ts.foldl (ProfileLoad.visit hash32 records attempt) l).bank T =
        (retry hash32 (records T) (attempt T) 0 (l.bank T)).1 ∧
      (Ts.foldl (ProfileLoad.visit hash32 records attempt) l).attempts T =
        (retry hash32 (records T) (attempt T) 0 (l.bank T)).2 := by
  induction Ts generalizing l with
  | nil => cases hT
  | cons T' Ts ih =>
    obtain ⟨hhead, hnodup⟩ := List.nodup_cons.mp hnodup
    rcases List.mem_cons.mp hT with rfl | hT
    · obtain ⟨hbank, hattempts⟩ :=
        foldl_visit_of_notMem hhead (l.visit hash32 records attempt T)
      exact ⟨hbank.trans (Function.update_self ..), hattempts.trans (Function.update_self ..)⟩
    · have hne : T ≠ T' := fun heq => hhead (heq ▸ hT)
      have hkeep : (l.visit hash32 records attempt T').bank T = l.bank T :=
        Function.update_of_ne hne ..
      rw [List.foldl_cons, ← hkeep]
      exact ih hnodup hT _

end

theorem profileGetAll_clean (hash32 : Bytes → Int32 → UInt32)
    (records : (T : ProfileType) → List T.schema.Data) (attempt : ProfileType → Nat → Attempt)
    (b : ProfileBank) (T : ProfileType) :
    (profileGetAll hash32 records attempt b).attempts T ≤ 10 ∧
      ((∃ n < 10, (attempt T n).Completes (records T)) →
        ∀ u, ((profileGetAll hash32 records attempt b).bank T).lookup u =
          (receive hash32 (b T) (records T)).lookup u) := by
  obtain ⟨hbank, hattempts⟩ :
      (profileGetAll hash32 records attempt b).bank T =
          (retry hash32 (records T) (attempt T) 0 (b T)).1 ∧
        (profileGetAll hash32 records attempt b).attempts T =
          (retry hash32 (records T) (attempt T) 0 (b T)).2 :=
    foldl_visit ProfileType.nodup_all T.mem_all ⟨b, fun _ => 0⟩
  rw [hbank, hattempts]
  refine ⟨retry_attempts_le (Nat.zero_le 10), ?_⟩
  rintro ⟨n, hn, hcompletes⟩ u
  exact lookup_retry (Nat.zero_le n) hn hcompletes u

def basketNamed (id : BitVec 32) (name : Bytes) : Types.basket.Data :=
  ((Record.fresh Types.basket.fields).set .here id).set (.there .here) name

/-- Two passes over the baskets die at one that is there under another name, before and behind the
assignment of its name; nothing else can be read at all. -/
theorem profileGetAll_clean_baskets :
    let baskets : ProfileType := { type := .basket }
    let records : (T : ProfileType) → List T.schema.Data :=
      Function.update (fun _ => []) baskets [basketNamed 4 [97], basketNamed 5 [98]]
    let attempt : ProfileType → Nat → Attempt := fun T n =>
      if T = baskets then if n < 2 then .receiverThrows 1 (1 + n) else .quiet else .getAllThrows
    let bank : ProfileBank := Function.update (fun _ => ∅) baskets
      (AList.singleton 5 ⟨1, 2, 3, basketNamed 5 [99, 99, 99]⟩)
    ∀ u, ((profileGetAll (fun _ _ => 0) records attempt bank).bank baskets).lookup u =
      (receive (fun _ _ => 0) (bank baskets) (records baskets)).lookup u := by
  intro baskets records attempt bank
  exact (profileGetAll_clean (fun _ _ => 0) records attempt bank baskets).2
    ⟨2, by decide, trivial⟩

end Kungfu.Yijinjing.Cache
