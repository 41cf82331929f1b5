import Kungfu.Common.Event
import Kungfu.Longfist.Text
import Kungfu.Yijinjing.Cache.Identity

namespace Kungfu.Common

open Kungfu.Lib

def Record.KeyTerminated (name : String) : {fs : List Field} → Record fs → Prop
  | [], _ => True
  | f :: _, r => if f.name = name then f.type.Terminated r.1 else KeyTerminated name r.2

instance (name : String) : {fs : List Field} → (r : Record fs) → Decidable (r.KeyTerminated name)
  | [], _ => .isTrue trivial
  | f :: _, r =>
    have := instDecidableKeyTerminated name r.2
    inferInstanceAs
      (Decidable (if f.name = name then f.type.Terminated r.1 else Record.KeyTerminated name r.2))

/-- What `uid` reads with `strlen`. -/
def Schema.KeysTerminated (S : Schema) (r : S.Data) : Prop :=
  ∀ name ∈ S.primaryKeys, r.KeyTerminated name

instance (S : Schema) : DecidablePred S.KeysTerminated := fun r =>
  inferInstanceAs (Decidable (∀ name ∈ S.primaryKeys, r.KeyTerminated name))

def FieldType.ValidString : (t : FieldType) → t.Val → Prop
  | .string, v => Utf8.valid v = true
  | .arithmetic _, _ | .enum _, _ | .chars _, _ | .array _ _, _ => True

instance : (t : FieldType) → DecidablePred t.ValidString
  | .string, v => inferInstanceAs (Decidable (Utf8.valid v = true))
  | .arithmetic _, _ | .enum _, _ | .chars _, _ | .array _ _, _ => .isTrue trivial

theorem FieldType.terminated_assign (t : FieldType) {a b : t.Val}
    (h : t.keyValue a = t.keyValue b) (ha : t.Terminated a) : t.Terminated (t.assign a b) := by
  cases t with
  | chars n =>
    simp only [FieldType.keyValue, KeyValue.text.injEq] at h
    simpa only [FieldType.Terminated, FieldType.assign, toList_charsAssign,
      CString.assign_eq_self h] using ha
  | _ => trivial

theorem FieldType.validString_assign (t : FieldType) {a b : t.Val} (h : t.ValidString b) :
    t.ValidString (t.assign a b) := by
  cases t <;> exact h

theorem FieldType.assign_of_plain {t : FieldType} (hplain : t.plain = true) (a b : t.Val) :
    t.assign a b = b := by
  cases t with
  | chars n => cases hplain
  | _ => rfl

theorem FieldType.validText_of_plain (t : FieldType) {v : t.Val} (hplain : t.plain = true)
    (h : t.ValidString v) : t.ValidText v := by
  cases t with
  | string => exact h
  | chars n => cases hplain
  | _ => trivial

namespace Record

variable {name : String} {fs : List Field} {a b : Record fs}

theorem keyTerminated_assign (h : a.keyValue name = b.keyValue name)
    (ha : a.KeyTerminated name) : (a.assign b).KeyTerminated name := by
  induction fs with
  | nil => trivial
  | cons f fs ih =>
    simp only [keyValue, KeyTerminated, assign] at h ha ⊢
    split at h
    next hname =>
      rw [if_pos hname] at ha ⊢
      exact f.type.terminated_assign h ha
    next hname =>
      rw [if_neg hname] at ha ⊢
      exact ih h ha

theorem Terminated.keyTerminated (h : a.Terminated) : a.KeyTerminated name := by
  induction fs with
  | nil => trivial
  | cons f fs ih =>
    rw [KeyTerminated]
    split
    · exact h.1
    · exact ih h.2

theorem validString_assign (h : b.All fun t => t.ValidString) :
    (a.assign b).All fun t => t.ValidString := by
  rw [all_iff] at h ⊢
  intro f m
  rw [get_assign]
  exact f.type.validString_assign (h m)

theorem assign_of_plain (hplain : ∀ f ∈ fs, f.type.plain = true) (a b : Record fs) :
    a.assign b = b := Record.ext fun m => by
  rw [get_assign]
  exact FieldType.assign_of_plain (hplain _ m.mem) ..

theorem validText_of_plain (hplain : ∀ f ∈ fs, f.type.plain = true)
    (h : a.All fun t => t.ValidString) : a.All fun t => t.ValidText := by
  rw [all_iff] at h ⊢
  intro f m
  exact f.type.validText_of_plain (hplain f m.mem) (h m)

end Record

end Kungfu.Common

namespace Kungfu.Yijinjing.Cache

open Kungfu.Lib Kungfu.Common Kungfu.Longfist

structure Stamp where
  source : UInt32
  dest : UInt32
  genTime : Int64

/-- The frame `writer->write(0, data)` leaves; there is none when `to_string` throws. -/
def Stamp.frame (C : Json.Codec) (stamp : Stamp) (S : Schema) (r : S.Data) : Option EventPtr := do
  let bytes ← if S.sizeFixed then some r.toBytes else S.toString C r
  return {
    genTime := some stamp.genTime
    msgType := some S.tag
    source := some stamp.source
    dest := some stamp.dest
    dataLength := .ofNat bytes.length
    dataAddress := .memory bytes.take
    dataAsBytes := bytes.take }

namespace Bank

section

variable (C : Json.Codec) (hash32 : Bytes → Int32 → UInt32)

def feedEach (b : Bank) (xs : List ((T : StateType) × Feed T.schema)) : Bank :=
  xs.foldl (fun b x => b.feed hash32 x.1 x.2) b

/-- The orders in which the iterators of the `unordered_map`s may go. -/
def Iterates (b : Bank) (order : (T : StateType) → List (State T.schema)) : Prop :=
  ∀ T, (order T).Perm ((b T).entries.map Sigma.snd)

/-- `bank::operator>>`. -/
def dump (stamp : (T : StateType) → State T.schema → Stamp)
    (order : (T : StateType) → List (State T.schema)) : Option (List EventPtr) :=
  (StateType.all.mapM fun T =>
    (order T).mapM fun s => (stamp T s).frame C T.schema s.data).map List.flatten

def insertEvent (b : Bank) (T : StateType) (e : Event T.schema) : Bank :=
  Function.update b T (KeyedMap.insertOrAssign State.ofEvent State.assignEvent (b T)
    (T.schema.uid hash32 e.data) e)

/-- `strlen` stays inside the char arrays that `uid` and an assignment read. -/
def InBounds (b : Bank) (T : StateType) (r : T.schema.Data) : Prop :=
  T.schema.KeysTerminated r ∧ (T.schema.uid hash32 r ∈ b T → r.Terminated)

instance (b : Bank) (T : StateType) : DecidablePred (b.InBounds hash32 T) := fun r =>
  inferInstanceAs (Decidable (T.schema.KeysTerminated r ∧ (_ → r.Terminated)))

/-- `receiver << typed_event_ptr<DataType>(event)`. -/
def receive (e : EventPtr) (b : Bank) (T : StateType) : Option Bank := do
  let r ← e.data C T.schema
  let e ← e.typed r
  if b.InBounds hash32 T r then some (b.insertEvent hash32 T e) else none

/-- `hero::feed_state_data` with a bank as the receiver. -/
def feedStateData (b : Bank) (e : EventPtr) : Option Bank :=
  StateType.all.foldlM (fun b T => do
    if T.schema.tag = (← e.msgType) then b.receive C hash32 e T else return b) b

end

def SameData (b b' : Bank) : Prop :=
  ∀ T, (∀ u, u ∈ b T ↔ u ∈ b' T) ∧
    ∀ u, ∀ s ∈ (b T).lookup u, ∀ s' ∈ (b' T).lookup u, s.data.Eqv s'.data

end Bank

namespace Bank

section

variable (hash32 : Bytes → Int32 → UInt32)

def NoCollisions (xs : List ((T : StateType) × Feed T.schema)) : Prop :=
  ∀ T x y, ⟨T, x⟩ ∈ xs → ⟨T, y⟩ ∈ xs → x.uid hash32 = y.uid hash32 →
    T.schema.key x.data = T.schema.key y.data

structure WellKept (xs : List ((T : StateType) × Feed T.schema)) (T : StateType) (u : UInt64)
    (s : State T.schema) : Prop where
  fed : ∃ x, ⟨T, x⟩ ∈ xs ∧ T.schema.key s.data = T.schema.key x.data
  uid : T.schema.uid hash32 s.data = u
  keys : T.schema.KeysTerminated s.data
  strings : s.data.All fun t => t.ValidString

variable {hash32} {b : Bank} {T : StateType} {xs : List ((T : StateType) × Feed T.schema)}

theorem wellKept_toState {x : Feed T.schema} (hx : ⟨T, x⟩ ∈ xs)
    (hvalid : x.data.All fun t => t.ValidString) :
    WellKept hash32 xs T (x.uid hash32) x.toState where
  fed := ⟨x, hx, by rw [x.toState_data]⟩
  uid := by rw [x.toState_data, Feed.uid]
  keys name _ := by
    rw [x.toState_data]
    exact x.terminated.keyTerminated
  strings := by rwa [x.toState_data]

theorem WellKept.assignTo (hcollisions : NoCollisions hash32 xs) {x : Feed T.schema}
    (hx : ⟨T, x⟩ ∈ xs) (hvalid : x.data.All fun t => t.ValidString) {s : State T.schema}
    (h : WellKept hash32 xs T (x.uid hash32) s) :
    WellKept hash32 xs T (x.uid hash32) (x.assignTo s) := by
  obtain ⟨y, hy, hkey⟩ := h.fed
  have huid : y.uid hash32 = x.uid hash32 := by
    rw [← h.uid, Feed.uid, Schema.uid_eq_keyHash, Schema.uid_eq_keyHash, hkey]
  have hsame : T.schema.key s.data = T.schema.key x.data :=
    hkey.trans (hcollisions T y x hy hx huid)
  have hassign : T.schema.key (x.assignTo s).data = T.schema.key x.data := key_assignTo s x hsame
  have hdata : (x.assignTo s).data = s.data.assign x.data := by
    rw [Feed.assignTo_eq, ← x.toState_data]
    rfl
  refine ⟨⟨x, hx, hassign⟩, ?_, fun name hname => ?_, ?_⟩
  · rw [Feed.uid, Schema.uid_eq_keyHash, Schema.uid_eq_keyHash, hassign]
  · rw [hdata]
    exact Record.keyTerminated_assign (List.map_inj_left.mp hsame name hname) (h.keys name hname)
  · rw [hdata]
    exact Record.validString_assign hvalid

theorem feed_induction {P : (T : StateType) → UInt64 → State T.schema → Prop} {x : Feed T.schema}
    (init : ∀ T u, ∀ s ∈ (b T).lookup u, P T u s) (toState : P T (x.uid hash32) x.toState)
    (assignTo : ∀ s, P T (x.uid hash32) s → P T (x.uid hash32) (x.assignTo s)) :
    ∀ T' u, ∀ s ∈ (b.feed hash32 T x T').lookup u, P T' u s := by
  intro T'
  by_cases hT : T' = T
  · subst hT
    rw [feed_same]
    exact KeyedMap.lookup_insertOrAssign_induction (init T') toState assignTo
  · rw [feed_of_ne hT]
    exact init T'

theorem feedEach_induction {P : (T : StateType) → UInt64 → State T.schema → Prop}
    (toState : ∀ x ∈ xs, P x.1 (x.2.uid hash32) x.2.toState)
    (assignTo : ∀ x ∈ xs, ∀ s, P x.1 (x.2.uid hash32) s →
      P x.1 (x.2.uid hash32) (x.2.assignTo s)) :
    ∀ T u, ∀ s ∈ (Bank.empty.feedEach hash32 xs T).lookup u, P T u s := by
  have run : ∀ b : Bank, (∀ T u, ∀ s ∈ (b T).lookup u, P T u s) →
      ∀ T u, ∀ s ∈ (b.feedEach hash32 xs T).lookup u, P T u s := by
    induction xs with
    | nil => exact fun b h => h
    | cons x xs ih =>
      intro b h
      exact ih (fun y hy => toState y (.tail _ hy)) (fun y hy => assignTo y (.tail _ hy)) _
        (feed_induction h (toState x (.head _)) (assignTo x (.head _)))
  refine run .empty fun T u s hs => ?_
  rw [Bank.empty, AList.lookup_empty] at hs
  cases hs

theorem wellKept_feedEach (hcollisions : NoCollisions hash32 xs)
    (hvalid : ∀ x ∈ xs, x.2.data.All fun t => t.ValidString) :
    ∀ T u, ∀ s ∈ (Bank.empty.feedEach hash32 xs T).lookup u, WellKept hash32 xs T u s :=
  feedEach_induction (fun x hx => wellKept_toState hx (hvalid x hx))
    fun x hx _ h => h.assignTo hcollisions hx (hvalid x hx)

theorem data_of_unfixed (hT : T.schema.sizeFixed = false) {u : UInt64} {s : State T.schema}
    (hs : s ∈ (Bank.empty.feedEach hash32 xs T).lookup u) : ∃ x, ⟨T, x⟩ ∈ xs ∧ s.data = x.data := by
  have hfed : ∀ T u, ∀ s ∈ (Bank.empty.feedEach hash32 xs T).lookup u,
      T.schema.sizeFixed = false → ∃ x, ⟨T, x⟩ ∈ xs ∧ s.data = x.data := by
    apply feedEach_induction
    · exact fun x hx _ => ⟨x.2, hx, x.2.toState_data⟩
    · intro x hx s _ hfixed
      have hplain := DataType.plain_of_unfixed (T := x.1.type) hfixed
      refine ⟨x.2, hx, ?_⟩
      rw [Feed.assignTo_eq, ← x.2.toState_data]
      exact Record.assign_of_plain hplain s.data x.2.toState.data
  exact hfed T u s hs hT

end

end Bank

end Kungfu.Yijinjing.Cache
