import Kungfu.Lib.KeyedMap
import Kungfu.Longfist.Types

/-!
The state cache of `cache/runtime.h`: one map from `uid` to `state<T>` for every state type.
-/

namespace Kungfu.Yijinjing.Cache

open Kungfu.Lib Kungfu.Common Kungfu.Longfist

def Bank : Type := (T : StateType) → KeyedMap.Map UInt64 (State T.schema)

/-- What `bank::operator<<` accepts. Char arrays hold a NUL, as `strlen` presupposes. -/
inductive Feed (S : Schema)
  | state (s : State S) (h : s.data.Terminated)
  | event (e : Event S) (h : e.data.Terminated)

namespace Feed

def data : Feed S → S.Data
  | .state s _ => s.data
  | .event e _ => e.data

theorem terminated : (x : Feed S) → x.data.Terminated
  | .state _ h => h
  | .event _ h => h

def toState : Feed S → State S
  | .state s _ => s
  | .event e _ => .ofEvent e

def assignTo (s : State S) : Feed S → State S
  | .state t _ => s.assign t
  | .event e _ => s.assignEvent e

@[simp] theorem toState_data (x : Feed S) : x.toState.data = x.data := by cases x <;> rfl

theorem assignTo_eq (s : State S) (x : Feed S) : x.assignTo s = s.assign x.toState := by
  cases x <;> rfl

def uid (hash32 : Bytes → Int32 → UInt32) (x : Feed S) : UInt64 := S.uid hash32 x.data

end Feed

namespace Bank

def empty : Bank := fun _ => ∅

variable (hash32 : Bytes → Int32 → UInt32)

def feed (b : Bank) (T : StateType) (x : Feed T.schema) : Bank :=
  Function.update b T
    (KeyedMap.insertOrAssign Feed.toState Feed.assignTo (b T) (x.uid hash32) x)

def feedAll (b : Bank) (T : StateType) (xs : List (Feed T.schema)) : Bank :=
  xs.foldl (fun b x => b.feed hash32 T x) b

variable {hash32} {b : Bank} {T T' : StateType}

@[simp] theorem feed_same (x : Feed T.schema) :
    b.feed hash32 T x T =
      KeyedMap.insertOrAssign Feed.toState Feed.assignTo (b T) (x.uid hash32) x :=
  Function.update_self ..

theorem feed_of_ne (h : T' ≠ T) (x : Feed T.schema) : b.feed hash32 T x T' = b T' :=
  Function.update_of_ne h ..

theorem feedAll_of_ne (h : T' ≠ T) (xs : List (Feed T.schema)) :
    b.feedAll hash32 T xs T' = b T' := by
  induction xs generalizing b with
  | nil => rfl
  | cons x xs ih => exact ih.trans (feed_of_ne h x)

theorem feedAll_same (xs : List (Feed T.schema)) :
    b.feedAll hash32 T xs T =
      KeyedMap.feed Feed.toState Feed.assignTo (Feed.uid hash32) (b T) xs := by
  induction xs generalizing b with
  | nil => rfl
  | cons x xs ih =>
    rw [KeyedMap.feed_cons, ← feed_same]
    exact ih

end Bank

end Kungfu.Yijinjing.Cache
