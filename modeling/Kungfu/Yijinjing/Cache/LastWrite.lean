import Kungfu.Common.Assign
import Kungfu.Yijinjing.Cache.Runtime

namespace Kungfu.Yijinjing.Cache

open Kungfu.Lib Kungfu.Common Kungfu.Longfist

theorem State.foldl_assign_data (s : State S) (xs : List (Feed S)) :
    (xs.foldl Feed.assignTo s).data = (xs.map Feed.data).foldl Record.assign s.data := by
  induction xs generalizing s with
  | nil => rfl
  | cons x xs ih =>
    rw [List.foldl_cons, ih, Feed.assignTo_eq, List.map_cons, List.foldl_cons]
    cases x <;> rfl

theorem State.foldl_assign_eqv_iff (s : State S) (xs : List (Feed S)) (x : Feed S) :
    ((xs ++ [x]).foldl Feed.assignTo s).Eqv x.toState ↔
      Record.Covered s.data (xs.map Feed.data) x.data := by
  rw [← Record.eqv_foldl_assign_iff, ← x.toState_data]
  have hd := State.foldl_assign_data s (xs ++ [x])
  rw [List.map_append, List.map_singleton, ← x.toState_data] at hd
  rw [← hd]
  constructor
  · exact State.Eqv.data
  · intro h
    refine ⟨?_, ?_, ?_, h⟩ <;>
      rw [List.foldl_append, List.foldl_cons, List.foldl_nil, Feed.assignTo_eq] <;> rfl

variable (hash32 : Bytes → Int32 → UInt32)

def recordsOf (xs : List (Feed S)) (u : UInt64) : List (Feed S) :=
  xs.filter (·.uid hash32 = u)

/-- The contents a slot has seen before the last record: the entry it starts with, if any,
and then the records fed under its `uid`. -/
def history (stored : Option (State S)) (earlier : List (Feed S)) : List S.Data :=
  stored.toList.map State.data ++ earlier.map Feed.data

structure LastWriteWins (base : Bank) (T : StateType) (xs : List (Feed T.schema)) : Prop where
  last : ∀ u earlier x, recordsOf hash32 xs u = earlier ++ [x] →
    ∃ s, (base.feedAll hash32 T xs T).lookup u = some s ∧ s.Eqv x.toState
  otherUids : ∀ u, recordsOf hash32 xs u = [] →
    (base.feedAll hash32 T xs T).lookup u = (base T).lookup u
  otherTypes : ∀ T', T' ≠ T → base.feedAll hash32 T xs T' = base T'

/-- Under every `uid` the last record covers the texts of all that was in its slot before. -/
def NoTail (base : Bank) (T : StateType) (xs : List (Feed T.schema)) : Prop :=
  ∀ u earlier x, recordsOf hash32 xs u = earlier ++ [x] →
    ∀ first between, history ((base T).lookup u) earlier = first :: between →
      Record.Covered first between x.data

variable {hash32}

theorem slot_eqv_iff (stored : Option (State S)) (earlier : List (Feed S)) (x : Feed S) :
    (∃ s, (earlier ++ [x]).foldl (KeyedMap.upsert Feed.toState Feed.assignTo) stored = some s ∧
      s.Eqv x.toState) ↔
    ∀ first between, history stored earlier = first :: between →
      Record.Covered first between x.data := by
  cases stored with
  | some s =>
    rw [KeyedMap.foldl_upsert_some]
    simpa [history] using State.foldl_assign_eqv_iff s earlier x
  | none =>
    cases earlier with
    | nil => simpa [history, KeyedMap.upsert] using State.Eqv.mk rfl rfl rfl (Record.Eqv.refl _)
    | cons y ys =>
      rw [List.cons_append, KeyedMap.foldl_upsert_none_cons]
      simpa [history] using State.foldl_assign_eqv_iff y.toState ys x

theorem lookup_feedAll (base : Bank) (T : StateType) (xs : List (Feed T.schema)) (u : UInt64) :
    (base.feedAll hash32 T xs T).lookup u =
      (recordsOf hash32 xs u).foldl (KeyedMap.upsert Feed.toState Feed.assignTo)
        ((base T).lookup u) := by
  rw [Bank.feedAll_same, KeyedMap.lookup_feed, recordsOf]

theorem lastWriteWins_iff_noTail (hash32 : Bytes → Int32 → UInt32) (base : Bank) (T : StateType)
    (xs : List (Feed T.schema)) :
    LastWriteWins hash32 base T xs ↔ NoTail hash32 base T xs := by
  have slot : ∀ u earlier x, recordsOf hash32 xs u = earlier ++ [x] →
      ((∃ s, (base.feedAll hash32 T xs T).lookup u = some s ∧ s.Eqv x.toState) ↔
        ∀ first between, history ((base T).lookup u) earlier = first :: between →
          Record.Covered first between x.data) := by
    intro u earlier x h
    rw [lookup_feedAll, h]
    exact slot_eqv_iff _ earlier x
  constructor
  · intro h u earlier x hx
    exact (slot u earlier x hx).mp (h.last u earlier x hx)
  · intro h
    refine ⟨fun u earlier x hx => (slot u earlier x hx).mpr (h u earlier x hx), ?_, ?_⟩
    · intro u hu
      rw [lookup_feedAll, hu, List.foldl_nil]
    · intro T' hT
      exact Bank.feedAll_of_ne hT xs

theorem eqv_of_lastWriteWins_pair {T : StateType} {x y : Feed T.schema}
    (h : LastWriteWins hash32 .empty T [x, y])
    (hkey : T.schema.key x.data = T.schema.key y.data) :
    (y.assignTo x.toState).Eqv y.toState := by
  have huid : x.uid hash32 = y.uid hash32 := by
    rw [Feed.uid, Feed.uid, Schema.uid_eq_keyHash, Schema.uid_eq_keyHash, hkey]
  have hrec : recordsOf hash32 [x, y] (y.uid hash32) = [x] ++ [y] := by
    simp [recordsOf, huid]
  obtain ⟨s, hs, heqv⟩ := h.last _ [x] y hrec
  rw [lookup_feedAll, hrec, Bank.empty, AList.lookup_empty] at hs
  cases hs
  exact heqv

def orderErrorMsg : Member Types.order.fields ⟨Types.chars Types.errorMsgLen, "error_msg"⟩ :=
  .there (.there (.there (.there (.there (.there (.there (.there (.there (.there (.there (.there
    (.there (.there (.there (.there (.there .here))))))))))))))))

def orderWithError (msg : Bytes) : State Types.order where
  source := 0
  dest := 0
  updateTime := 0
  data := (Record.fresh _).set orderErrorMsg ((FieldType.chars _).ofBytes msg)

/-- An order that was rejected with the message "no" and is then fed with an empty one. -/
theorem not_lastWriteWins_orderErrorMsg :
    ¬ ∃ hash32, LastWriteWins hash32 .empty ⟨.order, by decide⟩
      [.state (orderWithError [110, 111]) (by decide), .state (orderWithError []) (by decide)] := by
  rintro ⟨hash32, h⟩
  have hdata := (eqv_of_lastWriteWins_pair h (by decide)).data
  exact absurd (Record.eqv_iff.mp hdata orderErrorMsg) (by decide)

end Kungfu.Yijinjing.Cache
