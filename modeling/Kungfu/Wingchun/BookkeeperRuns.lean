import Mathlib.Logic.Function.Iterate
import Kungfu.Wingchun.Bookkeeper

namespace Kungfu.Wingchun

open Kungfu.Common Kungfu.Longfist Kungfu.Yijinjing

structure Accounting (Book Method : Type) where
  makeBook : UInt32 → Book
  ops : (T : TradingDataType) → BookOps Book T.schema
  makeBook_eq : ∀ T, (ops T).makeBook = makeBook
  method : (T : TradingDataType) → Method → Book → T.schema.Data → Book

structure BookUpdate where
  type : TradingDataType
  data : type.schema.Data
  updateTime : Int64
  source : UInt32
  dest : UInt32

namespace BookUpdate

def concerns (uid : UInt32) (u : BookUpdate) : Bool :=
  u.source = uid || u.dest ≠ Location.public && u.dest = uid

def times (uid : UInt32) (u : BookUpdate) : Nat :=
  (if u.source = uid then 1 else 0) + if u.dest ≠ Location.public ∧ u.dest = uid then 1 else 0

theorem times_of_not_concerns {u : BookUpdate} {uid : UInt32} (h : ¬ u.concerns uid) :
    u.times uid = 0 := by
  simp only [concerns, Bool.or_eq_true, Bool.and_eq_true, decide_eq_true_eq, not_or] at h
  rw [times, if_neg h.1, if_neg h.2]

end BookUpdate

namespace Bookkeeper

variable {Book Method : Type}

section

variable {α β : Type} {m : Update Book Method α}

def final : EStateM.Result String (Bookkeeper Book Method) α → Bookkeeper Book Method
  | .ok _ k | .error _ k => k

theorem after_eq_final (r : EStateM.Result String (Bookkeeper Book Method) Unit) :
    after r = final r := by
  cases r <;> rfl

def KeepsMethods (m : Update Book Method α) : Prop :=
  ∀ k, (final (m k)).accountingMethods = k.accountingMethods

theorem KeepsMethods.bind {f : α → Update Book Method β} (hm : KeepsMethods m)
    (hf : ∀ a, KeepsMethods (f a)) : KeepsMethods (m >>= f) := by
  intro k
  have hk := hm k
  simp only [Bind.bind, EStateM.bind]
  cases h : m k with
  | ok a k' =>
    rw [h] at hk
    exact (hf a k').trans hk
  | error e k' =>
    rw [h] at hk
    exact hk

theorem keepsMethods_pure (a : α) : KeepsMethods (pure a : Update Book Method α) := fun _ => rfl

theorem keepsMethods_get : KeepsMethods (get : Update Book Method _) := fun _ => rfl

theorem keepsMethods_ofExcept (x : Except String α) :
    KeepsMethods (MonadExcept.ofExcept x : Update Book Method α) := by
  intro k
  cases x <;> rfl

theorem keepsMethods_setBook (uid : UInt32) (b : Book) :
    KeepsMethods (setBook uid b : Update Book Method Unit) :=
  fun _ => rfl

variable {S : Schema} (ops : BookOps Book S)

theorem keepsMethods_getBook (uid : UInt32) :
    KeepsMethods (getBook ops uid : Update Book Method Book) := by
  intro k
  rw [getBook]
  cases k.books uid <;> rfl

variable (method : Method → Book → S.Data → Book) (M : TradingData S) (updateTime : Int64)
  (data : S.Data)

theorem keepsMethods_applyAndUpdate (a : Method) (uid : UInt32) :
    KeepsMethods (applyAndUpdate ops method M updateTime data a uid) := by
  refine (keepsMethods_getBook ops uid).bind fun book => ?_
  exact (keepsMethods_ofExcept _).bind fun key => keepsMethods_setBook uid _

theorem keepsMethods_updateBook (source dest : UInt32) :
    KeepsMethods (updateBook ops method M updateTime data source dest) := by
  refine keepsMethods_get.bind fun k => ?_
  cases k.accountingMethods (data.get M.instrumentType) with
  | none => exact keepsMethods_pure ()
  | some a =>
    refine (keepsMethods_applyAndUpdate ops method M updateTime data a source).bind fun _ => ?_
    by_cases hdest : dest ≠ Location.public
    · rw [if_pos hdest]
      exact keepsMethods_applyAndUpdate ops method M updateTime data a dest
    · rw [if_neg hdest]
      exact keepsMethods_pure ()

theorem direction_of_error {S : Schema} {M : TradingData S} {data : S.Data} {e : String}
    (h : positionKey M data = .error e) : ∃ e, direction M data = .error e := by
  cases hdirection : direction M data with
  | error e => exact ⟨e, rfl⟩
  | ok d =>
    obtain ⟨key, hkey⟩ := exists_positionKey hdirection
    cases h.symm.trans hkey

end

end Bookkeeper

namespace Accounting

variable {Book Method : Type} (A : Accounting Book Method)

def perform (k : Bookkeeper Book Method) (u : BookUpdate) : Bookkeeper Book Method :=
  Bookkeeper.after (Bookkeeper.updateBook (A.ops u.type) (A.method u.type) u.type.members
    u.updateTime u.data u.source u.dest k)

def run (k : Bookkeeper Book Method) (us : List BookUpdate) : Bookkeeper Book Method :=
  us.foldl A.perform k

def content (k : Bookkeeper Book Method) (uid : UInt32) : Book :=
  (k.books uid).getD (A.makeBook uid)

def applied (methods : Types.Enums.instrumentType.Val → Option Method) (u : BookUpdate)
    (book : Book) : Book :=
  match methods (u.data.get u.type.members.instrumentType),
      Bookkeeper.positionKey u.type.members u.data with
  | some a, .ok key =>
    Bookkeeper.applied (A.ops u.type) (A.method u.type) u.updateTime u.data a key book
  | _, _ => book

def change (f : Book → Book) (c : UInt32 → Book) (uid : UInt32) : UInt32 → Book :=
  Function.update c uid (f (c uid))

theorem change_apply (f : Book → Book) (c : UInt32 → Book) (u uid : UInt32) :
    change f c u uid = f^[if u = uid then 1 else 0] (c uid) := by
  by_cases h : u = uid
  · subst h
    rw [change, Function.update_self, if_pos rfl, Function.iterate_one]
  · rw [change, Function.update_of_ne (Ne.symm h), if_neg h, Function.iterate_zero, id]

variable {A} {k : Bookkeeper Book Method} {u : BookUpdate}

theorem content_ops (T : TradingDataType) : k.content (A.ops T) = A.content k := by
  funext uid
  rw [Bookkeeper.content, A.makeBook_eq, content]

theorem accountingMethods_perform : (A.perform k u).accountingMethods = k.accountingMethods := by
  rw [perform, Bookkeeper.after_eq_final]
  exact Bookkeeper.keepsMethods_updateBook ..

theorem applied_of_none
    (h : k.accountingMethods (u.data.get u.type.members.instrumentType) = none) :
    A.applied k.accountingMethods u = id := by
  funext book
  rw [applied, h]
  rfl

theorem applied_of_error {e : String}
    (h : Bookkeeper.positionKey u.type.members u.data = .error e) :
    A.applied k.accountingMethods u = id := by
  funext book
  rw [applied, h]
  cases k.accountingMethods (u.data.get u.type.members.instrumentType) <;> rfl

theorem applied_of_ok {a : Method} {key : PositionKey}
    (ha : k.accountingMethods (u.data.get u.type.members.instrumentType) = some a)
    (h : Bookkeeper.positionKey u.type.members u.data = .ok key) :
    A.applied k.accountingMethods u =
      Bookkeeper.applied (A.ops u.type) (A.method u.type) u.updateTime u.data a key := by
  funext book
  rw [applied, ha, h]

theorem content_perform (A : Accounting Book Method) (k : Bookkeeper Book Method) (u : BookUpdate)
    (uid : UInt32) :
    A.content (A.perform k u) uid =
      (A.applied k.accountingMethods u)^[u.times uid] (A.content k uid) := by
  cases ha : k.accountingMethods (u.data.get u.type.members.instrumentType) with
  | none =>
    rw [applied_of_none ha, Function.iterate_id, perform, Bookkeeper.updateBook_of_none ha]
    rfl
  | some a =>
    cases hkey : Bookkeeper.positionKey u.type.members u.data with
    | error e =>
      obtain ⟨e, hdirection⟩ := Bookkeeper.direction_of_error hkey
      rw [applied_of_error hkey, Function.iterate_id, ← content_ops u.type, perform,
        Bookkeeper.content_of_error hdirection, content_ops]
      rfl
    | ok key =>
      have hcontent := Bookkeeper.content_of_ok (A.ops u.type) (A.method u.type) u.updateTime
        u.source u.dest ha hkey
      rw [content_ops, content_ops, ← applied_of_ok ha hkey] at hcontent
      rw [perform, hcontent, BookUpdate.times, Nat.add_comm, Function.iterate_add_apply]
      -- the destination is applied to what the source has left
      change (if u.dest = Location.public then _ else change _ (change _ _ u.source) u.dest) uid = _
      rw [← change_apply]
      by_cases hdest : u.dest = Location.public
      · rw [if_pos hdest, if_neg fun h => h.1 hdest]
        rfl
      · rw [if_neg hdest, change_apply]
        simp only [ne_eq, hdest, not_false_eq_true, true_and]

theorem content_perform_of_not_concerns {uid : UInt32} (h : ¬ u.concerns uid) :
    A.content (A.perform k u) uid = A.content k uid := by
  rw [content_perform, BookUpdate.times_of_not_concerns h]
  rfl

theorem content_run (A : Accounting Book Method) (k : Bookkeeper Book Method)
    (us : List BookUpdate) (uid : UInt32) :
    A.content (A.run k us) uid =
      (us.filter (BookUpdate.concerns uid)).foldl
        (fun book u => (A.applied k.accountingMethods u)^[u.times uid] book) (A.content k uid) := by
  induction us generalizing k with
  | nil => rfl
  | cons u us ih =>
    have hrest := ih (A.perform k u)
    rw [accountingMethods_perform] at hrest
    rw [run, List.foldl_cons, ← run, hrest]
    by_cases h : u.concerns uid
    · rw [List.filter_cons_of_pos h, List.foldl_cons, content_perform]
    · rw [List.filter_cons_of_neg h, content_perform_of_not_concerns h]

def counting : Accounting Nat Unit where
  makeBook _ := 0
  ops T := Bookkeeper.counting T.schema
  makeBook_eq _ := rfl
  method _ _ n _ := n + 1

def lockTrade : TradingDataType.trade.schema.Data :=
  .set TradingDataType.trade.members.side Enums.Side.lock.toVal
    (.fresh TradingDataType.trade.schema.fields)

/-- An order of 7 for itself, one of 8 for all, a trade of 7 that is refused, and an order that 8
sends to 7. -/
theorem content_run_counting :
    counting.content (counting.run ⟨fun _ => none, fun _ => some ()⟩
      [⟨.order, Bookkeeper.stockOrder, 0, 7, 7⟩,
        ⟨.order, Bookkeeper.stockOrder, 0, 8, Location.public⟩,
        ⟨.trade, lockTrade, 0, 7, 8⟩,
        ⟨.order, Bookkeeper.stockOrder, 0, 8, 7⟩]) 7 = 3 :=
  (content_run counting ⟨fun _ => none, fun _ => some ()⟩ _ 7).trans rfl

end Accounting

end Kungfu.Wingchun
