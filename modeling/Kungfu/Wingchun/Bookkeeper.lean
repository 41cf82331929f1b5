import Kungfu.Wingchun.Common
import Kungfu.Yijinjing.Location
import Mathlib.Logic.Function.Basic

/-!
`Bookkeeper::update_book`, over any books and accounting methods.
-/

namespace Kungfu.Wingchun

open Kungfu.Lib Kungfu.Common Kungfu.Longfist Kungfu.Longfist.Enums Kungfu.Yijinjing

structure PositionKey where
  direction : Direction
  exchangeId : Bytes
  instrumentId : Bytes

/-- `Book` and `make_book`, whose bodies are not part of the sources. A position is written
through the reference that `getPosition` gives to the one of its key. -/
structure BookOps (Book : Type) (S : Schema) where
  makeBook : UInt32 → Book
  getPosition : PositionKey → Book → Book
  setUpdateTime : PositionKey → Int64 → Book → Book
  replace : S.Data → Book → Book
  update : Int64 → Book → Book

structure Bookkeeper (Book Method : Type) where
  books : UInt32 → Option Book
  accountingMethods : Types.Enums.instrumentType.Val → Option Method

abbrev Update (Book Method : Type) := EStateM String (Bookkeeper Book Method)

namespace Bookkeeper

variable {Book Method : Type} {S : Schema} (ops : BookOps Book S)

def getBook (uid : UInt32) : Update Book Method Book := fun k =>
  match k.books uid with
  | some b => .ok b k
  | none =>
    .ok (ops.makeBook uid)
      { k with books := Function.update k.books uid (some (ops.makeBook uid)) }

def setBook (uid : UInt32) (b : Book) : Update Book Method Unit :=
  modify fun k => { k with books := Function.update k.books uid (some b) }

variable (method : Method → Book → S.Data → Book) (M : TradingData S) (updateTime : Int64)
  (data : S.Data)

def direction : Except String Direction :=
  getDirection (data.get M.instrumentType) (data.get M.side) (data.get M.offset)

def positionKey : Except String PositionKey := do
  let direction ← direction M data
  return ⟨direction, CString.text (data.get M.exchangeId).toList,
    CString.text (data.get M.instrumentId).toList⟩

def applied (a : Method) (key : PositionKey) (book : Book) : Book :=
  let book := ops.getPosition key book
  let book := method a book data
  let book := ops.setUpdateTime key updateTime book
  let book := ops.replace data book
  ops.update updateTime book

/-- The lambda `apply_and_update`. -/
def applyAndUpdate (a : Method) (uid : UInt32) : Update Book Method Unit := do
  let book ← getBook ops uid
  let key ← MonadExcept.ofExcept (positionKey M data)
  setBook uid (applied ops method updateTime data a key book)

def updateBook (source dest : UInt32) : Update Book Method Unit := do
  match (← get).accountingMethods (data.get M.instrumentType) with
  | none => pure ()
  | some a =>
    applyAndUpdate ops method M updateTime data a source
    if dest ≠ Location.public then
      applyAndUpdate ops method M updateTime data a dest

def content (k : Bookkeeper Book Method) (uid : UInt32) : Book :=
  (k.books uid).getD (ops.makeBook uid)

def after : EStateM.Result String (Bookkeeper Book Method) Unit → Bookkeeper Book Method
  | .ok _ k | .error _ k => k

/-- Every book is as it was, for want of a method or of a direction, or source and destination
have had the data applied to them once and no other book has. -/
def AppliedOnce (source dest : UInt32) (k : Bookkeeper Book Method) : Prop :=
  let k' := after (updateBook ops method M updateTime data source dest k)
  (k.accountingMethods (data.get M.instrumentType) = none ∨ (∃ e, direction M data = .error e)) ∧
      k'.content ops = k.content ops ∨
    ∃ a key, k.accountingMethods (data.get M.instrumentType) = some a ∧
      positionKey M data = .ok key ∧ ∀ uid, k'.content ops uid =
        if uid = source ∨ dest ≠ Location.public ∧ uid = dest then
          applied ops method updateTime data a key (k.content ops uid)
        else k.content ops uid

variable {M data}

theorem getBook_eq (uid : UInt32) (k : Bookkeeper Book Method) :
    ∃ k', getBook ops uid k = .ok (k.content ops uid) k' ∧ k'.content ops = k.content ops := by
  rw [getBook]
  cases h : k.books uid with
  | some b => exact ⟨k, by rw [content, h]; rfl, rfl⟩
  | none =>
    refine ⟨_, by rw [content, h]; rfl, funext fun u => ?_⟩
    by_cases hu : u = uid
    · simp [content, hu, h]
    · simp [content, hu]

theorem content_setBook (uid : UInt32) (b : Book) (k : Bookkeeper Book Method) :
    ∃ k', setBook uid b k = .ok () k' ∧
      k'.content ops = Function.update (k.content ops) uid b := by
  refine ⟨_, rfl, funext fun u => ?_⟩
  by_cases hu : u = uid
  · simp [content, hu]
  · simp [content, hu]

theorem positionKey_of_error {e : String} (h : direction M data = .error e) :
    positionKey M data = .error e := by
  rw [positionKey, h]
  rfl

theorem exists_positionKey {d : Direction} (h : direction M data = .ok d) :
    ∃ key, positionKey M data = .ok key := by
  rw [positionKey, h]
  exact ⟨_, rfl⟩

theorem applyAndUpdate_of_error {e : String} (h : direction M data = .error e) (a : Method)
    (uid : UInt32) (k : Bookkeeper Book Method) :
    ∃ k', applyAndUpdate ops method M updateTime data a uid k = .error e k' ∧
      k'.content ops = k.content ops := by
  obtain ⟨k', hk', hcontent⟩ := getBook_eq ops uid k
  refine ⟨k', ?_, hcontent⟩
  simp only [applyAndUpdate, bind, EStateM.bind, hk', positionKey_of_error h]
  rfl

theorem applyAndUpdate_of_ok {key : PositionKey} (h : positionKey M data = .ok key) (a : Method)
    (uid : UInt32) (k : Bookkeeper Book Method) :
    ∃ k', applyAndUpdate ops method M updateTime data a uid k = .ok () k' ∧
      k'.content ops = Function.update (k.content ops) uid
        (applied ops method updateTime data a key (k.content ops uid)) := by
  obtain ⟨k₁, hk₁, hcontent₁⟩ := getBook_eq ops uid k
  obtain ⟨k₂, hk₂, hcontent₂⟩ := content_setBook ops uid
    (applied ops method updateTime data a key (k.content ops uid)) k₁
  refine ⟨k₂, ?_, hcontent₁ ▸ hcontent₂⟩
  simp only [applyAndUpdate, bind, EStateM.bind, hk₁, h]
  exact hk₂

section

variable {ops method updateTime} {source dest : UInt32} {k : Bookkeeper Book Method}

theorem get_update (k : Bookkeeper Book Method) :
    (get : Update Book Method (Bookkeeper Book Method)) k = .ok k k :=
  rfl

theorem updateBook_of_none (h : k.accountingMethods (data.get M.instrumentType) = none) :
    updateBook ops method M updateTime data source dest k = .ok () k := by
  simp only [updateBook, bind, EStateM.bind, get_update, h]
  rfl

theorem updateBook_of_some {a : Method}
    (h : k.accountingMethods (data.get M.instrumentType) = some a) :
    updateBook ops method M updateTime data source dest k =
      (do
        applyAndUpdate ops method M updateTime data a source
        if dest ≠ Location.public then
          applyAndUpdate ops method M updateTime data a dest) k := by
  simp only [updateBook, bind, EStateM.bind, get_update, h]

theorem content_of_error {e : String} (h : direction M data = .error e) :
    (after (updateBook ops method M updateTime data source dest k)).content ops =
      k.content ops := by
  cases ha : k.accountingMethods (data.get M.instrumentType) with
  | none => rw [updateBook_of_none ha, after]
  | some a =>
    obtain ⟨k', hk', hcontent⟩ :=
      applyAndUpdate_of_error ops method updateTime h a source k
    rw [updateBook_of_some ha]
    simp only [bind, EStateM.bind, hk']
    exact hcontent

theorem content_of_ok (ops : BookOps Book S) (method : Method → Book → S.Data → Book)
    (updateTime : Int64) {a : Method} {key : PositionKey} (source dest : UInt32)
    {k : Bookkeeper Book Method}
    (ha : k.accountingMethods (data.get M.instrumentType) = some a)
    (h : positionKey M data = .ok key) :
    let f := applied ops method updateTime data a key
    let c := Function.update (k.content ops) source (f (k.content ops source))
    (after (updateBook ops method M updateTime data source dest k)).content ops =
      if dest = Location.public then c else Function.update c dest (f (c dest)) := by
  intro f c
  obtain ⟨k₁, hk₁, hcontent₁⟩ :=
    applyAndUpdate_of_ok ops method updateTime h a source k
  rw [updateBook_of_some ha]
  simp only [bind, EStateM.bind, hk₁]
  by_cases hdest : dest = Location.public
  · rw [if_neg (not_not.mpr hdest), if_pos hdest]
    exact hcontent₁
  · obtain ⟨k₂, hk₂, hcontent₂⟩ :=
      applyAndUpdate_of_ok ops method updateTime h a dest k₁
    rw [if_pos hdest, if_neg hdest, hk₂, after, hcontent₂, hcontent₁]

theorem appliedOnce_of_none (h : k.accountingMethods (data.get M.instrumentType) = none) :
    AppliedOnce ops method M updateTime data source dest k := by
  refine .inl ⟨.inl h, ?_⟩
  rw [updateBook_of_none h, after]

theorem appliedOnce_of_error {e : String} (h : direction M data = .error e) :
    AppliedOnce ops method M updateTime data source dest k :=
  .inl ⟨.inr ⟨e, h⟩, content_of_error h⟩

theorem appliedOnce_of_ne {a : Method} {key : PositionKey}
    (ha : k.accountingMethods (data.get M.instrumentType) = some a)
    (h : positionKey M data = .ok key) (hdest : dest = Location.public ∨ dest ≠ source) :
    AppliedOnce ops method M updateTime data source dest k := by
  refine .inr ⟨a, key, ha, h, fun uid => ?_⟩
  rw [content_of_ok ops method updateTime source dest ha h]
  by_cases hpublic : dest = Location.public
  · by_cases hsource : uid = source
    · simp [hpublic, hsource]
    · simp [hpublic, hsource]
  · have hne : dest ≠ source := hdest.resolve_left hpublic
    by_cases hsource : uid = source
    · subst hsource
      simp [hpublic, hne.symm]
    · by_cases hu : uid = dest
      · subst hu
        simp [hpublic, hsource]
      · simp [hpublic, hsource, hu]

end

def counting (S : Schema) : BookOps Nat S where
  makeBook _ := 0
  getPosition _ := id
  setUpdateTime _ _ := id
  replace _ := id
  update _ := id

theorem not_appliedOnce_counting (M : TradingData S) (updateTime : Int64) {data : S.Data}
    (registered : Types.Enums.instrumentType.Val → Option Unit) {key : PositionKey}
    {source : UInt32} (ha : registered (data.get M.instrumentType) = some ())
    (h : positionKey M data = .ok key) (hsource : source ≠ Location.public) :
    ¬ AppliedOnce (counting S) (fun _ n _ => n + 1) M updateTime data source source
      ⟨fun _ => none, registered⟩ := by
  let k : Bookkeeper Nat Unit := ⟨fun _ => none, registered⟩
  have hcontent := content_of_ok (counting S) (fun _ n _ => n + 1) updateTime source source
    (k := k) ha h
  rintro (⟨hnone | ⟨e, he⟩, -⟩ | ⟨a, key', -, -, happlied⟩)
  · exact absurd (ha.symm.trans hnone) nofun
  · exact absurd (h.symm.trans (positionKey_of_error he)) nofun
  · have honce := happlied source
    rw [hcontent] at honce
    simp [hsource, applied, counting, content, k] at honce

def stockOrder : TradingDataType.order.schema.Data :=
  .set TradingDataType.order.members.instrumentType InstrumentType.stock.toVal
    (.fresh TradingDataType.order.schema.fields)

theorem appliedOnce_iff (T : TradingDataType) (data : T.schema.Data) (updateTime : Int64)
    (source dest : UInt32) (registered : Types.Enums.instrumentType.Val → Bool) :
    (∀ (Book Method : Type) (ops : BookOps Book T.schema)
      (method : Method → Book → T.schema.Data → Book) (k : Bookkeeper Book Method),
      (∀ t, (k.accountingMethods t).isSome = registered t) →
        AppliedOnce ops method T.members updateTime data source dest k) ↔
    registered (data.get T.members.instrumentType) = false ∨
      (∃ e, direction T.members data = .error e) ∨ dest = Location.public ∨ dest ≠ source := by
  constructor
  · intro h
    by_contra hcondition
    simp only [not_or, not_not, Bool.not_eq_false] at hcondition
    obtain ⟨hregistered, haccepted, hpublic, rfl⟩ := hcondition
    cases hdirection : direction T.members data with
    | error e => exact haccepted ⟨e, hdirection⟩
    | ok d =>
      obtain ⟨key, hkey⟩ := exists_positionKey hdirection
      refine not_appliedOnce_counting T.members updateTime
        (fun t => if registered t then some () else none) (by simp [hregistered]) hkey hpublic
        (h _ _ _ _ _ fun t => ?_)
      cases ht : registered t <;> simp [ht]
  · intro hcondition Book Method ops method k hk
    cases ha : k.accountingMethods (data.get T.members.instrumentType) with
    | none => exact appliedOnce_of_none ha
    | some a =>
      cases hdirection : direction T.members data with
      | error e => exact appliedOnce_of_error hdirection
      | ok d =>
        obtain ⟨key, hkey⟩ := exists_positionKey hdirection
        refine appliedOnce_of_ne ha hkey ?_
        rcases hcondition with hnone | ⟨e, he⟩ | hdest
        · rw [← hk, ha] at hnone
          exact absurd hnone nofun
        · exact absurd (hdirection.symm.trans he) nofun
        · exact hdest

theorem not_appliedOnce_selfOrder :
    ¬ ∀ (Book Method : Type) (T : TradingDataType) (ops : BookOps Book T.schema)
      (method : Method → Book → T.schema.Data → Book) (updateTime : Int64) (data : T.schema.Data)
      (source dest : UInt32) (k : Bookkeeper Book Method),
      AppliedOnce ops method T.members updateTime data source dest k := by
  intro h
  have hkey : positionKey TradingDataType.order.members stockOrder = .ok ⟨.long, [], []⟩ := rfl
  exact not_appliedOnce_counting TradingDataType.order.members 0 (fun _ => some ()) rfl hkey
    (by decide) (h Nat Unit .order (counting _) _ 0 stockOrder 7 7 _)

end Bookkeeper

end Kungfu.Wingchun
