import Kungfu.Yijinjing.Cache.Backend
import Kungfu.Yijinjing.Cache.Identity
import Kungfu.Yijinjing.Cache.LastWrite

namespace Kungfu.Yijinjing.Cache

open Kungfu.Lib Kungfu.Common Kungfu.Longfist

def Row.feed {S : Schema} (locationUid dest : UInt32) (start : Int64) (r : Row S) : Feed S :=
  .state ⟨locationUid, dest, start, r.data⟩ r.terminated

variable (hash32 : Bytes → Int32 → UInt32)

def restoreBank (locationUid : UInt32) (start : Int64) (b : Bank) (xs : List Delivery) : Bank :=
  xs.foldl (fun b x => b.feed hash32 x.type (x.row.feed locationUid x.dest start)) b

namespace Shift

def bank (s : Shift) (order : List UInt32) (start : Int64) : Bank :=
  restoreBank hash32 s.locationUid start .empty (s.restore order start)

/-- Whatever way the iterator goes, the entries have the same data and destinations. -/
def OrderIndependent (s : Shift) (start : Int64) : Prop :=
  ∀ order order', s.Iterates order → s.Iterates order' → ∀ T u,
    ((s.bank hash32 order start T).lookup u).map (fun e => (e.data, e.dest)) =
      ((s.bank hash32 order' start T).lookup u).map (fun e => (e.data, e.dest))

/-- Selected rows of one type that share a `uid` are in one database. -/
def Separate (s : Shift) (start : Int64) : Prop :=
  ∀ T dest dest', ∀ r ∈ getAll (s.table dest T) start Int64.maxValue,
    ∀ r' ∈ getAll (s.table dest' T) start Int64.maxValue,
      T.schema.uid hash32 r.data = T.schema.uid hash32 r'.data → dest = dest'

def feeds (s : Shift) (T : StateType) (start : Int64) (dest : UInt32) : List (Feed T.schema) :=
  (getAll (s.table dest T) start Int64.maxValue).map (Row.feed s.locationUid dest start)

variable {hash32} {s : Shift} {order order' : List UInt32} {start : Int64} {T : StateType}

theorem bank_eq (s : Shift) (order : List UInt32) (start : Int64) :
    s.bank hash32 order start = StateType.all.foldl
      (fun b T => b.feedAll hash32 T (order.flatMap (s.feeds T start))) .empty := by
  simp only [bank, restoreBank, restore, deliveries, feeds, Bank.feedAll, List.foldl_flatMap,
    List.foldl_map, table_openAll]

theorem foldl_feedAll_of_notMem {types : List StateType} (h : T ∉ types) (b : Bank)
    (xs : (T : StateType) → List (Feed T.schema)) :
    types.foldl (fun b T => b.feedAll hash32 T (xs T)) b T = b T := by
  induction types generalizing b with
  | nil => rfl
  | cons T' types ih =>
    rw [List.foldl_cons, ih (List.not_mem_of_not_mem_cons h),
      Bank.feedAll_of_ne (List.ne_of_not_mem_cons h)]

theorem foldl_feedAll {types : List StateType} (hnodup : types.Nodup) (h : T ∈ types) (b : Bank)
    (xs : (T : StateType) → List (Feed T.schema)) :
    types.foldl (fun b T => b.feedAll hash32 T (xs T)) b T = b.feedAll hash32 T (xs T) T := by
  induction types generalizing b with
  | nil => cases h
  | cons T' types ih =>
    obtain ⟨hnotMem, hnodup⟩ := List.nodup_cons.mp hnodup
    obtain rfl | h := List.mem_cons.mp h
    · exact foldl_feedAll_of_notMem hnotMem _ xs
    · have hne : T ≠ T' := fun heq => hnotMem (heq ▸ h)
      rw [List.foldl_cons, ih hnodup h, Bank.feedAll_same, Bank.feedAll_of_ne hne,
        ← Bank.feedAll_same]

theorem lookup_bank (s : Shift) (order : List UInt32) (start : Int64) (T : StateType) (u : UInt64) :
    (s.bank hash32 order start T).lookup u =
      (order.flatMap fun dest => recordsOf hash32 (s.feeds T start dest) u).foldl
        (KeyedMap.upsert Feed.toState Feed.assignTo) none := by
  rw [bank_eq, foldl_feedAll StateType.nodup_all T.mem_all, lookup_feedAll, recordsOf,
    List.filter_flatMap]
  rfl

theorem flatMap_eq_of_perm {α β : Type*} {l l' : List α} {g : α → List β} (h : l.Perm l')
    (hg : ∀ a a', g a ≠ [] → g a' ≠ [] → a = a') : l.flatMap g = l'.flatMap g := by
  induction h with
  | nil => rfl
  | cons a _ ih => rw [List.flatMap_cons, List.flatMap_cons, ih]
  | swap a a' l =>
    simp only [List.flatMap_cons, ← List.append_assoc]
    by_cases ha : g a = []
    · simp [ha]
    · by_cases ha' : g a' = []
      · simp [ha']
      · rw [hg a a' ha ha']
  | trans _ _ ih ih' => exact ih.trans ih'

theorem mem_recordsOf_feeds {dest : UInt32} {u : UInt64} {x : Feed T.schema} :
    x ∈ recordsOf hash32 (s.feeds T start dest) u ↔
      ∃ r ∈ getAll (s.table dest T) start Int64.maxValue,
        r.feed s.locationUid dest start = x ∧ T.schema.uid hash32 r.data = u := by
  simp only [recordsOf, feeds, List.mem_filter, List.mem_map, decide_eq_true_eq]
  constructor
  · rintro ⟨⟨r, hr, rfl⟩, hu⟩
    exact ⟨r, hr, rfl, hu⟩
  · rintro ⟨r, hr, rfl, hu⟩
    exact ⟨⟨r, hr, rfl⟩, hu⟩

theorem Separate.orderIndependent (h : s.Separate hash32 start) :
    s.OrderIndependent hash32 start := by
  intro order order' horder horder' T u
  rw [lookup_bank, lookup_bank, flatMap_eq_of_perm (horder.trans horder'.symm)]
  intro dest dest' hdest hdest'
  obtain ⟨x, hx⟩ := List.exists_mem_of_ne_nil _ hdest
  obtain ⟨x', hx'⟩ := List.exists_mem_of_ne_nil _ hdest'
  obtain ⟨r, hr, -, hu⟩ := mem_recordsOf_feeds.mp hx
  obtain ⟨r', hr', -, hu'⟩ := mem_recordsOf_feeds.mp hx'
  exact h T dest dest' r hr r' hr' (hu.trans hu'.symm)

theorem dest_foldl_upsert {S : Schema} (stored : Option (State S)) (xs : List (Feed S))
    (x : Feed S) :
    ((xs ++ [x]).foldl (KeyedMap.upsert Feed.toState Feed.assignTo) stored).map State.dest =
      some x.toState.dest := by
  rw [List.foldl_concat]
  cases xs.foldl (KeyedMap.upsert Feed.toState Feed.assignTo) stored with
  | none => rfl
  | some e => rw [KeyedMap.upsert, Feed.assignTo_eq]; rfl

theorem exists_order_dest (hash32 : Bytes → Int32 → UInt32) {dest : UInt32} {r : Row T.schema}
    (hr : r ∈ getAll (s.table dest T) start Int64.maxValue) :
    ∃ order, s.Iterates order ∧
      ((s.bank hash32 order start T).lookup (T.schema.uid hash32 r.data)).map State.dest =
        some dest := by
  have hopen : dest ∈ s.openAll.storageMap := by
    rw [mem_storageMap_openAll]
    by_contra hdest
    rw [table_of_notMem hdest, getAll_eq_filter] at hr
    cases hr
  -- the other databases in any order, then this one
  refine ⟨s.openAll.storageMap.erase dest ++ [dest],
    (List.perm_append_comm.trans (List.perm_cons_erase hopen).symm), ?_⟩
  have hmem : r.feed s.locationUid dest start ∈
      recordsOf hash32 (s.feeds T start dest) (T.schema.uid hash32 r.data) :=
    mem_recordsOf_feeds.mpr ⟨r, hr, rfl, rfl⟩
  obtain ⟨xs, x, hxs⟩ := (List.eq_nil_or_concat' _).resolve_left (List.ne_nil_of_mem hmem)
  have hx : x ∈ recordsOf hash32 (s.feeds T start dest) (T.schema.uid hash32 r.data) :=
    hxs ▸ List.mem_append_right _ (.head _)
  obtain ⟨r', -, rfl, -⟩ := mem_recordsOf_feeds.mp hx
  rw [lookup_bank, List.flatMap_append, List.flatMap_singleton, hxs, ← List.append_assoc,
    dest_foldl_upsert]
  rfl

theorem OrderIndependent.separate (h : s.OrderIndependent hash32 start) :
    s.Separate hash32 start := by
  intro T dest dest' r hr r' hr' huid
  obtain ⟨order, horder, hdest⟩ := exists_order_dest hash32 hr
  obtain ⟨order', horder', hdest'⟩ := exists_order_dest hash32 hr'
  have hentries := congrArg (Option.map Prod.snd)
    (h order order' horder horder' T (T.schema.uid hash32 r.data))
  simp only [Option.map_map] at hentries
  have heq := hdest.symm.trans (hentries.trans (huid ▸ hdest'))
  exact Option.some.inj heq

theorem orderIndependent_iff_separate (hash32 : Bytes → Int32 → UInt32) (s : Shift)
    (start : Int64) : s.OrderIndependent hash32 start ↔ s.Separate hash32 start :=
  ⟨OrderIndependent.separate, Separate.orderIndependent⟩

theorem mem_getAll_store (s : Shift) (start : Int64) (x : Feed T.schema)
    (hx : x.row.selected start Int64.maxValue) :
    x.row ∈ getAll ((s.store T x).table x.toState.dest T) start Int64.maxValue := by
  rw [table_store_same, getAll_eq_filter]
  exact List.mem_filter.mpr ⟨KeyedTable.mem_rows_replace.mpr (.inl rfl), hx⟩

def positionFor (dest : UInt32) : Feed (StateType.schema ⟨.position, by decide⟩) :=
  .state { positionOf 2 0 with dest := dest } (show (positionOf 2 0).data.Terminated by decide)

theorem not_orderIndependent_position :
    ¬ ∃ hash32 start, OrderIndependent hash32
      (((onDisk 0 ∅).store ⟨.position, by decide⟩ (positionFor 1)).store ⟨.position, by decide⟩
        (positionFor 2)) start := by
  rintro ⟨hash32, start, h⟩
  have hfirst := mem_getAll_store (onDisk 0 ∅) start (positionFor 1) rfl
  have hsecond := mem_getAll_store ((onDisk 0 ∅).store _ (positionFor 1)) start (positionFor 2) rfl
  rw [← table_store_of_ne (positionFor 2) fun hdest => absurd hdest (by decide)] at hfirst
  exact absurd (h.separate _ _ _ _ hfirst _ hsecond rfl) (by decide)

end Shift

end Kungfu.Yijinjing.Cache
