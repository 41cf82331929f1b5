import Kungfu.Yijinjing.Cache.Storage

namespace Kungfu.Common

open Kungfu.Lib

theorem FieldType.keyValue_assign (t : FieldType) {a b : t.Val}
    (h : t.keyValue a = t.keyValue b) : t.keyValue (t.assign a b) = t.keyValue b := by
  cases t with
  | chars n =>
    simp only [FieldType.keyValue, KeyValue.text.injEq] at h
    simp only [FieldType.keyValue, FieldType.assign, toList_charsAssign, CString.assign_eq_self h,
      h]
  | _ => rfl

theorem Record.keyValue_assign {name : String} {fs : List Field} {a b : Record fs}
    (h : a.keyValue name = b.keyValue name) :
    (a.assign b).keyValue name = b.keyValue name := by
  induction fs with
  | nil => rfl
  | cons f fs ih =>
    simp only [Record.keyValue, Record.assign] at h ⊢
    split at h
    next hname =>
      rw [if_pos hname, if_pos hname]
      exact f.type.keyValue_assign h
    next hname =>
      rw [if_neg hname, if_neg hname]
      exact ih h

theorem Schema.key_assign {S : Schema} {a b : S.Data} (h : S.key a = S.key b) :
    S.key (a.assign b) = S.key b := by
  apply List.map_congr_left
  intro name hname
  exact Record.keyValue_assign (List.map_inj_left.mp h name hname)

end Kungfu.Common

namespace Kungfu.Yijinjing.Cache

open Kungfu.Lib Kungfu.Common Kungfu.Longfist

variable (hash32 : Bytes → Int32 → UInt32) (T : StateType) (xs : List (Feed T.schema))

/-- The cache fed with the records and the table filled with them hold the same keys, the cache
in one entry each. -/
structure SameIdentity : Prop where
  keys : ∀ k, (∃ u, ∃ s ∈ (Bank.empty.feedAll hash32 T xs T).lookup u, T.schema.key s.data = k) ↔
    k ∈ (KeyedTable.ofList (xs.map Feed.row) : Table T.schema).rows.map Row.key
  unique : ∀ u v, ∀ s ∈ (Bank.empty.feedAll hash32 T xs T).lookup u,
    ∀ t ∈ (Bank.empty.feedAll hash32 T xs T).lookup v,
      T.schema.key s.data = T.schema.key t.data → u = v

def NoCollision : Prop :=
  ∀ x ∈ xs, ∀ y ∈ xs, x.uid hash32 = y.uid hash32 → T.schema.key x.data = T.schema.key y.data

variable {hash32 T xs}

theorem mem_keys_table {k : List KeyValue} :
    k ∈ (KeyedTable.ofList (xs.map Feed.row) : Table T.schema).rows.map Row.key ↔
      k ∈ xs.map fun x => T.schema.key x.data := by
  rw [KeyedTable.mem_keys_ofList, List.map_map]
  rfl

theorem feedAll_empty :
    Bank.empty.feedAll hash32 T xs T = KeyedMap.feed Feed.toState Feed.assignTo
      (Schema.keyHash hash32 ∘ fun x : Feed T.schema => T.schema.key x.data) ∅ xs := by
  rw [Bank.feedAll_same]
  congr 1
  funext x
  exact T.schema.uid_eq_keyHash hash32 x.data

theorem noCollision_iff_injOn : NoCollision hash32 T xs ↔
    Set.InjOn (Schema.keyHash hash32) {k | k ∈ xs.map fun x => T.schema.key x.data} := by
  simp only [NoCollision, Feed.uid, Schema.uid_eq_keyHash, Set.InjOn, Set.mem_ofPred_eq,
    List.forall_mem_map]

theorem key_assignTo (s : State T.schema) (x : Feed T.schema)
    (h : T.schema.key s.data = T.schema.key x.data) :
    T.schema.key (x.assignTo s).data = T.schema.key x.data := by
  rw [Feed.assignTo_eq, ← x.toState_data]
  exact Schema.key_assign (x.toState_data ▸ h)

theorem SameIdentity.noCollision (h : SameIdentity hash32 T xs) : NoCollision hash32 T xs := by
  apply noCollision_iff_injOn.mpr
  apply KeyedMap.injOn_of_surjective Feed.toState Feed.assignTo
    fun s : State T.schema => T.schema.key s.data
  intro k hk
  rw [← feedAll_empty]
  exact (h.keys k).mpr (mem_keys_table.mpr hk)

theorem NoCollision.entry (h : NoCollision hash32 T xs) {u : UInt64} {s : State T.schema}
    (hs : s ∈ (Bank.empty.feedAll hash32 T xs T).lookup u) :
    (T.schema.key s.data ∈ xs.map fun x => T.schema.key x.data) ∧
      Schema.keyHash hash32 (T.schema.key s.data) = u := by
  rw [feedAll_empty] at hs
  exact KeyedMap.identity_of_injOn (noCollision_iff_injOn.mp h) (fun x => by rw [x.toState_data])
    key_assignTo hs

theorem sameIdentity_iff_noCollision (hash32 : Bytes → Int32 → UInt32) (T : StateType)
    (xs : List (Feed T.schema)) : SameIdentity hash32 T xs ↔ NoCollision hash32 T xs := by
  constructor
  · exact SameIdentity.noCollision
  · intro h
    refine ⟨fun k => ?_, fun u v s hs t ht hkey => ?_⟩
    · rw [mem_keys_table]
      constructor
      · rintro ⟨u, s, hs, rfl⟩
        exact (h.entry hs).1
      · intro hk
        have hmem : Schema.keyHash hash32 k ∈ Bank.empty.feedAll hash32 T xs T := by
          rw [feedAll_empty, KeyedMap.mem_feed, ← List.map_map]
          exact .inr (List.mem_map_of_mem hk)
        obtain ⟨s, hs⟩ := Option.isSome_iff_exists.mp (AList.lookup_isSome.mpr hmem)
        obtain ⟨hfed, hhash⟩ := h.entry hs
        exact ⟨_, s, hs, noCollision_iff_injOn.mp h hfed hk hhash⟩
    · rw [← (h.entry hs).2, ← (h.entry ht).2, hkey]

def positionHolderUid : Member Types.position.fields ⟨Types.uint32, "holder_uid"⟩ :=
  .there (.there (.there (.there (.there .here))))

def positionDirection : Member Types.position.fields ⟨Types.Enums.direction, "direction"⟩ :=
  .there (.there (.there (.there (.there (.there (.there .here))))))

def positionOf (holderUid : BitVec 32) (direction : BitVec 8) : State Types.position where
  source := 0
  dest := 0
  updateTime := 0
  data := ((Record.fresh _).set positionHolderUid holderUid).set positionDirection direction

theorem uid_positionOf (hash32 : Bytes → Int32 → UInt32) :
    Types.position.uid hash32 (positionOf 2 0).data =
      Types.position.uid hash32 (positionOf 3 1).data := by
  have mixed (a b : UInt64) : 0 ^^^ 2 ^^^ a ^^^ b ^^^ 0 = 0 ^^^ 3 ^^^ a ^^^ b ^^^ 1 := by
    rw [UInt64.xor_comm _ 0, UInt64.xor_comm _ 1]
    simp only [← UInt64.xor_assoc]
    rfl
  exact mixed (hash32 [] 0).toUInt64 (hash32 [] 0).toUInt64

/-- The long position of holder 2 and the short position of holder 3 share one entry. -/
theorem not_sameIdentity_positions :
    ¬ ∃ hash32, SameIdentity hash32 ⟨.position, by decide⟩
      [.state (positionOf 2 0) (by decide), .state (positionOf 3 1) (by decide)] := by
  rintro ⟨hash32, h⟩
  have hkey := h.noCollision _ (.head _) _ (.tail _ (.head _)) (uid_positionOf hash32)
  exact absurd hkey (by decide)

end Kungfu.Yijinjing.Cache
