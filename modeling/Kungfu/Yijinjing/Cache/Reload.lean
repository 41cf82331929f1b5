import Kungfu.Lib.Traverse
import Kungfu.Yijinjing.Cache.Dump

namespace Kungfu.Yijinjing.Cache

open Kungfu.Lib Kungfu.Common Kungfu.Longfist

theorem StateType.tag_inj {T T' : StateType} (h : T.schema.tag = T'.schema.tag) : T = T' := by
  have hall : ∀ T ∈ stateDataTypes, ∀ T' ∈ stateDataTypes, T.schema.tag = T'.schema.tag →
      T = T' := by
    decide
  cases T with
  | mk T hT =>
    cases T' with
    | mk T' hT' =>
      obtain rfl := hall T hT T' hT' h
      rfl

variable {C : Json.Codec} {hash32 : Bytes → Int32 → UInt32}

structure Sent (C : Json.Codec) (T : StateType) (s : State T.schema) (e : EventPtr) : Prop where
  msgType : e.msgType = some T.schema.tag
  data : e.data C T.schema = some s.data
  typed : ∃ e', e.typed s.data = some e' ∧ e'.data = s.data

theorem Stamp.frame_isSome (stamp : Stamp) {T : StateType} {r : T.schema.Data}
    (h : r.All fun t => t.ValidString) :
    ∃ e, stamp.frame C T.schema r = some e ∧ e.msgType = some T.schema.tag ∧
      ∃ e', e.typed r = some e' ∧ e'.data = r := by
  cases hfixed : T.schema.sizeFixed with
  | true => exact ⟨_, by rw [Stamp.frame, if_pos hfixed]; rfl, rfl, _, rfl, rfl⟩
  | false =>
    have hplain := DataType.plain_of_unfixed (T := T.type) hfixed
    obtain ⟨t, ht⟩ := Option.isSome_iff_exists.mp
      (T.schema.toString_isSome C r (Record.validText_of_plain hplain h))
    exact ⟨_, by rw [Stamp.frame, if_neg (by simp [hfixed]), ht]; rfl, rfl, _, rfl, rfl⟩

theorem Stamp.data_frame (stamp : Stamp) {T : StateType} {r : T.schema.Data} {e : EventPtr}
    (h : stamp.frame C T.schema r = some e)
    (hlen : T.schema.sizeFixed = false → ∀ t, T.schema.toString C r = some t → t.length < 2 ^ 32) :
    e.data C T.schema = some r := by
  cases hfixed : T.schema.sizeFixed with
  | true =>
    rw [Stamp.frame, if_pos hfixed] at h
    cases h
    have hsize : r.toBytes.take T.schema.size = r.toBytes :=
      List.take_of_length_le (Nat.le_of_eq r.length_toBytes)
    simp only [EventPtr.data, if_pos hfixed, hsize]
    rw [Record.ofBytes_toBytes (List.all_eq_true.mp hfixed)]
  | false =>
    have hplain := DataType.plain_of_unfixed (T := T.type) hfixed
    cases ht : T.schema.toString C r with
    | none => simp [Stamp.frame, hfixed, ht] at h
    | some t =>
      rw [Stamp.frame, if_neg (by simp [hfixed]), ht] at h
      cases h
      have htake : t.take (UInt32.ofNat t.length).toNat = t := by
        rw [UInt32.toNat_ofNat_of_lt' (hlen hfixed t ht), List.take_length]
      simp only [EventPtr.data, hfixed, Bool.false_eq_true, if_false, htake]
      exact Schema.ofText_of_toString_of_plain hplain ht (hlen hfixed t ht)

namespace Bank

theorem exists_dump {stamp : (T : StateType) → State T.schema → Stamp}
    {order : (T : StateType) → List (State T.schema)}
    (hvalid : ∀ T, ∀ s ∈ order T, s.data.All fun t => t.ValidString)
    (hframes : ∀ T, ∀ s ∈ order T, ∀ e, (stamp T s).frame C T.schema s.data = some e →
      e.data C T.schema = some s.data) :
    ∃ frames : StateType → List EventPtr, dump C stamp order =
      some (StateType.all.flatMap frames) ∧ ∀ T, List.Forall₂ (Sent C T) (order T) (frames T) := by
  have hsent : ∀ T, ∃ es, ((order T).mapM fun s => (stamp T s).frame C T.schema s.data) = some es ∧
      List.Forall₂ (Sent C T) (order T) es := by
    intro T
    apply Traverse.exists_mapM
    intro s hs
    obtain ⟨e, he, htag, htyped⟩ := (stamp T s).frame_isSome (C := C) (hvalid T s hs)
    exact ⟨e, he, htag, hframes T s hs e he, htyped⟩
  choose frames hframes hsent using hsent
  refine ⟨frames, ?_, hsent⟩
  simp only [dump, hframes]
  rw [show (fun T => some (frames T)) = fun T => pure (frames T) from rfl, List.mapM_pure]
  rfl

theorem foldlM_of_unmatched {types : List StateType} {e : EventPtr} {tag : Int32} (b : Bank)
    (h : ∀ T ∈ types, T.schema.tag ≠ tag) :
    types.foldlM (fun b T => if T.schema.tag = tag then b.receive C hash32 e T else pure b) b =
      some b := by
  induction types with
  | nil => rfl
  | cons T types ih =>
    rw [List.foldlM_cons, if_neg (h T (.head _))]
    exact ih fun T' hT' => h T' (.tail _ hT')

theorem feedStateData_eq {T : StateType} {e : EventPtr} (h : e.msgType = some T.schema.tag)
    (b : Bank) : b.feedStateData C hash32 e = b.receive C hash32 e T := by
  obtain ⟨before, after, hall⟩ := List.append_of_mem T.mem_all
  have hnodup := StateType.nodup_all
  rw [hall] at hnodup
  have hne : ∀ T' ∈ before ++ after, T'.schema.tag ≠ T.schema.tag := by
    intro T' hT' htag
    obtain rfl := StateType.tag_inj htag
    exact (List.nodup_middle.mp hnodup).notMem hT'
  simp only [feedStateData, h, Option.bind_eq_bind, Option.bind_some]
  rw [hall, List.foldlM_append,
    foldlM_of_unmatched b fun T' hT' => hne T' (List.mem_append_left _ hT'), Option.bind_eq_bind,
    Option.bind_some, List.foldlM_cons, if_pos rfl]
  cases b.receive C hash32 e T with
  | none => rfl
  | some b' => exact foldlM_of_unmatched b' fun T' hT' => hne T' (List.mem_append_right _ hT')

structure Holds (hash32 : Bytes → Int32 → UInt32) (b : Bank) (T : StateType)
    (ss : List (State T.schema)) : Prop where
  entry : ∀ s ∈ ss, ∃ s' ∈ (b T).lookup (T.schema.uid hash32 s.data), s'.data = s.data
  only : ∀ u ∈ b T, u ∈ ss.map fun s => T.schema.uid hash32 s.data

variable {b : Bank} {T : StateType} {done : List (State T.schema)}

theorem Holds.insertEvent (h : Holds hash32 b T done) {e : Event T.schema} {s : State T.schema}
    (he : e.data = s.data)
    (hnew : T.schema.uid hash32 s.data ∉ done.map fun s => T.schema.uid hash32 s.data) :
    Holds hash32 (b.insertEvent hash32 T e) T (done ++ [s]) := by
  have hlookup : (b T).lookup (T.schema.uid hash32 e.data) = none :=
    AList.lookup_eq_none.mpr fun hmem => hnew (he ▸ h.only _ hmem)
  have hinsert : b.insertEvent hash32 T e T = KeyedMap.insertOrAssign State.ofEvent
      State.assignEvent (b T) (T.schema.uid hash32 e.data) e := Function.update_self ..
  refine ⟨fun s' hs' => ?_, fun u hu => ?_⟩
  · rw [hinsert]
    rcases List.mem_append.mp hs' with hs' | hs'
    · have hne : T.schema.uid hash32 s'.data ≠ T.schema.uid hash32 e.data := fun heq =>
        hnew (he ▸ heq ▸ List.mem_map_of_mem hs')
      rw [KeyedMap.lookup_insertOrAssign_of_ne hne]
      exact h.entry s' hs'
    · obtain rfl := List.mem_singleton.mp hs'
      refine ⟨.ofEvent e, ?_, he⟩
      rw [← he, KeyedMap.lookup_insertOrAssign, hlookup]
      rfl
  · rw [hinsert, KeyedMap.mem_insertOrAssign] at hu
    rw [List.map_append, List.map_singleton, List.mem_append, List.mem_singleton, ← he]
    exact hu.symm.imp_left (h.only u)

theorem receive_sent (h : Holds hash32 b T done) {s : State T.schema} {e : EventPtr}
    (he : Sent C T s e) (hkeys : T.schema.KeysTerminated s.data)
    (hnew : T.schema.uid hash32 s.data ∉ done.map fun s => T.schema.uid hash32 s.data) :
    ∃ e', b.receive C hash32 e T = some (b.insertEvent hash32 T e') ∧ e'.data = s.data := by
  obtain ⟨e', htyped, hdata⟩ := he.typed
  have hbounds : b.InBounds hash32 T s.data := ⟨hkeys, fun hmem => absurd (h.only _ hmem) hnew⟩
  refine ⟨e', ?_, hdata⟩
  simp only [receive, he.data, htyped, Option.bind_eq_bind, Option.bind_some, if_pos hbounds]

theorem foldlM_feedStateData {ss : List (State T.schema)} {es : List EventPtr}
    (hes : List.Forall₂ (Sent C T) ss es)
    (hkeys : ∀ s ∈ ss, T.schema.KeysTerminated s.data)
    (hnodup : ((done ++ ss).map fun s => T.schema.uid hash32 s.data).Nodup)
    (h : Holds hash32 b T done) :
    ∃ b', es.foldlM (feedStateData C hash32) b = some b' ∧ Holds hash32 b' T (done ++ ss) ∧
      ∀ T', T' ≠ T → b' T' = b T' := by
  induction hes generalizing b done with
  | nil => exact ⟨b, rfl, (List.append_nil done).symm ▸ h, fun _ _ => rfl⟩
  | @cons s e ss es he _ ih =>
    have hnew : T.schema.uid hash32 s.data ∉ done.map fun s => T.schema.uid hash32 s.data := by
      rw [List.map_append, List.map_cons] at hnodup
      exact fun hmem => (List.nodup_append.mp hnodup).2.2 _ hmem _ (.head _) rfl
    obtain ⟨e', hreceive, hdata⟩ := receive_sent h he (hkeys s (.head _)) hnew
    rw [List.append_cons] at hnodup
    obtain ⟨b', hb', hholds, hother⟩ := ih (fun s hs => hkeys s (.tail _ hs)) hnodup
      (h.insertEvent hdata hnew)
    refine ⟨b', ?_, List.append_cons done s ss ▸ hholds, fun T' hT' => ?_⟩
    · rw [List.foldlM_cons, feedStateData_eq he.msgType, hreceive]
      exact hb'
    · rw [hother T' hT']
      exact Function.update_of_ne hT' ..

theorem foldlM_flatMap {order : (T : StateType) → List (State T.schema)}
    {frames : StateType → List EventPtr} {types : List StateType} (htypes : types.Nodup)
    (hes : ∀ T, List.Forall₂ (Sent C T) (order T) (frames T))
    (hkeys : ∀ T, ∀ s ∈ order T, T.schema.KeysTerminated s.data)
    (hnodup : ∀ T, ((order T).map fun s => T.schema.uid hash32 s.data).Nodup)
    (h : ∀ T ∈ types, Holds hash32 b T []) :
    ∃ b', (types.flatMap frames).foldlM (feedStateData C hash32) b = some b' ∧
      (∀ T ∈ types, Holds hash32 b' T (order T)) ∧ ∀ T, T ∉ types → b' T = b T := by
  induction types generalizing b with
  | nil => exact ⟨b, rfl, nofun, fun _ _ => rfl⟩
  | cons T types ih =>
    obtain ⟨hnotMem, htypes⟩ := List.nodup_cons.mp htypes
    obtain ⟨b₁, hb₁, hholds, hother⟩ :=
      foldlM_feedStateData (hes T) (hkeys T) (hnodup T) (h T (.head _))
    have hempty : ∀ T' ∈ types, Holds hash32 b₁ T' [] := by
      intro T' hT'
      have hne : T' ≠ T := fun heq => hnotMem (heq ▸ hT')
      obtain ⟨hentry, honly⟩ := h T' (.tail _ hT')
      exact ⟨hother T' hne ▸ hentry, hother T' hne ▸ honly⟩
    obtain ⟨b', hb', hholds', hother'⟩ := ih htypes hempty
    refine ⟨b', ?_, ?_, fun T' hT' => ?_⟩
    · rw [List.flatMap_cons, List.foldlM_append, hb₁]
      exact hb'
    · rintro T' (_ | ⟨_, hT'⟩)
      · have hsame := hother' T hnotMem
        exact ⟨hsame.symm ▸ hholds.entry, hsame.symm ▸ hholds.only⟩
      · exact hholds' T' hT'
    · rw [hother' T' (List.not_mem_of_not_mem_cons hT'), hother T' (List.ne_of_not_mem_cons hT')]

theorem sameData_of_holds {b' : Bank} {order : (T : StateType) → List (State T.schema)}
    (horder : b.Iterates order)
    (huid : ∀ T u, ∀ s ∈ (b T).lookup u, T.schema.uid hash32 s.data = u)
    (h : ∀ T, Holds hash32 b' T (order T)) : b.SameData b' := by
  have mem_order : ∀ T s, s ∈ order T ↔ s ∈ (b T).lookup (T.schema.uid hash32 s.data) := by
    intro T s
    rw [(horder T).mem_iff, List.mem_map]
    constructor
    · rintro ⟨⟨u, s⟩, hs, rfl⟩
      have hlookup := AList.mem_lookup_iff.mpr hs
      exact (huid T u s hlookup).symm ▸ hlookup
    · intro hs
      exact ⟨_, AList.mem_lookup_iff.mp hs, rfl⟩
  have entry : ∀ T u, ∀ s ∈ (b T).lookup u, ∃ s' ∈ (b' T).lookup u, s'.data = s.data := by
    intro T u s hs
    obtain rfl := huid T u s hs
    exact (h T).entry s ((mem_order T s).mpr hs)
  refine fun T => ⟨fun u => ⟨fun hu => ?_, fun hu => ?_⟩, fun u s hs s' hs' => ?_⟩
  · obtain ⟨s, hs⟩ := Option.isSome_iff_exists.mp (AList.lookup_isSome.mpr hu)
    obtain ⟨s', hs', -⟩ := entry T u s hs
    exact AList.lookup_isSome.mp (Option.isSome_of_mem hs')
  · obtain ⟨s, hs, rfl⟩ := List.mem_map.mp ((h T).only u hu)
    exact AList.lookup_isSome.mp (Option.isSome_of_mem ((mem_order T s).mp hs))
  · obtain ⟨s'', hs'', hdata⟩ := entry T u s hs
    rw [Option.mem_unique hs' hs'', hdata]

theorem reload_dump (C : Json.Codec) (hash32 : Bytes → Int32 → UInt32)
    (xs : List ((T : StateType) × Feed T.schema)) (hcollisions : NoCollisions hash32 xs)
    (hvalid : ∀ x ∈ xs, x.2.data.All fun t => t.ValidString)
    (stamp : (T : StateType) → State T.schema → Stamp)
    (order : (T : StateType) → List (State T.schema))
    (horder : (Bank.empty.feedEach hash32 xs).Iterates order)
    (hframes : ∀ T, ∀ s ∈ order T, ∀ e, (stamp T s).frame C T.schema s.data = some e →
      e.data C T.schema = some s.data) :
    ∃ es b', dump C stamp order = some es ∧
      es.foldlM (feedStateData C hash32) .empty = some b' ∧
      (Bank.empty.feedEach hash32 xs).SameData b' := by
  have hkept := wellKept_feedEach hcollisions hvalid
  have entry : ∀ T, ∀ s ∈ order T, ∃ u, WellKept hash32 xs T u s := by
    intro T s hs
    obtain ⟨⟨u, s⟩, hmem, rfl⟩ := List.mem_map.mp ((horder T).mem_iff.mp hs)
    exact ⟨u, hkept T u s (AList.mem_lookup_iff.mpr hmem)⟩
  have hnodup : ∀ T, ((order T).map fun s => T.schema.uid hash32 s.data).Nodup := by
    intro T
    rw [((horder T).map _).nodup_iff, List.map_map]
    have hkeys : (Bank.empty.feedEach hash32 xs T).entries.map
        ((fun s => T.schema.uid hash32 s.data) ∘ Sigma.snd) =
        (Bank.empty.feedEach hash32 xs T).keys :=
      List.map_congr_left fun p hp => (hkept T p.1 p.2 (AList.mem_lookup_iff.mpr hp)).uid
    rw [hkeys]
    exact AList.keys_nodup _
  obtain ⟨frames, hdump, hsent⟩ := exists_dump
    (fun T s hs => (entry T s hs).choose_spec.strings) hframes
  obtain ⟨b', hb', hholds, -⟩ := foldlM_flatMap (b := .empty) StateType.nodup_all hsent
    (fun T s hs => (entry T s hs).choose_spec.keys) hnodup
    fun T _ => ⟨nofun, fun u hu => absurd hu (AList.notMem_empty u)⟩
  exact ⟨_, b', hdump, hb', sameData_of_holds horder (fun T u s hs => (hkept T u s hs).uid)
    fun T => hholds T T.mem_all⟩

theorem data_frame_of_fed {xs : List ((T : StateType) × Feed T.schema)}
    (hlen : ∀ x ∈ xs, x.1.schema.sizeFixed = false → ∀ t,
      x.1.schema.toString C x.2.data = some t → t.length < 2 ^ 32)
    {order : (T : StateType) → List (State T.schema)}
    (horder : (Bank.empty.feedEach hash32 xs).Iterates order) (stamp : Stamp) (T : StateType)
    {s : State T.schema} (hs : s ∈ order T) {e : EventPtr}
    (he : stamp.frame C T.schema s.data = some e) : e.data C T.schema = some s.data := by
  refine stamp.data_frame he fun hfixed t ht => ?_
  obtain ⟨⟨u, s⟩, hmem, rfl⟩ := List.mem_map.mp ((horder T).mem_iff.mp hs)
  obtain ⟨x, hx, hdata⟩ := data_of_unfixed hfixed (AList.mem_lookup_iff.mpr hmem)
  exact hlen ⟨T, x⟩ hx hfixed t (hdata ▸ ht)

def hashBytes (bytes : Bytes) (seed : Int32) : UInt32 :=
  bytes.foldl (fun h b => 31 * h + b.toUInt32) seed.toUInt32

def withValue (key value : Bytes) : Types.timeKeyValue.Data :=
  @Record.set Types.timeKeyValue.fields ⟨Types.string, "value"⟩ (.ofMem (by decide)) value
    (withKey key)

def withMessage (id : BitVec 64) (msg : Bytes) : Types.order.Data :=
  ((Record.fresh Types.order.fields).set .here id).set
    (.ofMem (by decide) : Member _ ⟨Types.chars Types.errorMsgLen, "error_msg"⟩)
    ((FieldType.chars Types.errorMsgLen).ofBytes msg)

/-- A text and an error message that give way to shorter ones, and another key between them. -/
def mixedFeeds : List ((T : StateType) × Feed T.schema) :=
  [⟨{ type := .timeKeyValue }, .state ⟨1, 0, 2, withValue [104, 34] [97, 98, 99]⟩ (by decide)⟩,
    ⟨{ type := .order }, .event ⟨1, 0, 3, withMessage 7 [110, 111, 110, 101]⟩ (by decide)⟩,
    ⟨{ type := .timeKeyValue }, .event ⟨1, 0, 4, withValue [104] [34]⟩ (by decide)⟩,
    ⟨{ type := .timeKeyValue }, .event ⟨1, 0, 5, withValue [104, 34] [122]⟩ (by decide)⟩,
    ⟨{ type := .order }, .state ⟨1, 0, 6, withMessage 7 [111, 107]⟩ (by decide)⟩]

theorem noCollisions_of_pairs {xs : List ((T : StateType) × Feed T.schema)}
    (h : ∀ x ∈ xs, ∀ y ∈ xs, x.1 = y.1 → x.2.uid hash32 = y.2.uid hash32 →
      x.1.schema.key x.2.data = y.1.schema.key y.2.data) : NoCollisions hash32 xs :=
  fun _ _ _ hx hy => h _ hx _ hy rfl

theorem reload_dump_mixedFeeds :
    ∃ es b', dump JsonText.codec (fun _ _ => ⟨1, 0, 2⟩) (fun T =>
        (Bank.empty.feedEach hashBytes mixedFeeds T).entries.map Sigma.snd) = some es ∧
      es.foldlM (feedStateData JsonText.codec hashBytes) .empty = some b' ∧
      (Bank.empty.feedEach hashBytes mixedFeeds).SameData b' := by
  refine reload_dump _ _ _ ?_ ?_ _ _ (fun T => .refl _) fun T s hs e he => ?_
  · exact noCollisions_of_pairs (by decide)
  · decide
  · have hlen : ∀ x ∈ mixedFeeds, x.1.schema.sizeFixed = false →
        (x.1.schema.toString JsonText.codec x.2.data).all (fun t => t.length < 2 ^ 32) = true := by
      decide
    exact data_frame_of_fed (fun x hx hfixed t ht => length_lt_of_all ht (hlen x hx hfixed))
      (fun T => .refl _) _ T hs he

end Bank

end Kungfu.Yijinjing.Cache
