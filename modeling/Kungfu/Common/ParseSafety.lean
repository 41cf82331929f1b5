import Kungfu.Common.Parse

namespace Kungfu.Common

open Kungfu.Lib

namespace FieldType

def Rejects : FieldType → Json → Prop
  | .arithmetic t, j => t.get j = none
  | .array t n, .arr js => ∃ i < n, ∃ x, js[i]? = some x ∧ t.get x = none
  | .array _ n, _ => 0 < n
  | .chars _, .str _ | .string, .str _ | .enum _, .int _ | .enum _, .float _ => False
  | _, _ => True

/-- A JSON array has all the elements that are read, and the text of a char array no more than
`room` characters. -/
def Within (room : Nat) : FieldType → Json → Prop
  | .array _ n, .arr js => n ≤ js.length
  | .chars _, .str s => CString.strlen s ≤ room
  | _, _ => True

def Fits (t : FieldType) (j : Json) : Prop := t.Within t.size j

theorem Within.mono {t : FieldType} {j : Json} {n m : Nat} (h : t.Within n j) (hle : n ≤ m) :
    t.Within m j := by
  cases t with
  | chars k =>
    cases j with
    | str s => exact Nat.le_trans h hle
    | _ => trivial
  | array t k => cases j <;> exact h
  | _ => trivial

def Own : (t : FieldType) → Json → t.Val → Prop
  | .arithmetic t, j, v => t.get j = some v
  | .enum u, j, v => (FieldType.enum u).restoreFromJson 0 j = some v
  | .string, j, v => j = .str v
  | .chars n, j, v => ∃ s, j = .str s ∧ CString.text v.toList = (CString.text s).take n
  | .array t n, j, v =>
    ∀ i : Fin n, ∃ js x, j = .arr js ∧ js[i.1]? = some x ∧ t.get x = some (v.get i)

end FieldType

namespace Scalar

variable {t : Scalar} {js : List Json} {n : Nat}

theorem element_eq_exception_iff {i : Nat} :
    t.element (.arr js) i = .error .exception ↔ ∃ x, js[i]? = some x ∧ t.get x = none := by
  rw [element]
  cases js[i]? with
  | none => simp
  | some x => cases hx : t.get x <;> simp [orThrow, hx]

theorem element_eq_unchecked_iff {i : Nat} :
    t.element (.arr js) i = .error .unchecked ↔ js.length ≤ i := by
  rw [element, ← List.getElem?_eq_none_iff]
  cases js[i]? with
  | none => simp
  | some x => cases hx : t.get x <;> simp [orThrow, hx]

theorem element_eq_ok_iff {i : Nat} {v : t.Val} :
    t.element (.arr js) i = .ok v ↔ ∃ x, js[i]? = some x ∧ t.get x = some v := by
  rw [element]
  cases js[i]? with
  | none => simp
  | some x => cases hx : t.get x <;> simp [orThrow, hx]

theorem element_ne_unchecked {i : Nat} (h : i < js.length) :
    t.element (.arr js) i = .error .exception ∨ ∃ v, t.element (.arr js) i = .ok v := by
  cases hi : t.element (.arr js) i with
  | ok v => exact .inr ⟨v, rfl⟩
  | error e =>
    cases e with
    | exception => exact .inl rfl
    | unchecked => exact absurd (element_eq_unchecked_iff.mp hi) (Nat.not_le.mpr h)

theorem lt_of_range_eq {before after : List Nat} {i : Nat}
    (h : List.range n = before ++ i :: after) : i < n ∧ ∀ k ∈ before, k < i := by
  have hmem : i ∈ List.range n := h ▸ List.mem_append_right _ (.head _)
  have hsorted := List.pairwise_lt_range (n := n)
  rw [h, List.pairwise_append] at hsorted
  exact ⟨List.mem_range.mp hmem, fun k hk => hsorted.2.2 k hk i (.head _)⟩

theorem elements_eq_exception_iff :
    (List.range n).mapM (t.element (.arr js)) = .error .exception ↔
      ∃ i < n, ∃ x, js[i]? = some x ∧ t.get x = none := by
  constructor
  · intro h
    obtain ⟨before, i, after, hrange, hi, -⟩ := Traverse.exists_of_mapM_eq_error h
    exact ⟨i, (lt_of_range_eq hrange).1, element_eq_exception_iff.mp hi⟩
  · rintro ⟨i, hi, x, hget, hx⟩
    obtain ⟨before, after, hrange⟩ := List.append_of_mem (List.mem_range.mpr hi)
    have hlen : i < js.length := (List.getElem?_eq_some_iff.mp hget).1
    rw [hrange]
    exact Traverse.mapM_eq_error (element_eq_exception_iff.mpr ⟨x, hget, hx⟩) fun k hk =>
      element_ne_unchecked ((lt_of_range_eq hrange).2 k hk |>.trans hlen)

theorem not_le_of_elements_eq_unchecked
    (h : (List.range n).mapM (t.element (.arr js)) = .error .unchecked) : ¬ n ≤ js.length := by
  obtain ⟨before, i, after, hrange, hi, -⟩ := Traverse.exists_of_mapM_eq_error h
  have hle := element_eq_unchecked_iff.mp hi
  have hlt := (lt_of_range_eq hrange).1
  omega

theorem elements_eq_ok {j : Json} {vs : List t.Val}
    (h : (List.range n).mapM (t.element j) = .ok vs) :
    vs.length = n ∧ ∀ i (hi : i < vs.length), t.element j i = .ok vs[i] := by
  have hall := Traverse.mapM_eq_ok_iff.mp h
  have hlen := hall.length_eq
  rw [List.length_range] at hlen
  refine ⟨hlen.symm, fun i hi => ?_⟩
  have hget := List.forall₂_iff_get.mp hall
  simpa using hget.2 i (by simpa [hlen] using hi) hi

theorem le_of_elements_eq_ok {vs : List t.Val}
    (h : (List.range n).mapM (t.element (.arr js)) = .ok vs) : n ≤ js.length := by
  obtain ⟨rfl, hvs⟩ := elements_eq_ok h
  by_contra hlt
  have hi := hvs js.length (Nat.not_le.mp hlt)
  rw [element_eq_unchecked_iff.mpr (Nat.le_refl _)] at hi
  cases hi

theorem elements_of_not_arr {j : Json} (h : ∀ js, j ≠ .arr js) :
    (List.range n).mapM (t.element j) = if 0 < n then .error .exception else .ok [] := by
  have hthrow : t.element j 0 = .error .exception := by
    cases j with
    | arr js => exact absurd rfl (h js)
    | _ => rfl
  cases n with
  | zero => rfl
  | succ n =>
    rw [List.range_succ_eq_map, Traverse.mapM_cons_of_error hthrow, if_pos n.succ_pos]

theorem getList_eq_some {v : List.Vector t.Val n} (h : t.getList n js = some v) :
    ∀ i (hi : i < n), t.element (.arr js) i = .ok (v.get ⟨i, hi⟩) := by
  induction n generalizing js with
  | zero => simp
  | succ n ih =>
    cases js with
    | nil => cases h
    | cons x js =>
      simp only [getList, Option.bind_eq_bind, Option.bind_eq_some_iff, Option.pure_def,
        Option.some.injEq] at h
      obtain ⟨w, hw, ws, hws, rfl⟩ := h
      intro i hi
      cases i with
      | zero => exact element_eq_ok_iff.mpr ⟨x, rfl, by simpa using hw⟩
      | succ i =>
        obtain ⟨y, hy, hy'⟩ := element_eq_ok_iff.mp (ih hws i (Nat.lt_of_succ_lt_succ hi))
        exact element_eq_ok_iff.mpr ⟨y, hy, hy'⟩

theorem elements_of_getList {v : List.Vector t.Val n} (h : t.getList n js = some v) :
    (List.range n).mapM (t.element (.arr js)) = .ok v.toList := by
  rw [Traverse.mapM_eq_ok_iff, List.forall₂_iff_get]
  refine ⟨by simp, fun i hi _ => ?_⟩
  rw [List.length_range] at hi
  rw [List.get_eq_getElem, List.getElem_range]
  exact getList_eq_some h i hi

end Scalar

namespace FieldType

variable {t : FieldType} {j : Json} {s : Stored}

theorem store_eq_exception_iff : t.store j = .error .exception ↔ t.Rejects j := by
  cases t with
  | arithmetic t => cases h : t.get j <;> simp [store, Rejects, h, orThrow, Except.map]
  | array t n =>
    rw [store]
    cases j with
    | arr js =>
      rw [Rejects, ← Scalar.elements_eq_exception_iff]
      cases (List.range n).mapM (t.element (.arr js)) <;> simp [Except.map]
    | _ =>
      rw [Scalar.elements_of_not_arr (by simp), Rejects]
      · split <;> simp [Except.map, *]
      · simp
  | _ => cases j <;> simp [store, Rejects]

theorem not_within_of_store_eq (h : t.store j = .error .unchecked) (room : Nat) :
    ¬ t.Within room j := by
  cases t with
  | arithmetic t => cases hj : t.get j <;> simp [store, hj, orThrow, Except.map] at h
  | array t n =>
    rw [store] at h
    cases j with
    | arr js =>
      apply Scalar.not_le_of_elements_eq_unchecked (t := t)
      revert h
      cases (List.range n).mapM (t.element (.arr js)) <;> simp [Except.map]
    | _ =>
      rw [Scalar.elements_of_not_arr (by simp)] at h
      split at h <;> simp [Except.map] at h
  | _ => cases j <;> simp [store] at h

theorem exists_elements {t : Scalar} {n : Nat} (h : (FieldType.array t n).store j = .ok s) :
    ∃ vs, (List.range n).mapM (t.element j) = .ok vs ∧ s = ⟨t.listToBytes vs, []⟩ := by
  rw [store] at h
  cases hvs : (List.range n).mapM (t.element j) with
  | error e => simp [hvs, Except.map] at h
  | ok vs =>
    rw [hvs] at h
    cases h
    exact ⟨vs, rfl, rfl⟩

theorem length_le_iff_within {room : Nat} (h : t.store j = .ok s) (hroom : t.size ≤ room) :
    s.bytes.length ≤ room ↔ t.Within room j := by
  cases t with
  | arithmetic t =>
    refine iff_of_true ?_ trivial
    cases hj : t.get j with
    | none => simp [store, hj, orThrow, Except.map] at h
    | some v =>
      simp only [store, hj, orThrow, Except.map, Except.ok.injEq] at h
      simpa [← h, size] using hroom
  | array t n =>
    obtain ⟨vs, hvs, rfl⟩ := exists_elements h
    refine iff_of_true ?_ ?_
    · simpa [size, (Scalar.elements_eq_ok hvs).1] using hroom
    · cases j with
      | arr js => exact Scalar.le_of_elements_eq_ok hvs
      | _ => trivial
  | string =>
    refine iff_of_true ?_ trivial
    cases j <;> simp only [store, Except.ok.injEq, reduceCtorEq] at h
    simp [← h]
  | enum u =>
    refine iff_of_true ?_ trivial
    cases j <;> simp only [store, Except.ok.injEq, reduceCtorEq] at h <;>
      simpa [← h, LittleEndian.length_encode (w := u.size), size] using hroom
  | chars n =>
    cases j <;> simp only [store, Except.ok.injEq, reduceCtorEq] at h
    rw [← h]
    exact Iff.rfl

theorem overwrite_of_length {dst src : Bytes} (h : src.length = dst.length) :
    CString.overwrite dst src = src := by
  rw [CString.overwrite, h, List.drop_length, List.append_nil]

theorem length_overwrite_text {n : Nat} {s : Bytes} (h : CString.strlen s ≤ n) :
    (CString.overwrite (List.replicate n 0) (CString.text s)).length = n := by
  rw [CString.length_overwrite (by rwa [List.length_replicate]), List.length_replicate]

theorem own_chars {n : Nat} {s : Bytes} (h : CString.strlen s ≤ n) :
    (FieldType.chars n).Own (.str s) ((FieldType.chars n).ofBytes
      (CString.overwrite (List.replicate n 0) (CString.text s))) := by
  refine ⟨s, rfl, ?_⟩
  rw [ofBytes, List.Vector.toList_mk, List.take_left' (length_overwrite_text h),
    List.take_of_length_le h]
  exact (CString.text_assign_replicate n _)

theorem own_load (h : t.store j = .ok s) (hlen : s.bytes.length ≤ t.size) :
    t.Own j (t.load s (CString.overwrite (t.toBytes t.fresh) s.bytes)) := by
  cases t with
  | arithmetic t =>
    cases hj : t.get j with
    | none => simp [store, hj, orThrow, Except.map] at h
    | some v =>
      simp only [store, hj, orThrow, Except.map, Except.ok.injEq] at h
      subst h
      rw [Own, hj, overwrite_of_length (by simp [toBytes]), load, ofBytes, Scalar.ofBytes_toBytes]
      simp
  | enum u =>
    cases j <;> simp only [store, Except.ok.injEq, reduceCtorEq] at h <;> subst h <;>
      rw [overwrite_of_length (by simp [toBytes, LittleEndian.length_encode (w := u.size)]), load,
        ofBytes, LittleEndian.decode_encode (w := u.size)] <;>
      first | rfl | simp
  | string =>
    cases j <;> simp only [store, Except.ok.injEq, reduceCtorEq] at h
    subst h
    rfl
  | chars n =>
    cases j <;> simp only [store, Except.ok.injEq, reduceCtorEq] at h
    subst h
    exact own_chars hlen
  | array t n =>
    obtain ⟨vs, hvs, rfl⟩ := exists_elements h
    obtain ⟨rfl, hget⟩ := Scalar.elements_eq_ok hvs
    rw [overwrite_of_length (by simp [toBytes])]
    have hload : (FieldType.array t vs.length).load ⟨t.listToBytes vs, []⟩ (t.listToBytes vs) =
        ⟨vs, rfl⟩ :=
      Subtype.ext (t.listOfBytes_listToBytes vs rfl)
    intro i
    rw [hload]
    have hi := hget i i.isLt
    cases j with
    | arr js =>
      obtain ⟨x, hx⟩ := Scalar.element_eq_ok_iff.mp hi
      exact ⟨js, x, rfl, hx⟩
    | _ => cases hi

theorem store_of_restoreFromJson {v : t.Val} (h : t.restoreFromJson t.fresh j = some v) :
    ∃ s, t.store j = .ok s ∧ s.bytes.length ≤ t.size ∧
      t.load s (CString.overwrite (t.toBytes t.fresh) s.bytes) = v := by
  cases t with
  | arithmetic t =>
    have hj : t.get j = some v := h
    refine ⟨⟨t.toBytes v, []⟩, by rw [store, hj]; rfl, by simp [size], ?_⟩
    rw [overwrite_of_length (by simp [toBytes])]
    exact t.ofBytes_toBytes v
  | enum u =>
    have hload : ∀ w, (FieldType.enum u).load ⟨LittleEndian.encode u.size w, []⟩
        (CString.overwrite ((FieldType.enum u).toBytes 0) (LittleEndian.encode u.size w)) = w := by
      intro w
      rw [overwrite_of_length (by simp [toBytes, LittleEndian.length_encode (w := u.size)])]
      exact LittleEndian.decode_encode (w := u.size) w
    cases j <;> simp only [restoreFromJson, Option.some.injEq, reduceCtorEq] at h <;> subst h <;>
      exact ⟨_, rfl, (LittleEndian.length_encode (w := u.size) _).le, hload _⟩
  | string =>
    cases j <;> simp only [restoreFromJson, Option.some.injEq, reduceCtorEq] at h
    exact ⟨_, rfl, Nat.zero_le _, h⟩
  | chars n =>
    cases j with
    | str s =>
      rw [restoreFromJson] at h
      split at h
      · next hlen =>
        cases h
        exact ⟨_, rfl, hlen, Subtype.ext (List.take_left' (length_overwrite_text hlen))⟩
      · cases h
    | _ => cases h
  | array t n =>
    cases j <;> simp only [restoreFromJson, reduceCtorEq] at h
    refine ⟨⟨t.listToBytes v.toList, []⟩, by rw [store, Scalar.elements_of_getList h]; rfl, ?_, ?_⟩
    · simp [size]
    · rw [overwrite_of_length (by simp [toBytes])]
      exact Subtype.ext (t.listOfBytes_listToBytes v.toList v.toList_length)

end FieldType

namespace Field

def Rejects (j : Json) (f : Field) : Prop := ∀ x, j.index f.key = some x → f.type.Rejects x

def Within (room : Nat) (j : Json) (f : Field) : Prop :=
  ∀ x, j.index f.key = some x → f.type.Within room x

def Fits (j : Json) (f : Field) : Prop := f.Within f.type.size j

variable {j : Json} {f : Field} {s : Stored} {room : Nat}

theorem restore_of_none (h : j.index f.key = none) : f.restore j = .error .exception := by
  rw [restore, h]
  rfl

theorem restore_of_some {x : Json} (h : j.index f.key = some x) : f.restore j = f.type.store x := by
  rw [restore, h]
  rfl

theorem restore_eq_exception_iff : f.restore j = .error .exception ↔ f.Rejects j := by
  cases h : j.index f.key with
  | none => simp [restore_of_none h, Rejects, h]
  | some x => simp [restore_of_some h, Rejects, h, FieldType.store_eq_exception_iff]

theorem not_within_of_restore_eq (h : f.restore j = .error .unchecked) : ¬ f.Within room j := by
  cases hx : j.index f.key with
  | none =>
    rw [restore_of_none hx] at h
    cases h
  | some x =>
    rw [restore_of_some hx] at h
    exact fun hw => FieldType.not_within_of_store_eq h room (hw x hx)

theorem exists_index_of_restore_eq (h : f.restore j = .ok s) :
    ∃ x, j.index f.key = some x ∧ f.type.store x = .ok s := by
  cases hx : j.index f.key with
  | none =>
    rw [restore_of_none hx] at h
    cases h
  | some x => exact ⟨x, rfl, (restore_of_some hx).symm.trans h⟩

theorem length_le_iff_within (h : f.restore j = .ok s) (hroom : f.type.size ≤ room) :
    s.bytes.length ≤ room ↔ f.Within room j := by
  obtain ⟨x, hx, hs⟩ := exists_index_of_restore_eq h
  simp [FieldType.length_le_iff_within hs hroom, Within, hx]

theorem size_le_roomFrom (f : Field) (fs : List Field) : f.type.size ≤ roomFrom (f :: fs) := by
  rw [roomFrom, List.map_cons, List.sum_cons]
  exact Nat.le_add_right _ _

end Field

namespace Record

theorem image_of_lt {x : Nat} {m : Memory} {ss : List Stored} (h : x < a) :
    image fs a ss m x = m x := by
  induction fs generalizing a ss m with
  | nil => rfl
  | cons f fs ih =>
    cases ss with
    | nil => rfl
    | cons s ss => rw [image, ih (Nat.lt_add_right _ h), Memory.write_of_lt h]

theorem get_load {j : Json} {ss : List Stored}
    (h : List.Forall₂ (fun f s => f.restore j = .ok s) fs ss)
    (hlen : List.Forall₂ (fun f s => s.bytes.length ≤ f.type.size) fs ss) {m : Memory}
    (hm : m.read a (fs.map fun f => f.type.size).sum = (fresh fs).toBytes) (x : Member fs f) :
    ∃ s, f.restore j = .ok s ∧ s.bytes.length ≤ f.type.size ∧
      (load fs a ss (image fs a ss m)).get x =
        f.type.load s (CString.overwrite (f.type.toBytes f.type.fresh) s.bytes) := by
  induction h generalizing a m with
  | nil => cases x
  | @cons g s fs ss hs hss ih =>
    obtain ⟨hs', hss'⟩ := List.forall₂_cons.mp hlen
    rw [List.map_cons, List.sum_cons, Memory.read_add] at hm
    have hfresh : (fresh (g :: fs)).toBytes =
        g.type.toBytes g.type.fresh ++ (fresh fs).toBytes := rfl
    obtain ⟨hhead, htail⟩ := List.append_inj (hm.trans hfresh) (by simp)
    cases x with
    | here =>
      have hread : (image fs (a + f.type.size) ss (m.write a s.bytes)).read a f.type.size =
          CString.overwrite (f.type.toBytes f.type.fresh) s.bytes := by
        rw [Memory.read_congr fun x _ hx => image_of_lt hx, Memory.read_write_of_le hs', hhead]
        rfl
      exact ⟨s, hs, hs', congrArg (f.type.load s) hread⟩
    | there x =>
      refine ih hss' ?_ x
      rw [Memory.read_write_disjoint (by omega)]
      exact htail

theorem restore_cons_eq_some {j : Json} {f : Field} {r : Record (f :: fs)}
    (h : restore j (fresh (f :: fs)) = some r) :
    ∃ x, j.index f.key = some x ∧ ∃ v, f.type.restoreFromJson f.type.fresh x = some v ∧
      ∃ vs, restore j (fresh fs) = some vs ∧ r = (v, vs) := by
  cases hx : j.index f.key with
  | none => simp [restore, hx] at h
  | some x =>
    cases hv : f.type.restoreFromJson f.type.fresh x with
    | none => simp [restore, fresh, hx, hv] at h
    | some v =>
      cases hvs : restore j (fresh fs) with
      | none => simp [restore, fresh, hx, hvs] at h
      | some vs =>
        simp only [restore, fresh, hx, hv, hvs, Option.bind_eq_bind, Option.bind_some,
          Option.pure_def] at h
        exact ⟨x, rfl, v, hv, vs, rfl, Option.some.inj h.symm⟩

theorem exists_stored_of_restore {j : Json} {r : Record fs} (h : restore j (fresh fs) = some r) :
    ∃ ss, List.Forall₂ (fun f s => f.restore j = .ok s) fs ss ∧
      List.Forall₂ (fun f s => s.bytes.length ≤ f.type.size) fs ss ∧
      ∀ {f} (x : Member fs f) (s : Stored), f.restore j = .ok s →
        f.type.load s (CString.overwrite (f.type.toBytes f.type.fresh) s.bytes) = r.get x := by
  induction fs with
  | nil => exact ⟨[], .nil, .nil, fun x => nomatch x⟩
  | cons f fs ih =>
    obtain ⟨x, hx, v, hv, vs, hvs, rfl⟩ := restore_cons_eq_some h
    obtain ⟨s, hs, hlen, hload⟩ := FieldType.store_of_restoreFromJson hv
    obtain ⟨ss, hss, hlens, hloads⟩ := ih hvs
    have hf := (Field.restore_of_some hx).trans hs
    refine ⟨s :: ss, .cons hf hss, .cons hlen hlens, fun y s' hs' => ?_⟩
    cases y with
    | here =>
      cases hf.symm.trans hs'
      exact hload
    | there y => exact hloads y s' hs'

end Record

section Members

variable {j : Json} {f : Field} {fs : List Field} {s : Stored} {ss : List Stored}

theorem restoreMembers_of_error {e : Fault} (h : f.restore j = .error e) :
    restoreMembers j (f :: fs) = .error e := by
  rw [restoreMembers, h]
  rfl

theorem restoreMembers_of_ok (h : f.restore j = .ok s) (hw : f.Within (roomFrom (f :: fs)) j) :
    restoreMembers j (f :: fs) = (restoreMembers j fs).map (s :: ·) := by
  rw [restoreMembers, h]
  refine (if_pos ((Field.length_le_iff_within h (f.size_le_roomFrom fs)).mpr hw)).trans ?_
  cases restoreMembers j fs <;> rfl

theorem restoreMembers_of_not_within (h : f.restore j = .ok s)
    (hw : ¬ f.Within (roomFrom (f :: fs)) j) : restoreMembers j (f :: fs) = .error .unchecked := by
  rw [restoreMembers, h]
  exact if_neg (mt (Field.length_le_iff_within h (f.size_le_roomFrom fs)).mp hw)

/-- A member throws, and those in front of it are read from their arrays and copied to the
object. -/
def Throws (j : Json) : List Field → Prop
  | [] => False
  | f :: fs => f.Rejects j ∨ f.Within (roomFrom (f :: fs)) j ∧ Throws j fs

theorem restoreMembers_eq_exception_iff :
    restoreMembers j fs = .error .exception ↔ Throws j fs := by
  induction fs with
  | nil => simp [restoreMembers, Throws]
  | cons f fs ih =>
    rw [Throws]
    cases hf : f.restore j with
    | error e =>
      rw [restoreMembers_of_error hf]
      cases e with
      | exception => exact iff_of_true rfl (.inl (Field.restore_eq_exception_iff.mp hf))
      | unchecked =>
        refine iff_of_false nofun ?_
        rintro (hr | ⟨hw, -⟩)
        · cases hf.symm.trans (Field.restore_eq_exception_iff.mpr hr)
        · exact Field.not_within_of_restore_eq hf hw
    | ok s =>
      have hr : ¬ f.Rejects j := fun hr => by
        cases hf.symm.trans (Field.restore_eq_exception_iff.mpr hr)
      by_cases hw : f.Within (roomFrom (f :: fs)) j
      · rw [restoreMembers_of_ok hf hw, or_iff_right hr, and_iff_right hw, ← ih]
        cases restoreMembers j fs <;> simp [Except.map]
      · rw [restoreMembers_of_not_within hf hw]
        exact iff_of_false nofun (not_or.mpr ⟨hr, fun h => hw h.1⟩)

theorem forall₂_of_restoreMembers (h : restoreMembers j fs = .ok ss) :
    List.Forall₂ (fun f s => f.restore j = .ok s) fs ss := by
  induction fs generalizing ss with
  | nil =>
    cases h
    exact .nil
  | cons f fs ih =>
    cases hf : f.restore j with
    | error e =>
      rw [restoreMembers_of_error hf] at h
      cases h
    | ok s =>
      by_cases hw : f.Within (roomFrom (f :: fs)) j
      · rw [restoreMembers_of_ok hf hw] at h
        cases hfs : restoreMembers j fs with
        | error e =>
          rw [hfs] at h
          cases h
        | ok ss' =>
          rw [hfs] at h
          cases h
          exact .cons hf (ih hfs)
      · rw [restoreMembers_of_not_within hf hw] at h
        cases h

theorem Field.Fits.within (h : f.Fits j) (fs : List Field) : f.Within (roomFrom (f :: fs)) j :=
  fun x hx => (h x hx).mono (f.size_le_roomFrom fs)

theorem restoreMembers_of_fits (h : ∀ f ∈ fs, f.Fits j) :
    restoreMembers j fs = .error .exception ∨ ∃ ss, restoreMembers j fs = .ok ss := by
  induction fs with
  | nil => exact .inr ⟨[], rfl⟩
  | cons f fs ih =>
    have hw := (h f (.head _)).within fs
    cases hf : f.restore j with
    | error e =>
      cases e with
      | exception => exact .inl (restoreMembers_of_error hf)
      | unchecked => exact absurd hw (Field.not_within_of_restore_eq hf)
    | ok s =>
      rw [restoreMembers_of_ok hf hw]
      rcases ih fun g hg => h g (.tail _ hg) with hfs | ⟨ss, hfs⟩
      · exact .inl (by rw [hfs]; rfl)
      · exact .inr ⟨s :: ss, by rw [hfs]; rfl⟩

theorem restoreMembers_of_forall₂ (h : List.Forall₂ (fun f s => f.restore j = .ok s) fs ss)
    (hlen : List.Forall₂ (fun f s => s.bytes.length ≤ f.type.size) fs ss) :
    restoreMembers j fs = .ok ss := by
  induction h with
  | nil => rfl
  | @cons f s fs ss hs _ ih =>
    obtain ⟨hlen', hlens⟩ := List.forall₂_cons.mp hlen
    have hfits : f.Fits j := (Field.length_le_iff_within hs (Nat.le_refl _)).mp hlen'
    rw [restoreMembers_of_ok hs (hfits.within fs), ih hlens]
    rfl

end Members

namespace Schema

variable (C : Json.Codec) (S : Schema)

/-- The parse throws before it has passed the end of an array or of the object, or it reads
elements that are there, copies into the bytes of each member only, and leaves every member of the
object with the value of its own JSON member. -/
def Independent (bytes : Bytes) (length : UInt32) (m : Memory) (a : Nat) : Prop :=
  match S.parse C bytes length with
  | .error .exception => True
  | .error .unchecked => False
  | .ok ss =>
    List.Forall₂ (fun f s => s.bytes.length ≤ f.type.size) S.fields ss ∧
      ∃ j, C.parse (bytes.take length.toNat) = some j ∧
        ∀ {f} (x : Member S.fields f) (v : Json), j.index f.key = some v →
          f.type.Own v ((Record.load S.fields a ss
            (Record.image S.fields a ss (m.write a (Record.fresh S.fields).toBytes))).get x)

def Sound (j : Json) : Prop := Throws j S.fields ∨ ∀ f ∈ S.fields, f.Fits j

variable {C : Json.Codec} {S : Schema}

theorem forall₂_length_le_iff {j : Json} {fs : List Field} {ss : List Stored}
    (h : List.Forall₂ (fun f s => f.restore j = .ok s) fs ss) :
    List.Forall₂ (fun f s => s.bytes.length ≤ f.type.size) fs ss ↔ ∀ f ∈ fs, f.Fits j := by
  induction h with
  | nil => simp
  | cons hs _ ih =>
    rw [List.forall₂_cons, ih, List.forall_mem_cons]
    exact and_congr_left' (Field.length_le_iff_within hs (Nat.le_refl _))

theorem not_sound_of_unchecked {j : Json} (h : restoreMembers j S.fields = .error .unchecked) :
    ¬ S.Sound j := by
  rintro (ht | hfits)
  · cases h.symm.trans (restoreMembers_eq_exception_iff.mpr ht)
  · rcases restoreMembers_of_fits hfits with hfs | ⟨ss, hfs⟩ <;> cases h.symm.trans hfs

theorem sound_iff_of_ok {j : Json} {ss : List Stored} (h : restoreMembers j S.fields = .ok ss) :
    S.Sound j ↔ ∀ f ∈ S.fields, f.Fits j := by
  refine or_iff_right fun ht => ?_
  cases h.symm.trans (restoreMembers_eq_exception_iff.mpr ht)

theorem parse_of_none {bytes : Bytes} {length : UInt32}
    (h : C.parse (bytes.take length.toNat) = none) :
    S.parse C bytes length = .error .exception := by
  rw [parse, h]
  rfl

theorem parse_of_some {bytes : Bytes} {length : UInt32} {j : Json}
    (h : C.parse (bytes.take length.toNat) = some j) :
    S.parse C bytes length = restoreMembers j S.fields := by
  rw [parse, h]
  rfl

theorem load_of_construct {bytes : Bytes} {length : UInt32} {r : S.Data}
    (h : S.construct C bytes length = some r) (m : Memory) (a : Nat) :
    ∃ ss, S.parse C bytes length = .ok ss ∧
      Record.load S.fields a ss
        (Record.image S.fields a ss (m.write a (Record.fresh S.fields).toBytes)) = r := by
  rw [construct, Option.bind_eq_bind, Option.bind_eq_some_iff] at h
  obtain ⟨j, hj, hr⟩ := h
  obtain ⟨ss, hss, hlen, hload⟩ := Record.exists_stored_of_restore hr
  have hparse := (parse_of_some hj).trans (restoreMembers_of_forall₂ hss hlen)
  refine ⟨ss, hparse, Record.ext fun x => ?_⟩
  obtain ⟨s, hs, -, hget⟩ := Record.get_load hss hlen
    (Memory.read_write_of_length (Record.length_toBytes _)) x
  rw [hget, hload x s hs]

end Schema

end Kungfu.Common
