import Kungfu.Longfist.Enums
import Kungfu.Longfist.Text

namespace Kungfu.Yijinjing

open Kungfu.Lib Kungfu.Common Kungfu.Longfist

structure Located (S : Schema) where
  locationUid : Member S.fields ⟨Types.uint32, "location_uid"⟩
  category : Member S.fields ⟨Types.Enums.category, "category"⟩
  mode : Member S.fields ⟨Types.Enums.mode, "mode"⟩
  group : Member S.fields ⟨Types.string, "group"⟩
  name : Member S.fields ⟨Types.string, "name"⟩

inductive LocationMessage where
  | register | deregister | location | config | riskSetting | requestWriteToBand

namespace LocationMessage

def type : LocationMessage → DataType
  | .register => .register
  | .deregister => .deregister
  | .location => .location
  | .config => .config
  | .riskSetting => .riskSetting
  | .requestWriteToBand => .requestWriteToBand

def schema (T : LocationMessage) : Schema := T.type.schema

def members : (T : LocationMessage) → Located T.schema
  | .register | .deregister | .location | .requestWriteToBand =>
    ⟨.here, .there .here, .there (.there .here), .there (.there (.there .here)),
      .there (.there (.there (.there .here)))⟩
  | .config | .riskSetting =>
    ⟨.here, .there .here, .there (.there (.there (.there .here))), .there (.there .here),
      .there (.there (.there .here))⟩

theorem plain (T : LocationMessage) : ∀ f ∈ T.schema.fields, f.type.plain = true :=
  DataType.plain_of_unfixed (by cases T <;> decide)

end LocationMessage

def slash : UInt8 := 0x2f

/-- `fmt::format("{}/{}/{}/{}", …)`, as the constructor of `location` calls it. -/
def formatUname (m : Types.Enums.mode.Val) (c : Types.Enums.category.Val) (g n : Bytes) : Bytes :=
  [slash].intercalate
    [(Enums.getCategoryName c).toUTF8.data.toList, g, n, (Enums.getModeName m).toUTF8.data.toList]

structure Location (hashStr32 : Bytes → UInt32) (Locator : Type) where
  locator : Locator
  uname : Bytes
  uid : UInt32
  data : Types.location.Data
  uname_eq : uname = formatUname (data.get (LocationMessage.members .location).mode)
    (data.get (LocationMessage.members .location).category)
    (data.get (LocationMessage.members .location).group)
    (data.get (LocationMessage.members .location).name)
  uid_eq : uid = hashStr32 uname
  locationUid_eq : data.get (LocationMessage.members .location).locationUid = uid.toBitVec

namespace Location

variable {hashStr32 : Bytes → UInt32} {Locator Locator' : Type}

def «public» : UInt32 := 0

abbrev category (l : Location hashStr32 Locator) : Types.Enums.category.Val :=
  l.data.get (LocationMessage.members .location).category

abbrev mode (l : Location hashStr32 Locator) : Types.Enums.mode.Val :=
  l.data.get (LocationMessage.members .location).mode

abbrev group (l : Location hashStr32 Locator) : Bytes :=
  l.data.get (LocationMessage.members .location).group

abbrev name (l : Location hashStr32 Locator) : Bytes :=
  l.data.get (LocationMessage.members .location).name

abbrev locationUid (l : Location hashStr32 Locator) : BitVec 32 :=
  l.data.get (LocationMessage.members .location).locationUid

def construct (hashStr32 : Bytes → UInt32) (m : Types.Enums.mode.Val)
    (c : Types.Enums.category.Val) (g n : Bytes) (l : Locator) : Location hashStr32 Locator :=
  let M := LocationMessage.members .location
  let uname := formatUname m c g n
  let uid := hashStr32 uname
  { locator := l
    uname := uname
    uid := uid
    data := .set M.locationUid uid.toBitVec <| .set M.mode m <| .set M.name n <| .set M.group g <|
      .set M.category c <| .fresh Types.location.fields
    uname_eq := rfl
    uid_eq := rfl
    locationUid_eq := rfl }

def fill (M : Located S) (l : Location hashStr32 Locator) (t : S.Data) : S.Data :=
  .set M.name l.name <| .set M.group l.group <| .set M.category l.category <| .set M.mode l.mode <|
    .set M.locationUid l.uid.toBitVec t

def toMessage (M : Located S) (l : Location hashStr32 Locator) : S.Data :=
  l.fill M (.fresh S.fields)

/-- `make_shared(msg, l)`. -/
def makeShared (hashStr32 : Bytes → UInt32) (M : Located S) (msg : S.Data) (l : Locator) :
    Location hashStr32 Locator :=
  construct hashStr32 (msg.get M.mode) (msg.get M.category) (msg.get M.group) (msg.get M.name) l

variable {M : Located S} {l : Location hashStr32 Locator} {t : S.Data}

@[simp] theorem get_locationUid_fill : (l.fill M t).get M.locationUid = l.uid.toBitVec := by
  simp [fill, Record.get_set_of_ne]

@[simp] theorem get_mode_fill : (l.fill M t).get M.mode = l.mode := by
  simp [fill, Record.get_set_of_ne]

@[simp] theorem get_category_fill : (l.fill M t).get M.category = l.category := by
  simp [fill, Record.get_set_of_ne]

@[simp] theorem get_group_fill : (l.fill M t).get M.group = l.group := by
  simp [fill, Record.get_set_of_ne]

@[simp] theorem get_name_fill : (l.fill M t).get M.name = l.name := by
  simp [fill]

structure Rebuilt (l : Location hashStr32 Locator) (M : Located S) (msg : S.Data)
    (l' : Location hashStr32 Locator') : Prop where
  uname : l'.uname = l.uname
  uid : l'.uid = l.uid
  locationUid : l'.locationUid = l.uid.toBitVec
  sentUid : msg.get M.locationUid = l.uid.toBitVec

theorem rebuilt_toMessage (M : Located S) (l : Location hashStr32 Locator) (locator : Locator') :
    l.Rebuilt M (l.toMessage M) (makeShared hashStr32 M (l.toMessage M) locator) := by
  have huname : (makeShared hashStr32 M (l.toMessage M) locator).uname = l.uname := by
    rw [l.uname_eq]
    simp [makeShared, construct, toMessage]
  have huid : (makeShared hashStr32 M (l.toMessage M) locator).uid = l.uid := by
    rw [l.uid_eq, ← huname]
    exact uid_eq _
  exact ⟨huname, huid, by rw [locationUid, locationUid_eq, huid], get_locationUid_fill⟩

theorem validText_toMessage (M : Located S) {l : Location hashStr32 Locator}
    (hgroup : Utf8.valid l.group = true) (hname : Utf8.valid l.name = true) :
    (l.toMessage M).All fun t => t.ValidText := by
  have h : (Record.fresh S.fields).All fun t => t.ValidText :=
    Record.all_fresh FieldType.validText_fresh
  have h := Record.all_set h M.locationUid (v := l.uid.toBitVec) trivial
  have h := Record.all_set h M.mode (v := l.mode) trivial
  have h := Record.all_set h M.category (v := l.category) trivial
  have h := Record.all_set h M.group (v := l.group) hgroup
  exact Record.all_set h M.name (v := l.name) hname

structure Declared (l : Location hashStr32 Locator) : Prop where
  mode : ∃ m : Enums.Mode, m.toVal = l.mode
  category : ∃ c : Enums.Category, c.toVal = l.category

structure Unseparated (l : Location hashStr32 Locator) : Prop where
  group : slash ∉ l.group
  name : slash ∉ l.name

theorem slash_notMem_categoryName (c : Types.Enums.category.Val) :
    slash ∉ (Enums.getCategoryName c).toUTF8.data.toList := by
  unfold Enums.getCategoryName
  split_ifs <;> decide

theorem slash_notMem_modeName (m : Types.Enums.mode.Val) :
    slash ∉ (Enums.getModeName m).toUTF8.data.toList := by
  unfold Enums.getModeName
  split_ifs <;> decide

theorem splitOn_uname {l : Location hashStr32 Locator} (h : l.Unseparated) :
    l.uname.splitOn slash = [(Enums.getCategoryName l.category).toUTF8.data.toList, l.group, l.name,
      (Enums.getModeName l.mode).toUTF8.data.toList] := by
  rw [l.uname_eq, formatUname]
  refine List.splitOn_intercalate slash ?_ (List.cons_ne_nil _ _)
  simp only [List.forall_mem_cons, List.not_mem_nil, false_implies, implies_true, and_true]
  exact ⟨slash_notMem_categoryName _, h.group, h.name, slash_notMem_modeName _⟩

theorem eq_of_uname_eq {l : Location hashStr32 Locator} {l' : Location hashStr32 Locator'}
    (hl : l.Declared) (hl' : l'.Declared) (h : l.Unseparated) (h' : l'.Unseparated)
    (heq : l.uname = l'.uname) :
    l.category = l'.category ∧ l.group = l'.group ∧ l.name = l'.name ∧ l.mode = l'.mode := by
  have hparts := (splitOn_uname h).symm.trans (heq ▸ splitOn_uname h')
  simp only [List.cons.injEq, and_true] at hparts
  obtain ⟨hcategory, hgroup, hname, hmode⟩ := hparts
  obtain ⟨⟨m, hm⟩, ⟨c, hc⟩⟩ := hl
  obtain ⟨⟨m', hm'⟩, ⟨c', hc'⟩⟩ := hl'
  rw [← hc, ← hc'] at hcategory
  rw [← hm, ← hm'] at hmode
  rw [← hc, ← hc', ← hm, ← hm', Enums.getCategoryName_injective (utf8_inj.mp hcategory),
    Enums.getModeName_injective (utf8_inj.mp hmode)]
  exact ⟨rfl, hgroup, hname, rfl⟩

theorem ofText_toMessage {C : Json.Codec} (T : LocationMessage) {l : Location hashStr32 Locator}
    {t : Bytes} (h : T.schema.toString C (l.toMessage T.members) = some t)
    (hlen : t.length < 2 ^ 32) (locator : Locator') :
    ∃ msg, T.schema.ofText C t = some msg ∧
      l.Rebuilt T.members msg (makeShared hashStr32 T.members msg locator) :=
  ⟨_, Schema.ofText_of_toString_of_plain T.plain h hlen, rebuilt_toMessage T.members l locator⟩

theorem identified (C : Json.Codec) (hashStr32 : Bytes → UInt32) (Locator Locator' : Type) :
    (∀ (T : LocationMessage) (l : Location hashStr32 Locator) (locator : Locator'),
      Utf8.valid l.group = true → Utf8.valid l.name = true →
      ∃ t, T.schema.toString C (l.toMessage T.members) = some t ∧
        (t.length < 2 ^ 32 → ∃ msg, T.schema.ofText C t = some msg ∧
          l.Rebuilt T.members msg (makeShared hashStr32 T.members msg locator))) ∧
    ∀ (l : Location hashStr32 Locator) (l' : Location hashStr32 Locator'),
      l.Declared → l'.Declared → l.Unseparated → l'.Unseparated → l.uname = l'.uname →
      l.category = l'.category ∧ l.group = l'.group ∧ l.name = l'.name ∧ l.mode = l'.mode := by
  constructor
  · intro T l locator hgroup hname
    obtain ⟨t, ht⟩ := Option.isSome_iff_exists.mp
      (T.schema.toString_isSome C _ (validText_toMessage T.members hgroup hname))
    exact ⟨t, ht, fun hlen => ofText_toMessage T ht hlen locator⟩
  · intro l l' hl hl' h h' heq
    exact eq_of_uname_eq hl hl' h h' heq

def quotedLocation : Location (fun s => .ofNat s.length) Unit :=
  .construct _ Enums.Mode.replay.toVal Enums.Category.td.toVal [0x22, 0xc3, 0xa9] [] ()

theorem identified_quotedLocation :
    (∃ t, LocationMessage.config.schema.toString JsonText.codec
        (quotedLocation.toMessage (LocationMessage.config.members)) = some t ∧
      ∃ msg, LocationMessage.config.schema.ofText JsonText.codec t = some msg ∧
        quotedLocation.Rebuilt (LocationMessage.config.members) msg
          (makeShared _ (LocationMessage.config.members) msg true)) ∧
    quotedLocation.mode = (construct (fun s => .ofNat s.length) Enums.Mode.replay.toVal
      Enums.Category.td.toVal [0x22, 0xc3, 0xa9] [] false).mode := by
  obtain ⟨hsent, hnamed⟩ := identified JsonText.codec (fun s => .ofNat s.length) Unit Bool
  constructor
  · obtain ⟨t, ht, h⟩ := hsent .config quotedLocation true (by decide) (by decide)
    exact ⟨t, ht, h (length_lt_of_all ht (by decide))⟩
  · exact (hnamed quotedLocation (construct _ Enums.Mode.replay.toVal Enums.Category.td.toVal
      [0x22, 0xc3, 0xa9] [] false) ⟨⟨.replay, rfl⟩, ⟨.td, rfl⟩⟩ ⟨⟨.replay, rfl⟩, ⟨.td, rfl⟩⟩
      ⟨by decide, by decide⟩ ⟨by decide, by decide⟩ rfl).2.2.2

def longLocation (n : Nat) : Location (fun _ => 0) Unit :=
  .construct _ Enums.Mode.live.toVal Enums.Category.md.toVal (List.replicate n 97) [] ()

def beforeGroup : Bytes := [0x7b, 0x22, 0x63, 0x61, 0x74, 0x65, 0x67, 0x6f, 0x72, 0x79, 0x22, 0x3a,
  0x30, 0x2c, 0x22, 0x67, 0x72, 0x6f, 0x75, 0x70, 0x22, 0x3a, 0x22]

theorem print_longLocation (n : Nat) :
    ∃ u, JsonText.print ((longLocation n).toMessage LocationMessage.location.members).toJson =
      beforeGroup ++ (JsonText.printString (List.replicate n 97) ++ u) :=
  ⟨_, rfl⟩

theorem length_toString_longLocation (n : Nat) {t : Bytes}
    (h : LocationMessage.location.schema.toString JsonText.codec
      ((longLocation n).toMessage LocationMessage.location.members) = some t) : n ≤ t.length := by
  have hvalid : ((longLocation n).toMessage
      LocationMessage.location.members).toJson.validText = true :=
    Record.validText_toJson LocationMessage.location.schema.names_valid _
      (validText_toMessage _ (valid_replicate n) rfl)
  obtain ⟨u, hu⟩ := print_longLocation n
  rw [printString_replicate, List.append_assoc] at hu
  have ht : t = beforeGroup ++ (List.replicate n 97 ++ ([JsonText.quote] ++ u)) :=
    Option.some.inj (h.symm.trans ((if_pos hvalid).trans (congrArg some hu)))
  rw [ht, List.length_append, List.length_append, List.length_replicate]
  omega

/-- Without the bound on texts a group of 4 GiB is cut off in the middle. -/
theorem not_identified_longLocation :
    ¬ ∀ (C : Json.Codec) (hashStr32 : Bytes → UInt32) (T : LocationMessage)
      (l : Location hashStr32 Unit), l.Declared → Utf8.valid l.group = true →
      Utf8.valid l.name = true →
      ∃ t msg, T.schema.toString C (l.toMessage T.members) = some t ∧
        T.schema.ofText C t = some msg ∧
        l.Rebuilt T.members msg (makeShared hashStr32 T.members msg ()) := by
  intro h
  obtain ⟨t, msg, ht, hmsg, -⟩ := h JsonText.codec _ .location (longLocation (2 ^ 32))
    ⟨⟨.live, rfl⟩, ⟨.md, rfl⟩⟩ (valid_replicate _) rfl
  rw [ofText_of_long (List.cons_ne_nil _ _)
    (Record.finite_of_plain LocationMessage.location.plain _) ht
    (length_toString_longLocation _ ht)] at hmsg
  cases hmsg

end Location

end Kungfu.Yijinjing
