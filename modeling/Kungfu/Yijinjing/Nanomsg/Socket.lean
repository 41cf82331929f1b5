import Kungfu.Common.Event
import Kungfu.Lib.JsonDelimited
import Kungfu.Longfist.Text
import Kungfu.Yijinjing.Journal.Frame

/-!
The two implementations of `event`, and which of them gives the payload that
`event::data` asks for.
-/

namespace Kungfu.Lib.Json

def size : Json → Nat
  | .null => 0
  | .arr xs => xs.length
  | .obj ms => ms.length
  | .bool _ | .int _ | .float _ | .str _ => 1

def find (k : List UInt8) : Json → Option Json
  | .obj ms => lookup k ms
  | _ => none

end Kungfu.Lib.Json

namespace Kungfu.Yijinjing

open Kungfu.Lib Kungfu.Common Kungfu.Longfist

def Journal.Frame.event (m : Memory) (a : Nat) : EventPtr where
  genTime := some (.ofBitVec (HeaderField.genTime.get m a))
  msgType := some (.ofBitVec (msgType m a))
  source := some (.ofBitVec (HeaderField.source.get m a))
  dest := some (.ofBitVec (HeaderField.dest.get m a))
  dataLength := .ofBitVec (dataLength m a)
  dataAddress := .memory (m.read (dataAddress m a))
  dataAsBytes := m.read (dataAddress m a)

namespace Nanomsg

structure NanomsgJson where
  binding : Json
  msg : Bytes

namespace NanomsgJson

def keyOf (name : String) : Bytes := name.toUTF8.data.toList

def ofText (C : Json.Codec) (msg : Bytes) : Option NanomsgJson := (C.parse msg).map (⟨·, msg⟩)

/-- `get_meta`; the conversion to the type may throw. -/
def getMeta (e : NanomsgJson) (t : IntType) (name : String) (default : t.Val) : Option t.Val :=
  match e.binding.find (keyOf name) with
  | none => some default
  | some j => (Scalar.int t).get j

/-- `data_address` is that of a `nlohmann::json`, and `data_as_bytes` is the message as a C
string. -/
def event (e : NanomsgJson) : EventPtr where
  genTime := (e.getMeta .int64 "gen_time" 0).map .ofBitVec
  msgType := (e.getMeta .int32 "msg_type" 0).map .ofBitVec
  source := (e.getMeta .uint32 "source" 0).map .ofBitVec
  dest := (e.getMeta .uint32 "dest" 0).map .ofBitVec
  dataLength := .ofNat e.binding.size
  dataAddress := .object ((e.binding.find (keyOf "data")).getD e.binding)
  dataAsBytes n := (e.msg ++ [0]).take n

end NanomsgJson

variable {C : Json.Codec} {S : Schema}

/-- An event that carries a record: a frame whose payload is the text of the record, or a JSON
object message with the object of the text as its member "data". -/
inductive Carrier (C : Json.Codec) (r : S.Data)
  | frame (m : Memory) (a : Nat) (text : Bytes) (h : S.toString C r = some text)
    (length : (Journal.Frame.dataLength m a).toNat = text.length)
    (payload : m.read (Journal.Frame.dataAddress m a) text.length = text)
  | nanomsg (msg text : Bytes) (ms : List Json.Member) (h : S.toString C r = some text)
    (parse : C.parse msg = some (.obj ms))
    (data : Json.lookup (NanomsgJson.keyOf "data") ms = C.parse text)

namespace Carrier

def event {r : S.Data} : Carrier C r → EventPtr
  | .frame m a _ _ _ _ => Journal.Frame.event m a
  | .nanomsg msg _ ms _ _ _ => NanomsgJson.event ⟨.obj ms, msg⟩

def payload {r : S.Data} : Carrier C r → Bytes
  | .frame _ _ text _ _ _ => text
  | .nanomsg msg _ _ _ _ _ => msg

def isFrame {r : S.Data} : Carrier C r → Bool
  | .frame .. => true
  | .nanomsg .. => false

end Carrier

/-- The contract of the payload: `data_length` is its size, and `event::data` gives the record
back. -/
structure Honoured (C : Json.Codec) (r : S.Data) (payload : Bytes) (e : EventPtr) : Prop where
  length : e.dataLength.toNat = payload.length
  data : ∃ r', e.data C S = some r' ∧ r'.Eqv r

theorem honoured_frame (hunfixed : S.sizeFixed = false) {r : S.Data} (hr : r.All fun t => t.Finite)
    {m : Memory} {a : Nat} {text : Bytes} (h : S.toString C r = some text)
    (hlength : (Journal.Frame.dataLength m a).toNat = text.length)
    (hpayload : m.read (Journal.Frame.dataAddress m a) text.length = text) :
    Honoured C r text (Journal.Frame.event m a) := by
  refine ⟨hlength, ?_⟩
  have hlt : text.length < 2 ^ 32 := hlength ▸ (Journal.Frame.dataLength m a).isLt
  obtain ⟨r', hr', heqv⟩ := Schema.ofText_of_toString hr h hlt
  refine ⟨r', ?_, heqv⟩
  have hsize : UInt32.ofBitVec (Journal.Frame.dataLength m a) = .ofNat text.length := by
    apply UInt32.toNat_inj.mp
    rw [UInt32.toNat_ofNat_of_lt' hlt]
    exact hlength
  have hread : m.read (Journal.Frame.dataAddress m a)
      (UInt32.ofBitVec (Journal.Frame.dataLength m a)).toNat = text := by
    rw [hsize, UInt32.toNat_ofNat_of_lt' hlt, hpayload]
  simp only [EventPtr.data, hunfixed, Bool.false_eq_true, if_false, Journal.Frame.event, hread]
  rw [hsize]
  exact hr'

/-- As many bytes of a message as it has members are not a JSON text. -/
theorem data_nanomsg (hC : C.Delimited) (hunfixed : S.sizeFixed = false) {msg : Bytes}
    {ms : List Json.Member} (h : C.parse msg = some (.obj ms)) :
    (NanomsgJson.event ⟨.obj ms, msg⟩).data C S = none := by
  obtain ⟨stop, hstop, hmembers, hshort⟩ := hC.object msg ms h
  let k := (UInt32.ofNat ms.length).toNat
  have hk : k ≤ ms.length := Nat.mod_le ..
  have hbytes : ((msg ++ [0]).take k).take k = msg.take k := by
    rw [List.take_take, Nat.min_self, List.take_append_of_le_length (by omega)]
  have hparse : C.parse (((msg ++ [0]).take k).take k) = none := by
    rw [hbytes, hshort k (by omega)]
  simp only [EventPtr.data, hunfixed, Bool.false_eq_true, if_false, NanomsgJson.event, Json.size,
    Schema.construct]
  rw [hparse]
  rfl

theorem not_honoured_nanomsg (hC : C.Delimited) (hunfixed : S.sizeFixed = false) {r : S.Data}
    {payload msg : Bytes} {ms : List Json.Member} (h : C.parse msg = some (.obj ms)) :
    ¬ Honoured C r payload (NanomsgJson.event ⟨.obj ms, msg⟩) := by
  rintro ⟨-, r', hr', -⟩
  rw [data_nanomsg hC hunfixed h] at hr'
  cases hr'

theorem dataLength_nanomsg_lt (hC : C.Delimited) {msg : Bytes} {ms : List Json.Member}
    (h : C.parse msg = some (.obj ms)) :
    (NanomsgJson.event ⟨.obj ms, msg⟩).dataLength.toNat < msg.length := by
  obtain ⟨stop, hstop, hmembers, -⟩ := hC.object msg ms h
  exact Nat.lt_of_le_of_lt (Nat.mod_le ..) (Nat.lt_of_lt_of_le hmembers hstop)

theorem honoured_iff_isFrame (C : Json.Codec) (hC : C.Delimited) (S : Schema)
    (hunfixed : S.sizeFixed = false) (r : S.Data) (hr : r.All fun t => t.Encodable)
    (c : Carrier C r) : Honoured C r c.payload c.event ↔ c.isFrame = true := by
  have hfinite := Record.finite_of_encodable hr
  cases c with
  | frame m a text h hlength hpayload =>
    exact iff_of_true (honoured_frame hunfixed hfinite h hlength hpayload) rfl
  | nanomsg msg text ms h hparse hdata =>
    exact iff_of_false (not_honoured_nanomsg hC hunfixed hparse) Bool.false_ne_true

def dataMessage (key : Bytes) : List Json.Member :=
  [(NanomsgJson.keyOf "data", (withKey key).toJson)]

def dataCarrier : Carrier (S := Types.timeKeyValue) JsonText.codec (withKey [104, 34]) :=
  .nanomsg (JsonText.print (.obj (dataMessage [104, 34])))
    (JsonText.print (withKey [104, 34]).toJson) (dataMessage [104, 34]) (by decide)
    (JsonText.codec_parse_print _) (JsonText.codec_parse_print _).symm

theorem honoured_iff_isFrame_dataMessage :
    Honoured JsonText.codec (withKey [104, 34]) dataCarrier.payload dataCarrier.event ↔
      dataCarrier.isFrame = true :=
  honoured_iff_isFrame JsonText.codec JsonText.delimited Types.timeKeyValue (by decide)
    (withKey [104, 34]) (by decide) dataCarrier

/-- The record of a message with one member is looked for in the first byte of the message. -/
theorem not_honoured_dataMessage :
    ¬ ∀ (C : Json.Codec) (S : Schema), S.sizeFixed = false → ∀ r : S.Data,
      (r.All fun t => t.Encodable) → ∀ c : Carrier C r, Honoured C r c.payload c.event := by
  intro h
  exact not_honoured_nanomsg JsonText.delimited (by decide)
    (JsonText.codec_parse_print (.obj (dataMessage [104, 34])))
    (h JsonText.codec Types.timeKeyValue (by decide) _ (by decide) dataCarrier)

end Nanomsg

end Kungfu.Yijinjing
