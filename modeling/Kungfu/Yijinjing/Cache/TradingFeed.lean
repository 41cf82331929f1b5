import Kungfu.Lib.Dispatch
import Kungfu.Yijinjing.Cache.Dump
import Kungfu.Yijinjing.Cache.TradingBank

namespace Kungfu.Longfist

namespace TradingType

def all : List TradingType := tradingDataTypes.attach.map fun T => ⟨T.1, T.2⟩

theorem mem_all (T : TradingType) : T ∈ all :=
  List.mem_map.mpr ⟨⟨T.type, T.mem⟩, List.mem_attach .., rfl⟩

theorem nodup_tags : (all.map fun T => T.schema.tag).Nodup := by decide

theorem tag_ne_of_notMem {D : DataType} (h : D ∉ tradingDataTypes) (T : TradingType) :
    T.schema.tag ≠ D.schema.tag := by
  have hall : ∀ T ∈ tradingDataTypes, D.schema.tag = T.schema.tag → D = T := by
    cases D <;> decide
  exact fun htag => h (hall T.type T.mem htag.symm ▸ T.mem)

end TradingType

end Kungfu.Longfist

namespace Kungfu.Yijinjing.Cache

open Kungfu.Lib Kungfu.Common Kungfu.Longfist

def Stamp.event {S : Schema} (stamp : Stamp) (data : S.Data) : Event S :=
  ⟨stamp.source, stamp.dest, stamp.genTime, data⟩

namespace TradingBank

variable (C : Json.Codec)

/-- `receiver << typed_event_ptr<DataType>(event)`. The state and the slot are copy-constructed,
char arrays with all their bytes. -/
def receive (e : EventPtr) (T : TradingType) (b : TradingBank) : Option TradingBank := do
  let r ← e.data C T.schema
  return b.set T ((b T).push (.ofEvent (← e.typed r))).2

/-- `hero::feed_trading_data`. -/
def feedTradingData (b : TradingBank) (e : EventPtr) : Option TradingBank := do
  Dispatch.dispatch TradingType.all (fun T => T.schema.tag) (← e.msgType) (receive C e) b

end TradingBank

/-- A frame in the journal: a record of trading data, or a frame of any other type. -/
inductive Incoming
  | record (T : TradingType) (stamp : Stamp) (data : T.schema.Data)
  | other (frame : EventPtr) (tag : Int32) (msgType : frame.msgType = some tag)
    (notTrading : ∀ T : TradingType, T.schema.tag ≠ tag)

namespace Incoming

def frame (C : Json.Codec) : Incoming → Option EventPtr
  | .record T stamp data => stamp.frame C T.schema data
  | .other frame _ _ _ => some frame

def state? (T : TradingType) : Incoming → Option (State T.schema)
  | .record T' stamp data => if h : T' = T then some (h ▸ .ofEvent (stamp.event data)) else none
  | .other .. => none

end Incoming

structure TradingRun where
  bank : TradingBank
  popped : (T : TradingType) → List (State T.schema)

inductive TradingAction
  | write (w : Incoming)
  | pop (T : TradingType)

namespace TradingRun

variable (C : Json.Codec)

def start (queue : (T : TradingType) → Nat → State T.schema)
    (popValue : (T : TradingType) → State T.schema) : TradingRun where
  bank := .new queue popValue
  popped _ := []

def act (r : TradingRun) : TradingAction → Option TradingRun
  | .write w => do return { r with bank := ← r.bank.feedTradingData C (← w.frame C) }
  | .pop T =>
    let result := (r.bank T).pop
    some {
      bank := r.bank.set T result.2
      popped := Function.update r.popped T (r.popped T ++ result.1.toList) }

def run (r : TradingRun) (actions : List TradingAction) : Option TradingRun :=
  actions.foldlM (act C) r

end TradingRun

inductive Access (S : Schema)
  | push (x : State S)
  | pop

def Access.state? {S : Schema} : Access S → Option (State S)
  | .push x => some x
  | .pop => none

def Ringqueue.access {S : Schema} (p : Ringqueue S × List (State S)) :
    Access S → Ringqueue S × List (State S)
  | .push x => ((p.1.push x).2, p.2)
  | .pop => (p.1.pop.2, p.2 ++ p.1.pop.1.toList)

def TradingAction.accessOn (T : TradingType) : TradingAction → Option (Access T.schema)
  | .write w => (w.state? T).map .push
  | .pop T' => if T' = T then some .pop else none

def Call.access {S : Schema} : Call S → Access S
  | .push x => .push x.state
  | .pop => .pop

variable {C : Json.Codec}

theorem Stamp.frame_of_sizeFixed {S : Schema} (hfixed : S.sizeFixed = true) (stamp : Stamp)
    (data : S.Data) :
    ∃ e, stamp.frame C S data = some e ∧ e.msgType = some S.tag ∧ e.data C S = some data ∧
      e.typed data = some (stamp.event data) := by
  refine ⟨_, by rw [Stamp.frame, if_pos hfixed]; rfl, rfl, ?_, rfl⟩
  have hsize : data.toBytes.take S.size = data.toBytes :=
    List.take_of_length_le (Nat.le_of_eq data.length_toBytes)
  simp only [EventPtr.data, if_pos hfixed, hsize]
  rw [Record.ofBytes_toBytes (List.all_eq_true.mp hfixed)]

namespace TradingBank

theorem feedTradingData_data (b : TradingBank) (T : TradingType) (stamp : Stamp)
    (data : T.schema.Data) :
    ∃ e, stamp.frame C T.schema data = some e ∧ b.feedTradingData C e =
      some (b.set T ((b T).push (.ofEvent (stamp.event data))).2) := by
  obtain ⟨e, he, htag, hdata, htyped⟩ := stamp.frame_of_sizeFixed (C := C) T.sizeFixed data
  refine ⟨e, he, ?_⟩
  simp only [feedTradingData, htag, Option.bind_eq_bind, Option.bind_some]
  rw [Dispatch.dispatch_of_mem TradingType.nodup_tags T.mem_all, receive, hdata]
  simp only [Option.bind_eq_bind, Option.bind_some, htyped]
  rfl

theorem feedTradingData_other (b : TradingBank) {e : EventPtr} {tag : Int32}
    (htag : e.msgType = some tag) (h : ∀ T : TradingType, T.schema.tag ≠ tag) :
    b.feedTradingData C e = some b := by
  simp only [feedTradingData, htag, Option.bind_eq_bind, Option.bind_some]
  exact Dispatch.dispatch_of_forall_ne (fun T _ => h T) b

theorem exists_feedTradingData (b : TradingBank) (w : Incoming) :
    ∃ e b', w.frame C = some e ∧ b.feedTradingData C e = some b' ∧
      ∀ T, b' T = (w.state? T).elim (b T) fun x => ((b T).push x).2 := by
  cases w with
  | record T stamp data =>
    obtain ⟨e, he, hfeed⟩ := b.feedTradingData_data (C := C) T stamp data
    refine ⟨e, _, he, hfeed, fun T' => ?_⟩
    by_cases hT : T = T'
    · subst hT
      rw [b.set_same, Incoming.state?, dif_pos rfl]
      rfl
    · rw [b.set_of_ne _ (Ne.symm hT), Incoming.state?, dif_neg hT]
      rfl
  | other e tag htag h => exact ⟨e, b, rfl, b.feedTradingData_other htag h, fun _ => rfl⟩

end TradingBank

theorem fits_nil {S : Schema} (limit : Nat) : Fits limit ([] : List (Call S)) where
  room _ x h := by
    obtain ⟨-, hx⟩ := List.append_eq_nil_iff.mp (List.prefix_nil.mp h)
    exact absurd hx (List.cons_ne_nil (Call.push x) [])
  counted := Nat.two_pow_pos 64

namespace Ledger

variable {S : Schema}

theorem run_access (l : Ledger S) (calls : List (Call S)) :
    ((l.run calls).queue, (l.run calls).popped) =
        (calls.map Call.access).foldl Ringqueue.access (l.queue, l.popped) ∧
      (l.run calls).sent = l.sent ++ (calls.map Call.access).filterMap Access.state? := by
  induction calls generalizing l with
  | nil => exact ⟨rfl, (List.append_nil _).symm⟩
  | cons c calls ih =>
    obtain ⟨hqueue, hsent⟩ := ih (l.call c)
    rw [Ledger.run, List.foldl_cons, ← Ledger.run]
    cases c with
    | push x =>
      refine ⟨hqueue, hsent.trans ?_⟩
      simp [Ledger.call, Ringqueue.push, Call.access, Access.state?]
    | pop => exact ⟨hqueue, hsent⟩

end Ledger

namespace TradingRun

def accesses (T : TradingType) (actions : List TradingAction) : List (Access T.schema) :=
  actions.filterMap (TradingAction.accessOn T)

def sent (T : TradingType) (actions : List TradingAction) : List (State T.schema) :=
  (accesses T actions).filterMap Access.state?

theorem accesses_cons (T : TradingType) (a : TradingAction) (actions : List TradingAction) :
    accesses T (a :: actions) = (a.accessOn T).toList ++ accesses T actions := by
  rw [accesses, accesses]
  cases h : a.accessOn T with
  | none => rw [List.filterMap_cons_none h]; rfl
  | some x => rw [List.filterMap_cons_some h]; rfl

theorem exists_act (r : TradingRun) (a : TradingAction) :
    ∃ r', r.act C a = some r' ∧ ∀ T, (r'.bank T, r'.popped T) =
      (a.accessOn T).toList.foldl Ringqueue.access (r.bank T, r.popped T) := by
  cases a with
  | write w =>
    obtain ⟨e, b', he, hfeed, hb'⟩ := r.bank.exists_feedTradingData (C := C) w
    refine ⟨{ r with bank := b' }, ?_, fun T => ?_⟩
    · simp only [act, he, hfeed, Option.bind_eq_bind, Option.bind_some]
      rfl
    · refine (congrArg (·, r.popped T) (hb' T)).trans ?_
      rw [TradingAction.accessOn]
      cases w.state? T <;> rfl
  | pop T =>
    refine ⟨_, rfl, fun T' => ?_⟩
    by_cases hT : T = T'
    · subst hT
      rw [TradingAction.accessOn, if_pos rfl]
      exact Prod.ext (r.bank.set_same T _) (Function.update_self ..)
    · rw [TradingAction.accessOn, if_neg hT]
      exact Prod.ext (r.bank.set_of_ne _ (Ne.symm hT)) (Function.update_of_ne (Ne.symm hT) ..)

theorem exists_run (r : TradingRun) (actions : List TradingAction) :
    ∃ r', r.run C actions = some r' ∧ ∀ T, (r'.bank T, r'.popped T) =
      (accesses T actions).foldl Ringqueue.access (r.bank T, r.popped T) := by
  induction actions generalizing r with
  | nil => exact ⟨r, rfl, fun _ => rfl⟩
  | cons a actions ih =>
    obtain ⟨r₁, hact, h₁⟩ := r.exists_act (C := C) a
    obtain ⟨r₂, hrun, h₂⟩ := ih r₁
    refine ⟨r₂, ?_, fun T => ?_⟩
    · rw [TradingRun.run, List.foldlM_cons, hact]
      exact hrun
    · rw [h₂ T, h₁ T, ← List.foldl_append, ← accesses_cons]

theorem popped_run (C : Json.Codec) (queue : (T : TradingType) → Nat → State T.schema)
    (popValue : (T : TradingType) → State T.schema) :
    (∀ (b : TradingBank) (w : Incoming), ∃ e b', w.frame C = some e ∧
      b.feedTradingData C e = some b' ∧
        ∀ T, b' T = (w.state? T).elim (b T) fun x => ((b T).push x).2) ∧
    ∀ (actions : List TradingAction) (calls : (T : TradingType) → List (Call T.schema)),
      (∀ T, accesses T actions = (calls T).map Call.access) →
      ∃ r, (start queue popValue).run C actions = some r ∧
        ∀ T, Fits 2047 (calls T) →
          (sent T actions).length = (r.popped T).length + waiting (calls T) ∧
            List.Forall₂ State.Eqv (r.popped T) ((sent T actions).take (r.popped T).length) := by
  refine ⟨fun b w => b.exists_feedTradingData w, fun actions calls hcalls => ?_⟩
  obtain ⟨r, hrun, hr⟩ := (start queue popValue).exists_run (C := C) actions
  refine ⟨r, hrun, fun T hfits => ?_⟩
  let q : Ringqueue T.schema := .new tradingMapRingSize (queue T) (popValue T)
  have hmask : q.capacityMask.toNat = 2047 := rfl
  have htracks := Ledger.tracks_of_fits (q := q) (Ringqueue.holds_new ..) (hmask.symm ▸ hfits)
  obtain ⟨hledger, hsent⟩ := (Ledger.start q).run_access (calls T)
  have hpopped : r.popped T = ((Ledger.start q).run (calls T)).popped := by
    rw [← hcalls T] at hledger
    exact congrArg Prod.snd ((hr T).trans hledger.symm)
  have hall : sent T actions = ((Ledger.start q).run (calls T)).sent := by
    rw [sent, hcalls T, hsent]
    rfl
  rw [hpopped, hall]
  exact ⟨htracks.waiting, htracks.holds.fifo⟩

def firstOrder : Item Types.order where
  state := ⟨1, 2, 3, (orderWithError [110, 111]).data⟩

def secondOrder : Item Types.order where
  state := ⟨1, 2, 5, (orderWithError []).data⟩

def unreadTrade : Item Types.trade where
  state := ⟨1, 2, 6, .fresh _⟩

/-- Two orders with a trading day between them that no queue is for, a trade that nobody reads, and
a read. -/
def ordersThenPop : List TradingAction :=
  [.write (.record ⟨.order, by decide⟩ ⟨1, 2, 3⟩ firstOrder.state.data),
    .write (.other ⟨some 4, some Types.tradingDay.tag, some 1, some 2, 0, .memory fun _ => [],
      fun _ => []⟩ Types.tradingDay.tag rfl
        (TradingType.tag_ne_of_notMem (D := .tradingDay) (by decide))),
    .write (.record ⟨.order, by decide⟩ ⟨1, 2, 5⟩ secondOrder.state.data),
    .write (.record ⟨.trade, by decide⟩ ⟨1, 2, 6⟩ unreadTrade.state.data), .pop ⟨.order, by decide⟩]

def ordersThenPopCalls : (T : TradingType) → List (Call T.schema)
  | ⟨.order, _⟩ => [.push firstOrder, .push secondOrder, .pop]
  | ⟨.trade, _⟩ => [.push unreadTrade]
  | _ => []

theorem popped_run_orders :
    ∃ r, (start (fun _ _ => ⟨0, 0, 0, .fresh _⟩) fun _ => ⟨0, 0, 0, .fresh _⟩).run JsonText.codec
        ordersThenPop = some r ∧ 2 = (r.popped ⟨.order, by decide⟩).length + 1 := by
  obtain ⟨-, hrun⟩ := popped_run JsonText.codec (fun _ _ => ⟨0, 0, 0, .fresh _⟩)
    (fun _ => ⟨0, 0, 0, .fresh _⟩)
  obtain ⟨r, hr, h⟩ := hrun ordersThenPop ordersThenPopCalls fun T => by
    obtain ⟨T, hT⟩ := T
    cases T <;> rfl
  refine ⟨r, hr, ?_⟩
  have hfits : Fits 2047 (ordersThenPopCalls ⟨.order, by decide⟩) :=
    fits_pop.mpr (fits_push.mpr ⟨fits_push.mpr ⟨fits_nil 2047, by decide, by decide⟩, by decide,
      by decide⟩)
  exact (h _ hfits).1

end TradingRun

end Kungfu.Yijinjing.Cache
