import Kungfu.Yijinjing.Journal.Frame

namespace Kungfu.Yijinjing.Journal

open Kungfu.Lib Kungfu.Common

structure Region where
  base : Nat
  size : Nat
  le_space : base + size ≤ 2 ^ 64

namespace Region

def Zeroed (r : Region) (m : Memory) : Prop := ∀ x, r.base ≤ x → x < r.base + r.size → m x = 0

def Disjoint (r s : Region) : Prop := r.base + r.size ≤ s.base ∨ s.base + s.size ≤ r.base

instance (r s : Region) : Decidable (r.Disjoint s) := inferInstanceAs (Decidable (_ ∨ _))

end Region

def logSize (msgs : List Message) : Nat := (msgs.map Message.frameSize).sum

@[simp] theorem logSize_cons (msg : Message) (msgs : List Message) :
    logSize (msg :: msgs) = msg.frameSize + logSize msgs := rfl

namespace Frame

structure Holds (m : Memory) (a : Nat) (msg : Message) : Prop where
  length : frameLength m a = .ofNat 32 msg.frameSize
  headerLength : headerLength m a = .ofNat 32 headerSize
  genTime : HeaderField.genTime.get m a = msg.genTime
  triggerTime : HeaderField.triggerTime.get m a = msg.triggerTime
  msgType : HeaderField.msgType.get m a = msg.msgType
  source : HeaderField.source.get m a = msg.source
  dest : HeaderField.dest.get m a = msg.dest
  payload : m.read (a + headerSize) msg.payload.length = msg.payload

/-- Frames with the messages from `a` on, and an empty header behind the last one. -/
def HoldsLog (m : Memory) : Nat → List Message → Prop
  | a, [] => ∀ x, a ≤ x → x < a + headerSize → m x = 0
  | a, msg :: msgs => Holds m a msg ∧ HoldsLog m (a + msg.frameSize) msgs

variable {m m' : Memory} {a b : Nat} {msg : Message} {msgs : List Message}

theorem holds_layOne (ha : a + headerSize < 2 ^ 64) : Holds (layOne msg m a) a msg := by
  rw [layOne, dataAddress_setHeaderLength ha]
  constructor <;>
    simp [frameLength, setDataLength, Frame.headerLength, setHeaderLength, Message.frameSize,
      BitVec.ofNat_add]

theorem layOne_of_disjoint (ha : a + headerSize < 2 ^ 64) {x : Nat}
    (hx : x < a ∨ a + msg.frameSize ≤ x) : layOne msg m a x = m x := by
  rw [Message.frameSize] at hx
  have hx' : x < a ∨ a + headerSize ≤ x := by omega
  rw [layOne, dataAddress_setHeaderLength ha, setDataLength]
  simp only [HeaderField.set_of_disjoint _ hx']
  rw [Memory.write_of_disjoint (by omega), setHeaderLength, HeaderField.set_of_disjoint _ hx']

theorem Holds.congr (h : Holds m a msg) (hm : ∀ i < msg.frameSize, m' (b + i) = m (a + i)) :
    Holds m' b msg := by
  have get : ∀ f : HeaderField, f.get m' b = f.get m a := by
    intro f
    exact HeaderField.get_congr fun i hi => hm i (by rw [Message.frameSize]; omega)
  have read : m'.read (b + headerSize) msg.payload.length =
      m.read (a + headerSize) msg.payload.length := by
    apply List.map_congr_left
    intro i hi
    rw [List.mem_range] at hi
    rw [Nat.add_assoc, Nat.add_assoc, hm _ (by rw [Message.frameSize]; omega)]
  exact ⟨(get _).trans h.length, (get _).trans h.headerLength, (get _).trans h.genTime,
    (get _).trans h.triggerTime, (get _).trans h.msgType, (get _).trans h.source,
    (get _).trans h.dest, read.trans h.payload⟩

theorem HoldsLog.congr (h : HoldsLog m a msgs)
    (hm : ∀ i < logSize msgs + headerSize, m' (b + i) = m (a + i)) : HoldsLog m' b msgs := by
  induction msgs generalizing a b with
  | nil =>
    intro x hx hx'
    obtain ⟨i, rfl⟩ : ∃ i, x = b + i := ⟨x - b, by omega⟩
    rw [hm i (by simp [logSize]; omega)]
    exact h _ (by omega) (by omega)
  | cons msg msgs ih =>
    rw [logSize_cons] at hm
    refine ⟨h.1.congr fun i hi => hm i (by omega), ih h.2 fun i hi => ?_⟩
    rw [Nat.add_assoc, Nat.add_assoc]
    exact hm _ (by omega)

theorem Holds.dataAddress_eq (h : Holds m a msg) (ha : a + headerSize < 2 ^ 64) :
    dataAddress m a = a + headerSize := dataAddress_of_headerLength h.headerLength ha

theorem Holds.frameLength_toNat (h : Holds m a msg) (hsize : msg.frameSize < 2 ^ 32) :
    (frameLength m a).toNat = msg.frameSize := by
  rw [h.length, BitVec.toNat_ofNat, Nat.mod_eq_of_lt hsize]

theorem Holds.dataLength_toNat (h : Holds m a msg) (hsize : msg.frameSize < 2 ^ 32) :
    (dataLength m a).toNat = msg.payload.length := by
  have hlen : dataLength m a = BitVec.ofNat 32 msg.payload.length := by
    rw [dataLength, h.length, h.headerLength, Message.frameSize, BitVec.ofNat_add,
      BitVec.add_comm, BitVec.add_sub_cancel]
  rw [hlen, BitVec.toNat_ofNat, Nat.mod_eq_of_lt]
  rw [Message.frameSize] at hsize
  omega

theorem Holds.moveToNext_eq (h : Holds m a msg) (hsize : msg.frameSize < 2 ^ 32)
    (ha : a + msg.frameSize < 2 ^ 64) : moveToNext m a = a + msg.frameSize := by
  rw [moveToNext, h.frameLength_toNat hsize, Nat.mod_eq_of_lt ha]

theorem Holds.hasData (h : Holds m a msg) (hsize : msg.frameSize < 2 ^ 32) : hasData m a := by
  refine ⟨?_, ?_⟩
  · rw [h.frameLength_toNat hsize, Message.frameSize, headerSize_eq]
    omega
  · rw [Frame.msgType, h.msgType]
    exact msg.msgType_pos

theorem Holds.message_eq (h : Holds m a msg) (hsize : msg.frameSize < 2 ^ 32)
    (ha : a + headerSize < 2 ^ 64) (hd : Frame.hasData m a) : message m a hd = msg := by
  apply Message.ext
  · exact h.genTime
  · exact h.triggerTime
  · exact h.msgType
  · exact h.source
  · exact h.dest
  · rw [message, h.dataAddress_eq ha, h.dataLength_toNat hsize, h.payload]

def Fits (msgs : List Message) : Prop := ∀ msg ∈ msgs, msg.frameSize < 2 ^ 32

instance (msgs : List Message) : Decidable (Fits msgs) :=
  inferInstanceAs (Decidable (∀ msg ∈ msgs, _))

theorem not_hasData_of_zero (h : ∀ x, a ≤ x → x < a + headerSize → m x = 0) : ¬ hasData m a := by
  intro hd
  rw [Frame.hasData, frameLength, HeaderField.get_eq_zero h] at hd
  exact absurd hd.1 (Nat.lt_irrefl 0)

theorem walk_of_holdsLog (h : HoldsLog m a msgs) (hfits : Fits msgs)
    (ha : a + logSize msgs + headerSize ≤ 2 ^ 64) {n : Nat} (hn : msgs.length ≤ n) :
    walk n m a = some (msgs, a + logSize msgs) := by
  induction msgs generalizing a n with
  | nil =>
    have hd := not_hasData_of_zero h
    cases n <;> simp [walk, hd, logSize]
  | cons msg msgs ih =>
    obtain ⟨n, rfl⟩ : ∃ k, n = k + 1 := ⟨n - 1, by simp at hn; omega⟩
    rw [logSize_cons] at ha
    have hsize : msg.frameSize < 2 ^ 32 := hfits msg (.head _)
    have hpos : headerSize ≤ msg.frameSize := by simp [Message.frameSize]
    have hd := h.1.hasData hsize
    have hnext : moveToNext m a = a + msg.frameSize := h.1.moveToNext_eq hsize (by
      rw [headerSize_eq] at ha; omega)
    have hmsg := h.1.message_eq hsize (by rw [headerSize_eq] at ha hpos ⊢; omega) hd
    have htail := ih h.2 (fun x hx => hfits x (.tail _ hx)) (by omega) (Nat.le_of_succ_le_succ hn)
    rw [walk, dif_pos hd, hnext, htail, hmsg, logSize_cons, Nat.add_assoc]
    rfl

theorem layOut_append (xs ys : List Message) :
    layOut (xs ++ ys) m a = layOut ys (layOut xs m a).1 (layOut xs m a).2 := by
  induction xs generalizing m a with
  | nil => rfl
  | cons x xs ih => rw [List.cons_append, layOut, layOut, ih]

theorem headerSize_le_frameSize (msg : Message) : headerSize ≤ msg.frameSize :=
  Nat.le_add_right headerSize msg.payload.length

theorem moveToNext_layOne (hsize : msg.frameSize < 2 ^ 32) (ha : a + msg.frameSize < 2 ^ 64) :
    moveToNext (layOne msg m a) a = a + msg.frameSize := by
  have hpos := headerSize_le_frameSize msg
  exact (holds_layOne (by omega)).moveToNext_eq hsize ha

theorem layOut_frame (hfits : Fits msgs) (ha : a + logSize msgs < 2 ^ 64) :
    (layOut msgs m a).2 = a + logSize msgs ∧
      ∀ x, x < a ∨ a + logSize msgs ≤ x → (layOut msgs m a).1 x = m x := by
  induction msgs generalizing a m with
  | nil => exact ⟨rfl, fun x _ => rfl⟩
  | cons msg msgs ih =>
    rw [logSize_cons] at ha ⊢
    have hpos := headerSize_le_frameSize msg
    have hnext : moveToNext (layOne msg m a) a = a + msg.frameSize :=
      moveToNext_layOne (hfits msg (.head _)) (by omega)
    obtain ⟨hcur, hrest⟩ := ih (m := layOne msg m a) (a := a + msg.frameSize)
      (fun x hx => hfits x (.tail _ hx)) (by omega)
    rw [layOut, hnext]
    refine ⟨by omega, fun x hx => ?_⟩
    rw [hrest x (by omega), layOne_of_disjoint (by omega) (by omega)]

theorem layOut_spec (hfits : Fits msgs) (ha : a + logSize msgs + headerSize ≤ 2 ^ 64)
    (hz : ∀ x, a ≤ x → x < a + logSize msgs + headerSize → m x = 0) :
    HoldsLog (layOut msgs m a).1 a msgs := by
  induction msgs generalizing a m with
  | nil => exact hz
  | cons msg msgs ih =>
    rw [logSize_cons] at ha hz
    have hfits' : Fits msgs := fun x hx => hfits x (.tail _ hx)
    have hpos := headerSize_le_frameSize msg
    rw [headerSize_eq] at hpos ha
    have hin : a + headerSize < 2 ^ 64 := by rw [headerSize_eq]; omega
    have hnext : moveToNext (layOne msg m a) a = a + msg.frameSize :=
      moveToNext_layOne (hfits msg (.head _)) (by omega)
    obtain ⟨-, hrest⟩ := layOut_frame (m := layOne msg m a) (a := a + msg.frameSize) hfits'
      (by omega)
    rw [layOut, hnext]
    refine ⟨(holds_layOne hin).congr fun i hi => hrest _ (by omega), ih hfits'
      (by rw [headerSize_eq]; omega) fun x hx hx' => ?_⟩
    rw [layOne_of_disjoint hin (.inr hx)]
    exact hz x (by omega) (by omega)

theorem copyAll_spec (h : HoldsLog m a msgs) (hfits : Fits msgs)
    (ha : a + logSize msgs + headerSize ≤ 2 ^ 64) (hb : b + logSize msgs + headerSize ≤ 2 ^ 64)
    (hab : a + logSize msgs + headerSize ≤ b ∨ b + logSize msgs + headerSize ≤ a)
    (hz : ∀ x, b ≤ x → x < b + logSize msgs + headerSize → m x = 0) {n : Nat}
    (hn : msgs.length ≤ n) :
    ∃ m', copyAll n m a b = some m' ∧ HoldsLog m' b msgs ∧
      ∀ x, x < b ∨ b + logSize msgs ≤ x → m' x = m x := by
  induction msgs generalizing a b m n with
  | nil =>
    have hd := not_hasData_of_zero h
    exact ⟨m, by cases n <;> simp [copyAll, hd], hz, fun x _ => rfl⟩
  | cons msg msgs ih =>
    obtain ⟨n, rfl⟩ : ∃ k, n = k + 1 := ⟨n - 1, by simp at hn; omega⟩
    rw [logSize_cons] at ha hb hab hz ⊢
    have hsize : msg.frameSize < 2 ^ 32 := hfits msg (.head _)
    have hpos : headerSize ≤ msg.frameSize := by simp [Message.frameSize]
    rw [headerSize_eq] at hpos ha hb hab hz
    have hcopy : copy m b a = m.write b (m.read a msg.frameSize) := by
      rw [copy, h.1.frameLength_toNat hsize]
    have hout : ∀ x, x < b ∨ b + msg.frameSize ≤ x → copy m b a x = m x := by
      intro x hx
      rw [hcopy, Memory.write_of_disjoint (by rwa [Memory.length_read])]
    have hin : ∀ i < msg.frameSize, copy m b a (b + i) = m (a + i) := by
      intro i hi
      rw [hcopy, Memory.write_add i (by rwa [Memory.length_read])]
      simp [Memory.read]
    have hsrc : Holds (copy m b a) a msg := h.1.congr fun i hi => hout _ (by omega)
    have hdst : Holds (copy m b a) b msg := h.1.congr hin
    obtain ⟨m', hm', hlog, hrest⟩ := ih (m := copy m b a) (a := a + msg.frameSize)
      (b := b + msg.frameSize) (h.2.congr fun i hi => hout _ (by rw [headerSize_eq] at hi; omega))
      (fun x hx => hfits x (.tail _ hx)) (by rw [headerSize_eq]; omega)
      (by rw [headerSize_eq]; omega) (by rw [headerSize_eq]; omega)
      (fun x hx hx' => (hout x (.inr hx)).trans
        (hz x (by omega) (by rw [headerSize_eq] at hx'; omega)))
      (Nat.le_of_succ_le_succ hn)
    refine ⟨m', ?_, ⟨hdst.congr fun i hi => hrest _ (by omega), hlog⟩, fun x hx => ?_⟩
    · rw [copyAll, if_pos (h.1.hasData hsize), hsrc.moveToNext_eq hsize (by omega),
        hdst.moveToNext_eq hsize (by omega), hm']
    · rw [hrest x (by omega), hout x (by omega)]

theorem walk_layOut (m : Memory) (r : Region) (msgs : List Message) (hz : r.Zeroed m)
    (hfits : Fits msgs) (hroom : logSize msgs + headerSize ≤ r.size) :
    (layOut msgs m r.base).2 = r.base + logSize msgs ∧
    (∀ n, msgs.length ≤ n →
      walk n (layOut msgs m r.base).1 r.base = some (msgs, r.base + logSize msgs)) ∧
    ∀ s : Region, s.Zeroed m → r.Disjoint s → logSize msgs + headerSize ≤ s.size →
      ∀ n, msgs.length ≤ n → ∃ m',
        copyAll n (layOut msgs m r.base).1 r.base s.base = some m' ∧
        walk n m' s.base = some (msgs, s.base + logSize msgs) := by
  have hr := r.le_space
  have hlog := layOut_spec (m := m) (a := r.base) hfits (by omega)
    (fun x hx hx' => hz x hx (by omega))
  obtain ⟨hcur, hrest⟩ := layOut_frame (m := m) (a := r.base) hfits
    (by rw [headerSize_eq] at hroom; omega)
  refine ⟨hcur, fun n hn => walk_of_holdsLog hlog hfits (by omega) hn, ?_⟩
  intro s hs hdis hroom' n hn
  have hs' := s.le_space
  rw [Region.Disjoint] at hdis
  have hz' : ∀ x, s.base ≤ x → x < s.base + logSize msgs + headerSize →
      (layOut msgs m r.base).1 x = 0 := by
    intro x hx hx'
    rw [hrest x (by omega)]
    exact hs x hx (by omega)
  obtain ⟨m', hm', hcopied, -⟩ := copyAll_spec hlog hfits (by omega) (by omega) (by omega) hz' hn
  exact ⟨m', hm', walk_of_holdsLog hcopied hfits (by omega) hn⟩

theorem walk_layOut_pair :
    let first : Message := ⟨1, 0, 203, 7, 9, [1, 2, 3], by decide⟩
    let second : Message := ⟨2, 1, 204, 7, 9, [], by decide⟩
    let m := (layOut [first, second] (fun _ => 0) 64).1
    walk 2 m 64 = some ([first, second], 139) ∧
      ∃ m', copyAll 2 m 64 4096 = some m' ∧ walk 2 m' 4096 = some ([first, second], 4171) := by
  intro first second m
  obtain ⟨-, hwalk, hcopy⟩ := walk_layOut (fun _ => 0) ⟨64, 111, by decide⟩ [first, second]
    (fun _ _ _ => rfl) (by decide) (by decide)
  exact ⟨hwalk 2 (by decide),
    hcopy ⟨4096, 111, by decide⟩ (fun _ _ _ => rfl) (by decide) (by decide) 2 (by decide)⟩

end Frame

end Kungfu.Yijinjing.Journal
