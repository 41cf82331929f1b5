import Kungfu.Yijinjing.Journal.FrameLog

namespace Kungfu.Yijinjing.Journal

open Kungfu.Lib Kungfu.Common

theorem logSize_append (xs ys : List Message) : logSize (xs ++ ys) = logSize xs + logSize ys := by
  rw [logSize, logSize, logSize, List.map_append, List.sum_append]

namespace Frame

def dataAsString (fuel : Nat) (m : Memory) (a : Nat) : Option Bytes := m.scan (dataAddress m a) fuel

def ReturnsPayload (m : Memory) (a : Nat) : Prop :=
  ∃ fuel, dataAsString fuel m a = some (m.read (dataAddress m a) (dataLength m a).toNat)

variable {m : Memory} {a : Nat} {msg : Message} {before after : List Message}

theorem Holds.returnsPayload_iff_zero (h : Holds m a msg) (hsize : msg.frameSize < 2 ^ 32)
    (ha : a + headerSize < 2 ^ 64) (htext : 0 ∉ msg.payload) :
    ReturnsPayload m a ↔ m (a + msg.frameSize) = 0 := by
  have hread : m.read (a + headerSize) (dataLength m a).toNat = msg.payload := by
    rw [h.dataLength_toNat hsize, h.payload]
  have hscan := Memory.exists_scan_iff (m := m) (a := a + headerSize) (s := msg.payload)
  rw [Nat.add_assoc, h.payload] at hscan
  simp only [ReturnsPayload, dataAsString, h.dataAddress_eq ha, hread]
  rw [hscan, Message.frameSize]
  exact ⟨fun h => h.2.2, fun hzero => ⟨rfl, htext, hzero⟩⟩

/-- A frame begins with the lowest byte of its length. -/
theorem Holds.first_eq_zero_iff (h : Holds m a msg) : m a = 0 ↔ 256 ∣ msg.frameSize := by
  have hlow : (m a).toNat = msg.frameSize % 256 := by
    have hload : (frameLength m a).toNat % 256 = (m a).toNat := Memory.load_mod
    rw [← hload, h.length, BitVec.toNat_ofNat, Nat.mod_mod_of_dvd _ (by decide)]
  rw [← UInt8.toNat_inj, hlow]
  exact (Nat.dvd_iff_mod_eq_zero ..).symm

theorem layOut_holds (hfits : Fits (before ++ msg :: after))
    (ha : a + logSize (before ++ msg :: after) < 2 ^ 64) :
    Holds (layOut (before ++ msg :: after) m a).1 (a + logSize before) msg := by
  rw [logSize_append, logSize_cons] at ha
  have hpos := headerSize_le_frameSize msg
  have hbefore : Fits before := fun x hx => hfits x (List.mem_append_left _ hx)
  have hafter : Fits after := fun x hx => hfits x (by simp [hx])
  obtain ⟨hcur, -⟩ := layOut_frame (m := m) (a := a) hbefore (by omega)
  rw [layOut_append, hcur, layOut,
    moveToNext_layOne (hfits msg (by simp)) (by omega)]
  obtain ⟨-, hrest⟩ := layOut_frame (m := layOne msg (layOut before m a).1 (a + logSize before))
    (a := a + logSize before + msg.frameSize) hafter (by omega)
  exact (holds_layOne (by omega)).congr fun i hi => hrest _ (by omega)

def ZeroBehind (m : Memory) (a : Nat) : List Message → Prop
  | [] => m a = 0
  | next :: _ => 256 ∣ next.frameSize

theorem layOut_zeroBehind (hfits : Fits (before ++ after))
    (ha : a + logSize (before ++ after) < 2 ^ 64) :
    (layOut (before ++ after) m a).1 (a + logSize before) = 0 ↔
      ZeroBehind m (a + logSize before) after := by
  cases after with
  | nil =>
    rw [List.append_nil] at hfits ha ⊢
    rw [(layOut_frame hfits ha).2 _ (.inr le_rfl), ZeroBehind]
  | cons next after => exact (layOut_holds hfits ha).first_eq_zero_iff

theorem returnsPayload_iff (m : Memory) (r : Region) (before after : List Message) (msg : Message)
    (hfits : Fits (before ++ msg :: after)) (hroom : logSize (before ++ msg :: after) < r.size)
    (htext : 0 ∉ msg.payload) :
    ReturnsPayload (layOut (before ++ msg :: after) m r.base).1 (layOut before m r.base).2 ↔
      ZeroBehind m (r.base + logSize (before ++ [msg])) after := by
  have hspace := r.le_space
  have hpos := headerSize_le_frameSize msg
  have hsize : logSize (before ++ msg :: after) =
      logSize before + (msg.frameSize + logSize after) := by rw [logSize_append, logSize_cons]
  have hbefore : Fits before := fun x hx => hfits x (List.mem_append_left _ hx)
  obtain ⟨hcur, -⟩ := layOut_frame (m := m) (a := r.base) hbefore (by omega)
  have hholds : Holds (layOut (before ++ msg :: after) m r.base).1 (r.base + logSize before) msg :=
    layOut_holds hfits (by omega)
  have hend : r.base + logSize before + msg.frameSize = r.base + logSize (before ++ [msg]) := by
    rw [logSize_append, logSize_cons, Nat.add_assoc]
    rfl
  rw [hcur, hholds.returnsPayload_iff_zero (hfits msg (by simp)) (by omega) htext, hend,
    List.append_cons]
  rw [List.append_cons] at hfits hroom
  exact layOut_zeroBehind hfits (by omega)

def filled (n : Nat) : Message := ⟨1, 0, 10101, 7, 9, List.replicate n 255, by decide⟩

theorem frameSize_filled (n : Nat) : (filled n).frameSize = 36 + n :=
  congrArg (headerSize + ·) List.length_replicate

/-- Between two frames, the next of 256 bytes. -/
theorem returnsPayload_between :
    ReturnsPayload
      (layOut ([filled 3] ++ ⟨2, 1, 10101, 7, 9, [104, 105], by decide⟩ :: [filled 220])
        (fun _ => 1) 64).1
      (layOut [filled 3] (fun _ => 1) 64).2 := by
  refine (returnsPayload_iff (fun _ => 1) ⟨64, 400, by decide⟩ [filled 3] [filled 220]
    ⟨2, 1, 10101, 7, 9, [104, 105], by decide⟩ ?_ ?_ (by decide)).mpr ?_
  · intro x hx
    rcases List.mem_cons.mp hx with rfl | hx
    · exact (frameSize_filled 3).trans_lt (by decide)
    rcases List.mem_cons.mp hx with rfl | hx
    · decide
    · obtain rfl := List.mem_singleton.mp hx
      exact (frameSize_filled 220).trans_lt (by decide)
  · rw [logSize_append, logSize_cons, logSize_cons, logSize_cons, frameSize_filled,
      frameSize_filled]
    decide
  · rw [ZeroBehind, frameSize_filled]

/-- Two frames on a fresh page: the length of the second is read as a part of the first. -/
theorem not_returnsPayload_followed :
    ¬ ∀ (m : Memory) (r : Region) (before after : List Message) (msg : Message),
      Fits (before ++ msg :: after) → logSize (before ++ msg :: after) < r.size →
      0 ∉ msg.payload →
      ReturnsPayload (layOut (before ++ msg :: after) m r.base).1 (layOut before m r.base).2 := by
  intro h
  let msg : Message := ⟨1, 0, 10101, 7, 9, [104, 105], by decide⟩
  have hfits : Fits [msg, msg] := by decide
  have hroom : 64 + logSize [msg, msg] < 2 ^ 64 := by decide
  have hholds : Holds (layOut ([] ++ msg :: [msg]) (fun _ => 0) 64).1 (64 + logSize []) msg :=
    layOut_holds hfits hroom
  have hpayload :
      ReturnsPayload (layOut ([] ++ msg :: [msg]) (fun _ => 0) 64).1 (64 + logSize []) :=
    h (fun _ => 0) ⟨64, 112, by decide⟩ [] [msg] msg hfits (by decide) (by decide)
  have hbehind := (hholds.returnsPayload_iff_zero (by decide) (by decide) (by decide)).mp hpayload
  have hzero : (layOut ([msg] ++ [msg]) (fun _ => 0) 64).1 (64 + logSize [msg]) = 0 ↔
      ZeroBehind (fun _ => 0) (64 + logSize [msg]) [msg] := layOut_zeroBehind hfits hroom
  have hdvd := hzero.mp hbehind
  revert hdvd
  change ¬ 256 ∣ 38
  decide

end Frame

end Kungfu.Yijinjing.Journal
