import Kungfu.Common.Field
import Kungfu.Lib.Memory

/-!
Journal frames (`journal/frame.h`): a packed header followed by the payload, with no other
boundary between frames than the lengths in the headers.
-/

namespace Kungfu.Yijinjing.Journal

open Kungfu.Lib Kungfu.Common

inductive HeaderField where
  | length | headerLength | genTime | triggerTime | msgType | source | dest
  deriving DecidableEq

namespace HeaderField

def all : List HeaderField :=
  [.length, .headerLength, .genTime, .triggerTime, .msgType, .source, .dest]

@[reducible] def type : HeaderField → IntType
  | .length => .uint32
  | .headerLength => .uint32
  | .genTime => .int64
  | .triggerTime => .int64
  | .msgType => .int32
  | .source => .uint32
  | .dest => .uint32

abbrev Val (f : HeaderField) := f.type.Val

def offset (f : HeaderField) : Nat := ((all.takeWhile (· ≠ f)).map fun g => g.type.size).sum

def get (f : HeaderField) (m : Memory) (a : Nat) : f.Val := m.load (a + f.offset) f.type.size

def set (f : HeaderField) (v : f.Val) (m : Memory) (a : Nat) : Memory :=
  m.store (a + f.offset) (w := f.type.size) v

end HeaderField

def headerSize : Nat := (HeaderField.all.map fun f => f.type.size).sum

theorem headerSize_eq : headerSize = 36 := rfl

namespace HeaderField

theorem offset_add_size_le (f : HeaderField) : f.offset + f.type.size ≤ headerSize := by
  cases f <;> decide

theorem disjoint {f g : HeaderField} (h : f ≠ g) :
    f.offset + f.type.size ≤ g.offset ∨ g.offset + g.type.size ≤ f.offset := by
  revert h
  cases f <;> cases g <;> decide

variable {f g : HeaderField} {m : Memory} {a : Nat}

@[simp] theorem get_set (v : f.Val) : f.get (f.set v m a) a = v := Memory.load_store v

@[simp] theorem get_set_of_ne (h : f ≠ g) (v : g.Val) : f.get (g.set v m a) a = f.get m a :=
  Memory.load_store_disjoint v (by have := disjoint h; omega)

theorem set_of_disjoint {x : Nat} (v : f.Val) (h : x < a ∨ a + headerSize ≤ x) :
    f.set v m a x = m x := by
  have := f.offset_add_size_le
  exact Memory.write_of_disjoint (by rw [LittleEndian.length_encode]; omega)

@[simp] theorem read_set (v : f.Val) (n : Nat) :
    (f.set v m a).read (a + headerSize) n = m.read (a + headerSize) n := by
  apply Memory.read_congr
  intro x hx _
  exact set_of_disjoint v (.inr hx)

@[simp] theorem get_write (bs : Bytes) :
    f.get (m.write (a + headerSize) bs) a = f.get m a := by
  have := f.offset_add_size_le
  exact Memory.load_write_disjoint (by omega)

theorem get_congr {m' : Memory} {b : Nat} (h : ∀ i < headerSize, m' (b + i) = m (a + i)) :
    f.get m' b = f.get m a := by
  have := f.offset_add_size_le
  rw [get, get, Memory.load, Memory.load]
  congr 1
  apply List.map_congr_left
  intro i hi
  rw [List.mem_range] at hi
  rw [Nat.add_assoc, Nat.add_assoc, h _ (by omega)]

theorem get_eq_zero (h : ∀ x, a ≤ x → x < a + headerSize → m x = 0) : f.get m a = 0 := by
  have := f.offset_add_size_le
  exact Memory.load_eq_zero fun x hx hx' => h x (by omega) (by omega)

end HeaderField

namespace Frame

section

variable (m : Memory) (a : Nat)

def frameLength : BitVec 32 := HeaderField.length.get m a

def headerLength : BitVec 32 := HeaderField.headerLength.get m a

def dataLength : BitVec 32 := frameLength m a - headerLength m a

def msgType : BitVec 32 := HeaderField.msgType.get m a

def hasData : Prop := 0 < (frameLength m a).toNat ∧ 0 < IntType.int32.toInt (msgType m a)

instance : Decidable (hasData m a) := inferInstanceAs (Decidable (_ ∧ _))

/-- Pointers have 64 bits. -/
def dataAddress : Nat := (a + (headerLength m a).toNat) % 2 ^ 64

def moveToNext : Nat := (a + (frameLength m a).toNat) % 2 ^ 64

def setHeaderLength : Memory := HeaderField.headerLength.set (BitVec.ofNat 32 headerSize) m a

def setDataLength (n : BitVec 32) : Memory := HeaderField.length.set (headerLength m a + n) m a

def copy (source : Nat) : Memory := m.write a (m.read source (frameLength m source).toNat)

end

theorem dataAddress_of_headerLength {m : Memory} {a : Nat}
    (h : headerLength m a = .ofNat 32 headerSize) (ha : a + headerSize < 2 ^ 64) :
    dataAddress m a = a + headerSize := by
  rw [dataAddress, h]
  exact Nat.mod_eq_of_lt ha

@[simp] theorem headerLength_setHeaderLength (m : Memory) (a : Nat) :
    headerLength (setHeaderLength m a) a = .ofNat 32 headerSize := by
  rw [headerLength, setHeaderLength, HeaderField.get_set]

@[simp] theorem headerLength_set_genTime (m : Memory) (a : Nat) (t : HeaderField.genTime.Val) :
    headerLength (HeaderField.genTime.set t m a) a = headerLength m a :=
  HeaderField.get_set_of_ne (f := .headerLength) (g := .genTime) (by decide) t

@[simp] theorem headerLength_setDataLength (m : Memory) (a : Nat) (n : BitVec 32) :
    headerLength (setDataLength m a n) a = headerLength m a := by
  simp [headerLength, setDataLength]

@[simp] theorem dataLength_setDataLength (m : Memory) (a : Nat) (n : BitVec 32) :
    dataLength (setDataLength m a n) a = n := by
  rw [dataLength, headerLength_setDataLength, frameLength, setDataLength, HeaderField.get_set,
    BitVec.add_comm, BitVec.add_sub_cancel]

@[simp] theorem read_setDataLength (m : Memory) (a : Nat) (n : BitVec 32) (k : Nat) :
    (setDataLength m a n).read (a + headerSize) k = m.read (a + headerSize) k := by
  rw [setDataLength, HeaderField.read_set]

theorem dataAddress_setHeaderLength {m : Memory} {a : Nat} (ha : a + headerSize < 2 ^ 64) :
    dataAddress (setHeaderLength m a) a = a + headerSize :=
  dataAddress_of_headerLength (headerLength_setHeaderLength m a) ha

end Frame

@[ext] structure Message where
  genTime : HeaderField.genTime.Val
  triggerTime : HeaderField.triggerTime.Val
  msgType : HeaderField.msgType.Val
  source : HeaderField.source.Val
  dest : HeaderField.dest.Val
  payload : Bytes
  msgType_pos : 0 < IntType.int32.toInt msgType

namespace Message

def frameSize (msg : Message) : Nat := headerSize + msg.payload.length

end Message

namespace Frame

def message (m : Memory) (a : Nat) (h : hasData m a) : Message where
  genTime := HeaderField.genTime.get m a
  triggerTime := HeaderField.triggerTime.get m a
  msgType := msgType m a
  source := HeaderField.source.get m a
  dest := HeaderField.dest.get m a
  payload := m.read (dataAddress m a) (dataLength m a).toNat
  msgType_pos := h.2

def layOne (msg : Message) (m : Memory) (a : Nat) : Memory :=
  let m := setHeaderLength m a
  let m := m.write (dataAddress m a) msg.payload
  let m := setDataLength m a (.ofNat _ msg.payload.length)
  let m := HeaderField.genTime.set msg.genTime m a
  let m := HeaderField.triggerTime.set msg.triggerTime m a
  let m := HeaderField.msgType.set msg.msgType m a
  let m := HeaderField.source.set msg.source m a
  HeaderField.dest.set msg.dest m a

/-- One frame after the other, from a cursor; the cursor ends behind the last frame. -/
def layOut : List Message → Memory → Nat → Memory × Nat
  | [], m, a => (m, a)
  | msg :: msgs, m, a => layOut msgs (layOne msg m a) (moveToNext (layOne msg m a) a)

/-- A reading cursor: the messages it meets and where it stops, unless it runs out of fuel. -/
def walk : Nat → Memory → Nat → Option (List Message × Nat)
  | 0, m, a => if hasData m a then none else some ([], a)
  | n + 1, m, a =>
    if h : hasData m a then
      (walk n m (moveToNext m a)).map fun r => (message m a h :: r.1, r.2)
    else some ([], a)

/-- A reading cursor at `a` and a writing cursor at `b` that receives a copy of every frame. -/
def copyAll : Nat → Memory → Nat → Nat → Option Memory
  | 0, m, a, _ => if hasData m a then none else some m
  | n + 1, m, a, b =>
    if hasData m a then
      copyAll n (copy m b a) (moveToNext (copy m b a) a) (moveToNext (copy m b a) b)
    else some m

end Frame

end Kungfu.Yijinjing.Journal
