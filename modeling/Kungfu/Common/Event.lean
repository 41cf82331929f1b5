import Kungfu.Common.Data

namespace Kungfu.Common

open Kungfu.Lib

/-- What `data_address` points at: the first bytes there, or a value that is no plain memory. -/
inductive Address where
  | memory (read : Nat → Bytes)
  | object (j : Json)

structure EventPtr where
  genTime : Option Int64
  msgType : Option Int32
  source : Option UInt32
  dest : Option UInt32
  dataLength : UInt32
  dataAddress : Address
  dataAsBytes : Nat → Bytes

namespace EventPtr

variable (C : Json.Codec)

/-- `event::data<T>`. A size-fixed record is only there when the address is memory. -/
def data (S : Schema) (e : EventPtr) : Option S.Data :=
  if S.sizeFixed then
    match e.dataAddress with
    | .memory read => some (.ofBytes S.fields (read S.size))
    | .object _ => none
  else S.construct C (e.dataAsBytes e.dataLength.toNat) e.dataLength

def typed {S : Schema} (e : EventPtr) (r : S.Data) : Option (Event S) := do
  return ⟨← e.source, ← e.dest, ← e.genTime, r⟩

end EventPtr

end Kungfu.Common
