import Kungfu.Common.Data
import Kungfu.Lib.Traverse

namespace Kungfu.Common

open Kungfu.Lib

/-- How a parse ends early: by a `nlohmann` exception, or in an access beyond the end of a JSON
array or of the object, after which nothing is known. -/
inductive Fault where
  | exception
  | unchecked
  deriving DecidableEq

def orThrow : Option α → Except Fault α
  | none => .error .exception
  | some a => .ok a

/-- What a member is given: the bytes copied to its address, or the value of a `std::string`. -/
structure Stored where
  bytes : Bytes
  string : Bytes := []
  deriving DecidableEq

def Scalar.element (t : Scalar) (j : Json) (i : Nat) : Except Fault t.Val :=
  match j with
  | .arr js =>
    match js[i]? with
    | none => .error .unchecked
    | some x => orThrow (t.get x)
  | _ => .error .exception

namespace FieldType

def store : FieldType → Json → Except Fault Stored
  | .arithmetic t, j => (orThrow (t.get j)).map fun v => ⟨t.toBytes v, []⟩
  | .array t n, j => ((List.range n).mapM (t.element j)).map fun vs => ⟨t.listToBytes vs, []⟩
  | .chars _, .str s => .ok ⟨CString.text s, []⟩
  | .string, .str s => .ok ⟨[], s⟩
  | .enum u, .int i => .ok ⟨LittleEndian.encode u.size (u.ofInt i), []⟩
  | .enum u, .float bits => .ok ⟨LittleEndian.encode u.size (u.ofInt (truncate bits)), []⟩
  | _, _ => .error .exception

def load : (t : FieldType) → Stored → Bytes → t.Val
  | .string, s, _ => s.string
  | t, _, bs => t.ofBytes bs

end FieldType

def Field.restore (j : Json) (f : Field) : Except Fault Stored := do
  f.type.store (← orThrow (j.index f.key))

def roomFrom (fs : List Field) : Nat := (fs.map fun f => f.type.size).sum

/-- The loop of `data::parse` from a member on. A copy does not stop at the end of its member;
one that passes the end of the object has left what the parse may write. -/
def restoreMembers (j : Json) : List Field → Except Fault (List Stored)
  | [] => .ok []
  | f :: fs => do
    let s ← f.restore j
    if s.bytes.length ≤ roomFrom (f :: fs) then
      return s :: (← restoreMembers j fs)
    else
      .error .unchecked

namespace Schema

def parse (C : Json.Codec) (S : Schema) (bytes : Bytes) (length : UInt32) :
    Except Fault (List Stored) := do
  let j ← orThrow (C.parse (bytes.take length.toNat))
  restoreMembers j S.fields

end Schema

namespace Record

def image : List Field → Nat → List Stored → Memory → Memory
  | f :: fs, a, s :: ss, m => image fs (a + f.type.size) ss (m.write a s.bytes)
  | _, _, _, m => m

def load : (fs : List Field) → Nat → List Stored → Memory → Record fs
  | [], _, _, _ => ()
  | f :: fs, a, ss, m =>
    (f.type.load (ss.headD ⟨[], []⟩) (m.read a f.type.size), load fs (a + f.type.size) ss.tail m)

end Record

end Kungfu.Common
