namespace Kungfu.Lib

/-- The decoder states of a UTF-8 check. -/
inductive Utf8 where
  | accept | reject | tail1 | tail2 | tail3 | e0 | ed | f0 | f4
  deriving DecidableEq

namespace Utf8

def between (lo hi b : UInt8) (s : Utf8) : Utf8 := if lo ≤ b ∧ b ≤ hi then s else .reject

def step : Utf8 → UInt8 → Utf8
  | .accept, b =>
    if b < 0x80 then .accept
    else if b < 0xc2 then .reject
    else if b < 0xe0 then .tail1
    else if b = 0xe0 then .e0
    else if b = 0xed then .ed
    else if b < 0xf0 then .tail2
    else if b = 0xf0 then .f0
    else if b < 0xf4 then .tail3
    else if b = 0xf4 then .f4
    else .reject
  | .reject, _ => .reject
  | .tail1, b => between 0x80 0xbf b .accept
  | .tail2, b => between 0x80 0xbf b .tail1
  | .tail3, b => between 0x80 0xbf b .tail2
  | .e0, b => between 0xa0 0xbf b .tail1
  | .ed, b => between 0x80 0x9f b .tail1
  | .f0, b => between 0x90 0xbf b .tail2
  | .f4, b => between 0x80 0x8f b .tail2

def valid (s : List UInt8) : Bool := s.foldl step .accept = .accept

theorem valid_of_ascii {s : List UInt8} (h : ∀ b ∈ s, b < 0x80) : valid s = true := by
  have hs : s.foldl step .accept = .accept := by
    induction s with
    | nil => rfl
    | cons b s ih =>
      rw [List.foldl_cons, step, if_pos (h b (.head _))]
      exact ih fun c hc => h c (.tail _ hc)
  simp [valid, hs]

end Utf8

end Kungfu.Lib
