import ShellLine.Text.Basic

/-! # Spans

A span is a half-open range of byte offsets. The smallest span that covers two
spans takes the smaller start and the larger stop. -/

namespace ShellLine

/-- The bytes from `start` up to, but not including, `stop`. -/
structure Span where
  start : Nat
  stop : Nat
  deriving DecidableEq, Repr

namespace Span

def empty (i : Nat) : Span := ⟨i, i⟩

def isEmpty (s : Span) : Bool := s.start == s.stop

def cover (s t : Span) : Span := ⟨min s.start t.start, max s.stop t.stop⟩

def shift (n : Nat) (s : Span) : Span := ⟨n + s.start, n + s.stop⟩

def render (s : Span) : Text := Text.ofNat s.start ++ "..".toList ++ Text.ofNat s.stop

theorem cover_assoc (s t u : Span) : (s.cover t).cover u = s.cover (t.cover u) := by
  simp [cover, Nat.min_assoc, Nat.max_assoc]

theorem shift_cover (n : Nat) (s t : Span) :
    (s.cover t).shift n = (s.shift n).cover (t.shift n) := by
  simp [shift, cover, Nat.add_min_add_left, Nat.add_max_add_left]

end Span

end ShellLine
