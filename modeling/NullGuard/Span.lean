/-!
# Spans of text

A span is a pair of byte offsets into the UTF-8 form of a text. Spans are taken as given: `start`
may lie behind `stop`, and both may lie behind the end of the text, until `Span.clamp` is applied.
-/

namespace NullGuard

/-- The bytes from `start` up to and without `stop`. -/
structure Span where
  start : Nat
  stop : Nat
deriving DecidableEq, Inhabited

namespace Span

/-- The span at the very beginning of a text that holds nothing. -/
def zero : Span := ⟨0, 0⟩

def point (offset : Nat) : Span := ⟨offset, offset⟩

/-- The smallest span that reaches from the lower start to the higher stop. -/
def cover (a b : Span) : Span := ⟨min a.start b.start, max a.stop b.stop⟩

/-- The number of bytes in the span; none if it ends before it starts. -/
def length (s : Span) : Nat := s.stop - s.start

/-- The span cut to a text of `size` bytes. The result is in order and inside the text. -/
def clamp (size : Nat) (s : Span) : Span :=
  let start := min s.start size
  ⟨start, max (min s.stop size) start⟩

/-- The span with the same start and the same length whose stop is not before its start. -/
def ordered (s : Span) : Span := ⟨s.start, max s.start s.stop⟩

theorem clamp_start_le_stop (size : Nat) (s : Span) : (s.clamp size).start ≤ (s.clamp size).stop :=
  Nat.le_max_right _ _

theorem clamp_stop_le (size : Nat) (s : Span) : (s.clamp size).stop ≤ size :=
  Nat.max_le.mpr ⟨Nat.min_le_right _ _, Nat.min_le_right _ _⟩

theorem clamp_eq_self {size : Nat} {s : Span} (h : s.start ≤ s.stop) (hs : s.stop ≤ size) :
    s.clamp size = s := by
  have hstart : min s.start size = s.start := Nat.min_eq_left (Nat.le_trans h hs)
  have hstop : min s.stop size = s.stop := Nat.min_eq_left hs
  simp only [clamp, hstart, hstop, Nat.max_eq_left h]

end Span

end NullGuard
