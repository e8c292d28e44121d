/-!
Half-open ranges of byte offsets. A span of a token or a tree node counts bytes of the
statement it was read from; a span of a diagnostic counts bytes of the program.

Offsets, line numbers and columns are counted here without a bound. A program holds them in
32 bits, so it agrees with the count as long as they are at most `Span.limit`.
-/

namespace Prose

/-- The bytes from `start` up to, and without, `stop`. -/
structure Span where
  start : Nat
  stop : Nat
deriving DecidableEq, Inhabited

namespace Span

/-- The largest offset a span can hold, and the largest number of a line or a column. -/
def limit : Nat := 4294967295

/-- The span of things that stand nowhere. -/
def nowhere : Span := ⟨0, 0⟩

/-- The span between two offsets as it can be held, each cut off at `limit`. -/
def ofRange (start stop : Nat) : Span := ⟨min start limit, min stop limit⟩

/-- The empty span at an offset. -/
def point (offset : Nat) : Span := ⟨offset, offset⟩

/-- Number of bytes covered; a span that runs backwards covers none. -/
def length (s : Span) : Nat := s.stop - s.start

def isEmpty (s : Span) : Bool := decide (s.stop ≤ s.start)

/-- The smallest span that covers both. -/
def merge (s t : Span) : Span := ⟨min s.start t.start, max s.stop t.stop⟩

/-- The span moved `n` bytes to the right. -/
def shift (s : Span) (n : Nat) : Span := ⟨s.start + n, s.stop + n⟩

/-- A span as it stands in messages: `4..9`. -/
def toText (s : Span) : String := toString s.start ++ ".." ++ toString s.stop

end Span

end Prose
