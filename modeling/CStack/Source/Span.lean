/-!
Source spans: half-open byte ranges `start..end` of the text a node came from. The span `0..0`
stands for "no position" and is what nodes built without one carry.
-/

namespace CStack

/-- A byte range of the source text. -/
structure Span where
  start : UInt32
  stop : UInt32
  deriving DecidableEq, Repr, Inhabited

namespace Span

/-- The span of a node without a position. -/
def none : Span := ⟨0, 0⟩

/-- The length, or `0` when the range runs backwards. -/
def length (s : Span) : UInt32 := if s.stop ≤ s.start then 0 else s.stop - s.start

/-- Whether this is the span of a node without a position. -/
def isNone (s : Span) : Bool := s.start == 0 && s.stop == 0

/-- Whether the range holds no byte. -/
def isEmpty (s : Span) : Bool := s.stop ≤ s.start

/-- The least range covering both. -/
def merge (a b : Span) : Span := ⟨min a.start b.start, max a.stop b.stop⟩

/-- The text `start..end`. -/
def text (s : Span) : String := toString s.start.toNat ++ ".." ++ toString s.stop.toNat

theorem length_eq_sub (s : Span) : s.length.toNat = s.stop.toNat - s.start.toNat := by
  unfold length
  split
  · rename_i h
    have : s.stop.toNat ≤ s.start.toNat := UInt32.le_iff_toNat_le.mp h
    simp only [UInt32.toNat_zero]
    omega
  · rename_i h
    have : s.start.toNat < s.stop.toNat := by
      have := UInt32.lt_iff_toNat_lt.mp (UInt32.not_le.mp h)
      omega
    rw [UInt32.toNat_sub_of_le _ _ (UInt32.le_of_lt (UInt32.not_le.mp h))]

end Span

end CStack
