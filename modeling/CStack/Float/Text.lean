import CStack.Float.Binary
import CStack.Decimal.Layout

/-!
Decimal text of binary floats: the shortest digits that read back to the same pattern of the
same format, laid out by a `Decimal.Layout`.

The interval of reals that read back to a finite pattern is half a unit in the last place on
either side, ends included when the stored significand is even. Below a power of two whose
fraction field is zero the gap to the next smaller value is half as wide, so that side of the
interval is halved too. Subnormal significands count as even, since their integer form is taken
with one extra low bit.
-/

namespace CStack.Binary

open CStack.Decimal

/-- The interval of reals that read back to a finite nonzero pattern. -/
def Format.interval (f : Format) (significand : Nat) (scale : Int) (subnormal : Bool) :
    Interval :=
  if subnormal then
    ⟨2 * significand, 1, 1, scale - 1, true⟩
  else if significand = Nat.pow 2 f.fractionBits then
    ⟨4 * significand, 1, 2, scale - 2, significand % 2 = 0⟩
  else
    ⟨2 * significand, 1, 1, scale - 1, significand % 2 = 0⟩

/-- What the pattern shows when written in decimal. -/
def Format.shown (f : Format) (bits : Nat) : Shown :=
  match f.read bits with
  | .nan => .nan
  | .infinite negative => .infinite negative
  | .finite negative significand scale subnormal =>
    if significand = 0 then .zero negative
    else .digits negative (f.interval significand scale subnormal).shortest

/-- The decimal text of a pattern of the format under a layout. -/
def Format.text (f : Format) (layout : Layout) (bits : Nat) : String :=
  layout.render (f.shown bits)

end CStack.Binary
