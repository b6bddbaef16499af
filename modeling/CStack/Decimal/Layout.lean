import CStack.Decimal.Shortest

/-!
How shortest digits are laid out as text.

A layout decides the few things two float printers can differ on once the digits are fixed: how
many digits at least follow the point in positional form, which decimal exponents switch to
exponent form, and the texts of NaN and infinity. Two layouts are used: the plain one
(positional only, whole numbers without a point) and the one for source-like text (a `.0` on
whole numbers, exponent form for magnitudes below `1e-4` or from `1e16` on).
-/

namespace CStack.Decimal

/-- The choices a float printer makes once its digits are known. -/
structure Layout where
  /-- Digits written after the point at least, in positional form. -/
  minFraction : Nat
  /-- The scientific exponents `lo` and `hi`: a value `d.ddd × 10 ^ e` is written in exponent
  form when `e < lo` or `hi ≤ e`. `none` means always positional. -/
  exponentForm : Option (Int × Int)
  nanText : String
  infinityText : String
  deriving DecidableEq, Repr

/-- Positional only; whole numbers have no point: `1`, `0.1`, `1` followed by 300 zeros. -/
def Layout.plain : Layout := ⟨0, none, "NaN", "inf"⟩

/-- A `.0` on whole numbers, and exponent form below `1e-4` and from `1e16` on:
`1.0`, `1e-7`, `1.5e16`. -/
def Layout.source : Layout := ⟨1, some (-4, 16), "NaN", "inf"⟩

/-- What a float denotes, with the digits of a finite nonzero magnitude. -/
inductive Shown where
  | nan
  | infinite (negative : Bool)
  | zero (negative : Bool)
  | digits (negative : Bool) (d : Digits)
  deriving DecidableEq, Repr

/-- A run of `n` zeros. -/
def zeros (n : Nat) : String := String.ofList (List.replicate n '0')

/-- The digit string of `d`, padded on the left to its count. -/
def Digits.text (d : Digits) : String :=
  let s := toString d.value
  zeros (d.count - s.length) ++ s

/-- Positional form of `0.d₁…dₙ × 10 ^ exponent` with at least `minFraction` digits after the
point. -/
def positional (d : Digits) (minFraction : Nat) : String :=
  let s := d.text
  let n := s.length
  if d.exponent ≤ 0 then
    let lead := (-d.exponent).toNat
    "0." ++ zeros lead ++ s ++ zeros (minFraction - n - lead)
  else
    let e := d.exponent.toNat
    if e < n then
      String.ofList (s.toList.take e) ++ "." ++ String.ofList (s.toList.drop e) ++
        zeros (minFraction - (n - e))
    else
      s ++ zeros (e - n) ++ (if minFraction > 0 then "." ++ zeros minFraction else "")

/-- Exponent form `d₁.d₂…dₙe±x`, with no sign on a positive exponent. -/
def scientific (d : Digits) : String :=
  let s := d.text.toList
  let mantissa :=
    match s with
    | [] => ""
    | [c] => String.singleton c
    | c :: rest => String.singleton c ++ "." ++ String.ofList rest
  let e := d.exponent - 1
  mantissa ++ (if e < 0 then "e-" ++ toString (-e).toNat else "e" ++ toString e.toNat)

/-- Whether the layout writes digits with this decimal exponent in exponent form. -/
def Layout.usesExponent (l : Layout) (d : Digits) : Bool :=
  match l.exponentForm with
  | none => false
  | some (lo, hi) => decide (d.exponent - 1 < lo) || decide (hi ≤ d.exponent - 1)

/-- The text of a float under the layout. -/
def Layout.render (l : Layout) : Shown → String
  | .nan => l.nanText
  | .infinite negative => (if negative then "-" else "") ++ l.infinityText
  | .zero negative =>
    (if negative then "-" else "") ++ "0" ++
      (if l.minFraction > 0 then "." ++ zeros l.minFraction else "")
  | .digits negative d =>
    (if negative then "-" else "") ++
      (if l.usesExponent d then scientific d else positional d l.minFraction)

end CStack.Decimal
