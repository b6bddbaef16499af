import CStack.Types.CType

/-!
Implicit and explicit conversions, integer promotion and the usual arithmetic conversions.

An implicit conversion is scored: `3` for an exact match (the same type, or function types with
the same signature), `2` for a widening within integers of one signedness or within floats,
`1` for any other conversion between basic types, between pointers where one side is `void*`,
and from a pointer or function to `bool`, and `0` where there is none. An explicit cast also
allows conversions between any basic types, to `void`, between pointers, and between pointers
and integers. Overload resolution adds up the scores of the arguments.
-/

namespace CStack

/-- The score of a conversion that keeps the type. -/
def scoreExact : Nat := 3
/-- The score of a widening conversion. -/
def scorePromotion : Nat := 2
/-- The score of any other allowed conversion. -/
def scoreConversion : Nat := 1

/-- The score of an implicit conversion between basic types. -/
def BasicType.score (f t : BasicType) : Nat :=
  let widening :=
    match f.kind, t.kind with
    | .integer, .integer => decide (f.size < t.size) && f.signedness == t.signedness
    | .float, .float => decide (f.size < t.size)
    | _, _ => false
  if widening then scorePromotion else scoreConversion

/-- The score of an implicit conversion from one type to another; `0` when none exists. -/
def CType.score (f t : CType) : Nat :=
  if f.same t then scoreExact
  else
    match f, t with
    | .basic a, .basic b => a.score b
    | .pointer a, .pointer b =>
      match a, b with
      | .function g, .function h => if g.sameSignature h then scoreExact else
          if a.isVoid || b.isVoid then scoreConversion else 0
      | _, _ => if a.isVoid || b.isVoid then scoreConversion else 0
    | .function g, .pointer (.function h) => if g.sameSignature h then scoreExact else 0
    | .function g, .function h => if g.sameSignature h then scoreExact else 0
    | .pointer _, .basic b | .function _, .basic b => if b.kind = .bool then scoreConversion else 0
    | _, _ => 0

/-- Whether a cast from one type to another is allowed. -/
def CType.castAllowed (f t : CType) : Bool :=
  if f.same t || t.isVoid then true
  else
    match f, t with
    | .basic _, .basic _ => true
    | .pointer _, .pointer _ | .function _, .pointer _ => true
    | .basic b, .pointer _ => b.kind != .float
    | .pointer _, .basic b => b.kind != .float
    | _, _ => false

/-- The machine's `int` as a basic type. -/
def BasicType.int (m : Machine) : BasicType := BasicType.make .int .signed m

/-- Integer promotion: `bool` and integers narrower than `int` become `int`. -/
def BasicType.promote (b : BasicType) (m : Machine) : BasicType :=
  match b.kind with
  | .float => b
  | .bool => BasicType.int m
  | .integer => if b.size < m.intSize then BasicType.int m else b

/-- The usual arithmetic conversions: the common type of two operands. A float wins over an
integer and the wider float over the narrower (the left one on a tie); integers are promoted,
the wider wins, and of two equally wide integers of mixed signedness the result is unsigned. -/
def BasicType.common (l r : BasicType) (m : Machine) : BasicType :=
  match l.kind, r.kind with
  | .float, .float => if l.size < r.size then r else l
  | .float, _ => l
  | _, .float => r
  | _, _ =>
    let l := l.promote m
    let r := r.promote m
    if l.same r then l
    else if l.size != r.size then (if l.size > r.size then l else r)
    else l.withSignedness .unsigned

/-- How well arguments of these types fit a function type: `0` when they cannot be passed
(too many, too few, or one without any conversion), otherwise `1` plus the scores of the
arguments given. -/
def FunctionType.scoreArguments (f : FunctionType) (args : List CType) : Nat :=
  if args.length > f.params.length || args.length < f.requiredCount then 0
  else
    let scores := (args.zip f.params).map (fun (a, p) => a.score p.type)
    if scores.all (· > 0) then 1 + scores.foldl (· + ·) 0 else 0

/-- The candidates with a nonzero score, as pairs of index and score, sorted by descending score.
The sort is stable, so candidates of equal score keep their declaration order. -/
def rankOverloads (candidates : List FunctionType) (args : List CType) : List (Nat × Nat) :=
  ((candidates.zipIdx.map (fun (f, i) => (i, f.scoreArguments args))).filter
    (fun p => p.2 > 0)).mergeSort (fun a b => b.2 ≤ a.2)

/-- The index of the first candidate in the ranking: the first of those with the highest nonzero
score. -/
def pickOverload (candidates : List FunctionType) (args : List CType) : Option Nat :=
  (rankOverloads candidates args).head?.map (·.1)

end CStack
