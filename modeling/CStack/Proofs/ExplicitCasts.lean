import CStack.Types.Conversion

/-!
# Implicit conversions and explicit casts

A conversion with a nonzero score is one the compiler makes silently: in assignments, arguments,
initialisers and returns. A cast accepts every conversion between basic types, between pointers,
from a function to a pointer, between pointers and non-float basic types, and to `void`. Most
implicit conversions fall under one of these. The exceptions are all function designators, which
the scoring treats like pointers but the cast check does not. A function converts implicitly to
`bool`, but the cast check has no case for a function and a basic type. A function converts
implicitly to a function type of the same signature, but the cast check accepts a function type
only when it is identical, parameter names and defaults included.

`castRefused_iff` states exactly this: an implicit conversion is refused as a cast just for a
function source and a `bool` target, or a function source and a target function type with the
same signature that is not the same type.
-/

namespace CStack

namespace CType

variable {f t : CType}

theorem castAllowed_of_same (h : f.same t = true) : f.castAllowed t = true := by
  simp [castAllowed, h]

theorem castAllowed_of_score_pos (hf : f.isFunction = false) (h : 0 < f.score t) :
    f.castAllowed t = true := by
  by_cases hsame : f.same t = true
  · exact castAllowed_of_same hsame
  cases f with
  | function g => cases hf
  | pointer p =>
    cases t with
    | basic b =>
      cases hk : b.kind <;> simp_all [score, castAllowed, isVoid]
    | void | pointer _ | function _ | struct _ => simp_all [score, castAllowed, isVoid]
  | void | basic _ | struct _ =>
    cases t <;> simp_all [score, castAllowed, isVoid]

theorem function_castRefused_iff (g : FunctionType) (t : CType) :
    (0 < (function g).score t ∧ (function g).castAllowed t = false) ↔
      (t.isBool = true ∨
        ∃ h, t = .function h ∧ g.sameSignature h = true ∧ g.same h = false) := by
  cases t with
  | basic b =>
    by_cases hb : b.kind = .bool <;>
      simp [score, castAllowed, CType.same, isBool, isVoid, hb, scoreConversion]
  | function h =>
    by_cases hs : g.same h = true <;> by_cases hsig : g.sameSignature h = true <;>
      simp [score, castAllowed, CType.same, isBool, isVoid, hs, hsig, scoreExact]
  | void | pointer _ | struct _ => simp [score, castAllowed, CType.same, isBool, isVoid]

example :
    (function (.mk .void [] false)).score (.basic (BasicType.make .bool .unsigned {})) = 1 ∧
    (function (.mk .void [] false)).castAllowed (.basic (BasicType.make .bool .unsigned {})) =
      false := by
  decide

/-- Exactly which implicit conversions a cast refuses: those of a function designator to `bool`,
and to a function type with the same signature (return type, receiver and parameter types) that
differs in a parameter's name or default. Every other conversion with a nonzero score, between
any two types, is an allowed cast. -/
theorem castRefused_iff (f t : CType) :
    (0 < f.score t ∧ f.castAllowed t = false) ↔
      ∃ g, f = .function g ∧
        (t.isBool = true ∨ ∃ h, t = .function h ∧ g.sameSignature h = true ∧ g.same h = false) := by
  cases hf : f.isFunction
  · -- no function designator: every implicit conversion is a cast
    refine iff_of_false ?_ ?_
    · rintro ⟨hpos, hrefused⟩
      rw [castAllowed_of_score_pos hf hpos] at hrefused
      cases hrefused
    · rintro ⟨g, rfl, -⟩
      cases hf
  · obtain ⟨g, rfl⟩ : ∃ g, f = .function g := by
      cases f with
      | function g => exact ⟨g, rfl⟩
      | _ => cases hf
    simp only [function.injEq, exists_eq_left']
    exact function_castRefused_iff g t

end CType

end CStack
