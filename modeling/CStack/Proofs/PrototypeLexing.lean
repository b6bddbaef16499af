import Mathlib
import CStack.Prototype.Parser

/-!
# Lexing printed pieces of a declaration

`Lexes cs toks` says that the text `cs` lexes, from any byte offset, to lexemes with the tokens
`toks`; the texts and offsets of the lexemes only matter for error messages and are left open.

The lexer is greedy, so what a piece of text lexes to depends on the character after it. Each
lemma here reads one piece (a blank, a symbol, a word, an integer, a decimal) in front of a rest
that cannot extend it, and leaves the rest to be lexed on its own: the printed form of a whole
declaration is then read piece by piece from its end.
-/

namespace CStack.Prototype

/-- The text lexes, from any byte offset, to lexemes with these tokens. -/
def Lexes (cs : List Char) (toks : List Token) : Prop :=
  ∀ offset, ∃ ls : List Lexeme, lexFrom cs offset = .ok ls ∧ ls.map Lexeme.token = toks

theorem digitsValue_ten (ds : List Char) :
    digitsValue 10 (fun d => d.toNat - '0'.toNat) ds = Nat.ofDigitChars 10 ds 0 := by
  simp only [digitsValue, Nat.ofDigitChars, Nat.mul_comm]

/-- The symbols, each a lexeme of one character. -/
def symbols : List (Char × Token) :=
  [('*', .star), ('(', .openParen), (')', .closeParen), (',', .comma), ('=', .equals),
    ('-', .minus)]

theorem isBlank_cases {c : Char} (h : isBlank c = true) :
    c = ' ' ∨ c = '\t' ∨ c = '\r' ∨ c = '\n' := by
  simpa [isBlank, or_assoc] using h

theorem toNat_of_isDigit {c : Char} (h : c.isDigit = true) : 48 ≤ c.toNat ∧ c.toNat ≤ 57 := by
  simpa [Char.isDigit, UInt32.le_iff_toNat_le] using h

theorem isIdentStart_of_isDigit {c : Char} (h : c.isDigit = true) : isIdentStart c = false := by
  have hc := toNat_of_isDigit h
  have hne : c ≠ '_' := by rintro rfl; simp at hc
  simp only [isIdentStart, Char.isAlpha, Char.isUpper, Char.isLower, hne]
  simp [UInt32.le_iff_toNat_le]
  omega

theorem isDigit_of_isIdentChar {c : Char} (h : isIdentChar c = false) : c.isDigit = false := by
  simp_all [isIdentChar, Char.isAlphanum]

theorem isBlank_of_isDigit {c : Char} (h : c.isDigit = true) : isBlank c = false := by
  cases hb : isBlank c with
  | false => rfl
  | true => rcases isBlank_cases hb with rfl | rfl | rfl | rfl <;> exact absurd h (by decide)

namespace Lexes

theorem nil : Lexes [] [] :=
  fun _ => ⟨[], by rw [lexFrom], rfl⟩

theorem blank {c : Char} {cs : List Char} {toks : List Token} (hc : isBlank c = true)
    (h : Lexes cs toks) : Lexes (c :: cs) toks := by
  intro offset
  obtain ⟨ls, hls, htoks⟩ := h (offset + c.utf8Size)
  exact ⟨ls, by rw [lexFrom, if_pos hc, hls], htoks⟩

theorem scanned {c : Char} {rest : List Char} {t : Token} {n : Nat} {toks : List Token}
    (hc : isBlank c = false) (hscan : ∀ offset, scan c rest offset = .ok (t, n))
    (h : Lexes (rest.drop n) toks) : Lexes (c :: rest) (t :: toks) := by
  intro offset
  obtain ⟨ls, hls, htoks⟩ :=
    h (offset + (String.ofList (c :: rest.take n)).utf8ByteSize)
  refine ⟨⟨t, String.ofList (c :: rest.take n), offset⟩ :: ls, ?_, by simp [htoks]⟩
  rw [lexFrom, if_neg (by simp [hc]), hscan offset]
  simp only [hls]

theorem symbol {c : Char} {t : Token} {cs : List Char} {toks : List Token}
    (hsym : (c, t) ∈ symbols) (h : Lexes cs toks) : Lexes (c :: cs) (t :: toks) := by
  simp only [symbols, List.mem_cons, Prod.mk.injEq, List.not_mem_nil, or_false] at hsym
  rcases hsym with
    ⟨rfl, rfl⟩ | ⟨rfl, rfl⟩ | ⟨rfl, rfl⟩ | ⟨rfl, rfl⟩ | ⟨rfl, rfl⟩ | ⟨rfl, rfl⟩ <;>
    exact scanned (n := 0) rfl (fun _ => rfl) h

theorem word {c : Char} {cs rest : List Char} {toks : List Token}
    (hstart : isIdentStart c = true) (hchars : ∀ x ∈ cs, isIdentChar x = true)
    (hend : ∀ x ∈ rest.head?, isIdentChar x = false) (h : Lexes rest toks) :
    Lexes (c :: (cs ++ rest)) (wordToken (String.ofList (c :: cs)) :: toks) := by
  have htake : (cs ++ rest).takeWhile isIdentChar = cs := by
    rw [List.takeWhile_append_of_pos hchars]
    cases rest with
    | nil => simp
    | cons x xs => simp [hend x rfl]
  have hblank : isBlank c = false := by
    cases hb : isBlank c with
    | false => rfl
    | true => rcases isBlank_cases hb with rfl | rfl | rfl | rfl <;> exact absurd hstart (by decide)
  refine scanned (n := cs.length) hblank (fun _ => ?_) (by rw [List.drop_left]; exact h)
  simp only [scan, hstart, if_true, htake]

theorem integer {c : Char} {cs rest : List Char} {toks : List Token} (hc : c.isDigit = true)
    (hcs : ∀ x ∈ cs, x.isDigit = true)
    (hend : ∀ x ∈ rest.head?, isIdentChar x = false ∧ x ≠ '.')
    (hsmall : Nat.ofDigitChars 10 (c :: cs) 0 < 2 ^ 63) (h : Lexes rest toks) :
    Lexes (c :: (cs ++ rest))
      (.integer (Int64.ofNat (Nat.ofDigitChars 10 (c :: cs) 0)) :: toks) := by
  have htake : (cs ++ rest).takeWhile Char.isDigit = cs := by
    rw [List.takeWhile_append_of_pos hcs]
    cases rest with
    | nil => simp
    | cons x xs => simp [isDigit_of_isIdentChar (hend x rfl).1]
  have htoken : ∀ text offset, integerToken (Nat.ofDigitChars 10 (c :: cs) 0) text offset =
      .ok (.integer (Int64.ofNat (Nat.ofDigitChars 10 (c :: cs) 0))) :=
    fun _ _ => if_pos (Nat.lt_of_lt_of_le hsmall (by decide))
  refine scanned (n := cs.length) (isBlank_of_isDigit hc) (fun offset => ?_)
    (by rw [List.drop_left]; exact h)
  simp only [scan, isIdentStart_of_isDigit hc, hc, if_true, Bool.false_eq_true, if_false, htake,
    List.drop_left, digitsValue_ten]
  split
  · exact absurd (hend '.' rfl).2 (by simp)
  · rename_i x y more _
    have hx := hend x rfl
    have hnotx : x ≠ 'x' ∧ x ≠ 'X' := ⟨fun h => absurd hx.1 (by rw [h]; decide),
      fun h => absurd hx.1 (by rw [h]; decide)⟩
    simp [hnotx, htoken, Except.map]
  · simp [htoken, Except.map]

theorem decimal {c : Char} {cs ds rest : List Char} {toks : List Token} (hc : c.isDigit = true)
    (hcs : ∀ x ∈ cs, x.isDigit = true) (hds : ∀ x ∈ ds, x.isDigit = true)
    (hend : ∀ x ∈ rest.head?, x.isDigit = false) (h : Lexes rest toks) :
    Lexes (c :: (cs ++ '.' :: (ds ++ rest)))
      (.decimal (UInt64.ofNat (Binary.binary64.roundRatio
        (Nat.ofDigitChars 10 (c :: (cs ++ ds)) 0) (10 ^ ds.length))) :: toks) := by
  have hwhole : (cs ++ '.' :: (ds ++ rest)).takeWhile Char.isDigit = cs := by
    rw [List.takeWhile_append_of_pos hcs]
    simp
  have hfraction : (ds ++ rest).takeWhile Char.isDigit = ds := by
    rw [List.takeWhile_append_of_pos hds]
    cases rest with
    | nil => simp
    | cons x xs => simp [hend x rfl]
  refine scanned (n := cs.length + 1 + ds.length) (isBlank_of_isDigit hc) (fun offset => ?_) ?_
  · simp only [scan, isIdentStart_of_isDigit hc, hc, if_true, Bool.false_eq_true, if_false, hwhole,
      List.drop_left, hfraction, digitsValue_ten, List.cons_append, Nat.pow_eq]
  · have hdrop : (cs ++ '.' :: (ds ++ rest)).drop (cs.length + 1 + ds.length) = rest := by
      rw [Nat.add_assoc, ← List.drop_drop, List.drop_left, Nat.add_comm, ← List.drop_drop]
      simp
    rw [hdrop]
    exact h

end Lexes

end CStack.Prototype
