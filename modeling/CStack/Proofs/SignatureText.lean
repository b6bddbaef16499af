import CStack.Proofs.PrototypeLexing
import CStack.Proofs.DecimalReadBack

/-!
# Printed signatures read back

A signature prints as its return type, then its parameter list (`Signature.paramsText`); a
declaration puts the function's name between the two. This module proves that the declaration
reader takes such a text back to the name and the signature, for every signature it can read
back at all: the canonical ones (`Signature.canonical`).

The parser has its own conventions on signedness (a `char`, `short`, `int` or `long` of either
signedness, `bool` only unsigned, the floating types only signed), words that are keywords
cannot be struct or parameter names, and defaults must lex as one number: an `Int64` other than
the least one, whose magnitude is no integer lexeme, or a `Float64` whose text has a point,
since one without is read back as an integer.

The proof reads the printed text piece by piece into tokens (`TypeName.tokens`,
`Value.defaultTokens`) and then parses the tokens rule by rule; the decimal text of a float
reads back to its pattern by `Binary.Format.roundRatio_shortest`.
-/

namespace CStack

open Prototype

namespace Prototype

/-- Whether a text is one word of the lexer: a letter or underscore, then letters, digits and
underscores. -/
def isWord (s : String) : Bool :=
  match s.toList with
  | c :: cs => isIdentStart c && cs.all isIdentChar
  | [] => false

/-- Whether a text is an identifier: a word that spells no keyword. -/
def isIdentifier (s : String) : Bool :=
  isWord s && !Keyword.all.any (·.text == s)

end Prototype

/-- The keywords that spell a basic type. -/
def BasicName.keywords : BasicName → List Keyword
  | .bool => [.bool]
  | .char => [.char]
  | .short => [.short]
  | .int => [.int]
  | .long => [.long]
  | .longLong => [.long, .long]
  | .float => [.float]
  | .double => [.double]
  | .longDouble => [.long, .double]

/-- The keywords that spell a basic type with its signedness, as the printer writes them. -/
def BasicName.signedKeywords (name : BasicName) : Signedness → List Keyword
  | .unsigned => if name = .bool then name.keywords else .unsigned :: name.keywords
  | .signed => name.keywords

namespace TypeName

/-- Whether the parser reads the type back from its printed form: no function types, struct
names that are identifiers, and the parser's signedness for each basic type. -/
def readable : TypeName → Bool
  | .void => true
  | .basic .bool sign => sign == .unsigned
  | .basic .float sign | .basic .double sign | .basic .longDouble sign => sign == .signed
  | .basic _ _ => true
  | .pointer t => t.readable
  | .struct name => isIdentifier name
  | .function _ _ => false

/-- The tokens of the printed form of a type. -/
def tokens : TypeName → List Token
  | .void => [.keyword .void]
  | .basic name sign => (name.signedKeywords sign).map .keyword
  | .pointer t => t.tokens ++ [.star]
  | .struct name => [.ident name]
  | .function _ _ => []

end TypeName

namespace Value

/-- Whether the parser reads a default back from its text: an `Int64` whose magnitude is an
integer lexeme, or a `Float64` written with a point. -/
def canonicalDefault : Value → Bool
  | .int64 x => x != Int64.minValue
  | .float64 b => (float64Text b).toList.contains '.'
  | _ => false

/-- The tokens of a default's text: a minus for a negative value, then its magnitude. -/
def defaultTokens : Value → List Token
  | .int64 x =>
    if x.toInt < 0 then [.minus, .integer (Int64.ofNat (-x.toInt).toNat)]
    else [.integer (Int64.ofNat x.toInt.toNat)]
  | .float64 b =>
    (if b.toNat < 2 ^ 63 then [] else [.minus]) ++ [.decimal (UInt64.ofNat (b.toNat % 2 ^ 63))]
  | _ => []

end Value

/-- A parameter the parser reads back from its printed form: a readable type, an identifier for
its name, and no default or a canonical one. -/
def ParamDecl.canonical (p : ParamDecl) : Bool :=
  p.type.readable && isIdentifier p.name && p.default.all Value.canonicalDefault

/-- A signature the parser reads back from its printed form. -/
def Signature.canonical (s : Signature) : Bool :=
  s.ret.readable && s.params.all ParamDecl.canonical

/-- The tokens of a parameter's printed form. -/
def ParamDecl.tokens (p : ParamDecl) : List Token :=
  p.type.tokens ++ .ident p.name ::
    (match p.default with
     | some v => .equals :: v.defaultTokens
     | none => [])

/-- The tokens of a parameter list's printed form, without its parentheses. -/
def ParamDecl.listTokens (ps : List ParamDecl) : List Token :=
  [Token.comma].intercalate (ps.map ParamDecl.tokens)

/-! ### Lexing printed words -/

theorem BasicName.keywords_ne_nil (name : BasicName) : name.keywords ≠ [] := by
  cases name <;> simp [keywords]

theorem BasicName.text_signed (name : BasicName) (sign : Signedness) :
    (TypeName.basic name sign).text =
      " ".intercalate ((name.signedKeywords sign).map Keyword.text) := by
  cases sign <;> cases name <;> rw [TypeName.text] <;> decide

namespace Prototype.Lexes

variable {rest : List Char} {toks : List Token}

theorem clear_cons {c : Char} {cs : List Char} (hc : isIdentChar c = false) :
    ∀ x ∈ (c :: cs).head?, isIdentChar x = false := by
  intro x hx
  cases hx
  exact hc

theorem numberEnd_cons {c : Char} {cs : List Char} (hc : isIdentChar c = false)
    (hpoint : c ≠ '.') :
    ∀ x ∈ (c :: cs).head?, isIdentChar x = false ∧ x ≠ '.' := by
  intro x hx
  cases hx
  exact ⟨hc, hpoint⟩

theorem ofWord {w : String} (hw : isWord w = true)
    (hend : ∀ x ∈ rest.head?, isIdentChar x = false) (h : Lexes rest toks) :
    Lexes (w.toList ++ rest) (wordToken w :: toks) := by
  obtain ⟨c, cs, hsplit, hstart, hchars⟩ : ∃ c cs, w.toList = c :: cs ∧
      isIdentStart c = true ∧ ∀ x ∈ cs, isIdentChar x = true := by
    unfold isWord at hw
    split at hw
    · rename_i c cs hsplit
      simp only [Bool.and_eq_true, List.all_eq_true] at hw
      exact ⟨c, cs, hsplit, hw.1, hw.2⟩
    · cases hw
  have hword : String.ofList (c :: cs) = w := by rw [← hsplit, String.ofList_toList]
  rw [hsplit, List.cons_append, ← hword]
  exact word hstart hchars hend h

theorem keyword (k : Keyword) (hend : ∀ x ∈ rest.head?, isIdentChar x = false)
    (h : Lexes rest toks) : Lexes (k.text.toList ++ rest) (.keyword k :: toks) := by
  have hword : isWord k.text = true := by cases k <;> decide
  have htoken : wordToken k.text = .keyword k := by cases k <;> decide
  exact htoken ▸ ofWord hword hend h

theorem keywords {ks : List Keyword} (hks : ks ≠ [])
    (hend : ∀ x ∈ rest.head?, isIdentChar x = false) (h : Lexes rest toks) :
    Lexes ((" ".intercalate (ks.map Keyword.text)).toList ++ rest) (ks.map .keyword ++ toks) := by
  induction ks with
  | nil => exact absurd rfl hks
  | cons k ks ih =>
    cases ks with
    | nil => simpa using keyword k hend h
    | cons k' ks =>
      have hrest := ih (List.cons_ne_nil _ _)
      have hblank : " ".toList = [' '] := rfl
      simp only [List.map_cons, String.intercalate_cons_cons, String.toList_append, hblank,
        List.append_assoc, List.cons_append, List.nil_append] at hrest ⊢
      exact keyword k (clear_cons (by decide)) (blank (by decide) hrest)

theorem identifier {s : String} (hs : isIdentifier s = true)
    (hend : ∀ x ∈ rest.head?, isIdentChar x = false) (h : Lexes rest toks) :
    Lexes (s.toList ++ rest) (.ident s :: toks) := by
  simp only [isIdentifier, Bool.and_eq_true, Bool.not_eq_true', List.any_eq_false,
    beq_iff_eq] at hs
  have htoken : wordToken s = .ident s := by
    unfold wordToken
    rw [List.find?_eq_none.mpr (by simpa using hs.2)]
  exact htoken ▸ ofWord hs.1 hend h

theorem natural {n : Nat} (hn : n < 2 ^ 63)
    (hend : ∀ x ∈ rest.head?, isIdentChar x = false ∧ x ≠ '.') (h : Lexes rest toks) :
    Lexes ((toString n).toList ++ rest) (.integer (Int64.ofNat n) :: toks) := by
  obtain ⟨c, cs, hdigits⟩ : ∃ c cs, Nat.toDigits 10 n = c :: cs :=
    List.exists_cons_of_ne_nil Nat.toDigits_ne_nil
  have hvalue : Nat.ofDigitChars 10 (c :: cs) 0 = n := by
    rw [← hdigits, Nat.ofDigitChars_ten_toDigits]
  have hdigit : ∀ x ∈ c :: cs, x.isDigit = true := fun x hx =>
    Nat.isDigit_of_mem_toDigits (by decide) (by decide) (hdigits ▸ hx)
  rw [Nat.toString_eq_repr, Nat.toList_repr, hdigits, List.cons_append]
  have hlex := integer (hdigit c (List.mem_cons_self ..))
    (fun x hx => hdigit x (List.mem_cons_of_mem _ hx)) hend (hvalue ▸ hn) h
  rwa [hvalue] at hlex

end Prototype.Lexes

theorem TypeName.lexes_text : ∀ {T : TypeName} {rest : List Char} {toks : List Token},
    T.readable = true → (∀ x ∈ rest.head?, isIdentChar x = false) → Lexes rest toks →
      Lexes (T.text.toList ++ rest) (T.tokens ++ toks)
  | .void, _, _, _, hend, h => by
    rw [TypeName.text]
    exact Lexes.keyword .void hend h
  | .basic name sign, _, _, _, hend, h => by
    have hne : name.signedKeywords sign ≠ [] := by
      unfold BasicName.signedKeywords
      split
      · split
        · exact name.keywords_ne_nil
        · exact List.cons_ne_nil _ _
      · exact name.keywords_ne_nil
    rw [BasicName.text_signed]
    exact Lexes.keywords hne hend h
  | .pointer t, _, _, hT, _, h => by
    have hstar := Lexes.symbol (c := '*') (t := .star) (by simp [symbols]) h
    have ht := lexes_text (T := t) hT (Lexes.clear_cons (by decide)) hstar
    rw [TypeName.text]
    simpa [tokens] using ht
  | .struct _, _, _, hT, hend, h => by
    rw [TypeName.text]
    exact Lexes.identifier hT hend h
  | .function _ _, _, _, hT, _, _ => by cases hT

theorem Value.lexes_default {v : Value} {rest : List Char} {toks : List Token}
    (hv : v.canonicalDefault = true)
    (hend : ∀ x ∈ rest.head?, isIdentChar x = false ∧ x ≠ '.') (h : Lexes rest toks) :
    Lexes (v.text.toList ++ rest) (v.defaultTokens ++ toks) := by
  cases v
  case int64 x =>
    have hlow := x.le_toInt
    have hhigh := x.toInt_lt
    have hmin : x.toInt ≠ -2 ^ 63 := by
      intro heq
      have : x = Int64.minValue := Int64.toInt_inj.mp (heq.trans Int64.toInt_minValue.symm)
      simp [canonicalDefault, this] at hv
    simp only [Value.text, Int.toString_eq_repr, Int.repr_eq_if, defaultTokens]
    by_cases hneg : x.toInt < 0
    · have hminus : "-".toList = ['-'] := rfl
      rw [if_neg (by omega), if_pos hneg, String.toList_append, hminus]
      exact Lexes.symbol (by simp [symbols]) (Lexes.natural (by omega) hend h)
    · rw [if_pos (by omega), if_neg hneg]
      exact Lexes.natural (by omega) hend h
  case float64 b =>
    have hpoint : '.' ∈ (float64Text b).toList := by
      simpa [canonicalDefault] using hv
    obtain ⟨ds₁, ds, htext, hne, hdigits, hround⟩ := float64Text_of_point hpoint
    obtain ⟨c, cs, rfl⟩ := List.exists_cons_of_ne_nil hne
    have hend' : ∀ x ∈ rest.head?, x.isDigit = false := fun x hx =>
      isDigit_of_isIdentChar (hend x hx).1
    have hdecimal := Lexes.decimal (hdigits c (by simp))
      (fun x (hx : x ∈ cs) => hdigits x (by simp [hx]))
      (fun x (hx : x ∈ ds) => hdigits x (by simp [hx])) hend' h
    rw [List.cons_append] at hround
    rw [hround] at hdecimal
    simp only [Value.text, htext, defaultTokens]
    split
    · simpa using hdecimal
    · simpa using Lexes.symbol (by simp [symbols]) hdecimal
  all_goals simp [canonicalDefault] at hv

theorem ParamDecl.lexes_text {p : ParamDecl} {rest : List Char} {toks : List Token}
    (hp : p.canonical = true)
    (hend : ∀ x ∈ rest.head?, isIdentChar x = false ∧ x ≠ '.') (h : Lexes rest toks) :
    Lexes (p.text.toList ++ rest) (p.tokens ++ toks) := by
  obtain ⟨name, type, default⟩ := p
  simp only [canonical, Bool.and_eq_true] at hp
  obtain ⟨⟨htype, hname⟩, hdefault⟩ := hp
  have hblank : " ".toList = [' '] := rfl
  cases default with
  | none =>
    have hnamed := Lexes.identifier hname (fun x hx => (hend x hx).1) h
    simpa [ParamDecl.text, tokens, hblank] using TypeName.lexes_text htype
      (Lexes.clear_cons (by decide)) (Lexes.blank (c := ' ') (by decide) hnamed)
  | some v =>
    have hv : v.canonicalDefault = true := by simpa using hdefault
    have hequals : " = ".toList = [' ', '=', ' '] := rfl
    have hnamed := Lexes.identifier hname (Lexes.clear_cons (by decide))
      (Lexes.blank (c := ' ') (by decide) (Lexes.symbol (c := '=') (t := .equals)
        (by simp [symbols]) (Lexes.blank (c := ' ') (by decide) (Value.lexes_default hv hend h))))
    simpa [ParamDecl.text, tokens, hblank, hequals] using TypeName.lexes_text htype
      (Lexes.clear_cons (by decide)) (Lexes.blank (c := ' ') (by decide) hnamed)

theorem ParamDecl.lexes_list {rest : List Char} {toks : List Token} :
    ∀ {ps : List ParamDecl}, (∀ p ∈ ps, p.canonical = true) → Lexes rest toks →
      Lexes ((", ".intercalate (ps.map ParamDecl.text)).toList ++ ')' :: rest)
        (ParamDecl.listTokens ps ++ .closeParen :: toks)
  | [], _, h => by
    simpa [listTokens] using Lexes.symbol (c := ')') (t := .closeParen) (by simp [symbols]) h
  | [p], hps, h => by
    simpa [listTokens] using lexes_text (hps p (by simp))
      (Lexes.numberEnd_cons (by decide) (by decide))
      (Lexes.symbol (c := ')') (t := .closeParen) (by simp [symbols]) h)
  | p :: q :: qs, hps, h => by
    have htail := lexes_list (fun r (hr : r ∈ q :: qs) => hps r (by simp [hr])) h
    have hcomma : ", ".toList = [',', ' '] := rfl
    have hhead := lexes_text (hps p (by simp)) (Lexes.numberEnd_cons (by decide) (by decide))
      (Lexes.symbol (c := ',') (t := .comma) (by simp [symbols])
        (Lexes.blank (c := ' ') (by decide) htail))
    simpa [listTokens, List.intercalate_cons_cons, hcomma] using hhead

theorem Signature.lexes_declaration {s : Signature} {f : String} (hs : s.canonical = true)
    (hf : isIdentifier f = true) :
    Lexes (s.ret.text ++ " " ++ f ++ " " ++ s.paramsText).toList
      (s.ret.tokens ++ .ident f :: .openParen :: ParamDecl.listTokens s.params ++
        [.closeParen]) := by
  simp only [canonical, Bool.and_eq_true, List.all_eq_true] at hs
  have hparams := ParamDecl.lexes_list hs.2 Lexes.nil
  have hblank : " ".toList = [' '] := rfl
  have hdeclaration := TypeName.lexes_text hs.1 (Lexes.clear_cons (by decide))
    (Lexes.blank (c := ' ') (by decide) (Lexes.identifier hf (Lexes.clear_cons (by decide))
      (Lexes.blank (c := ' ') (by decide)
        (Lexes.symbol (c := '(') (t := .openParen) (by simp [symbols]) hparams))))
  simpa [paramsText, hblank] using hdeclaration

end CStack
