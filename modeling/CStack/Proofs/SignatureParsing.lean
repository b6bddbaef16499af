import CStack.Proofs.SignatureText

/-!
# Parsing printed signatures

The parser reads lexemes, and on a successful read it looks at their tokens only: texts and
offsets go into error messages. Each rule of the grammar is read here on any lexeme list whose
tokens are the printed form of a part, followed by the tokens that may come after that part,
and it returns the part with the lexemes after it (`type_tokens`, `param_tokens`,
`paramList_tokens`). The last step joins them with the lexing of the printed declaration: the
parser reads a canonical signature back from its printed form (`parse_printedDeclaration`).
-/

namespace CStack

open Prototype

/-- `t` under `k` pointers. -/
def TypeName.pointers : Nat → TypeName → TypeName
  | 0, t => t
  | k + 1, t => pointers k (.pointer t)

theorem TypeName.closeParen_not_mem_tokens : ∀ T : TypeName, Token.closeParen ∉ T.tokens
  | .void | .struct _ | .function _ _ => by simp [tokens]
  | .basic _ _ => by simp [tokens]
  | .pointer t => by simp [tokens, closeParen_not_mem_tokens t]

theorem TypeName.tokens_ne_nil : ∀ {T : TypeName}, T.readable = true → T.tokens ≠ []
  | .void, _ => by simp [tokens]
  | .basic name .signed, _ => by simp [tokens, BasicName.signedKeywords, name.keywords_ne_nil]
  | .basic name .unsigned, _ => by
    simp only [tokens, BasicName.signedKeywords]
    split <;> simp [name.keywords_ne_nil]
  | .struct _, _ => by simp [tokens]
  | .pointer _, _ => by simp [tokens]
  | .function _ _, hT => by cases hT

theorem ParamDecl.tokens_front {p : ParamDecl} (hp : p.canonical = true) :
    ∃ a b rest, p.tokens = a :: b :: rest ∧ a ≠ .closeParen ∧ b ≠ .closeParen := by
  simp only [canonical, Bool.and_eq_true] at hp
  obtain ⟨a, as, htokens⟩ := List.exists_cons_of_ne_nil (TypeName.tokens_ne_nil hp.1.1)
  have hnot := TypeName.closeParen_not_mem_tokens p.type
  rw [htokens] at hnot
  cases as with
  | nil => exact ⟨a, .ident p.name, _, by rw [tokens, htokens]; rfl,
    fun h => hnot (by simp [h]), fun h => Token.noConfusion h⟩
  | cons b bs =>
    exact ⟨a, b, _, by rw [tokens, htokens]; rfl, fun h => hnot (by simp [h]),
      fun h => hnot (by simp [h])⟩

theorem ParamDecl.listTokens_cons_cons (p q : ParamDecl) (qs : List ParamDecl) :
    listTokens (p :: q :: qs) = p.tokens ++ .comma :: listTokens (q :: qs) := by
  simp [listTokens, List.intercalate_cons_cons]

theorem ParamDecl.length_le_listTokens :
    ∀ ps : List ParamDecl, ps.length ≤ (listTokens ps).length
  | [] => Nat.zero_le _
  | [p] => by
    have hone : (listTokens [p]).length = p.tokens.length := by simp [listTokens]
    rw [List.length_singleton, hone, tokens, List.length_append, List.length_cons]
    omega
  | p :: q :: qs => by
    have hrest := length_le_listTokens (q :: qs)
    rw [listTokens_cons_cons, List.length_append]
    simp only [List.length_cons] at hrest ⊢
    omega

namespace Prototype

theorem cons_of_map_token {ls : Input} {t : Token} {ts : List Token}
    (h : ls.map Lexeme.token = t :: ts) :
    ∃ text offset rest, ls = ⟨t, text, offset⟩ :: rest ∧ rest.map Lexeme.token = ts := by
  obtain ⟨⟨t', text, offset⟩, rest, rfl, ht, hrest⟩ := List.map_eq_cons_iff.mp h
  exact ⟨text, offset, rest, by rw [← ht], hrest⟩

theorem map_token_drop {ls : Input} {ts more : List Token}
    (h : ls.map Lexeme.token = ts ++ more) : (ls.drop ts.length).map Lexeme.token = more := by
  rw [List.map_drop, h, List.drop_left]

theorem suffixes_stars {n : String} :
    ∀ {k : Nat} {t : TypeName} {ls : Input} {more : List Token},
      ls.map Lexeme.token = List.replicate k .star ++ .ident n :: more →
        suffixes t ls = (t.pointers k, ls.drop k)
  | 0, _, _, _, h => by
    obtain ⟨_, _, _, rfl, -⟩ := cons_of_map_token h
    rfl
  | k + 1, t, _, _, h => by
    obtain ⟨_, _, ls, rfl, hrest⟩ := cons_of_map_token h
    rw [suffixes, suffixes_stars (t := .pointer t) hrest]
    rfl

theorem baseType_tokens {B : TypeName} (hB : B.readable = true) (hbase : ∀ t, B ≠ .pointer t)
    {ls : Input} {t : Token} {more : List Token} (ht : t = .star ∨ ∃ n, t = .ident n)
    (h : ls.map Lexeme.token = B.tokens ++ t :: more) :
    baseType (skipConst ls) = .ok (B, ls.drop B.tokens.length) := by
  cases B with
  | pointer target => exact absurd rfl (hbase target)
  | function _ _ => cases hB
  | void =>
    obtain ⟨_, _, ls, rfl, -⟩ := cons_of_map_token h
    rfl
  | struct name =>
    obtain ⟨_, _, ls, rfl, -⟩ := cons_of_map_token h
    rfl
  | basic name sign =>
    cases sign <;> cases name <;> simp [TypeName.readable] at hB <;>
      simp only [TypeName.tokens, BasicName.signedKeywords, BasicName.keywords, List.map_cons,
        List.map_nil, List.cons_append, List.nil_append, reduceIte, reduceCtorEq] at h ⊢ <;>
      repeat (have hcons := cons_of_map_token h; clear h; obtain ⟨_, _, ls, rfl, h⟩ := hcons)
    all_goals rcases ht with rfl | ⟨n, rfl⟩ <;> rfl

theorem type_of_base {B : TypeName} (hB : B.readable = true) (hbase : ∀ t, B ≠ .pointer t)
    {k : Nat} {ls : Input} {n : String} {more : List Token}
    (h : ls.map Lexeme.token = B.tokens ++ List.replicate k .star ++ .ident n :: more) :
    type ls = .ok (B.pointers k, ls.drop (B.tokens.length + k)) := by
  have hread : baseType (skipConst ls) = .ok (B, ls.drop B.tokens.length) := by
    cases k with
    | zero =>
      exact baseType_tokens hB hbase (.inr ⟨n, rfl⟩)
        (by rw [h, List.replicate_zero, List.append_nil])
    | succ k =>
      exact baseType_tokens hB hbase (.inl rfl)
        (by rw [h, List.replicate_succ, List.append_assoc, List.cons_append])
  have hstars := suffixes_stars (t := B) (map_token_drop (by rw [h, List.append_assoc]))
  rw [type, hread]
  show Except.ok (suffixes B _) = _
  rw [hstars, List.drop_drop]

/-- A readable type, followed by `k` more stars and an identifier, is read as itself under `k`
pointers. -/
theorem type_tokens : ∀ {T : TypeName}, T.readable = true →
    ∀ {k : Nat} {ls : Input} {n : String} {more : List Token},
      ls.map Lexeme.token = T.tokens ++ List.replicate k .star ++ .ident n :: more →
        type ls = .ok (T.pointers k, ls.drop (T.tokens.length + k))
  | .void, hT, _, _, _, _, h => type_of_base hT (fun _ h => TypeName.noConfusion h) h
  | .basic _ _, hT, _, _, _, _, h => type_of_base hT (fun _ h => TypeName.noConfusion h) h
  | .struct _, hT, _, _, _, _, h => type_of_base hT (fun _ h => TypeName.noConfusion h) h
  | .function _ _, hT, _, _, _, _, _ => by cases hT
  | .pointer t, hT, k, ls, n, more, h => by
    have hstars :
        ls.map Lexeme.token = t.tokens ++ List.replicate (k + 1) .star ++ .ident n :: more := by
      rw [h]
      simp only [TypeName.tokens, List.replicate_succ, List.append_assoc, List.cons_append,
        List.nil_append]
    rw [type_tokens (T := t) hT hstars, TypeName.tokens, List.length_append, List.length_singleton,
      show t.tokens.length + (k + 1) = t.tokens.length + 1 + k by omega]
    rfl

theorem ident_tokens {ls : Input} {n : String} {more : List Token} (expected : String)
    (h : ls.map Lexeme.token = .ident n :: more) : ident expected ls = .ok (n, ls.drop 1) := by
  obtain ⟨_, _, _, rfl, -⟩ := cons_of_map_token h
  rfl

theorem expect_tokens {ls : Input} {t : Token} {more : List Token} (expected : String)
    (h : ls.map Lexeme.token = t :: more) : expect t expected ls = .ok (ls.drop 1) := by
  obtain ⟨_, _, _, rfl, -⟩ := cons_of_map_token h
  simp only [expect, eat, if_pos, List.drop_one, List.tail_cons]

/-! ### Defaults -/

theorem magnitude_int64 (x : Int64) :
    (if x.toInt < 0 then -Int64.ofNat (-x.toInt).toNat else Int64.ofNat x.toInt.toNat) = x := by
  split
  · rw [← Int64.ofInt_eq_ofNat, Int.toNat_of_nonneg (by omega), Int64.neg_ofInt, Int.neg_neg,
      Int64.ofInt_toInt]
  · rw [← Int64.ofInt_eq_ofNat, Int.toNat_of_nonneg (by omega), Int64.ofInt_toInt]

theorem xor_sign_bit {m : Nat} (hm : m < 2 ^ 63) :
    (UInt64.ofNat m ^^^ 0x8000000000000000).toNat = m + 2 ^ 63 := by
  rw [UInt64.toNat_xor, UInt64.toNat_ofNat', Nat.mod_eq_of_lt (by omega)]
  show m ^^^ 2 ^ 63 = m + 2 ^ 63
  rw [← Nat.or_two_pow_eq_add_of_lt hm]
  apply Nat.eq_of_testBit_eq
  intro i
  rw [Nat.testBit_xor, Nat.testBit_or, Nat.testBit_two_pow]
  by_cases hi : 63 = i
  · subst hi
    simp [Nat.testBit_lt_two_pow hm]
  · simp [hi]

theorem magnitude_float64 (b : UInt64) :
    (if b.toNat < 2 ^ 63 then UInt64.ofNat (b.toNat % 2 ^ 63)
      else UInt64.ofNat (b.toNat % 2 ^ 63) ^^^ 0x8000000000000000) = b := by
  have hb : b.toNat < 2 ^ 64 := b.toNat_lt
  apply UInt64.toNat_inj.mp
  split
  · rw [UInt64.toNat_ofNat', Nat.mod_eq_of_lt (by omega), Nat.mod_eq_of_lt (by omega)]
  · rw [xor_sign_bit (Nat.mod_lt _ (by decide))]
    omega

theorem defaultValue_tokens {v : Value} (hv : v.canonicalDefault = true) {ls : Input}
    {more : List Token} (h : ls.map Lexeme.token = v.defaultTokens ++ more) :
    defaultValue ls = .ok (v, ls.drop v.defaultTokens.length) := by
  cases v
  case int64 x =>
    have hvalue := magnitude_int64 x
    simp only [Value.defaultTokens] at h ⊢
    by_cases hneg : x.toInt < 0
    · rw [if_pos hneg] at h hvalue ⊢
      obtain ⟨_, _, ls, rfl, hrest⟩ := cons_of_map_token h
      obtain ⟨_, _, ls, rfl, -⟩ := cons_of_map_token hrest
      show Except.ok (Value.int64 (-Int64.ofNat (-x.toInt).toNat), ls) = _
      rw [hvalue]
      rfl
    · rw [if_neg hneg] at h hvalue ⊢
      obtain ⟨_, _, ls, rfl, -⟩ := cons_of_map_token h
      show Except.ok (Value.int64 (Int64.ofNat x.toInt.toNat), ls) = _
      rw [hvalue]
      rfl
  case float64 b =>
    have hvalue := magnitude_float64 b
    simp only [Value.defaultTokens] at h ⊢
    by_cases hneg : b.toNat < 2 ^ 63
    · rw [if_pos hneg] at h hvalue ⊢
      obtain ⟨_, _, ls, rfl, -⟩ := cons_of_map_token h
      show Except.ok (Value.float64 (UInt64.ofNat (b.toNat % 2 ^ 63)), ls) = _
      rw [hvalue]
      rfl
    · rw [if_neg hneg] at h hvalue ⊢
      obtain ⟨_, _, ls, rfl, hrest⟩ := cons_of_map_token h
      obtain ⟨_, _, ls, rfl, -⟩ := cons_of_map_token hrest
      show Except.ok (Value.float64 (UInt64.ofNat (b.toNat % 2 ^ 63) ^^^ 0x8000000000000000),
        ls) = _
      rw [hvalue]
      rfl
  all_goals cases hv

/-! ### Parameters -/

/-- A canonical parameter, followed by a comma or the closing parenthesis, is read back. -/
theorem param_tokens {p : ParamDecl} (hp : p.canonical = true) {ls : Input} {t : Token}
    {more : List Token} (ht : t = .comma ∨ t = .closeParen)
    (h : ls.map Lexeme.token = p.tokens ++ t :: more) (index : Nat) :
    param index ls = .ok (p, ls.drop p.tokens.length) := by
  obtain ⟨name, type, default⟩ := p
  simp only [ParamDecl.canonical, Bool.and_eq_true] at hp
  obtain ⟨⟨htype, -⟩, hdefault⟩ := hp
  simp only [ParamDecl.tokens, List.append_assoc, List.cons_append] at h ⊢
  have hread := type_tokens (k := 0) htype (by rw [h, List.replicate_zero, List.append_nil])
  simp only [TypeName.pointers, Nat.add_zero] at hread
  obtain ⟨_, _, rest, hls, hrest⟩ := cons_of_map_token (map_token_drop h)
  rw [param, hread, List.length_append, ← List.drop_drop (j := type.tokens.length), hls]
  cases default with
  | none =>
    obtain ⟨_, _, rest, rfl, -⟩ := cons_of_map_token hrest
    rcases ht with rfl | rfl <;> rfl
  | some v =>
    have hv : v.canonicalDefault = true := by simpa using hdefault
    obtain ⟨_, _, rest, rfl, hvalue⟩ := cons_of_map_token hrest
    show (defaultValue rest).bind _ = _
    rw [defaultValue_tokens hv hvalue]
    rfl

theorem params_tokens : ∀ {ps : List ParamDecl}, ps ≠ [] → (∀ p ∈ ps, p.canonical = true) →
    ∀ (index bound : Nat) {ls : Input} {more : List Token}, ps.length ≤ bound →
      ls.map Lexeme.token = ParamDecl.listTokens ps ++ .closeParen :: more →
        params index ls bound = .ok (ps, ls.drop (ParamDecl.listTokens ps).length)
  | [], hne, _, _, _, _, _, _, _ => absurd rfl hne
  | [p], _, hps, index, bound, ls, _, hlen, h => by
    obtain ⟨bound, rfl⟩ : ∃ b, bound = b + 1 := ⟨bound - 1, by simp at hlen; omega⟩
    have hone : ParamDecl.listTokens [p] = p.tokens := by simp [ParamDecl.listTokens]
    rw [hone] at h ⊢
    obtain ⟨_, _, rest, hrest, -⟩ := cons_of_map_token (map_token_drop h)
    rw [params, param_tokens (hps p (by simp)) (.inr rfl) h, hrest]
    rfl
  | p :: q :: qs, _, hps, index, bound, ls, _, hlen, h => by
    obtain ⟨bound, rfl⟩ : ∃ b, bound = b + 1 := ⟨bound - 1, by simp at hlen; omega⟩
    rw [ParamDecl.listTokens_cons_cons, List.append_assoc, List.cons_append] at h
    obtain ⟨_, _, rest, hrest, htail⟩ := cons_of_map_token (map_token_drop h)
    have hrec := params_tokens (List.cons_ne_nil q qs) (fun r hr => hps r (by simp [hr]))
      (index + 1) bound (by simp at hlen ⊢; omega) htail
    rw [ParamDecl.listTokens_cons_cons, params, param_tokens (hps p (by simp)) (.inl rfl) h,
      List.length_append, ← List.drop_drop (j := p.tokens.length), hrest]
    show (params (index + 1) rest bound).bind _ = _
    rw [hrec]
    rfl

theorem paramList_of_front {ls : Input} {a b : Token} {ts : List Token}
    (h : ls.map Lexeme.token = a :: b :: ts) (ha : a ≠ .closeParen) (hb : b ≠ .closeParen) :
    paramList ls = params 0 ls (ls.length + 1) := by
  obtain ⟨_, _, ls, rfl, hrest⟩ := cons_of_map_token h
  obtain ⟨_, _, ls, rfl, -⟩ := cons_of_map_token hrest
  unfold paramList
  split
  · rename_i heq
    simp only [List.cons.injEq, Lexeme.mk.injEq] at heq
    exact absurd heq.2.1.1 hb
  · rename_i heq
    simp only [List.cons.injEq, Lexeme.mk.injEq] at heq
    exact absurd heq.1.1 ha
  · rfl

/-- The canonical parameters of a list, up to its closing parenthesis, are read back. -/
theorem paramList_tokens {ps : List ParamDecl} (hps : ∀ p ∈ ps, p.canonical = true) {ls : Input}
    {more : List Token}
    (h : ls.map Lexeme.token = ParamDecl.listTokens ps ++ .closeParen :: more) :
    paramList ls = .ok (ps, ls.drop (ParamDecl.listTokens ps).length) := by
  cases ps with
  | nil =>
    obtain ⟨_, _, _, rfl, -⟩ := cons_of_map_token h
    rfl
  | cons p qs =>
    obtain ⟨a, b, rest, hfront, ha, hb⟩ := ParamDecl.tokens_front (hps p (by simp))
    obtain ⟨after, hafter⟩ : ∃ after, ParamDecl.listTokens (p :: qs) = p.tokens ++ after := by
      cases qs with
      | nil => exact ⟨[], by simp [ParamDecl.listTokens]⟩
      | cons q qs => exact ⟨_, ParamDecl.listTokens_cons_cons p q qs⟩
    have hbound : (p :: qs).length ≤ ls.length + 1 := by
      have hlen := congrArg List.length h
      rw [List.length_map, List.length_append] at hlen
      have := ParamDecl.length_le_listTokens (p :: qs)
      omega
    rw [paramList_of_front (by rw [h, hafter, hfront]; rfl) ha hb]
    exact params_tokens (List.cons_ne_nil p qs) hps 0 _ hbound h

/-! ### Declarations -/

/-- **A canonical signature is read back from its printed declaration**: the return type, the
function's name, and the parameter list as the signature prints it. -/
theorem parse_printedDeclaration (s : Signature) (f : String) (hs : s.canonical = true)
    (hf : isIdentifier f = true) :
    parse (s.ret.text ++ " " ++ f ++ " " ++ s.paramsText) = .ok (f, s) := by
  obtain ⟨ls, hlex, htokens⟩ := Signature.lexes_declaration hs hf 0
  simp only [List.append_assoc, List.cons_append] at htokens
  have hparts := hs
  simp only [Signature.canonical, Bool.and_eq_true, List.all_eq_true] at hparts
  have htype := type_tokens (k := 0) hparts.1
    (by rw [htokens, List.replicate_zero, List.append_nil])
  simp only [TypeName.pointers, Nat.add_zero] at htype
  obtain ⟨_, _, after, hafter, hname⟩ := cons_of_map_token (map_token_drop htokens)
  obtain ⟨_, _, inner, rfl, hinner⟩ := cons_of_map_token hname
  obtain ⟨_, _, rest, hclose, hrest⟩ := cons_of_map_token (map_token_drop hinner)
  rw [List.map_eq_nil_iff] at hrest
  subst hrest
  rw [parse, lex, hlex]
  show (type ls).bind _ = _
  rw [htype, hafter]
  show (paramList inner).bind _ = _
  rw [paramList_tokens hparts.2 hinner, hclose]
  rfl

/-- `unsigned char* lookup (long long count = -5, double scale = -1.5, Node* next)`: both kinds
of default, each negative, a pointer to a basic type and a pointer to a struct. -/
def lookupSignature : Signature :=
  { ret := .pointer (.basic .char .unsigned),
    params := [{ name := "count", type := .basic .longLong .signed, default := some (.int64 (-5)) },
      { name := "scale", type := .basic .double .signed,
        default := some (.float64 0xBFF8000000000000) },
      { name := "next", type := .pointer (.struct "Node") }] }

theorem parse_printedDeclaration_lookup :
    lookupSignature.canonical = true ∧ isIdentifier "lookup" = true ∧
      parse (lookupSignature.ret.text ++ " " ++ "lookup" ++ " " ++ lookupSignature.paramsText) =
        .ok ("lookup", lookupSignature) :=
  have hs : lookupSignature.canonical = true := by decide +kernel
  have hf : isIdentifier "lookup" = true := by decide +kernel
  ⟨hs, hf, parse_printedDeclaration lookupSignature "lookup" hs hf⟩

end Prototype

end CStack
