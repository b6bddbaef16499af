import Mathlib
import CStack.Types.Conversion

/-!
# Overload resolution

How well the argument types of a call fit a function type is a score. It is zero when the
arguments cannot be passed: more of them than parameters, fewer than the parameters up to the
first one with a default, or one argument with no implicit conversion to its parameter. Otherwise
it is one plus the conversion scores of the arguments given, each against the parameter at its
position; omitted parameters add nothing.

Of the candidates of a call, the one picked has the highest score, the earliest on a tie, and none
is picked when every score is zero. `pickOverload` ranks the candidates with a nonzero score by
descending score and takes the first; the sort is stable, and stability is what makes the earliest
of equal scores come first (`rankOverloads_stable`). The main statement is
`overloadResolution_firstBest`.
-/

namespace CStack

/-! ### The score of one candidate -/

namespace FunctionType

variable (f : FunctionType) (args : List CType)

theorem all_scores_pos_iff :
    ((args.zip f.params).map (fun (a, p) => a.score p.type)).all (· > 0) = true ↔
      ¬∃ j, ∃ (hj : j < args.length) (hp : j < f.params.length),
        args[j].score f.params[j].type = 0 := by
  simp only [List.all_eq_true, List.mem_map, gt_iff_lt, decide_eq_true_eq, forall_exists_index,
    and_imp, forall_apply_eq_imp_iff₂, not_exists]
  constructor
  · intro h j hj hp hzero
    have hmem : (args[j], f.params[j]) ∈ args.zip f.params :=
      List.mem_iff_getElem?.mpr ⟨j, List.getElem?_zip_eq_some.mpr (by simp)⟩
    exact absurd hzero (Nat.pos_iff_ne_zero.mp (h _ hmem))
  · rintro h ⟨a, p⟩ hmem
    obtain ⟨j, hj⟩ := List.mem_iff_getElem?.mp hmem
    obtain ⟨ha, hp⟩ := List.getElem?_zip_eq_some.mp hj
    obtain ⟨hja, rfl⟩ := List.getElem?_eq_some_iff.mp ha
    obtain ⟨hjp, rfl⟩ := List.getElem?_eq_some_iff.mp hp
    exact Nat.pos_of_ne_zero (h j hja hjp)

theorem scoreArguments_eq_zero_iff :
    f.scoreArguments args = 0 ↔
      f.params.length < args.length ∨ args.length < f.requiredCount ∨
        ∃ j, ∃ (hj : j < args.length) (hp : j < f.params.length),
          args[j].score f.params[j].type = 0 := by
  unfold scoreArguments
  by_cases harity : args.length > f.params.length || args.length < f.requiredCount
  · simp only [harity, if_true, true_iff]
    simp only [Bool.or_eq_true, decide_eq_true_eq] at harity
    omega
  · simp only [Bool.or_eq_true, decide_eq_true_eq, not_or] at harity
    rw [if_neg (by simp only [Bool.or_eq_true, decide_eq_true_eq]; omega)]
    by_cases hall : ((args.zip f.params).map (fun (a, p) => a.score p.type)).all (· > 0) = true
    · simp only [hall, if_true, Nat.add_eq_zero_iff, Nat.one_ne_zero, false_and, false_iff]
      have hconv := (all_scores_pos_iff f args).mp hall
      rintro (hmany | hfew | hzero)
      · omega
      · omega
      · exact hconv hzero
    · simp only [hall, Bool.false_eq_true, if_false, true_iff]
      have := (not_congr (all_scores_pos_iff f args)).mp hall
      exact Or.inr (Or.inr (not_not.mp this))

theorem scoreArguments_of_passable
    (hpass : ¬(f.params.length < args.length ∨ args.length < f.requiredCount ∨
        ∃ j, ∃ (hj : j < args.length) (hp : j < f.params.length),
          args[j].score f.params[j].type = 0)) :
    f.scoreArguments args = 1 + ((args.zip f.params).map (fun (a, p) => a.score p.type)).sum := by
  simp only [not_or] at hpass
  obtain ⟨hmany, hfew, hconv⟩ := hpass
  unfold scoreArguments
  rw [if_neg (by simp only [Bool.or_eq_true, decide_eq_true_eq]; omega),
    if_pos ((all_scores_pos_iff f args).mpr hconv), List.sum_eq_foldl_nat]

end FunctionType

/-! ### The ranking -/

/-- The candidates with a nonzero score, as pairs of index and score, in declaration order. -/
def scoredCandidates (candidates : List FunctionType) (args : List CType) : List (Nat × Nat) :=
  (candidates.zipIdx.map (fun (f, i) => (i, f.scoreArguments args))).filter (fun p => p.2 > 0)

theorem rankOverloads_eq (candidates : List FunctionType) (args : List CType) :
    rankOverloads candidates args =
      (scoredCandidates candidates args).mergeSort (fun a b => b.2 ≤ a.2) := rfl

theorem mem_scoredCandidates {candidates : List FunctionType} {args : List CType} {i s : Nat} :
    (i, s) ∈ scoredCandidates candidates args ↔
      ∃ hi : i < candidates.length, s = candidates[i].scoreArguments args ∧ 0 < s := by
  simp only [scoredCandidates, List.mem_filter, List.mem_map, Prod.mk.injEq, gt_iff_lt,
    decide_eq_true_eq]
  constructor
  · rintro ⟨⟨⟨f, j⟩, hmem, rfl, rfl⟩, hpos⟩
    obtain ⟨hj, hf⟩ := List.getElem?_eq_some_iff.mp (List.mem_zipIdx_iff_getElem?.mp hmem)
    dsimp only at hj hf
    subst hf
    exact ⟨hj, rfl, hpos⟩
  · rintro ⟨hi, rfl, hpos⟩
    exact ⟨⟨⟨candidates[i], i⟩, List.mem_zipIdx_iff_getElem?.mpr (by simp), rfl, rfl⟩, hpos⟩

theorem scoredCandidates_sorted (candidates : List FunctionType) (args : List CType) :
    (scoredCandidates candidates args).Pairwise (·.1 < ·.1) := by
  have hidx : (candidates.zipIdx.map Prod.snd).Pairwise (· < ·) := by
    rw [List.zipIdx_map_snd]
    exact List.pairwise_lt_range'
  refine List.Pairwise.filter _ (List.pairwise_map.mpr ?_)
  exact List.pairwise_map.mp hidx

theorem pair_sublist_of_fst_lt {l : List (Nat × Nat)} (hsorted : l.Pairwise (·.1 < ·.1))
    {p q : Nat × Nat} (hp : p ∈ l) (hq : q ∈ l) (hlt : p.1 < q.1) : List.Sublist [p, q] l := by
  induction l with
  | nil => cases hp
  | cons x xs ih =>
    obtain ⟨hx, hxs⟩ := List.pairwise_cons.mp hsorted
    rcases List.mem_cons.mp hp with rfl | hpxs
    · rcases List.mem_cons.mp hq with rfl | hqxs
      · exact absurd hlt (Nat.lt_irrefl _)
      · exact (List.singleton_sublist.mpr hqxs).cons_cons _
    · rcases List.mem_cons.mp hq with rfl | hqxs
      · exact absurd (hx p hpxs) (Nat.lt_asymm hlt)
      · exact (ih hxs hpxs hqxs).cons _

section Ranking

variable {candidates : List FunctionType} {args : List CType}

theorem mem_rankOverloads {p : Nat × Nat} :
    p ∈ rankOverloads candidates args ↔ p ∈ scoredCandidates candidates args :=
  List.mem_mergeSort

theorem rankOverloads_nodup : (rankOverloads candidates args).Nodup := by
  have hnodup : (scoredCandidates candidates args).Nodup :=
    (scoredCandidates_sorted candidates args).imp fun hlt heq => by
      subst heq
      exact Nat.lt_irrefl _ hlt
  exact (List.mergeSort_perm _ _).nodup_iff.mpr hnodup

theorem rankOverloads_pairwise : (rankOverloads candidates args).Pairwise (fun a b => b.2 ≤ a.2) := by
  have hsorted : ((scoredCandidates candidates args).mergeSort fun a b => b.2 ≤ a.2).Pairwise
      fun a b => decide (b.2 ≤ a.2) = true :=
    List.pairwise_mergeSort
      (fun a b c hab hbc => by simp only [decide_eq_true_eq] at hab hbc ⊢; omega)
      (fun a b => by simp only [Bool.or_eq_true, decide_eq_true_eq]; omega) _
  rw [rankOverloads_eq]
  simpa only [decide_eq_true_eq] using hsorted

/-- The sort is stable: of two scored candidates, the earlier one stays in front of a later one
that scores no higher. -/
theorem rankOverloads_stable {p q : Nat × Nat} (hp : p ∈ scoredCandidates candidates args)
    (hq : q ∈ scoredCandidates candidates args) (hlt : p.1 < q.1) (hle : q.2 ≤ p.2) :
    List.Sublist [p, q] (rankOverloads candidates args) :=
  List.pair_sublist_mergeSort
    (fun a b c hab hbc => by simp only [decide_eq_true_eq] at hab hbc ⊢; omega)
    (fun a b => by simp only [Bool.or_eq_true, decide_eq_true_eq]; omega)
    (decide_eq_true hle) (pair_sublist_of_fst_lt (scoredCandidates_sorted candidates args) hp hq hlt)

theorem head_rankOverloads {w : Nat × Nat} (h : (rankOverloads candidates args).head? = some w) :
    (∀ p ∈ scoredCandidates candidates args, p.2 ≤ w.2) ∧
      ∀ p ∈ scoredCandidates candidates args, p.1 < w.1 → p.2 < w.2 := by
  obtain ⟨rest, hrank⟩ := List.head?_eq_some_iff.mp h
  have hsorted : (rankOverloads candidates args).Pairwise (fun a b => b.2 ≤ a.2) :=
    rankOverloads_pairwise
  rw [hrank] at hsorted
  have hmax : ∀ p ∈ scoredCandidates candidates args, p.2 ≤ w.2 := by
    intro p hp
    have hmem : p ∈ w :: rest := hrank ▸ mem_rankOverloads.mpr hp
    rcases List.mem_cons.mp hmem with rfl | hmem
    · exact Nat.le_refl _
    · exact List.rel_of_pairwise_cons hsorted hmem
  refine ⟨hmax, fun p hp hlt => Nat.lt_of_not_le fun hle => ?_⟩
  -- an earlier candidate scoring as much as `w` would stand in front of it
  have hw : w ∈ scoredCandidates candidates args :=
    mem_rankOverloads.mp (hrank ▸ List.mem_cons_self)
  have hpair := rankOverloads_stable hp hw hlt hle
  have hnodup : (rankOverloads candidates args).Nodup := rankOverloads_nodup
  rw [hrank] at hpair hnodup
  cases hpair with
  | cons _ hrest => exact (List.nodup_cons.mp hnodup).1 (hrest.subset (by simp))
  | cons_cons _ _ => exact Nat.lt_irrefl _ hlt

end Ranking

/-! ### The candidate picked -/

/-- Index `i` names a candidate with a nonzero score that no candidate beats and every earlier
candidate scores below. -/
def IsFirstBest (candidates : List FunctionType) (args : List CType) (i : Nat) : Prop :=
  ∃ hi : i < candidates.length, 0 < candidates[i].scoreArguments args ∧
    (∀ f ∈ candidates, f.scoreArguments args ≤ candidates[i].scoreArguments args) ∧
    ∀ j (hj : j < i), candidates[j].scoreArguments args < candidates[i].scoreArguments args

theorem IsFirstBest.unique {candidates : List FunctionType} {args : List CType} {i i' : Nat}
    (h : IsFirstBest candidates args i) (h' : IsFirstBest candidates args i') : i = i' := by
  obtain ⟨hi, -, hmax, hfirst⟩ := h
  obtain ⟨hi', -, hmax', hfirst'⟩ := h'
  rcases Nat.lt_trichotomy i i' with hlt | heq | hlt
  · have h1 := hfirst' i hlt
    have h2 := hmax candidates[i'] (List.getElem_mem hi')
    omega
  · exact heq
  · have h1 := hfirst i' hlt
    have h2 := hmax' candidates[i] (List.getElem_mem hi)
    omega

theorem pickOverload_eq_none_iff (candidates : List FunctionType) (args : List CType) :
    pickOverload candidates args = none ↔ ∀ f ∈ candidates, f.scoreArguments args = 0 := by
  have hnil : pickOverload candidates args = none ↔ scoredCandidates candidates args = [] := by
    rw [pickOverload, Option.map_eq_none_iff, List.head?_eq_none_iff, ← List.length_eq_zero_iff,
      rankOverloads_eq, List.length_mergeSort, List.length_eq_zero_iff]
  rw [hnil]
  constructor
  · intro hnil f hf
    obtain ⟨i, hi, rfl⟩ := List.mem_iff_getElem.mp hf
    by_contra hne
    have hmem := mem_scoredCandidates.mpr ⟨hi, rfl, Nat.pos_of_ne_zero hne⟩
    simp [hnil] at hmem
  · intro hzero
    refine List.eq_nil_iff_forall_not_mem.mpr fun ⟨i, s⟩ hmem => ?_
    obtain ⟨hi, rfl, hpos⟩ := mem_scoredCandidates.mp hmem
    exact absurd (hzero _ (List.getElem_mem hi)) (Nat.pos_iff_ne_zero.mp hpos)

theorem isFirstBest_of_pickOverload {candidates : List FunctionType} {args : List CType} {i : Nat}
    (h : pickOverload candidates args = some i) : IsFirstBest candidates args i := by
  rw [pickOverload, Option.map_eq_some_iff] at h
  obtain ⟨⟨i, s⟩, hhead, rfl⟩ := h
  obtain ⟨hmax, hfirst⟩ := head_rankOverloads hhead
  obtain ⟨hi, rfl, hpos⟩ :=
    mem_scoredCandidates.mp (mem_rankOverloads.mp (List.mem_of_head? hhead))
  refine ⟨hi, hpos, fun f hf => ?_, fun j hj => ?_⟩
  · -- a candidate with score zero is no better; the others were ranked
    obtain ⟨j, hj, rfl⟩ := List.mem_iff_getElem.mp hf
    by_cases hzero : candidates[j].scoreArguments args = 0
    · omega
    · exact hmax (j, _) (mem_scoredCandidates.mpr ⟨hj, rfl, Nat.pos_of_ne_zero hzero⟩)
  · by_cases hzero : candidates[j].scoreArguments args = 0
    · rw [hzero]
      exact hpos
    · exact hfirst (j, _) (mem_scoredCandidates.mpr ⟨_, rfl, Nat.pos_of_ne_zero hzero⟩) hj

theorem pickOverload_eq_some_iff {candidates : List FunctionType} {args : List CType} {i : Nat} :
    pickOverload candidates args = some i ↔ IsFirstBest candidates args i := by
  refine ⟨isFirstBest_of_pickOverload, fun h => ?_⟩
  have hi := h.1
  have hpos := h.2.1
  cases hpick : pickOverload candidates args with
  | none =>
    have := (pickOverload_eq_none_iff candidates args).mp hpick _ (List.getElem_mem hi)
    omega
  | some i' => exact congrArg some ((isFirstBest_of_pickOverload hpick).unique h)

/-- Overload resolution picks the first best candidate. A candidate scores zero when the arguments
cannot be passed to it (too many, fewer than its parameters without defaults, or one without a
conversion to its parameter), and otherwise one plus the conversion scores of the arguments given.
No candidate is picked exactly when all score zero; otherwise the one picked has the highest
score, and every candidate before it scores lower. -/
theorem overloadResolution_firstBest (candidates : List FunctionType) (args : List CType) :
    (∀ f : FunctionType,
      (f.scoreArguments args = 0 ↔
        f.params.length < args.length ∨ args.length < f.requiredCount ∨
          ∃ j, ∃ (hj : j < args.length) (hp : j < f.params.length),
            args[j].score f.params[j].type = 0) ∧
      (¬(f.params.length < args.length ∨ args.length < f.requiredCount ∨
          ∃ j, ∃ (hj : j < args.length) (hp : j < f.params.length),
            args[j].score f.params[j].type = 0) →
        f.scoreArguments args =
          1 + ((args.zip f.params).map (fun (a, p) => a.score p.type)).sum)) ∧
    (pickOverload candidates args = none ↔ ∀ f ∈ candidates, f.scoreArguments args = 0) ∧
    ∀ i, pickOverload candidates args = some i ↔
      ∃ hi : i < candidates.length, 0 < candidates[i].scoreArguments args ∧
        (∀ f ∈ candidates, f.scoreArguments args ≤ candidates[i].scoreArguments args) ∧
        ∀ j (hj : j < i), candidates[j].scoreArguments args < candidates[i].scoreArguments args :=
  ⟨fun f => ⟨f.scoreArguments_eq_zero_iff args, f.scoreArguments_of_passable args⟩,
    pickOverload_eq_none_iff candidates args, fun _ => pickOverload_eq_some_iff⟩

/-- A `char` widens as well to `long long` as to `short`, so the first declared is picked. -/
example : pickOverload
    [.mk .void [.mk "x" (.basic (.make .longLong .signed {})) none] false,
      .mk .void [.mk "x" (.basic (.make .short .signed {})) none] false]
    [.basic (.make .char .signed {})] = some 0 :=
  pickOverload_eq_some_iff.mpr (by unfold IsFirstBest; decide)

/-- No conversion takes a `double` to an `int*`, and no argument fits no parameter. -/
example : pickOverload
    [.mk .void [.mk "p" (.pointer (.basic (.make .int .signed {}))) none] false, .mk .void [] false]
    [.basic (.make .double .signed {})] = none :=
  (pickOverload_eq_none_iff _ _).mpr (by decide)

end CStack
