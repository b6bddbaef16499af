import CStack.Diagnostic.Report

/-!
# What a report keeps

A report files diagnostics through two filters. When deduplication is on, a diagnostic is
dropped if it has a real primary span (one other than `0..0`) and an earlier diagnostic had the
same code, primary span and message; a diagnostic without a label, or at `0..0`, is never
dropped as a repeat. Of what remains, the first `errorLimit` are kept (all of them for a limit
of `0`) and the others are counted as suppressed.

The two filters are stated here as functions of the whole sequence of filed diagnostics
(`ReportConfig.remaining`, `ReportConfig.limit`), and the report built by filing them one at a
time is proved to hold exactly the kept ones, to count them, and to count the other remaining
ones as suppressed (`Report.fileAll_keepsFirstUnrepeated`). Keys compare messages themselves,
which is what comparing a hash of them does on messages the hash tells apart.

One invariant is carried along the sequence (`Report.Tracks`): the remembered keys are exactly
the keys filed so far, kept or suppressed. A repeat of a suppressed diagnostic is therefore
dropped too, since the key was remembered before the limit was looked at.
-/

namespace CStack

namespace Diagnostic

/-- Whether `d` repeats one of `earlier`: it has a real primary span, and one of them has the
same code, primary span and message. -/
def repeats (earlier : List Diagnostic) (d : Diagnostic) : Bool :=
  match d.primarySpan? with
  | some s => !s.isNone && earlier.any fun e =>
      e.code == d.code && e.primarySpan? == some s && e.message == d.message
  | none => false

/-- The diagnostics of a sequence that repeat none before them, `earlier` included, in order. -/
def dropRepeats (earlier : List Diagnostic) : List Diagnostic → List Diagnostic
  | [] => []
  | d :: ds =>
    if repeats earlier d then dropRepeats (earlier ++ [d]) ds
    else d :: dropRepeats (earlier ++ [d]) ds

theorem key?_eq_some {d : Diagnostic} {k : Code × Span × String} :
    d.key? = some k ↔ ∃ s, d.primarySpan? = some s ∧ s.isNone = false ∧ k = (d.code, s, d.message) := by
  unfold key?
  cases d.primarySpan? with
  | none => simp
  | some s =>
    cases hs : s.isNone
    · simp only [hs, Bool.false_eq_true, if_false, Option.some.injEq]
      constructor
      · rintro rfl
        exact ⟨s, rfl, hs, rfl⟩
      · rintro ⟨s', hs', -, rfl⟩
        cases hs'
        rfl
    · simp [hs]

theorem repeats_iff {earlier : List Diagnostic} {d : Diagnostic} :
    repeats earlier d = true ↔ ∃ k, d.key? = some k ∧ ∃ e ∈ earlier, e.key? = some k := by
  unfold repeats
  cases hd : d.primarySpan? with
  | none => simp [key?, hd]
  | some s =>
    cases hs : s.isNone
    · simp only [hs, hd, Bool.not_false, Bool.true_and, List.any_eq_true, Bool.and_eq_true,
        beq_iff_eq, key?_eq_some, Option.some.injEq]
      constructor
      · rintro ⟨e, he, ⟨hcode, hspan⟩, hmsg⟩
        exact ⟨_, ⟨s, rfl, hs, rfl⟩, e, he, s, hspan, hs, by rw [hcode, hmsg]⟩
      · rintro ⟨_, ⟨s', rfl, -, rfl⟩, e, he, t, hspan, -, hkey⟩
        simp only [Prod.mk.injEq] at hkey
        obtain ⟨hcode, rfl, hmsg⟩ := hkey
        exact ⟨e, he, ⟨hcode.symm, hspan⟩, hmsg.symm⟩
    · simp [key?, hd, hs]

theorem repeats_nil (d : Diagnostic) : repeats [] d = false := by
  unfold repeats
  split <;> simp

theorem dropRepeats_append_singleton (earlier ds : List Diagnostic) (d : Diagnostic) :
    dropRepeats earlier (ds ++ [d]) =
      dropRepeats earlier ds ++ (if repeats (earlier ++ ds) d then [] else [d]) := by
  induction ds generalizing earlier with
  | nil => by_cases h : repeats earlier d <;> simp [dropRepeats, h]
  | cons e ds ih =>
    have hassoc : earlier ++ [e] ++ ds = earlier ++ e :: ds := by simp
    simp only [List.cons_append, dropRepeats, ih, hassoc]
    split <;> simp

end Diagnostic

namespace ReportConfig

variable (c : ReportConfig)

/-- The diagnostics the first filter lets through: all of them, or when deduplication is on
those that repeat no earlier one. -/
def remaining (ds : List Diagnostic) : List Diagnostic :=
  if c.deduplicate then Diagnostic.dropRepeats [] ds else ds

/-- The diagnostics the error limit keeps: the first `errorLimit`, all of them for `0`. -/
def limit (ds : List Diagnostic) : List Diagnostic :=
  if c.errorLimit = 0 then ds else ds.take c.errorLimit

theorem remaining_nil : c.remaining [] = [] := by
  unfold remaining
  split <;> rfl

theorem remaining_eq_nil_iff (ds : List Diagnostic) : c.remaining ds = [] ↔ ds = [] := by
  unfold remaining
  cases ds with
  | nil => split <;> simp [Diagnostic.dropRepeats]
  | cons d ds => split <;> simp [Diagnostic.dropRepeats, Diagnostic.repeats_nil]

theorem length_limit (ds : List Diagnostic) :
    (c.limit ds).length = if c.errorLimit = 0 then ds.length else min c.errorLimit ds.length := by
  unfold limit
  split <;> simp

theorem limit_append_singleton (ds : List Diagnostic) (d : Diagnostic) :
    c.limit (ds ++ [d]) =
      if c.errorLimit ≠ 0 ∧ c.errorLimit ≤ ds.length then c.limit ds else c.limit ds ++ [d] := by
  unfold limit
  by_cases h0 : c.errorLimit = 0
  · simp [h0]
  · by_cases hle : c.errorLimit ≤ ds.length
    · simp [h0, hle, List.take_append_of_le_length hle]
    · have hlt : ds.length < c.errorLimit := by omega
      simp [h0, hle, List.take_of_length_le (Nat.le_of_lt hlt),
        List.take_of_length_le (show (ds ++ [d]).length ≤ c.errorLimit by simp; omega)]

end ReportConfig

namespace Report

variable {c : ReportConfig} {r : Report} {ds : List Diagnostic}

/-- The report after filing diagnostics one after another. -/
def fileAll (r : Report) (ds : List Diagnostic) : Report := ds.foldl add r

theorem seen_accept (r : Report) (d : Diagnostic) : (r.accept d).seen = r.seen := by
  unfold accept
  split <;> rfl

theorem config_accept (r : Report) (d : Diagnostic) : (r.accept d).config = r.config := by
  unfold accept
  split <;> rfl

/-! ### The three ways a diagnostic is filed -/

theorem add_of_seen {d : Diagnostic} {k : Code × Span × String} (hdedup : r.config.deduplicate = true)
    (hkey : d.key? = some k) (hk : k ∈ r.seen) : r.add d = r := by
  simp [add, hdedup, hkey, hk]

theorem add_of_unseen {d : Diagnostic} {k : Code × Span × String}
    (hdedup : r.config.deduplicate = true) (hkey : d.key? = some k) (hk : k ∉ r.seen) :
    r.add d = { r with seen := k :: r.seen }.accept d := by
  simp [add, hdedup, hkey, hk]

theorem add_of_unkeyed {d : Diagnostic} (h : r.config.deduplicate = true → d.key? = none) :
    r.add d = r.accept d := by
  unfold add
  by_cases hdedup : r.config.deduplicate = true
  · simp [hdedup, h hdedup]
  · simp [hdedup]

/-! ### The limit -/

/-- `r` holds what the error limit makes of `remaining`: the kept diagnostics, their count, and
the others counted as suppressed. -/
structure Limits (c : ReportConfig) (remaining : List Diagnostic) (r : Report) : Prop where
  config : r.config = c
  kept : r.diagnostics.toList = c.limit remaining
  errorCount : r.errorCount = r.diagnostics.size
  suppressed : r.suppressed = remaining.length - (c.limit remaining).length

theorem Limits.accept {L : List Diagnostic} (h : Limits c L r) (d : Diagnostic) :
    Limits c (L ++ [d]) (r.accept d) := by
  obtain ⟨rfl, hkept, herrors, hsuppressed⟩ := h
  have hcount : r.errorCount = (r.config.limit L).length := by
    rw [herrors, ← Array.length_toList, hkept]
  have hlen := r.config.length_limit L
  unfold Report.accept
  by_cases hfull : r.config.errorLimit ≠ 0 ∧ r.config.errorLimit ≤ L.length
  · -- the limit is reached: only the suppressed count moves
    rw [if_neg hfull.1] at hlen
    have hcond : (decide (r.config.errorLimit > 0) && decide (r.errorCount ≥ r.config.errorLimit)) =
        true := by
      simp only [Bool.and_eq_true, decide_eq_true_eq]
      omega
    rw [if_pos hcond]
    refine ⟨rfl, ?_, herrors, ?_⟩
    · rw [r.config.limit_append_singleton, if_pos hfull]
      exact hkept
    · show r.suppressed + 1 = _
      rw [r.config.limit_append_singleton, if_pos hfull, hsuppressed, List.length_append,
        List.length_singleton]
      omega
  · have hcond : ¬(decide (r.config.errorLimit > 0) && decide (r.errorCount ≥ r.config.errorLimit)) =
        true := by
      simp only [Bool.and_eq_true, decide_eq_true_eq]
      split at hlen <;> omega
    rw [if_neg hcond]
    refine ⟨rfl, ?_, ?_, ?_⟩
    · show (r.diagnostics.push d).toList = _
      rw [r.config.limit_append_singleton, if_neg hfull, Array.toList_push, hkept]
    · show r.errorCount + 1 = (r.diagnostics.push d).size
      rw [Array.size_push, herrors]
    · show r.suppressed = _
      rw [r.config.limit_append_singleton, if_neg hfull, hsuppressed, List.length_append,
        List.length_append, List.length_singleton]
      split at hlen <;> omega

/-! ### The whole report -/

/-- `r` is the report after filing `ds` under `c`: what it keeps and counts is what the two
filters make of `ds`, and it remembers the key of every diagnostic filed, kept or not. -/
structure Tracks (c : ReportConfig) (ds : List Diagnostic) (r : Report) : Prop
    extends Limits c (c.remaining ds) r where
  seen : ∀ k, k ∈ r.seen ↔ c.deduplicate = true ∧ ∃ d ∈ ds, d.key? = some k

theorem tracks_empty (c : ReportConfig) : Tracks c [] (Report.empty c) where
  config := rfl
  kept := by simp [Report.empty, c.remaining_nil, ReportConfig.limit]
  errorCount := rfl
  suppressed := by simp [Report.empty, c.remaining_nil, ReportConfig.limit]
  seen := by simp [Report.empty]

theorem Tracks.add (h : Tracks c ds r) (d : Diagnostic) : Tracks c (ds ++ [d]) (r.add d) := by
  have hconfig := h.config
  by_cases hdedup : c.deduplicate = true
  · have hrem (hrep : Diagnostic.repeats ds d = false) :
        c.remaining (ds ++ [d]) = c.remaining ds ++ [d] := by
      simp [ReportConfig.remaining, hdedup, Diagnostic.dropRepeats_append_singleton, hrep]
    cases hkey : d.key? with
    | none =>
      -- a diagnostic without a key is never a repeat and adds no key
      have hrep : Diagnostic.repeats ds d = false := by
        cases hr : Diagnostic.repeats ds d
        · rfl
        · obtain ⟨k, hk, -⟩ := Diagnostic.repeats_iff.mp hr
          rw [hkey] at hk
          cases hk
      rw [add_of_unkeyed (fun _ => hkey)]
      refine ⟨hrem hrep ▸ h.toLimits.accept d, fun k => ?_⟩
      rw [seen_accept, h.seen k]
      simp [hkey]
    | some k =>
      by_cases hk : k ∈ r.seen
      · -- a repeat: the report is unchanged and so is what the filters let through
        have hrep : Diagnostic.repeats ds d = true := by
          obtain ⟨-, e, he, hek⟩ := (h.seen k).mp hk
          exact Diagnostic.repeats_iff.mpr ⟨k, hkey, e, he, hek⟩
        have hsame : c.remaining (ds ++ [d]) = c.remaining ds := by
          simp [ReportConfig.remaining, hdedup, Diagnostic.dropRepeats_append_singleton, hrep]
        rw [add_of_seen (hconfig ▸ hdedup) hkey hk]
        refine ⟨hsame ▸ h.toLimits, fun k' => ?_⟩
        rw [h.seen k']
        simp only [List.mem_append, List.mem_singleton]
        constructor
        · rintro ⟨hd, e, he, hek⟩
          exact ⟨hd, e, .inl he, hek⟩
        · rintro ⟨hd, e, he | rfl, hek⟩
          · exact ⟨hd, e, he, hek⟩
          · rw [hkey] at hek
            cases hek
            exact (h.seen k).mp hk
      · -- a first occurrence: its key is remembered and it goes on to the limit
        have hrep : Diagnostic.repeats ds d = false := by
          cases hr : Diagnostic.repeats ds d
          · rfl
          · obtain ⟨k', hk', e, he, hek⟩ := Diagnostic.repeats_iff.mp hr
            rw [hkey] at hk'
            cases hk'
            exact absurd ((h.seen k).mpr ⟨hdedup, e, he, hek⟩) hk
        rw [add_of_unseen (hconfig ▸ hdedup) hkey hk]
        have hlim : Limits c (c.remaining ds) { r with seen := k :: r.seen } :=
          ⟨h.config, h.kept, h.errorCount, h.suppressed⟩
        refine ⟨hrem hrep ▸ hlim.accept d, fun k' => ?_⟩
        rw [seen_accept, List.mem_cons, h.seen k']
        simp only [List.mem_append, List.mem_singleton]
        constructor
        · rintro (rfl | ⟨hd, e, he, hek⟩)
          · exact ⟨hdedup, d, .inr rfl, hkey⟩
          · exact ⟨hd, e, .inl he, hek⟩
        · rintro ⟨hd, e, he | rfl, hek⟩
          · exact .inr ⟨hd, e, he, hek⟩
          · rw [hkey] at hek
            exact .inl (Option.some.inj hek).symm
  · -- without deduplication every diagnostic goes on to the limit and no key is remembered
    have hrem : c.remaining (ds ++ [d]) = c.remaining ds ++ [d] := by
      simp [ReportConfig.remaining, hdedup]
    rw [add_of_unkeyed (fun hd => absurd (hconfig ▸ hd) hdedup)]
    refine ⟨hrem ▸ h.toLimits.accept d, fun k => ?_⟩
    rw [seen_accept, h.seen k]
    simp [hdedup]

theorem Tracks.fileAll (h : Tracks c ds r) (more : List Diagnostic) :
    Tracks c (ds ++ more) (r.fileAll more) := by
  induction more generalizing ds r with
  | nil => simpa [Report.fileAll] using h
  | cons d more ih =>
    have hstep := ih (h.add d)
    rwa [List.append_assoc, List.singleton_append] at hstep

theorem Tracks.hasErrors_iff (h : Tracks c ds r) : r.hasErrors = true ↔ ds ≠ [] := by
  have hkept : r.diagnostics.size = (c.limit (c.remaining ds)).length := by
    rw [← Array.length_toList, h.kept]
  have hlen := c.length_limit (c.remaining ds)
  unfold Report.hasErrors
  rw [h.errorCount, h.suppressed, hkept, ne_eq, ← c.remaining_eq_nil_iff, ← List.length_eq_zero_iff]
  simp only [Bool.or_eq_true, decide_eq_true_eq]
  split at hlen <;> omega

/-- The report built by filing a sequence of diagnostics keeps exactly the first `errorLimit`
(all, for `0`) of those that repeat no earlier one (all of them, without deduplication), counts
them as its errors, counts the other remaining ones as suppressed, and has errors exactly when
something was filed. -/
theorem fileAll_keepsFirstUnrepeated (c : ReportConfig) (ds : List Diagnostic) :
    let r := (Report.empty c).fileAll ds
    r.diagnostics.toList = c.limit (c.remaining ds) ∧ r.errorCount = r.diagnostics.size ∧
      r.suppressed = (c.remaining ds).length - (c.limit (c.remaining ds)).length ∧
      (r.hasErrors = true ↔ ds ≠ []) := by
  intro r
  have h : Tracks c ds r := by simpa using (tracks_empty c).fileAll ds
  exact ⟨h.kept, h.errorCount, h.suppressed, h.hasErrors_iff⟩

end Report

end CStack
