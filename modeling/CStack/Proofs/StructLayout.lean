import Mathlib
import CStack.Types.Registry

/-!
# Struct layout

A registry is built by declaring struct names and then defining declared structs with their
members, in any order, each at most once (`Registry.Built`). Defining a struct lays out its
fields one after another, and fails when a field holds a struct by value that is not yet defined.
So a struct only ever contains structs defined before it, and containment goes down a rank: the
position at which each struct was defined. `Registry.Sound` is the invariant that every built
registry keeps: entries sit at their own index, an undefined entry is empty, every defined entry
has the layout its members give in the registry as it is now, and a rank below the number of
defined structs decreases along containment.

From the rank, the flattening of a type into cell kinds never runs out of depth: it is the same at
every depth past the number of structs, and it unfolds a struct into its fields' kinds. The cell
count stored with a struct is a 32-bit word: it is the number of its cells modulo `2 ^ 32`, and
exactly that number for a struct of fewer cells, whose offsets are then the sums of the cells of
the fields before each, and whose flattened kinds hold, at each field's offset, that field's
kinds. The main statement is `Registry.Built.structLayout`.
-/

namespace CStack

namespace Registry

/-- The cells a member takes in its struct: a field those of its type, a method none. -/
def memberCells (r : Registry) : StructMember → Nat
  | .field _ t => r.cellCount t
  | .method _ _ => 0

/-- The kinds of the cells a member takes, nested structs flattened. -/
def memberKinds (r : Registry) : StructMember → List Kind
  | .field _ t => r.cellKinds t
  | .method _ _ => []

/-- The number of defined structs. -/
def definedCount (r : Registry) : Nat := r.structs.countP (·.defined)

/-- Struct `a` holds a field of struct type `b` by value. -/
def Contains (r : Registry) (a b : StructId) : Prop :=
  ∃ st, r.get? a = some st ∧ ∃ name, StructMember.field name (.struct b) ∈ st.members

/-- The registries obtained from the empty one by declaring names and defining declared structs
that are not yet defined, as the struct pass of a unit does. -/
inductive Built : Registry → Prop
  | empty : Built {}
  | declare {r : Registry} (name : String) : Built r → Built (r.declare name).2
  | define {r r' : Registry} {id : StructId} {st : StructType} {members : List StructMember} :
      Built r → r.get? id = some st → st.defined = false → r.define id members = .ok r' →
      Built r'

/-- A rank for the defined structs: below the number of defined structs, and larger for a struct
than for every struct it holds by value. -/
def Ranked (r : Registry) (rank : Nat → Nat) : Prop :=
  ∀ st ∈ r.structs, st.defined = true → rank st.id.index < r.definedCount ∧
    ∀ name b, StructMember.field name (.struct b) ∈ st.members → rank b.index < rank st.id.index

/-- What every built registry keeps: each entry sits at its own index; an undefined entry has no
members and no cells; a defined entry's offsets and cell count are what its members lay out to in
the registry as it is; and the defined structs have a rank. -/
structure Sound (r : Registry) : Prop where
  ids : ∀ (i : Nat) (h : i < r.structs.size), r.structs[i].id.index = i
  undefined : ∀ st ∈ r.structs, st.defined = false → st.members = [] ∧ st.cellCount = 0
  layout : ∀ st ∈ r.structs, st.defined = true →
    r.layout st.members 0 = .ok (st.offsets, st.cellCount)
  ranked : ∃ rank, r.Ranked rank

/-! ### Looking entries up -/

theorem get?_eq_some_iff {r : Registry} {id : StructId} {st : StructType} :
    r.get? id = some st ↔ r.structs[id.index]? = some st ∧ st.id.name = id.name := by
  unfold get?
  cases hs : r.structs[id.index]? with
  | none => simp
  | some s =>
    by_cases hn : s.id.name = id.name
    · simp only [hn, if_true, Option.some.injEq]
      constructor
      · rintro rfl
        exact ⟨rfl, hn⟩
      · rintro ⟨rfl, -⟩
        rfl
    · simp only [hn, if_false, reduceCtorEq, Option.some.injEq, false_iff, not_and]
      rintro rfl
      exact hn

theorem mem_of_get? {r : Registry} {id : StructId} {st : StructType} (h : r.get? id = some st) :
    st ∈ r.structs :=
  Array.mem_of_getElem? (get?_eq_some_iff.mp h).1

theorem Sound.get?_id {r : Registry} (h : r.Sound) {st : StructType} (hst : st ∈ r.structs) :
    r.get? st.id = some st := by
  obtain ⟨i, hi, rfl⟩ := Array.mem_iff_getElem.mp hst
  exact get?_eq_some_iff.mpr ⟨by rw [h.ids i hi]; simp, rfl⟩

theorem Sound.index_of_get? {r : Registry} (h : r.Sound) {id : StructId} {st : StructType}
    (hget : r.get? id = some st) : st.id.index = id.index := by
  obtain ⟨hidx, -⟩ := get?_eq_some_iff.mp hget
  obtain ⟨hlt, rfl⟩ := Array.getElem?_eq_some_iff.mp hidx
  exact h.ids _ hlt

theorem get?_declare {r : Registry} {id : StructId} {st : StructType} (name : String)
    (h : r.get? id = some st) : (r.declare name).2.get? id = some st := by
  obtain ⟨hidx, hname⟩ := get?_eq_some_iff.mp h
  have hlt : id.index < r.structs.size := (Array.getElem?_eq_some_iff.mp hidx).1
  unfold declare
  split
  · exact h
  · refine get?_eq_some_iff.mpr ⟨?_, hname⟩
    rw [Array.getElem?_push_lt hlt, ← Array.getElem?_eq_getElem hlt]
    exact hidx

/-! ### What defining a struct does -/

theorem define_eq_ok {r r' : Registry} {id : StructId} {members : List StructMember}
    (h : r.define id members = .ok r') :
    ∃ offsets cells s, r.layout members 0 = .ok (offsets, cells) ∧
      r.structs[id.index]? = some s ∧
      r' = { structs := r.structs.setIfInBounds id.index
                  { s with members, offsets, cellCount := cells, defined := true } } := by
  unfold define at h
  simp only [bind, Except.bind] at h
  split at h
  · cases h
  · rename_i p hlayout
    split at h
    · cases h
    · rename_i s hs
      cases h
      exact ⟨p.1, p.2, s, hlayout, hs, rfl⟩

theorem get?_define_of_ne {r r' : Registry} {id b : StructId} {members : List StructMember}
    (h : r.define id members = .ok r') (hne : b.index ≠ id.index) : r'.get? b = r.get? b := by
  obtain ⟨offsets, cells, s, -, -, rfl⟩ := define_eq_ok h
  unfold get?
  rw [Array.getElem?_setIfInBounds_ne (Ne.symm hne)]

/-! ### Laying members out -/

/-- Whether a field of this type can be laid out now: a struct held by value must be defined. -/
def fieldReady (r : Registry) : CType → Bool
  | .struct inner => ((r.get? inner).map (·.defined)).getD false
  | _ => true

theorem fieldReady_struct_iff {r : Registry} {b : StructId} :
    r.fieldReady (.struct b) = true ↔ ∃ T, r.get? b = some T ∧ T.defined = true := by
  cases hget : r.get? b <;> simp [fieldReady, hget]

theorem layout_method (r : Registry) (name : String) (f : FunctionType)
    (rest : List StructMember) (total : Nat) :
    r.layout (.method name f :: rest) total =
      (r.layout rest total).map fun p => (0 :: p.1, p.2) := by
  simp only [layout, bind, Except.bind]
  cases r.layout rest total <;> rfl

theorem layout_field_of_ready {r : Registry} {name : String} {t : CType}
    (rest : List StructMember) (total : Nat) (h : r.fieldReady t = true) :
    r.layout (.field name t :: rest) total =
      (r.layout rest ((total + r.cellCount t) % 2 ^ 32)).map fun p => (total :: p.1, p.2) := by
  cases t with
  | struct inner =>
    simp only [fieldReady] at h
    simp only [layout, h, Bool.not_true, Bool.false_eq_true, if_false, bind, Except.bind]
    cases r.layout rest _ <;> rfl
  | _ =>
    simp only [layout, bind, Except.bind]
    cases r.layout rest _ <;> rfl

theorem layout_field_of_not_ready {r : Registry} {b : StructId} (name : String)
    (rest : List StructMember) (total : Nat) (h : r.fieldReady (.struct b) = false) :
    r.layout (.field name (.struct b) :: rest) total = .error (.incomplete b.name) := by
  simp only [fieldReady] at h
  simp only [layout, h, Bool.not_false, if_true]
  rfl

theorem map_eq_ok {α β ε : Type} {x : Except ε α} {f : α → β} {b : β}
    (h : x.map f = .ok b) : ∃ a, x = .ok a ∧ f a = b := by
  cases x with
  | error e => cases h
  | ok a => exact ⟨a, rfl, by simpa [Except.map] using h⟩

theorem layout_method_eq_ok {r : Registry} {name : String} {f : FunctionType}
    {rest : List StructMember} {total : Nat} {p : List Nat × Nat}
    (h : r.layout (.method name f :: rest) total = .ok p) :
    ∃ q, r.layout rest total = .ok q ∧ p = (0 :: q.1, q.2) := by
  rw [layout_method] at h
  obtain ⟨q, hq, rfl⟩ := map_eq_ok h
  exact ⟨q, hq, rfl⟩

theorem layout_field_eq_ok {r : Registry} {name : String} {t : CType}
    {rest : List StructMember} {total : Nat} {p : List Nat × Nat}
    (h : r.layout (.field name t :: rest) total = .ok p) :
    r.fieldReady t = true ∧
      ∃ q, r.layout rest ((total + r.cellCount t) % 2 ^ 32) = .ok q ∧ p = (total :: q.1, q.2) := by
  cases hready : r.fieldReady t with
  | false =>
    cases t with
    | struct c =>
      rw [layout_field_of_not_ready name rest total hready] at h
      cases h
    | _ => cases hready
  | true =>
    rw [layout_field_of_ready rest total hready] at h
    obtain ⟨q, hq, rfl⟩ := map_eq_ok h
    exact ⟨rfl, q, hq, rfl⟩

theorem layout_fields_defined {r : Registry} :
    ∀ {members : List StructMember} {total : Nat} {p : List Nat × Nat},
      r.layout members total = .ok p →
      ∀ name b, StructMember.field name (.struct b) ∈ members →
        ∃ T, r.get? b = some T ∧ T.defined = true
  | [], _, _, _, name, b, hmem => by cases hmem
  | .method n f :: rest, total, p, h, name, b, hmem => by
    obtain ⟨q, hrest, -⟩ := layout_method_eq_ok h
    rcases List.mem_cons.mp hmem with hmem | hmem
    · cases hmem
    · exact layout_fields_defined hrest name b hmem
  | .field n t :: rest, total, p, h, name, b, hmem => by
    obtain ⟨hready, q, hrest, -⟩ := layout_field_eq_ok h
    rcases List.mem_cons.mp hmem with hmem | hmem
    · -- this field: the check before it passed
      cases hmem
      exact fieldReady_struct_iff.mp hready
    · exact layout_fields_defined hrest name b hmem

theorem layout_eq_ok_sums {r : Registry} :
    ∀ {members : List StructMember} {total : Nat} {offsets : List Nat} {cells : Nat},
      total < 2 ^ 32 → r.layout members total = .ok (offsets, cells) →
      cells = (total + (members.map r.memberCells).sum) % 2 ^ 32 ∧
        ∀ j name t, members[j]? = some (.field name t) →
          offsets[j]? = some ((total + ((members.take j).map r.memberCells).sum) % 2 ^ 32)
  | [], total, offsets, cells, htotal, h => by
    cases h
    refine ⟨by simp only [List.map_nil, List.sum_nil]; omega, fun j name t hj => ?_⟩
    simp at hj
  | .method n f :: rest, total, offsets, cells, htotal, h => by
    obtain ⟨q, hrest, hp⟩ := layout_method_eq_ok h
    cases hp
    obtain ⟨hcells, hoffsets⟩ := layout_eq_ok_sums htotal hrest
    refine ⟨by simpa [memberCells] using hcells, fun j name t hj => ?_⟩
    cases j with
    | zero => cases hj
    | succ k => simpa [memberCells] using hoffsets k name t hj
  | .field n u :: rest, total, offsets, cells, htotal, h => by
    obtain ⟨-, q, hrest, hp⟩ := layout_field_eq_ok h
    cases hp
    obtain ⟨hcells, hoffsets⟩ := layout_eq_ok_sums (Nat.mod_lt _ (by omega)) hrest
    refine ⟨?_, fun j name t hj => ?_⟩
    · simp only [hcells, List.map_cons, List.sum_cons, memberCells]
      omega
    · cases j with
      | zero =>
        simp only [List.getElem?_cons_zero, List.take_zero, List.map_nil, List.sum_nil,
          Option.some.injEq]
        omega
      | succ k =>
        rw [List.getElem?_cons_succ, hoffsets k name t hj]
        simp only [List.take_succ_cons, List.map_cons, List.sum_cons, memberCells,
          Option.some.injEq]
        omega

theorem layout_ok_of_fields_defined {r : Registry} :
    ∀ (members : List StructMember) (total : Nat),
      (∀ name b, StructMember.field name (.struct b) ∈ members →
        ∃ T, r.get? b = some T ∧ T.defined = true) →
      ∃ p, r.layout members total = .ok p
  | [], total, _ => ⟨_, rfl⟩
  | .method n f :: rest, total, h => by
    obtain ⟨q, hq⟩ := layout_ok_of_fields_defined rest total
      fun name b hmem => h name b (List.mem_cons_of_mem _ hmem)
    exact ⟨_, by rw [layout_method, hq]; rfl⟩
  | .field n t :: rest, total, h => by
    have hready : r.fieldReady t = true := by
      cases t with
      | struct b => exact fieldReady_struct_iff.mpr (h n b (by simp))
      | _ => rfl
    obtain ⟨q, hq⟩ := layout_ok_of_fields_defined rest ((total + r.cellCount t) % 2 ^ 32)
      fun name b hmem => h name b (List.mem_cons_of_mem _ hmem)
    exact ⟨_, by rw [layout_field_of_ready rest total hready, hq]; rfl⟩

theorem layout_congr {r r' : Registry} :
    ∀ (members : List StructMember) (total : Nat),
      (∀ name b, StructMember.field name (.struct b) ∈ members → r'.get? b = r.get? b) →
      r'.layout members total = r.layout members total
  | [], total, _ => rfl
  | .method n f :: rest, total, h => by
    rw [layout_method, layout_method,
      layout_congr rest total fun name b hmem => h name b (List.mem_cons_of_mem _ hmem)]
  | .field n t :: rest, total, h => by
    have hrest := fun total => layout_congr rest total
      fun name b hmem => h name b (List.mem_cons_of_mem _ hmem)
    cases t with
    | struct b =>
      have hget := h n b (by simp)
      have hready : r'.fieldReady (.struct b) = r.fieldReady (.struct b) := by
        simp only [fieldReady, hget]
      have hcells : r'.cellCount (.struct b) = r.cellCount (.struct b) := by
        simp only [cellCount, hget]
      cases hr : r.fieldReady (.struct b) with
      | false =>
        rw [layout_field_of_not_ready n rest total hr,
          layout_field_of_not_ready n rest total (hready.trans hr)]
      | true =>
        rw [layout_field_of_ready rest total hr, layout_field_of_ready rest total (hready.trans hr),
          hcells, hrest]
    | _ =>
      rw [layout_field_of_ready rest total rfl, layout_field_of_ready rest total rfl]
      simp only [cellCount, hrest]

theorem layout_of_defined_kept {r r' : Registry}
    (hkeep : ∀ b T, r.get? b = some T → T.defined = true → r'.get? b = some T)
    {members : List StructMember} {total : Nat} {p : List Nat × Nat}
    (h : r.layout members total = .ok p) : r'.layout members total = .ok p := by
  rw [layout_congr members total fun name b hmem => ?_, h]
  obtain ⟨T, hT, hdef⟩ := layout_fields_defined h name b hmem
  rw [hkeep b T hT hdef, hT]

/-! ### The invariant is kept -/

theorem Sound.index_ne_of_defined {r : Registry} (h : r.Sound) {id : StructId}
    {st T : StructType} (hget : r.get? id = some st) (hst : st.defined = false)
    (hT : T ∈ r.structs) (hdef : T.defined = true) : T.id.index ≠ id.index := by
  intro heq
  obtain ⟨hidx, -⟩ := get?_eq_some_iff.mp hget
  obtain ⟨hidx', -⟩ := get?_eq_some_iff.mp (h.get?_id hT)
  rw [heq, hidx] at hidx'
  have hsame : st = T := Option.some.inj hidx'
  rw [hsame, hdef] at hst
  cases hst

theorem Sound.defined_index_ne {r : Registry} (h : r.Sound) {id b : StructId}
    {st T : StructType} (hget : r.get? id = some st) (hst : st.defined = false)
    (hb : r.get? b = some T) (hdef : T.defined = true) : b.index ≠ id.index := by
  rw [← h.index_of_get? hb]
  exact h.index_ne_of_defined hget hst (mem_of_get? hb) hdef

theorem Sound.empty : Sound ({} : Registry) where
  ids i h := by simp at h
  undefined st hst := by simp at hst
  layout st hst := by simp at hst
  ranked := ⟨fun _ => 0, fun st hst => by simp at hst⟩

theorem declare_eq (r : Registry) (name : String) :
    (r.declare name).2 = r ∨
      (r.declare name).2 = { structs := r.structs.push { id := ⟨r.structs.size, name⟩ } } := by
  unfold declare
  split
  · exact .inl rfl
  · exact .inr rfl

theorem definedCount_push (r : Registry) (st : StructType) (hst : st.defined = false) :
    definedCount { structs := r.structs.push st } = r.definedCount := by
  simp [definedCount, hst]

theorem Sound.declare {r : Registry} (h : r.Sound) (name : String) : (r.declare name).2.Sound := by
  have hkeep : ∀ b T, r.get? b = some T → T.defined = true → (r.declare name).2.get? b = some T :=
    fun b T hT _ => get?_declare name hT
  rcases declare_eq r name with heq | heq
  · rw [heq]
    exact h
  rw [heq] at hkeep ⊢
  obtain ⟨rank, hrank⟩ := h.ranked
  refine ⟨fun i hi => ?_, fun st hst hdef => ?_, fun st hst hdef => ?_, rank, fun st hst hdef => ?_⟩
  · rw [Array.getElem_push]
    split
    · exact h.ids i _
    · simp only [Array.size_push] at hi
      dsimp only
      omega
  · rcases Array.mem_push.mp hst with hst | rfl
    · exact h.undefined st hst hdef
    · exact ⟨rfl, rfl⟩
  · rcases Array.mem_push.mp hst with hst | rfl
    · exact layout_of_defined_kept hkeep (h.layout st hst hdef)
    · cases hdef
  · rcases Array.mem_push.mp hst with hst | rfl
    · rw [definedCount_push r _ rfl]
      exact hrank st hst hdef
    · cases hdef

theorem definedCount_define {r : Registry} {id : StructId} {st : StructType}
    (hidx : r.structs[id.index]? = some st) (hst : st.defined = false) (new : StructType)
    (hnew : new.defined = true) :
    definedCount { structs := r.structs.setIfInBounds id.index new } = r.definedCount + 1 := by
  obtain ⟨hlt, rfl⟩ := Array.getElem?_eq_some_iff.mp hidx
  simp only [definedCount, Array.setIfInBounds_def, hlt, dite_true, Array.countP_set, hst, hnew]
  simp

theorem Sound.define {r r' : Registry} (h : r.Sound) {id : StructId} {st : StructType}
    {members : List StructMember} (hget : r.get? id = some st) (hst : st.defined = false)
    (hdef : r.define id members = .ok r') : r'.Sound := by
  -- every defined struct sits away from the entry that changes, so it is found as before
  have hkeep : ∀ b T, r.get? b = some T → T.defined = true → r'.get? b = some T :=
    fun b T hb hT => (get?_define_of_ne hdef (h.defined_index_ne hget hst hb hT)).trans hb
  obtain ⟨offsets, cells, s, hlayout, hs, rfl⟩ := define_eq_ok hdef
  obtain ⟨hidx, -⟩ := get?_eq_some_iff.mp hget
  rw [hidx] at hs
  cases hs
  have hsid : st.id.index = id.index := h.index_of_get? hget
  obtain ⟨rank, hrank⟩ := h.ranked
  refine ⟨fun i hi => ?_, fun T hT hTdef => ?_, fun T hT hTdef => ?_,
    Function.update rank id.index r.definedCount, fun T hT hTdef => ?_⟩
  · simp only [Array.size_setIfInBounds] at hi
    rw [Array.getElem_setIfInBounds hi]
    split
    · rename_i heq
      rw [← heq]
      exact hsid
    · exact h.ids i hi
  · rcases Array.mem_or_eq_of_mem_setIfInBounds hT with hT | rfl
    · exact h.undefined T hT hTdef
    · cases hTdef
  · rcases Array.mem_or_eq_of_mem_setIfInBounds hT with hT | rfl
    · exact layout_of_defined_kept hkeep (h.layout T hT hTdef)
    · exact layout_of_defined_kept hkeep hlayout
  · rw [definedCount_define hidx hst _ rfl]
    -- a field's struct is defined before, so it keeps its rank, below the old count
    have hfield : ∀ {U : StructType}, U ∈ r.structs → U.defined = true → ∀ name b,
        StructMember.field name (.struct b) ∈ U.members →
        Function.update rank id.index r.definedCount b.index = rank b.index ∧
          rank b.index < r.definedCount := by
      intro U hU hUdef name b hmem
      obtain ⟨V, hV, hVdef⟩ := layout_fields_defined (h.layout U hU hUdef) name b hmem
      refine ⟨Function.update_of_ne (h.defined_index_ne hget hst hV hVdef) _ _, ?_⟩
      rw [← h.index_of_get? hV]
      exact (hrank V (mem_of_get? hV) hVdef).1
    rcases Array.mem_or_eq_of_mem_setIfInBounds hT with hT | rfl
    · -- an old struct keeps its rank
      have hne := h.index_ne_of_defined hget hst hT hTdef
      rw [Function.update_of_ne hne]
      refine ⟨Nat.lt_succ_of_lt (hrank T hT hTdef).1, fun name b hmem => ?_⟩
      rw [(hfield hT hTdef name b hmem).1]
      exact (hrank T hT hTdef).2 name b hmem
    · -- the new struct takes the old count as its rank
      dsimp only
      rw [hsid, Function.update_self]
      refine ⟨Nat.lt_succ_self _, fun name b hmem => ?_⟩
      obtain ⟨V, hV, hVdef⟩ := layout_fields_defined hlayout name b hmem
      rw [Function.update_of_ne (h.defined_index_ne hget hst hV hVdef), ← h.index_of_get? hV]
      exact (hrank V (mem_of_get? hV) hVdef).1

theorem Built.sound {r : Registry} (h : r.Built) : r.Sound := by
  induction h with
  | empty => exact Sound.empty
  | declare name _ ih => exact ih.declare name
  | define _ hget hst hdef ih => exact ih.define hget hst hdef

/-! ### Containment goes down the rank -/

section Ranked

variable {r : Registry} {rank : Nat → Nat}

theorem Ranked.field_lt (h : r.Sound) (hrank : r.Ranked rank) {b : StructId} {T : StructType}
    (hb : r.get? b = some T) (hdef : T.defined = true) {name : String} {c : StructId}
    (hmem : StructMember.field name (.struct c) ∈ T.members) : rank c.index < rank b.index := by
  rw [← h.index_of_get? hb]
  exact (hrank T (mem_of_get? hb) hdef).2 name c hmem

theorem Ranked.rank_lt_of_contains (h : r.Sound) (hrank : r.Ranked rank) {a b : StructId}
    (hc : r.Contains a b) : rank b.index < rank a.index := by
  obtain ⟨st, hget, name, hmem⟩ := hc
  cases hdef : st.defined with
  | false =>
    rw [(h.undefined st (mem_of_get? hget) hdef).1] at hmem
    cases hmem
  | true => exact hrank.field_lt h hget hdef hmem

theorem Ranked.rank_lt_of_transGen (h : r.Sound) (hrank : r.Ranked rank) {a b : StructId}
    (hc : Relation.TransGen r.Contains a b) : rank b.index < rank a.index := by
  induction hc with
  | single hab => exact hrank.rank_lt_of_contains h hab
  | tail _ hbc ih => exact (hrank.rank_lt_of_contains h hbc).trans ih

/-- How deep the flattening of a type goes: one level past the rank of a defined struct, none for
anything else. -/
def depth (r : Registry) (rank : Nat → Nat) : CType → Nat
  | .struct b =>
    match r.get? b with
    | some T => if T.defined then rank b.index + 1 else 0
    | none => 0
  | _ => 0

theorem depth_struct (r : Registry) (rank : Nat → Nat) (b : StructId) :
    r.depth rank (.struct b) = 0 ∨
      ∃ T, r.get? b = some T ∧ T.defined = true ∧ r.depth rank (.struct b) = rank b.index + 1 := by
  cases hb : r.get? b with
  | none => exact .inl (by simp only [depth, hb])
  | some T =>
    cases hdef : T.defined with
    | false => exact .inl (by simp only [depth, hb, hdef, Bool.false_eq_true, if_false])
    | true => exact .inr ⟨T, rfl, hdef, by simp only [depth, hb, hdef, if_true]⟩

theorem Ranked.depth_field_le (h : r.Sound) (hrank : r.Ranked rank) {b : StructId}
    {T : StructType} (hb : r.get? b = some T) (hdef : T.defined = true) {name : String}
    {t : CType} (hmem : StructMember.field name t ∈ T.members) : r.depth rank t ≤ rank b.index := by
  cases t with
  | struct c =>
    have hlt := hrank.field_lt h hb hdef hmem
    rcases depth_struct r rank c with hzero | ⟨U, -, -, hone⟩ <;> omega
  | _ => exact Nat.zero_le _

theorem Ranked.depth_le (h : r.Sound) (hrank : r.Ranked rank) (t : CType) :
    r.depth rank t ≤ r.definedCount := by
  cases t with
  | struct b =>
    rcases depth_struct r rank b with hzero | ⟨T, hb, hdef, hone⟩
    · omega
    · have hlt := (hrank T (mem_of_get? hb) hdef).1
      rw [h.index_of_get? hb] at hlt
      omega
  | _ => exact Nat.zero_le _

theorem Ranked.cellKindsWithin_stable (h : r.Sound) (hrank : r.Ranked rank) :
    ∀ (fuel fuel' : Nat) (t : CType), r.depth rank t < fuel → r.depth rank t < fuel' →
      r.cellKindsWithin fuel t = r.cellKindsWithin fuel' t
  | 0, _, _, hf, _ => absurd hf (Nat.not_lt_zero _)
  | _ + 1, 0, _, _, hf' => absurd hf' (Nat.not_lt_zero _)
  | fuel + 1, fuel' + 1, t, hf, hf' => by
    cases t with
    | struct b =>
      unfold cellKindsWithin
      cases hb : r.get? b with
      | none => rfl
      | some T =>
        dsimp only
        cases hdef : T.defined with
        | false =>
          rw [(h.undefined T (mem_of_get? hb) hdef).1]
          rfl
        | true =>
          -- each field flattens below the struct's rank, so both depths still suffice
          have hdepth : r.depth rank (.struct b) = rank b.index + 1 := by
            simp only [depth, hb, hdef, if_true]
          refine List.flatMap_congr fun m hm => ?_
          cases m with
          | field name t =>
            have hle := hrank.depth_field_le h hb hdef hm
            exact hrank.cellKindsWithin_stable h fuel fuel' t (by omega) (by omega)
          | method => rfl
    | _ => rfl

theorem Sound.cellKindsWithin_eq_cellKinds (h : r.Sound) {fuel : Nat} (hfuel : r.structs.size < fuel)
    (t : CType) : r.cellKindsWithin fuel t = r.cellKinds t := by
  obtain ⟨rank, hrank⟩ := h.ranked
  have hle := hrank.depth_le h t
  have hcount : r.definedCount ≤ r.structs.size := Array.countP_le_size
  exact hrank.cellKindsWithin_stable h fuel _ t (by omega) (by omega)

private theorem sum_map_mod_eq_of_forall {α : Type} {l : List α} {f g : α → Nat} {n : Nat}
    (h : ∀ a ∈ l, f a = g a % n) : (l.map f).sum % n = (l.map g).sum % n := by
  rw [List.map_congr_left h, List.sum_nat_mod (l.map g), List.map_map]
  rfl

theorem Ranked.cellCount_eq_length_within (h : r.Sound) (hrank : r.Ranked rank) :
    ∀ (fuel : Nat) (t : CType), r.depth rank t < fuel →
      r.cellCount t = (r.cellKindsWithin fuel t).length % 2 ^ 32
  | 0, _, hf => absurd hf (Nat.not_lt_zero _)
  | fuel + 1, t, hf => by
    cases t with
    | void => rfl
    | basic => rfl
    | pointer => rfl
    | function => rfl
    | struct b =>
      cases hb : r.get? b with
      | none => simp [cellCount, cellKindsWithin, hb]
      | some T =>
        cases hdef : T.defined with
        | false =>
          obtain ⟨hmembers, hcells⟩ := h.undefined T (mem_of_get? hb) hdef
          simp [cellCount, cellKindsWithin, hb, hmembers, hcells]
        | true =>
          -- the stored count is the members' cells summed with wrap-around, and each member's
          -- cells are its kinds counted modulo `2 ^ 32`, one level down
          have hdepth : r.depth rank (.struct b) = rank b.index + 1 := by
            simp only [depth, hb, hdef, if_true]
          obtain ⟨hcells, -⟩ := layout_eq_ok_sums (by norm_num) (h.layout T (mem_of_get? hb) hdef)
          simp only [cellCount, cellKindsWithin, hb, Option.elim, hcells, Nat.zero_add,
            List.length_flatMap]
          refine sum_map_mod_eq_of_forall fun m hm => ?_
          cases m with
          | field name t =>
            have hle := hrank.depth_field_le h hb hdef hm
            exact hrank.cellCount_eq_length_within h fuel t (by omega)
          | method => rfl

end Ranked

section Sound

variable {r : Registry}

theorem Sound.cellCount_eq_length_mod (h : r.Sound) (t : CType) :
    r.cellCount t = (r.cellKinds t).length % 2 ^ 32 := by
  obtain ⟨rank, hrank⟩ := h.ranked
  have hle := hrank.depth_le h t
  have hcount : r.definedCount ≤ r.structs.size := Array.countP_le_size
  exact hrank.cellCount_eq_length_within h _ t (by omega)

theorem Sound.cellKinds_struct (h : r.Sound) {b : StructId} {T : StructType}
    (hb : r.get? b = some T) : r.cellKinds (.struct b) = T.members.flatMap r.memberKinds := by
  obtain ⟨rank, hrank⟩ := h.ranked
  simp only [cellKinds, cellKindsWithin, hb]
  refine List.flatMap_congr fun m hm => ?_
  cases hdef : T.defined with
  | false =>
    rw [(h.undefined T (mem_of_get? hb) hdef).1] at hm
    cases hm
  | true =>
    cases m with
    | field name t =>
      have hle := hrank.depth_field_le h hb hdef hm
      have hlt := (hrank T (mem_of_get? hb) hdef).1
      rw [h.index_of_get? hb] at hlt
      have hcount : r.definedCount ≤ r.structs.size := Array.countP_le_size
      exact hrank.cellKindsWithin_stable h _ _ t (by omega) (by omega)
    | method => rfl

theorem Sound.memberCells_eq_length (h : r.Sound) {m : StructMember}
    (hm : (r.memberKinds m).length < 2 ^ 32) : r.memberCells m = (r.memberKinds m).length := by
  cases m with
  | field name t =>
    rw [memberCells, h.cellCount_eq_length_mod t]
    exact Nat.mod_eq_of_lt hm
  | method => rfl

theorem Sound.map_memberCells_eq (h : r.Sound) {members : List StructMember}
    (hlen : (members.flatMap r.memberKinds).length < 2 ^ 32) :
    members.map r.memberCells = members.map fun m => (r.memberKinds m).length := by
  refine List.map_congr_left fun m hm => h.memberCells_eq_length ?_
  have hle : (r.memberKinds m).length ≤ (members.flatMap r.memberKinds).length := by
    rw [List.length_flatMap]
    exact List.le_sum_of_mem (List.mem_map_of_mem hm)
  omega

theorem Sound.cellKinds_slice (h : r.Sound) {S : StructType} (hS : S ∈ r.structs) {j : Nat}
    {name : String} {t : CType} (hj : S.members[j]? = some (.field name t)) :
    ((r.cellKinds (.struct S.id)).drop
        ((S.members.take j).map fun m => (r.memberKinds m).length).sum).take
      (r.cellKinds t).length = r.cellKinds t := by
  obtain ⟨hlt, hjt⟩ := List.getElem?_eq_some_iff.mp hj
  set L := S.members.map r.memberKinds with hL
  have hjL : j < L.length := by simpa [hL] using hlt
  have hLj : L[j] = r.cellKinds t := by simp [hL, hjt, memberKinds]
  have hprefix : ((S.members.take j).map fun m => (r.memberKinds m).length).sum =
      ((L.map List.length).take j).sum := by
    simp [hL, List.map_take]
    rfl
  have hnext : ((L.map List.length).take (j + 1)).sum =
      ((L.map List.length).take j).sum + (r.cellKinds t).length := by
    rw [List.sum_take_succ _ _ (by simpa using hjL)]
    simp [hLj]
  have hslice := List.drop_take_succ_flatten_eq_getElem L j hjL
  rw [hnext, List.drop_take, Nat.add_sub_cancel_left, hLj] at hslice
  rw [h.cellKinds_struct (h.get?_id hS), List.flatMap_def, hprefix]
  exact hslice

theorem Sound.not_transGen_contains_self (h : r.Sound) (a : StructId) :
    ¬Relation.TransGen r.Contains a a := by
  obtain ⟨rank, hrank⟩ := h.ranked
  intro hc
  exact Nat.lt_irrefl _ (hrank.rank_lt_of_transGen h hc)

theorem Sound.contains_wellFounded (h : r.Sound) : WellFounded fun b a => r.Contains a b := by
  obtain ⟨rank, hrank⟩ := h.ranked
  exact Subrelation.wf (fun hc => hrank.rank_lt_of_contains h hc)
    (InvImage.wf (fun a : StructId => rank a.index) wellFounded_lt)

theorem Sound.struct_sums (h : r.Sound) {S : StructType} (hS : S ∈ r.structs)
    (hdef : S.defined = true) :
    S.cellCount = (S.members.map r.memberCells).sum % 2 ^ 32 ∧
      ∀ j name t, S.members[j]? = some (.field name t) →
        S.offsets[j]? = some (((S.members.take j).map r.memberCells).sum % 2 ^ 32) := by
  obtain ⟨hcells, hoffsets⟩ := layout_eq_ok_sums (by norm_num) (h.layout S hS hdef)
  exact ⟨by simpa using hcells, fun j name t hj => by simpa using hoffsets j name t hj⟩

end Sound

theorem define_ok_iff {r : Registry} {id : StructId} {members : List StructMember} :
    (∃ r', r.define id members = .ok r') ↔
      id.index < r.structs.size ∧ ∀ name b, StructMember.field name (.struct b) ∈ members →
        ∃ T, r.get? b = some T ∧ T.defined = true := by
  constructor
  · rintro ⟨r', hdef⟩
    obtain ⟨offsets, cells, s, hlayout, hs, -⟩ := define_eq_ok hdef
    exact ⟨(Array.getElem?_eq_some_iff.mp hs).1, layout_fields_defined hlayout⟩
  · rintro ⟨hlt, hfields⟩
    obtain ⟨⟨offsets, cells⟩, hp⟩ := layout_ok_of_fields_defined members 0 hfields
    unfold define
    simp only [bind, Except.bind, hp, Array.getElem?_eq_getElem hlt]
    exact ⟨_, rfl⟩

/-- The layout of a built registry. Defining a struct succeeds exactly when every field holding a
struct by value names a defined struct; so no struct holds itself, directly or through others,
containment always stops, and flattening a type gives the same kinds at every depth past the
number of structs. A defined struct flattens into its members' kinds; its cell count and the
offsets of its fields are the sums of the members' cells before them, modulo `2 ^ 32`. A struct
of fewer than `2 ^ 32` cells has exactly that many, its offsets are the plain sums, and at each
field's offset its flattened kinds hold that field's kinds. -/
theorem Built.structLayout {r : Registry} (hr : r.Built) :
    (∀ id members, (∃ r', r.define id members = .ok r') ↔
      id.index < r.structs.size ∧ ∀ name b, StructMember.field name (.struct b) ∈ members →
        ∃ T, r.get? b = some T ∧ T.defined = true) ∧
    (∀ a, ¬Relation.TransGen r.Contains a a) ∧
    WellFounded (fun b a => r.Contains a b) ∧
    (∀ fuel t, r.structs.size < fuel → r.cellKindsWithin fuel t = r.cellKinds t) ∧
    ∀ S ∈ r.structs, S.defined = true →
      r.cellKinds (.struct S.id) = S.members.flatMap r.memberKinds ∧
      S.cellCount = (S.members.map r.memberCells).sum % 2 ^ 32 ∧
      S.cellCount = (r.cellKinds (.struct S.id)).length % 2 ^ 32 ∧
      (∀ j name t, S.members[j]? = some (.field name t) →
        S.offsets[j]? = some (((S.members.take j).map r.memberCells).sum % 2 ^ 32)) ∧
      ((r.cellKinds (.struct S.id)).length < 2 ^ 32 →
        S.cellCount = (S.members.map r.memberCells).sum ∧
        S.cellCount = (r.cellKinds (.struct S.id)).length ∧
        ∀ j name t, S.members[j]? = some (.field name t) →
          ∃ o, S.offsets[j]? = some o ∧ o = ((S.members.take j).map r.memberCells).sum ∧
            ((r.cellKinds (.struct S.id)).drop o).take (r.cellCount t) = r.cellKinds t) := by
  have h := hr.sound
  refine ⟨fun id members => define_ok_iff, h.not_transGen_contains_self, h.contains_wellFounded,
    fun fuel t hfuel => h.cellKindsWithin_eq_cellKinds hfuel t, fun S hS hdef => ?_⟩
  have hkinds := h.cellKinds_struct (h.get?_id hS)
  obtain ⟨hcells, hoffsets⟩ := h.struct_sums hS hdef
  have hstored : r.cellCount (.struct S.id) = S.cellCount := by
    simp only [cellCount, h.get?_id hS, Option.elim]
  refine ⟨hkinds, hcells, by rw [← hstored]; exact h.cellCount_eq_length_mod _, hoffsets,
    fun hlen => ?_⟩
  -- without wrap-around every member counts exactly its kinds, and the sums stay below `2 ^ 32`
  rw [hkinds] at hlen
  have hmap := h.map_memberCells_eq hlen
  have hsum : (S.members.map r.memberCells).sum = (S.members.flatMap r.memberKinds).length := by
    rw [hmap, List.length_flatMap]
  have hexact : S.cellCount = (S.members.map r.memberCells).sum := by
    rw [hcells, hsum, Nat.mod_eq_of_lt hlen]
  refine ⟨hexact, by rw [hexact, hsum, hkinds], fun j name t hj => ?_⟩
  have hprefix : ((S.members.take j).map r.memberCells).sum ≤
      (S.members.map r.memberCells).sum := by
    rw [List.map_take]
    exact (List.take_sublist _ _).sum_le_sum fun _ _ => Nat.zero_le _
  refine ⟨_, (hoffsets j name t hj).trans (by rw [Nat.mod_eq_of_lt (by omega)]), rfl, ?_⟩
  obtain ⟨hlt, hjt⟩ := List.getElem?_eq_some_iff.mp hj
  have hfield : r.cellCount t = (r.cellKinds t).length := by
    have hle : (r.memberKinds (.field name t)).length ≤
        (S.members.flatMap r.memberKinds).length := by
      rw [List.length_flatMap]
      exact List.le_sum_of_mem (List.mem_map_of_mem (hjt ▸ List.getElem_mem hlt))
    exact h.memberCells_eq_length (m := .field name t) (by omega)
  have hslice := h.cellKinds_slice hS hj
  rw [hfield, List.map_take, hmap, ← List.map_take]
  exact hslice

/-- The members of `Point { int x; int y; }`. -/
def pointMembers : List StructMember :=
  [.field "x" (.basic ⟨.int, .signed, 4⟩), .field "y" (.basic ⟨.int, .signed, 4⟩)]

/-- The members of `Segment { Point start; Point stop; }`. -/
def segmentMembers : List StructMember :=
  [.field "start" (.struct ⟨0, "Point"⟩), .field "stop" (.struct ⟨0, "Point"⟩)]

/-- `Point` and `Segment`, declared and then defined in that order. -/
def pointAndSegment : Registry :=
  { structs := #[{ id := ⟨0, "Point"⟩, members := pointMembers, offsets := [0, 1], cellCount := 2,
                   defined := true },
                 { id := ⟨1, "Segment"⟩, members := segmentMembers, offsets := [0, 2],
                   cellCount := 4, defined := true }] }

/-- The layout of `pointAndSegment`, built by declaring both names and then defining `Point` and
`Segment`. -/
theorem Built.structLayout_pointAndSegment :
    (∀ id members, (∃ r', pointAndSegment.define id members = .ok r') ↔
      id.index < pointAndSegment.structs.size ∧
        ∀ name b, StructMember.field name (.struct b) ∈ members →
          ∃ T, pointAndSegment.get? b = some T ∧ T.defined = true) ∧
    (∀ a, ¬Relation.TransGen pointAndSegment.Contains a a) ∧
    WellFounded (fun b a => pointAndSegment.Contains a b) ∧
    (∀ fuel t, pointAndSegment.structs.size < fuel →
      pointAndSegment.cellKindsWithin fuel t = pointAndSegment.cellKinds t) ∧
    ∀ S ∈ pointAndSegment.structs, S.defined = true →
      pointAndSegment.cellKinds (.struct S.id) = S.members.flatMap pointAndSegment.memberKinds ∧
      S.cellCount = (S.members.map pointAndSegment.memberCells).sum % 2 ^ 32 ∧
      S.cellCount = (pointAndSegment.cellKinds (.struct S.id)).length % 2 ^ 32 ∧
      (∀ j name t, S.members[j]? = some (.field name t) →
        S.offsets[j]? = some (((S.members.take j).map pointAndSegment.memberCells).sum % 2 ^ 32)) ∧
      ((pointAndSegment.cellKinds (.struct S.id)).length < 2 ^ 32 →
        S.cellCount = (S.members.map pointAndSegment.memberCells).sum ∧
        S.cellCount = (pointAndSegment.cellKinds (.struct S.id)).length ∧
        ∀ j name t, S.members[j]? = some (.field name t) →
          ∃ o, S.offsets[j]? = some o ∧
            o = ((S.members.take j).map pointAndSegment.memberCells).sum ∧
            ((pointAndSegment.cellKinds (.struct S.id)).drop o).take
              (pointAndSegment.cellCount t) = pointAndSegment.cellKinds t) := by
  have hdeclared : ((({} : Registry).declare "Point").2.declare "Segment").2.Built :=
    .declare "Segment" (.declare "Point" .empty)
  have hpoint := @Built.define _
    { structs := #[pointAndSegment.structs[0], { id := ⟨1, "Segment"⟩ }] } ⟨0, "Point"⟩
    { id := ⟨0, "Point"⟩ } pointMembers hdeclared rfl rfl rfl
  exact Built.structLayout
    (@Built.define _ _ ⟨1, "Segment"⟩ { id := ⟨1, "Segment"⟩ } segmentMembers hpoint rfl rfl rfl)

end Registry

end CStack
