import CStack.Compile.Unit

/-!
# Reasoning about the compiler's state passes

The passes of the compiler run in state monads: `AssemblyM` over the tables a unit declares, and
`EmitM` over the emission state, read against a fixed environment. One judgement carries every
argument about them, so that a pass is unfolded once, where its own lemma is proved: the triple
`Triple P x Q` says that run from a state with `P`, the action `x` returns a result and ends in a
state that together satisfy `Q`.

Triples compose through `bind`, `pure` and `for` loops over lists and arrays; a loop is proved by
an invariant on its accumulator and the state. The `simp` lemmas at the end run the primitives of
both monads (reading the environment or the state, filing a diagnostic), so that a run of a pass
can also be read off directly.
-/

namespace CStack

variable {σ α β : Type}

/-- Run from a state with `P`, the action returns a result and ends in a state that together have
`Q`. -/
def Triple (P : σ → Prop) (x : StateM σ α) (Q : α → σ → Prop) : Prop :=
  ∀ s, P s → Q (x.run s).1 (x.run s).2

/-- The accumulator a loop iteration hands on, whether the loop stops or goes on. -/
def ForInStep.accumulator : ForInStep β → β
  | .done b => b
  | .yield b => b

@[simp] theorem ForInStep.accumulator_done (b : β) : ForInStep.accumulator (ForInStep.done b) = b := rfl

@[simp] theorem ForInStep.accumulator_yield (b : β) : ForInStep.accumulator (ForInStep.yield b) = b := rfl

/-! The passes run in `Id` underneath; these let `simp` read a run's result and state off a
`pure` or a `bind` there. -/

@[simp] theorem Id.pure_fst (p : α × σ) : (pure p : Id (α × σ)).fst = p.fst := rfl

@[simp] theorem Id.pure_snd (p : α × σ) : (pure p : Id (α × σ)).snd = p.snd := rfl

@[simp] theorem Id.bind_apply (x : Id α) (f : α → Id β) : x >>= f = f x := rfl

namespace Triple

variable {P : σ → Prop} {Q : α → σ → Prop}

theorem pure {a : α} (h : ∀ s, P s → Q a s) : Triple P (Pure.pure a : StateM σ α) Q := h

theorem bind {R : α → σ → Prop} {Q : β → σ → Prop} {x : StateM σ α} {f : α → StateM σ β}
    (hx : Triple P x R) (hf : ∀ a, Triple (R a) (f a) Q) : Triple P (x >>= f) Q :=
  fun s hs => hf _ _ (hx s hs)

theorem mono {P' : σ → Prop} {Q' : α → σ → Prop} {x : StateM σ α} (hx : Triple P x Q)
    (hpre : ∀ s, P' s → P s) (hpost : ∀ a s, Q a s → Q' a s) : Triple P' x Q' :=
  fun s hs => hpost _ _ (hx s (hpre s hs))

theorem get {Q : σ → σ → Prop} (h : ∀ s, P s → Q s s) : Triple P (MonadState.get : StateM σ σ) Q :=
  h

theorem modifyGet {f : σ → α × σ} (h : ∀ s, P s → Q (f s).1 (f s).2) :
    Triple P (StateT.modifyGet f : StateM σ α) Q := h

theorem forIn (I : β → σ → Prop) (xs : List α) (b : β) {f : α → β → StateM σ (ForInStep β)}
    (hf : ∀ x ∈ xs, ∀ b, Triple (I b) (f x b) fun r => I (ForInStep.accumulator r)) :
    Triple (I b) (ForIn.forIn xs b f) I := by
  induction xs generalizing b with
  | nil => exact Triple.pure fun _ hs => hs
  | cons x xs ih =>
    rw [List.forIn_cons]
    refine Triple.bind (hf x List.mem_cons_self b) fun step => ?_
    cases step with
    | done b' => exact Triple.pure fun _ hs => hs
    | yield b' => exact ih b' fun y hy => hf y (List.mem_cons_of_mem x hy)

theorem forIn_array (I : β → σ → Prop) (xs : Array α) (b : β)
    {f : α → β → StateM σ (ForInStep β)}
    (hf : ∀ x ∈ xs, ∀ b, Triple (I b) (f x b) fun r => I (ForInStep.accumulator r)) :
    Triple (I b) (ForIn.forIn xs b f) I := by
  rw [← Array.forIn_toList]
  exact Triple.forIn I xs.toList b fun x hx => hf x (Array.mem_toList_iff.mp hx)

end Triple

/-! ### Running the passes' primitives -/

@[simp] theorem AssemblyM.error_run (code : Code) (span : Span) (message : String) (a : Assembly) :
    (AssemblyM.error code span message).run a =
      pure ((), { a with report := a.report.error code span message }) :=
  rfl

namespace EmitM

variable (env : EmitEnv) (s : EmitState)

@[simp] theorem read_run : (read : EmitM EmitEnv).run env = pure env := rfl

@[simp] theorem get_run : ((get : EmitM EmitState).run env).run s = pure (s, s) := rfl

@[simp] theorem registry_run : registry.run env = pure env.registry := rfl

@[simp] theorem error_run (code : Code) (span : Span) (message : String) :
    ((error code span message).run env).run s =
      pure ((), { s with report := s.report.error code span message }) := rfl

end EmitM

end CStack
