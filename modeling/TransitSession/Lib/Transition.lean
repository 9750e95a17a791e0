/-
  Runs of a deterministic transition function `next : C → L → Option C`, whose
  labels are chosen by the environment.

  * `Run next ok c c'`: a run from `c` to `c'` whose steps all meet `ok`;
  * `Run.inv`: invariants of runs; `Run.first`: the first time that something
    happens; `Run.map`: a run as one of another system;
  * `exec`: the run along a list of labels; `guarded`: with a check at each step;
  * `Trace`: a run with its steps; `history`: those along a list of labels.
-/
import Mathlib.Data.Option.Basic
import Mathlib.Tactic.Common

namespace Transition

variable {C L : Type}

/-- A run from `c` whose steps all meet `ok`. -/
inductive Run (next : C → L → Option C) (ok : C → L → Prop) (c : C) : C → Prop where
  | refl : Run next ok c c
  | step {c₁ c₂ : C} {l : L} : Run next ok c c₁ → ok c₁ l → next c₁ l = some c₂ → Run next ok c c₂

/-- The run along the labels `ls`. -/
def exec (next : C → L → Option C) (c : C) (ls : List L) : Option C := ls.foldlM next c

variable {next : C → L → Option C} {ok : C → L → Prop} {c c' c'' : C}

theorem Run.trans (h : Run next ok c c') (h' : Run next ok c' c'') : Run next ok c c'' := by
  induction h' with
  | refl => exact h
  | step _ hok hs ih => exact .step ih hok hs

theorem Run.mono {ok' : C → L → Prop} (hok : ∀ c l, ok c l → ok' c l) (h : Run next ok c c') :
    Run next ok' c c' := by
  induction h with
  | refl => exact .refl
  | step _ hl hs ih => exact .step ih (hok _ _ hl) hs

/-- **Invariants of runs.** -/
theorem Run.inv {I : C → Prop} (h : Run next ok c c') (h₀ : I c)
    (hI : ∀ c₁ l c₂, I c₁ → ok c₁ l → next c₁ l = some c₂ → I c₂) : I c' := by
  induction h with
  | refl => exact h₀
  | step _ hl hs ih => exact hI _ _ _ ih hl hs

/-- A run of steps each of which is one of another system, or none. -/
theorem Run.map {D L' : Type} {next' : D → L' → Option D} {ok' : D → L' → Prop} {f : C → D}
    (hf : ∀ c l c', ok c l → next c l = some c' →
      f c' = f c ∨ ∃ l', ok' (f c) l' ∧ next' (f c) l' = some (f c'))
    (h : Run next ok c c') : Run next' ok' (f c) (f c') := by
  induction h with
  | refl => exact .refl
  | step _ hl hs ih =>
    rcases hf _ _ _ hl hs with he | ⟨l', hl', hs'⟩
    · rw [he]
      exact ih
    · exact ih.step hl' hs'

/-- A run meets `bad` nowhere, or it starts with a run that ends where it first
    does. -/
theorem Run.first (bad : C → Prop) (h : Run next ok c c') :
    Run next (fun c l => ¬ bad c ∧ ok c l) c c' ∨
    ∃ c₁, Run next (fun c l => ¬ bad c ∧ ok c l) c c₁ ∧ bad c₁ := by
  induction h with
  | refl => exact Or.inl .refl
  | @step c₁ c₂ l _ hl hs ih =>
    rcases ih with ih | ih
    · by_cases hb : bad c₁
      · exact Or.inr ⟨c₁, ih, hb⟩
      · exact Or.inl (.step ih ⟨hb, hl⟩ hs)
    · exact Or.inr ih

/-- Along the run that `exec` computes, every step was taken. -/
theorem exec_run {ls : List L} (h : exec next c ls = some c') :
    Run next (fun _ _ => True) c c' := by
  induction ls generalizing c with
  | nil => simp only [exec, List.foldlM_nil, pure, Option.some.injEq] at h; subst h; exact .refl
  | cons l ls ih =>
    simp only [exec, List.foldlM_cons, bind, Option.bind_eq_some_iff] at h
    obtain ⟨c₁, h₁, h₂⟩ := h
    exact (Run.step .refl trivial h₁).trans (ih h₂)

theorem exec_append {ls ls' : List L} (h : exec next c ls = some c') :
    exec next c (ls ++ ls') = exec next c' ls' := by
  unfold exec at h ⊢
  rw [List.foldlM_append, h]
  rfl

/-- A step is taken only if it meets `ok`. -/
def guarded (ok : C → L → Bool) (next : C → L → Option C) (c : C) (l : L) : Option C :=
  if ok c l then next c l else none

theorem Run.of_guarded {okb : C → L → Bool} (h : Run (guarded okb next) ok c c') :
    Run next (fun c l => okb c l = true) c c' := by
  induction h with
  | refl => exact .refl
  | step _ _ hs ih =>
    simp only [guarded, Option.ite_none_right_eq_some] at hs
    exact .step ih hs.1 hs.2

/-! ## Runs with their steps -/

/-- A run from `c` with its steps, each with the state in which it was taken. -/
inductive Trace (next : C → L → Option C) (c : C) : List (C × L) → C → Prop where
  | refl : Trace next c [] c
  | step {es : List (C × L)} {c₁ c₂ : C} {l : L} : Trace next c es c₁ → next c₁ l = some c₂ →
      Trace next c (es ++ [(c₁, l)]) c₂

variable {es : List (C × L)}

/-- **Invariants of runs and what they did.** -/
theorem Trace.inv {I : List (C × L) → C → Prop} (h : Trace next c es c') (h₀ : I [] c)
    (hI : ∀ es c₁ l c₂, I es c₁ → next c₁ l = some c₂ → I (es ++ [(c₁, l)]) c₂) : I es c' := by
  induction h with
  | refl => exact h₀
  | step _ hs ih => exact hI _ _ _ _ ih hs

theorem Trace.trans {es' : List (C × L)} (h : Trace next c es c') (h' : Trace next c' es' c'') :
    Trace next c (es ++ es') c'' := by
  induction h' with
  | refl => rwa [List.append_nil]
  | step _ hs ih =>
    rw [← List.append_assoc]
    exact .step ih hs

/-- A step of a run that is one longer. -/
theorem exists_append {P : C × L → Prop} (e : C × L) :
    (∃ x ∈ es ++ [e], P x) ↔ (∃ x ∈ es, P x) ∨ P e := by
  simp [or_and_right, exists_or]

/-- A step of a run, and the run up to it. -/
theorem Trace.split {es₀ es₁ : List (C × L)} {e : C × L}
    (h : Trace next c (es₀ ++ e :: es₁) c') :
    Trace next c es₀ e.1 ∧ ∃ c₁, next e.1 e.2 = some c₁ := by
  generalize hes : es₀ ++ e :: es₁ = es at h
  induction h generalizing es₁ with
  | refl => exact absurd hes (by simp)
  | @step es c₁ c₂ l h hs ih =>
    rcases List.eq_nil_or_concat es₁ with rfl | ⟨es₂, x, rfl⟩
    · obtain ⟨rfl, he⟩ := List.append_inj' hes rfl
      obtain rfl : e = (c₁, l) := by simpa using he
      exact ⟨h, c₂, hs⟩
    · rw [List.concat_eq_append, ← List.cons_append, ← List.append_assoc] at hes
      exact ih (List.append_inj' hes rfl).1

/-- The steps along the labels `ls`. -/
def history (next : C → L → Option C) (c : C) : List L → List (C × L)
  | [] => []
  | l :: ls => (c, l) :: ((next c l).map fun c' => history next c' ls).getD []

theorem exec_trace {ls : List L} (h : exec next c ls = some c') :
    Trace next c (history next c ls) c' := by
  induction ls generalizing c with
  | nil => simp only [exec, List.foldlM_nil, pure, Option.some.injEq] at h; subst h; exact .refl
  | cons l ls ih =>
    simp only [exec, List.foldlM_cons, bind, Option.bind_eq_some_iff] at h
    obtain ⟨c₁, h₁, h₂⟩ := h
    have hl : Trace next c [(c, l)] c₁ := .step .refl h₁
    simp only [history, h₁, Option.map_some, Option.getD_some]
    exact hl.trans (ih h₂)

end Transition
