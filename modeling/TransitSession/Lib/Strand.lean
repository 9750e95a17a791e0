/-
  Strand programs: closures that run one at a time and that may call user code,
  which re-enters the program before it returns.

  A closure runs to its end or stops inside a call of user code; what is left
  of it is a `Frame`.  While frames are on the stack, user code is running on
  the strand: it may make further calls (they run inline, on top of the stack)
  or return, which resumes the innermost frame.  Completion handlers (`Event`)
  are closures of their own, so they wait until the stack is empty.

  * `Program.step` is one step, `Program.Run` a run whose steps all meet a
    condition, `Program.exec` the run along a list of labels;
  * `Run.rel`: transitive relations along a run; `Run.inner`: what the frames
    above the bottom of the stack can be;
  * `Run.settled`: a property that closures leave behind, and that only an open
    frame may suspend, holds whenever the strand is idle.
-/
import TransitSession.Lib.Transition

namespace Strand

variable {σ Call Event Frame : Type}

/-- The closures of a strand: public calls, completion handlers, and what is
    left of a closure that stopped in user code. -/
structure Program (σ Call Event Frame : Type) where
  call : Call → σ → σ × Option Frame
  event : Event → σ → Option (σ × Option Frame)
  resume : Frame → σ → σ × Option Frame

/-- The state and the frames of the closure that is running, innermost first. -/
structure Config (σ Frame : Type) where
  state : σ
  stack : List Frame

inductive Label (Call Event : Type) where
  /-- a public call, as a closure of its own or inline in user code -/
  | call (x : Call)
  /-- a completion handler -/
  | event (e : Event)
  /-- the innermost user code returns -/
  | ret

/-- A closure of its own, not the rest of one that called user code. -/
def Label.isInput : Label Call Event → Bool
  | .ret => false
  | _ => true

namespace Program
variable (P : Program σ Call Event Frame)

/-- One step of the strand. -/
def step : Config σ Frame → Label Call Event → Option (Config σ Frame)
  | c, .call x => some ⟨(P.call x c.state).1, (P.call x c.state).2.toList ++ c.stack⟩
  | ⟨s, []⟩, .event e => (P.event e s).map fun r => ⟨r.1, r.2.toList⟩
  | ⟨_, _ :: _⟩, .event _ => none
  | ⟨s, f :: st⟩, .ret => some ⟨(P.resume f s).1, (P.resume f s).2.toList ++ st⟩
  | ⟨_, []⟩, .ret => none

/-- The steps that the condition of a run speaks about. -/
abbrev Guard (σ Call Event Frame : Type) := Config σ Frame → Label Call Event → Prop

/-- `P.Run ok c c'`: a run from `c` to `c'` whose steps all meet `ok`. -/
abbrev Run (ok : Guard σ Call Event Frame) : Config σ Frame → Config σ Frame → Prop :=
  Transition.Run P.step ok

/-- The run along the labels `ls`. -/
abbrev exec : Config σ Frame → List (Label Call Event) → Option (Config σ Frame) :=
  Transition.exec P.step

variable {P} {ok : Guard σ Call Event Frame} {c c' : Config σ Frame}

/-! ## Steps -/

@[simp] theorem step_call (c : Config σ Frame) (x : Call) :
    P.step c (.call x) =
      some ⟨(P.call x c.state).1, (P.call x c.state).2.toList ++ c.stack⟩ := by
  cases c; rfl

theorem step_event_iff {e : Event} :
    P.step c (.event e) = some c' ↔
      c.stack = [] ∧ ∃ r, P.event e c.state = some r ∧ c' = ⟨r.1, r.2.toList⟩ := by
  rcases c with ⟨s, _ | ⟨f, st⟩⟩
  · simp only [step, Option.map_eq_some_iff, true_and, @eq_comm _ _ c']
  · simp [step]

theorem step_ret_iff :
    P.step c .ret = some c' ↔
      ∃ f st, c.stack = f :: st ∧
        c' = ⟨(P.resume f c.state).1, (P.resume f c.state).2.toList ++ st⟩ := by
  rcases c with ⟨s, _ | ⟨f, st⟩⟩
  · simp [step]
  · simp [step, eq_comm]

/-- What one step does: a call at any time, a completion handler on an idle
    strand, or the return of the innermost user code. -/
theorem step_cases {l : Label Call Event} (h : P.step c l = some c') :
    (∃ x, l = .call x ∧ c' = ⟨(P.call x c.state).1, (P.call x c.state).2.toList ++ c.stack⟩) ∨
    (∃ e r, l = .event e ∧ c.stack = [] ∧ P.event e c.state = some r ∧
      c' = ⟨r.1, r.2.toList⟩) ∨
    (∃ f st, l = .ret ∧ c.stack = f :: st ∧
      c' = ⟨(P.resume f c.state).1, (P.resume f c.state).2.toList ++ st⟩) := by
  cases l with
  | call x => exact Or.inl ⟨x, rfl, by simpa using h.symm⟩
  | event e =>
    obtain ⟨hst, r, hr, rfl⟩ := step_event_iff.1 h
    exact Or.inr (Or.inl ⟨e, r, rfl, hst, hr, rfl⟩)
  | ret =>
    obtain ⟨f, st, hst, rfl⟩ := step_ret_iff.1 h
    exact Or.inr (Or.inr ⟨f, st, rfl, hst, rfl⟩)

/-! ## Runs -/

/-- A reflexive and transitive relation that holds along every closure holds
    along every run. -/
theorem Run.rel {R : σ → σ → Prop} (h : P.Run ok c c') (hrefl : ∀ s, R s s)
    (htrans : ∀ {s₁ s₂ s₃}, R s₁ s₂ → R s₂ s₃ → R s₁ s₃)
    (hcall : ∀ x s, R s (P.call x s).1)
    (hevent : ∀ e s r, P.event e s = some r → R s r.1)
    (hresume : ∀ f s, R s (P.resume f s).1) : R c.state c'.state := by
  refine h.inv (I := fun d => R c.state d.state) (hrefl _) fun c₁ l c₂ h₁ _ hs => ?_
  rcases step_cases hs with ⟨x, -, rfl⟩ | ⟨e, r, -, -, hr, rfl⟩ | ⟨f, st, -, -, rfl⟩
  · exact htrans h₁ (hcall x _)
  · exact htrans h₁ (hevent e _ _ hr)
  · exact htrans h₁ (hresume f _)

/-- Only completion handlers leave frames at the bottom of the stack: if the
    frames that calls and returns leave are `Inner`, so are all the others. -/
theorem Run.inner (h : P.Run ok c c') (Inner : Frame → Prop)
    (h₀ : ∀ f ∈ c.stack.dropLast, Inner f)
    (hcall : ∀ x s f, (P.call x s).2 = some f → Inner f)
    (hresume : ∀ g s f, (P.resume g s).2 = some f → Inner f) :
    ∀ f ∈ c'.stack.dropLast, Inner f := by
  have push {fs st : List Frame} (hfs : ∀ f ∈ fs, Inner f) (hst : ∀ f ∈ st.dropLast, Inner f) :
      ∀ f ∈ (fs ++ st).dropLast, Inner f := by
    intro f hf
    rw [List.dropLast_append] at hf
    split_ifs at hf
    · exact hfs f (List.dropLast_subset _ hf)
    · exact (List.mem_append.1 hf).elim (hfs f) (hst f)
  refine h.inv (I := fun d => ∀ f ∈ d.stack.dropLast, Inner f) h₀ fun c₁ l c₂ h₁ _ hs => ?_
  rcases step_cases hs with ⟨x, -, rfl⟩ | ⟨e, ⟨s, o⟩, -, -, -, rfl⟩ | ⟨g, st, -, hst, rfl⟩
  · exact push (fun f hf => hcall x _ f (Option.mem_toList.1 hf)) h₁
  · intro f hf
    cases o <;> cases hf
  · refine push (fun f hf => hresume g _ f (Option.mem_toList.1 hf)) fun f hf => h₁ f ?_
    rw [hst]
    cases st with
    | nil => cases hf
    | cons => exact List.mem_cons_of_mem _ hf

/-! ## Properties that hold whenever the strand is idle -/

/-- `Q` holds, or an open frame still owes it. -/
def Settled (owes : Frame → Prop) (Q : σ → Prop) (c : Config σ Frame) : Prop :=
  (∃ f ∈ c.stack, owes f) ∨ Q c.state

theorem Settled.idle {owes : Frame → Prop} {Q : σ → Prop} (h : Settled owes Q c)
    (hst : c.stack = []) : Q c.state := by
  rcases h with ⟨f, hf, -⟩ | h
  · rw [hst] at hf; cases hf
  · exact h

/-- What a closure leaves behind: `Q`, or a frame that owes it. -/
def Leaves (owes : Frame → Prop) (Q : σ → Prop) (r : σ × Option Frame) : Prop :=
  (∃ f, r.2 = some f ∧ owes f) ∨ Q r.1

theorem Leaves.settled {owes : Frame → Prop} {Q : σ → Prop} {r : σ × Option Frame}
    (h : Leaves owes Q r) (st : List Frame) : Settled owes Q ⟨r.1, r.2.toList ++ st⟩ := by
  rcases h with ⟨f, hf, ho⟩ | h
  · exact Or.inl ⟨f, by simp [hf], ho⟩
  · exact Or.inr h

theorem Settled.push {owes : Frame → Prop} {Q : σ → Prop} {s : σ} {st : List Frame}
    (h : ∃ f ∈ st, owes f) (fs : List Frame) : Settled owes Q ⟨s, fs ++ st⟩ := by
  obtain ⟨f, hf, ho⟩ := h
  exact Or.inl ⟨f, List.mem_append_right _ hf, ho⟩

/-- **Settling.**  Closures keep `Q` (or leave a frame that owes it), and a
    frame that owes `Q` settles it when it is resumed; then `Q` holds whenever
    no frame owes it.  `I` is an invariant of the run that the closures rely
    on. -/
theorem Run.settled {owes : Frame → Prop} {Q : σ → Prop} {I : Config σ Frame → Prop}
    (h : P.Run ok c c') (h₀ : Settled owes Q c)
    (hI : ∀ d, P.Run ok c d → I d)
    (hcall : ∀ d x, I d → ok d (.call x) → Q d.state → Leaves owes Q (P.call x d.state))
    (hevent : ∀ d e r, I d → ok d (.event e) → d.stack = [] → P.event e d.state = some r →
      Q d.state → Leaves owes Q r)
    (hresume : ∀ d f st, I d → d.stack = f :: st → owes f ∨ Q d.state →
      Leaves owes Q (P.resume f d.state)) :
    Settled owes Q c' := by
  induction h with
  | refl => exact h₀
  | @step c₁ c₂ l hrun hl hs ih =>
    have hi := hI _ hrun
    rcases step_cases hs with ⟨x, rfl, rfl⟩ | ⟨e, r, rfl, hst, hr, rfl⟩ | ⟨f, st, rfl, hst, rfl⟩
    · rcases ih with ho | hq
      · exact Settled.push ho _
      · exact (hcall _ x hi hl hq).settled _
    · have := (hevent _ e r hi hl hst hr (ih.idle hst)).settled []
      rwa [List.append_nil] at this
    · rcases ih with ⟨g, hg, ho⟩ | hq
      · rw [hst] at hg
        rcases List.mem_cons.1 hg with rfl | hg
        · exact (hresume _ g st hi hst (Or.inl ho)).settled _
        · exact Settled.push ⟨g, hg, ho⟩ _
      · exact (hresume _ f st hi hst (Or.inr hq)).settled _

end Program

end Strand
