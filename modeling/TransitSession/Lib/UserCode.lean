/-
  Strand programs together with the user code that they call.

  While the frame of a call of user code is on the stack, `Program.step` allows any
  calls.  `UserCode` says which ones there are: the body of the user code, from the
  state in which it is called and from variables of its own.  What is left open is what
  comes from outside: public calls and completion handlers, each on an idle strand.

  * `UserCode.step_cases`: what one step does;
  * `UserCode.run_program`: a run with the user code is a run of the program.
-/
import TransitSession.Lib.Strand

namespace Strand

variable {σ Call Event Frame U : Type}

/-- User code with the variables `U`. -/
structure UserCode (σ Call Frame U : Type) where
  /-- the calls that the user code of a frame makes, in order, and its variables
      afterwards -/
  body : Frame → σ → U → List Call × U

namespace UserCode

/-- A strand and its user code: what is running, innermost first, each with the calls it
    has still to make. -/
structure Config (σ Call Frame U : Type) where
  state : σ
  stack : List (Frame × List Call)
  own : U

inductive Label (Call Event : Type) where
  /-- a public call from outside -/
  | call (x : Call)
  /-- a completion handler -/
  | event (e : Event)
  /-- the innermost user code makes its next call, or returns -/
  | proceed

/-- The strand without what the user code has in mind. -/
def Config.program (c : Config σ Call Frame U) : Strand.Config σ Frame :=
  ⟨c.state, c.stack.map Prod.fst⟩

variable (B : UserCode σ Call Frame U) (P : Program σ Call Event Frame)

/-- What a part of a closure leaves, on top of `st`: its end, or a call of user code. -/
def enter (r : σ × Option Frame) (st : List (Frame × List Call)) (u : U) :
    Config σ Call Frame U :=
  match r.2 with
  | none => ⟨r.1, st, u⟩
  | some f => ⟨r.1, (f, (B.body f r.1 u).1) :: st, (B.body f r.1 u).2⟩

def step : Config σ Call Frame U → Label Call Event → Option (Config σ Call Frame U)
  | ⟨s, [], u⟩, .call x => some (B.enter (P.call x s) [] u)
  | ⟨s, [], u⟩, .event e => (P.event e s).map fun r => B.enter r [] u
  | ⟨s, (f, x :: xs) :: st, u⟩, .proceed => some (B.enter (P.call x s) ((f, xs) :: st) u)
  | ⟨s, (f, []) :: st, u⟩, .proceed => some (B.enter (P.resume f s) st u)
  | _, _ => none

/-- The steps that the condition of a run speaks about. -/
abbrev Guard (σ Call Event Frame U : Type) := Config σ Call Frame U → Label Call Event → Prop

/-- A run with the user code, whose steps all meet `ok`. -/
abbrev Run (ok : Guard σ Call Event Frame U) :
    Config σ Call Frame U → Config σ Call Frame U → Prop :=
  Transition.Run (B.step P) ok

variable {B P} {c c' : Config σ Call Frame U} {l : Label Call Event}

@[simp] theorem enter_state (r : σ × Option Frame) (st : List (Frame × List Call)) (u : U) :
    (B.enter r st u).state = r.1 := by
  unfold enter
  split <;> rfl

theorem enter_some (s : σ) (f : Frame) (st : List (Frame × List Call)) (u : U) :
    B.enter (s, some f) st u = ⟨s, (f, (B.body f s u).1) :: st, (B.body f s u).2⟩ := rfl

theorem enter_program (r : σ × Option Frame) (st : List (Frame × List Call)) (u : U) :
    (B.enter r st u).program = ⟨r.1, r.2.toList ++ st.map Prod.fst⟩ := by
  rcases r with ⟨s, _ | f⟩ <;> rfl

/-- **What one step does**: a closure from outside on an idle strand, the next call of the
    innermost user code, or its return. -/
theorem step_cases (h : B.step P c l = some c') :
    (∃ x, l = .call x ∧ c.stack = [] ∧ c' = B.enter (P.call x c.state) [] c.own) ∨
    (∃ e r, l = .event e ∧ c.stack = [] ∧ P.event e c.state = some r ∧
      c' = B.enter r [] c.own) ∨
    (∃ f x xs st, l = .proceed ∧ c.stack = (f, x :: xs) :: st ∧
      c' = B.enter (P.call x c.state) ((f, xs) :: st) c.own) ∨
    (∃ f st, l = .proceed ∧ c.stack = (f, []) :: st ∧
      c' = B.enter (P.resume f c.state) st c.own) := by
  rcases c with ⟨s, _ | ⟨⟨f, _ | ⟨x, xs⟩⟩, st⟩, u⟩
  · cases l with
    | call x => exact Or.inl ⟨x, rfl, rfl, (Option.some.inj h).symm⟩
    | event e =>
      obtain ⟨r, hr, rfl⟩ := Option.map_eq_some_iff.1 h
      exact Or.inr (Or.inl ⟨e, r, rfl, rfl, hr, rfl⟩)
    | proceed => cases h
  · cases l with
    | proceed => exact Or.inr (Or.inr (Or.inr ⟨f, st, rfl, rfl, (Option.some.inj h).symm⟩))
    | _ => cases h
  · cases l with
    | proceed =>
      exact Or.inr (Or.inr (Or.inl ⟨f, x, xs, st, rfl, rfl, (Option.some.inj h).symm⟩))
    | _ => cases h

/-- The step of the program that a step is. -/
def move (c : Config σ Call Frame U) : Label Call Event → Strand.Label Call Event
  | .call x => .call x
  | .event e => .event e
  | .proceed =>
    match c.stack with
    | (_, x :: _) :: _ => .call x
    | _ => .ret

theorem step_program (h : B.step P c l = some c') :
    P.step c.program (move c l) = some c'.program := by
  rcases step_cases h with ⟨x, rfl, hst, rfl⟩ | ⟨e, r, rfl, hst, hr, rfl⟩ |
    ⟨f, x, xs, st, rfl, hst, rfl⟩ | ⟨f, st, rfl, hst, rfl⟩
  · rw [enter_program, move, Program.step_call]
    simp [Config.program, hst]
  · rw [enter_program, move, Program.step_event_iff]
    exact ⟨by simp [Config.program, hst], r, hr, by simp⟩
  · simp only [move, hst, enter_program, Program.step_call]
    simp [Config.program, hst]
  · simp only [move, hst]
    rw [enter_program, Program.step_ret_iff]
    exact ⟨f, st.map Prod.fst, by simp [Config.program, hst], rfl⟩

/-! ## Runs of the program -/

/-- The calls that are still to be made meet `Q`. -/
def Config.Plans (Q : Call → Prop) (c : Config σ Call Frame U) : Prop :=
  ∀ p ∈ c.stack, ∀ x ∈ p.2, Q x

theorem Plans.enter {Q : Call → Prop} (hB : ∀ f s u, ∀ x ∈ (B.body f s u).1, Q x)
    {r : σ × Option Frame} {st : List (Frame × List Call)} {u : U}
    (h : ∀ p ∈ st, ∀ x ∈ p.2, Q x) : (B.enter r st u).Plans Q := by
  rcases r with ⟨s, _ | f⟩
  · exact h
  · intro p hp
    rcases List.mem_cons.1 hp with rfl | hp
    · exact hB f s u
    · exact h p hp

theorem Plans.step {Q : Call → Prop} (hB : ∀ f s u, ∀ x ∈ (B.body f s u).1, Q x)
    (h : c.Plans Q) (hs : B.step P c l = some c') : c'.Plans Q := by
  have hnil : ∀ p ∈ ([] : List (Frame × List Call)), ∀ x ∈ p.2, Q x := nofun
  rcases step_cases hs with ⟨x, -, -, rfl⟩ | ⟨e, r, -, -, -, rfl⟩ |
    ⟨f, x, xs, st, -, hst, rfl⟩ | ⟨f, st, -, hst, rfl⟩
  · exact Plans.enter hB hnil
  · exact Plans.enter hB hnil
  · refine Plans.enter hB fun p hp y hy => ?_
    rcases List.mem_cons.1 hp with rfl | hp
    · exact h (f, x :: xs) (by simp [hst]) y (List.mem_cons_of_mem _ hy)
    · exact h p (by simp [hst, hp]) y hy
  · exact Plans.enter hB fun p hp => h p (by simp [hst, hp])

/-- **A run with user code whose calls meet `Q` is a run of the program.** -/
theorem run_program {ok : Guard σ Call Event Frame U} {okP : Program.Guard σ Call Event Frame}
    {Q : Call → Prop} (hB : ∀ f s u, ∀ x ∈ (B.body f s u).1, Q x)
    (hcall : ∀ c x, ok c (.call x) → okP c.program (.call x))
    (hevent : ∀ c e, ok c (.event e) → okP c.program (.event e))
    (hQ : ∀ p x, Q x → okP p (.call x)) (hret : ∀ p, okP p .ret)
    (h : B.Run P ok c c') (hc : c.Plans Q) : P.Run okP c.program c'.program := by
  suffices hs : P.Run okP c.program c'.program ∧ c'.Plans Q from hs.1
  induction h with
  | refl => exact ⟨.refl, hc⟩
  | @step c₁ c₂ l _ hl hs ih =>
    obtain ⟨hrun, hplans⟩ := ih
    refine ⟨.step hrun ?_ (step_program hs), Plans.step hB hplans hs⟩
    rcases step_cases hs with ⟨x, rfl, -, -⟩ | ⟨e, r, rfl, -, -, -⟩ |
      ⟨f, x, xs, st, rfl, hst, -⟩ | ⟨f, st, rfl, hst, -⟩
    · exact hcall _ x hl
    · exact hevent _ e hl
    · simp only [move, hst]
      exact hQ _ x (hplans (f, x :: xs) (by simp [hst]) x (by simp))
    · simp only [move, hst]
      exact hret _

end UserCode

end Strand
