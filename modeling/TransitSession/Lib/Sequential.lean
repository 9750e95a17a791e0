/-
  The runs of one strand of a machine are runs of a sequential program.

  The closures of a strand run one at a time, but on any thread of the pool, and
  between any two of their parts other strands may run.  `Sequential M s P` says
  that the closures of the strand `s` are those of the program `P` (Lib/Strand),
  over the part `get` of the shared state that only they change.

  * `View.Step.moved`: what one step does to what is left of the closures of a
    strand;
  * `Sequential.label`: the step of `P` that a step of the machine is, if it is one
    of the strand;
  * `Sequential.trace_exec`: the steps of a run of the machine that are those of the
    strand are, in this order, a run of `P`.
-/
import TransitSession.Lib.Strand
import TransitSession.Lib.Strands

namespace Executor

variable {σ S Q F E : Type}

/-! ## What is left of the closures of a strand -/

namespace View

/-- What is left of the closures of a strand, innermost first. -/
def frames (v : View σ S Q F) (s : S) : List F := (v.items s).filterMap Item.frame?

theorem filterMap_items (r : Tail Q F) (st : List (Item S Q F)) :
    (r.items ++ st).filterMap Item.frame? = r.frame?.toList ++ st.filterMap Item.frame? := by
  cases r <;> rfl

theorem filterMap_entered (s : S) (st : List (Item S Q F)) :
    (entered s st).filterMap Item.frame? = st.filterMap Item.frame? := by
  cases st <;> rfl

variable [DecidableEq S] (M : Machine σ S Q F E) (v v' : View σ S Q F)

/-- What one step, which runs the closure `o` or goes on with `g`, does to what is
    left of the closures of the strand `s`. -/
inductive Moved (s : S) : Option Q → Option F → Prop where
  | run (q) : M.strand q = s → v'.shared = (M.run q v.shared).1 →
      v'.frames s = (M.run q v.shared).2.frame?.toList ++ v.frames s → Moved s (some q) none
  | resume (f st) : M.home f = s → v'.shared = (M.resume f v.shared).1 →
      v.frames s = f :: st → v'.frames s = (M.resume f v.shared).2.frame?.toList ++ st →
      Moved s none (some f)
  | stay (o g) : (∀ q, o = some q → M.strand q ≠ s) → (∀ f, g = some f → M.home f ≠ s) →
      v'.frames s = v.frames s → Moved s o g

variable {M v v'} {l : Label S Q E} {o : Option Q} {g : Option F}

theorem frames_put (v : View σ S Q F) {s' : S} {st : List (Item S Q F)}
    (h : st.filterMap Item.frame? = v.frames s') (s : S) : (v.put s' st).frames s = v.frames s := by
  by_cases hs : s = s'
  · subst hs
    show (Function.update v.items s st s).filterMap Item.frame? = _
    rw [Function.update_self, h]
  · show (Function.update v.items s' st s).filterMap Item.frame? = _
    rw [Function.update_of_ne hs]
    rfl

theorem frames_enter (v : View σ S Q F) (q : Q) (s : S) : (v.enter M q).frames s =
    (if s = M.strand q then (M.run q v.shared).2.frame?.toList else []) ++ v.frames s := by
  by_cases hs : s = M.strand q
  · subst hs
    show (Function.update v.items _ _ (M.strand q)).filterMap Item.frame? = _
    rw [Function.update_self, if_pos rfl, filterMap_items, filterMap_entered]
    rfl
  · show (Function.update v.items _ _ s).filterMap Item.frame? = _
    rw [Function.update_of_ne hs, if_neg hs]
    rfl

theorem moved_enter (v v₁ : View σ S Q F) (hsh : v₁.shared = v.shared) (q : Q) (s : S)
    (hf : v₁.frames s = v.frames s) : Moved M v (v₁.enter M q) s (some q) none := by
  have hframes := frames_enter (M := M) v₁ q s
  by_cases hs : s = M.strand q
  · rw [if_pos hs, hf, hsh] at hframes
    refine .run q hs.symm ?_ hframes
    show (M.run q v₁.shared).1 = _
    rw [hsh]
  · rw [if_neg hs, hf, List.nil_append] at hframes
    refine .stay _ _ (fun q' hq => ?_) (fun _ hg => nomatch hg) hframes
    rw [← Option.some.inj hq]
    exact Ne.symm hs

theorem moved_goOn {it : Item S Q F} {f : F} {st : List (Item S Q F)}
    (hi : v.items (M.home f) = it :: st) (hit : it.frame? = some f) (s : S) :
    Moved M v (v.goOn M f st) s none (some f) := by
  by_cases hs : s = M.home f
  · subst hs
    refine .resume f (st.filterMap Item.frame?) rfl rfl ?_ ?_
    · rw [frames, hi, List.filterMap_cons_some hit]
    · show (Function.update v.items _ _ (M.home f)).filterMap Item.frame? = _
      rw [Function.update_self, filterMap_items]
  · refine .stay _ _ (fun _ hq => nomatch hq) (fun f' hf => ?_) ?_
    · rw [← Option.some.inj hf]
      exact Ne.symm hs
    · show (Function.update v.items _ _ s).filterMap Item.frame? = _
      rw [Function.update_of_ne hs]
      rfl

/-- **What one step does to what is left of the closures of a strand.** -/
theorem Step.moved (hs : Step M v l o g v') (s : S) : Moved M v v' s o g := by
  have hstay {v' : View σ S Q F} (hf : v'.frames s = v.frames s) : Moved M v v' s none none :=
    .stay _ _ (fun _ hq => nomatch hq) (fun _ hg => nomatch hg) hf
  have hrest {q : Q} {f : F} {st : List (Item S Q F)}
      (hi : v.items (M.home f) = .dispatch q f :: st) :
      (v.put (M.home f) (.resume f :: st)).frames s = v.frames s :=
    frames_put v (by rw [frames, hi]; rfl) s
  cases hs with
  | post | complete | callLater => exact hstay rfl
  | take t q rest hi hq =>
    exact moved_enter v { v with queue := Function.update v.queue (M.strand q) rest } rfl q s rfl
  | dispatch t q f st hi =>
    exact moved_enter v (v.put (M.home f) (.resume f :: st)) rfl q s (hrest hi)
  | later t q f st hi hb => exact hstay (hrest hi)
  | call t q f st hi hc => exact moved_enter v v rfl q s rfl
  | resume t f st hi | ret t f st hi => exact moved_goOn hi rfl s
  | release t s' hi => exact hstay (frames_put v (by rw [frames, hi]; rfl) s)

/-- The closure that a step runs is taken from a queue while nothing is left on its
    strand, or was called or dispatched. -/
theorem Step.ran_from (hs : Step M v l o g v') {q : Q} (ho : o = some q) :
    v.items (M.strand q) = [] ∨ M.callable q v.shared = true ∨
      ∃ f, .dispatch q f ∈ v.items (M.home f) := by
  cases hs with
  | post | complete | later | callLater | resume | ret | release => cases ho
  | take t q' rest hi hq =>
    obtain rfl := Option.some.inj ho
    exact Or.inl hi
  | dispatch t q' f st hi =>
    obtain rfl := Option.some.inj ho
    exact Or.inr (Or.inr ⟨f, by rw [hi]; exact List.mem_cons_self⟩)
  | call t q' f st hi hc =>
    obtain rfl := Option.some.inj ho
    exact Or.inr (Or.inl hc)

end View

/-! ## The program of a strand -/

/-- The strand `s` runs the closures of the program `P` on a part of the shared
    state, which only they change once it is there. -/
structure Sequential {τ Call Event Fr : Type} (M : Machine σ S Q F E) (s : S)
    (P : Strand.Program τ Call Event Fr) where
  get : σ → Option τ
  /-- the closures of the strand -/
  closure? : Q → Option (Call ⊕ Event)
  /-- what is left of them -/
  frame? : F → Option Fr
  /-- the part of the shared state when it is first there -/
  Init : τ → Prop
  closure_strand : ∀ {q c}, closure? q = some c → M.strand q = s
  frame_home : ∀ {f g}, frame? f = some g → M.home f = s
  strand_closure : ∀ {q}, M.strand q = s → ∃ c, closure? q = some c
  home_frame : ∀ {f}, M.home f = s → ∃ g, frame? f = some g
  /-- a closure finds nothing to run on -/
  run_none : ∀ {q u}, M.strand q = s → get u = none → (M.run q u).2.frame? = none
  run_call : ∀ {q c u x}, closure? q = some (.inl c) → get u = some x →
    get (M.run q u).1 = some (P.call c x).1 ∧ (M.run q u).2.frame?.bind frame? = (P.call c x).2
  /-- a completion handler does nothing once its operation is not outstanding -/
  run_event : ∀ {q e u x}, closure? q = some (.inr e) → get u = some x →
    get (M.run q u).1 = some ((P.event e x).getD (x, none)).1 ∧
      (M.run q u).2.frame?.bind frame? = ((P.event e x).getD (x, none)).2
  resume : ∀ {f g u x}, frame? f = some g → get u = some x →
    get (M.resume f u).1 = some (P.resume g x).1 ∧
      (M.resume f u).2.frame?.bind frame? = (P.resume g x).2
  run_other : ∀ {q u x}, M.strand q ≠ s → get u = some x → get (M.run q u).1 = some x
  resume_other : ∀ {f u x}, M.home f ≠ s → get u = some x → get (M.resume f u).1 = some x
  complete : ∀ {e u r}, M.complete e u = some r → get r.1 = get u
  /-- a closure of another strand, or one that finds nothing, may create it -/
  run_created : ∀ {q u x}, get u = none → get (M.run q u).1 = some x → M.strand q ≠ s ∧ Init x
  resume_created : ∀ {f u}, get u = none → get (M.resume f u).1 = none
  /-- completion handlers only come from the environment -/
  event_called : ∀ {q e u}, closure? q = some (.inr e) → M.callable q u = false
  event_run : ∀ {q e q' u f}, closure? q = some (.inr e) → (M.run q' u).2 ≠ .dispatch q f
  event_resume : ∀ {q e g u f}, closure? q = some (.inr e) → (M.resume g u).2 ≠ .dispatch q f

namespace Sequential
variable {τ Call Event Fr : Type} {M : Machine σ S Q F E} {s : S}
  {P : Strand.Program τ Call Event Fr} (X : Sequential M s P)

/-- The step of the program that a closure is, run on `x`. -/
def closureLabel (x : τ) (q : Q) : Option (Strand.Label Call Event) :=
  match X.closure? q with
  | some (.inl c) => some (.call c)
  | some (.inr e) => (P.event e x).map fun _ => .event e
  | none => none

variable [DecidableEq S]

/-- The step of the program that a step of the machine is, if it is one of the
    strand. -/
def label (w : World σ S Q F) (l : Label S Q E) : Option (Strand.Label Call Event) :=
  match X.get w.shared with
  | none => none
  | some x =>
    match M.ran w l with
    | some q => X.closureLabel x q
    | none => ((w.resumed l).bind X.frame?).map fun _ => .ret

/-- The steps of a run that are steps of the program, in order. -/
def labels (es : List (World σ S Q F × Label S Q E)) : List (Strand.Label Call Event) :=
  es.filterMap fun e => X.label e.1 e.2

omit [DecidableEq S] in
/-- A completion handler ran. -/
theorem label_event {w : World σ S Q F} {l : Label S Q E} {e : Event}
    (h : X.label w l = some (.event e)) :
    ∃ q, M.ran w l = some q ∧ X.closure? q = some (.inr e) := by
  unfold label at h
  split at h
  · cases h
  · split at h
    · next q hq =>
      refine ⟨q, hq, ?_⟩
      unfold closureLabel at h
      split at h
      · cases h
      · next hk =>
        obtain ⟨r, -, he⟩ := Option.map_eq_some_iff.1 h
        cases he
        exact hk
      · cases h
    · obtain ⟨f, -, he⟩ := Option.map_eq_some_iff.1 h
      cases he

/-- What is left of the closures of the strand. -/
def stack (w : World σ S Q F) : List Fr := ((w.view M.home).frames s).filterMap X.frame?

/-- The program is in the configuration `c`. -/
def Follows (w : World σ S Q F) (c : Strand.Config τ Fr) : Prop :=
  X.get w.shared = some c.state ∧ X.stack w = c.stack

/-- No completion handler was called or dispatched. -/
def EventFree (w : World σ S Q F) : Prop :=
  ∀ s', ∀ it ∈ (w.view M.home).items s', ∀ q e f, X.closure? q = some (.inr e) → it ≠ .dispatch q f

variable {X} {w w' : World σ S Q F} {l : Label S Q E} {c : Strand.Config τ Fr}

theorem EventFree.step (hM : M.Lawful) (held : Held M w) (h : X.EventFree w)
    (hs : M.step w l = some w') : X.EventFree w' := by
  have hitems {r : Tail Q F} (hr : ∀ q e f, X.closure? q = some (.inr e) → r ≠ .dispatch q f) :
      ∀ it ∈ (r.items : List (Item S Q F)), ∀ q e f, X.closure? q = some (.inr e) →
        it ≠ .dispatch q f := by
    intro it hit q e f he heq
    cases r with
    | done => cases hit
    | user g =>
      rw [List.mem_singleton.1 hit] at heq
      cases heq
    | dispatch q' g =>
      rw [List.mem_singleton.1 hit] at heq
      cases heq
      exact hr q e f he rfl
  have hfree : (w.view M.home).Everywhere (fun _ => True) fun it =>
      ∀ q e f, X.closure? q = some (.inr e) → it ≠ .dispatch q f := ⟨fun _ _ _ => trivial, h⟩
  refine (hfree.step (step_view hM held hs) ?_ (fun _ _ => trivial) (fun _ _ _ _ => trivial) ?_
    (fun _ _ _ _ => trivial) ?_ ?_).items
  · intro _ q e f _ heq
    cases heq
  · intro q f _ q' e g _ heq
    cases heq
  · intro q _ _
    exact hitems fun q' e f he => X.event_run he
  · intro it f _ _
    exact hitems fun q' e g he => X.event_resume he

omit [DecidableEq S] in
theorem filterMap_toList (o : Option F) :
    o.toList.filterMap X.frame? = (o.bind X.frame?).toList := by
  cases o with
  | none => rfl
  | some f => cases hf : X.frame? f <;> simp [hf]

/-- A closure of the strand leaves its frame on top. -/
theorem stack_run {q : Q} (hf : (w'.view M.home).frames s =
    (M.run q w.shared).2.frame?.toList ++ (w.view M.home).frames s) :
    X.stack w' = ((M.run q w.shared).2.frame?.bind X.frame?).toList ++ X.stack w := by
  unfold stack
  rw [hf, List.filterMap_append, filterMap_toList]

/-- A step of another strand. -/
theorem stay_get {v v' : View σ S Q F} {o : Option Q} {g : Option F}
    (hs : View.Step M v l o g v') (ho : ∀ q, o = some q → M.strand q ≠ s)
    (hg : ∀ f, g = some f → M.home f ≠ s) {x : τ} (hget : X.get v.shared = some x) :
    X.get v'.shared = some x := by
  cases Weight.step_effect hs with
  | stay hsh => rw [hsh, hget]
  | complete e q _ hc => rw [X.complete hc, hget]
  | run q hsh =>
    rw [hsh]
    exact X.run_other (ho q rfl) hget
  | resume it f _ _ hsh =>
    rw [hsh]
    exact X.resume_other (hg f rfl) hget

/-- A completion handler runs while nothing is left on the strand. -/
theorem EventFree.stack_nil (h : X.EventFree w) {w₁ : View σ S Q F} {o : Option Q} {g : Option F}
    (hs : View.Step M (w.view M.home) l o g w₁) {q : Q} {e : Event} (ho : o = some q)
    (he : X.closure? q = some (.inr e)) : X.stack w = [] := by
  rcases hs.ran_from ho with hi | hc | ⟨f, hf⟩
  · rw [X.closure_strand he] at hi
    simp only [stack, View.frames, hi, List.filterMap_nil]
  · rw [X.event_called he] at hc
    cases hc
  · exact absurd rfl (h _ _ hf q e f he)

/-- **A step of the machine is a step of the program, or none.** -/
theorem Follows.step (hM : M.Lawful) (held : Held M w) (hfree : X.EventFree w)
    (h : X.Follows w c) (hs : M.step w l = some w') :
    ∃ c', P.exec c (X.label w l).toList = some c' ∧ X.Follows w' c' := by
  obtain ⟨hget, hstack⟩ := h
  have hv := step_view hM held hs
  have hone {a : Strand.Label Call Event} {c' : Strand.Config τ Fr} (ha : X.label w l = some a)
      (hc : P.step c a = some c') (hf : X.Follows w' c') :
      ∃ c', P.exec c (X.label w l).toList = some c' ∧ X.Follows w' c' := by
    refine ⟨c', ?_, hf⟩
    rw [ha]
    show (P.step c a).bind some = _
    rw [hc]
    rfl
  have hnone (ha : X.label w l = none) (hf : X.Follows w' c) :
      ∃ c', P.exec c (X.label w l).toList = some c' ∧ X.Follows w' c' := by
    refine ⟨c, ?_, hf⟩
    rw [ha]
    rfl
  have hlabel : X.label w l = match M.ran w l with
      | some q => X.closureLabel c.state q
      | none => ((w.resumed l).bind X.frame?).map fun _ => .ret := by
    simp only [label, hget]
  generalize ho : M.ran w l = o at hv hlabel
  generalize hg : w.resumed l = g at hv hlabel
  cases hv.moved s with
  | run q hq hsh hf =>
    have hst := stack_run (X := X) hf
    obtain ⟨k, hk⟩ := X.strand_closure hq
    rw [hstack] at hst
    cases k with
    | inl x =>
      obtain ⟨h₁, h₂⟩ := X.run_call hk hget
      rw [h₂] at hst
      refine hone (a := .call x) ?_ (Strand.Program.step_call c x) ⟨?_, hst⟩
      · rw [hlabel]
        simp only [closureLabel, hk]
      · exact (congrArg X.get hsh).trans h₁
    | inr e =>
      obtain ⟨h₁, h₂⟩ := X.run_event hk hget
      rw [h₂] at hst
      have hget' := (congrArg X.get hsh).trans h₁
      have hl : X.label w l = (P.event e c.state).map fun _ => .event e := by
        rw [hlabel]
        simp only [closureLabel, hk]
      cases hr : P.event e c.state with
      | none =>
        rw [hr] at hst hget' hl
        exact hnone hl ⟨hget', hst⟩
      | some r =>
        rw [hr] at hst hget' hl
        have hnil : c.stack = [] := hstack ▸ hfree.stack_nil hv rfl hk
        refine hone hl (Strand.Program.step_event_iff.2 ⟨hnil, r, hr, rfl⟩) ⟨hget', ?_⟩
        rw [hst, hnil, List.append_nil]
        rfl
  | resume f st hf hsh hfs hfs' =>
    obtain ⟨k, hk⟩ := X.home_frame hf
    obtain ⟨h₁, h₂⟩ := X.resume hk hget
    have hst : c.stack = k :: st.filterMap X.frame? := by
      rw [← hstack, stack, hfs, List.filterMap_cons_some hk]
    refine hone (a := .ret) ?_ (Strand.Program.step_ret_iff.2 ⟨k, _, hst, rfl⟩) ⟨?_, ?_⟩
    · rw [hlabel]
      simp [hk]
    · exact (congrArg X.get hsh).trans h₁
    · show X.stack w' = _ ++ _
      rw [← h₂, stack, hfs', List.filterMap_append, filterMap_toList]
      rfl
  | stay _ _ hq hf hfs =>
    refine hnone ?_ ⟨stay_get hv hq hf hget, ?_⟩
    · rw [hlabel]
      cases o with
      | some q =>
        have hk : X.closure? q = none := Option.eq_none_iff_forall_ne_some.2 fun k hk =>
          hq q rfl (X.closure_strand hk)
        simp only [closureLabel, hk]
      | none =>
        cases g with
        | none => rfl
        | some f =>
          have hk : X.frame? f = none := Option.eq_none_iff_forall_ne_some.2 fun k hk =>
            hf f rfl (X.frame_home hk)
          simp [hk]
    · rw [← hstack, stack, hfs]
      rfl

/-- Nothing is left on a strand whose part of the shared state is not there. -/
theorem step_absent (hM : M.Lawful) (held : Held M w) (hget : X.get w.shared = none)
    (hst : X.stack w = []) (hs : M.step w l = some w') :
    X.stack w' = [] ∧ ∀ x, X.get w'.shared = some x → X.Init x := by
  have hv := step_view hM held hs
  generalize M.ran w l = o at hv
  generalize w.resumed l = g at hv
  cases hv.moved s with
  | run q hq hsh hf =>
    have hrun := X.run_none hq hget
    refine ⟨?_, fun x hx => ?_⟩
    · rw [stack_run (X := X) hf, hst]
      show (Option.bind (M.run q (w.view M.home).shared).2.frame? X.frame?).toList ++ [] = []
      rw [show (M.run q (w.view M.home).shared).2.frame? = none from hrun]
      rfl
    · exact absurd hq (X.run_created hget ((congrArg X.get hsh).symm.trans hx)).1
  | resume f st hf hsh hfs hfs' =>
    obtain ⟨k, hk⟩ := X.home_frame hf
    rw [stack, hfs, List.filterMap_cons_some hk] at hst
    cases hst
  | stay _ _ hq hf hfs =>
    refine ⟨?_, fun x hx => ?_⟩
    · rw [← hst, stack, hfs]
      rfl
    · have hx' : X.get (w'.view M.home).shared = some x := hx
      cases Weight.step_effect hv with
      | stay hsh =>
        rw [hsh] at hx'
        cases hget.symm.trans hx'
      | complete e q _ hc =>
        rw [X.complete hc] at hx'
        cases hget.symm.trans hx'
      | run q hsh =>
        rw [hsh] at hx'
        exact (X.run_created hget hx').2
      | resume it f _ _ hsh =>
        rw [hsh] at hx'
        cases (X.resume_created hget).symm.trans hx'

/-- **The steps of a run that are those of the strand are a run of the program**, from
    its initial state to what the strand has come to. -/
theorem trace_exec (hM : M.Lawful) {u : σ} (hu : X.get u = none)
    {es : List (World σ S Q F × Label S Q E)}
    (h : Transition.Trace M.step (World.idle u) es w) :
    Held M w ∧ X.EventFree w ∧
    (X.get w.shared = none → X.stack w = [] ∧ X.labels es = []) ∧
    ∀ x, X.get w.shared = some x →
      ∃ x₀, X.Init x₀ ∧ P.exec ⟨x₀, []⟩ (X.labels es) = some ⟨x, X.stack w⟩ := by
  refine h.inv (I := fun es w => Held M w ∧ X.EventFree w ∧
    (X.get w.shared = none → X.stack w = [] ∧ X.labels es = []) ∧
    ∀ x, X.get w.shared = some x →
      ∃ x₀, X.Init x₀ ∧ P.exec ⟨x₀, []⟩ (X.labels es) = some ⟨x, X.stack w⟩) ?_ ?_
  · refine ⟨.idle u, fun _ _ hit => (by cases hit), fun _ => ⟨rfl, rfl⟩, fun x hx => ?_⟩
    cases hu.symm.trans hx
  · rintro es w l w' ⟨held, hfree, habsent, hthere⟩ hs
    refine ⟨held.step hM hs, hfree.step hM held hs, ?_⟩
    have hlabels : X.labels (es ++ [(w, l)]) = X.labels es ++ (X.label w l).toList := by
      unfold labels
      rw [List.filterMap_append]
      cases hl : X.label w l <;> simp [hl]
    cases hget : X.get w.shared with
    | none =>
      have hl : X.label w l = none := by simp only [label, hget]
      obtain ⟨hst, hls⟩ := habsent hget
      obtain ⟨hst', hinit⟩ := step_absent hM held hget hst hs
      rw [hlabels, hls, hl, hst']
      exact ⟨fun _ => ⟨rfl, rfl⟩, fun x hx => ⟨x, hinit x hx, rfl⟩⟩
    | some x =>
      obtain ⟨x₀, hx₀, he⟩ := hthere x hget
      have hfollows : X.Follows w ⟨x, X.stack w⟩ := ⟨hget, rfl⟩
      obtain ⟨c', hc', hget', hst'⟩ := hfollows.step hM held hfree hs
      refine ⟨fun hn => (by cases hn.symm.trans hget'), fun y hy => ⟨x₀, hx₀, ?_⟩⟩
      obtain rfl := Option.some.inj (hget'.symm.trans hy)
      rw [hlabels, hst']
      exact (Transition.exec_append he).trans hc'

/-- The runs of the machine whose steps meet `ok'` are runs of the program whose steps
    meet `ok`. -/
theorem run_program (hM : M.Lawful) {u : σ} (hu : X.get u = none)
    {ok' : World σ S Q F → Label S Q E → Prop} {ok : Strand.Program.Guard τ Call Event Fr}
    (hok : ∀ w l c a, ok' w l → X.Follows w c → X.label w l = some a → ok c a)
    (h : Transition.Run M.step ok' (World.idle u) w) {x : τ} (hx : X.get w.shared = some x) :
    ∃ x₀, X.Init x₀ ∧ P.Run ok ⟨x₀, []⟩ ⟨x, X.stack w⟩ := by
  suffices hinv : Held M w ∧ X.EventFree w ∧ (X.get w.shared = none → X.stack w = []) ∧
      ∀ x, X.get w.shared = some x → ∃ x₀, X.Init x₀ ∧ P.Run ok ⟨x₀, []⟩ ⟨x, X.stack w⟩ from
    hinv.2.2.2 x hx
  refine h.inv (I := fun w => Held M w ∧ X.EventFree w ∧
    (X.get w.shared = none → X.stack w = []) ∧
    ∀ x, X.get w.shared = some x → ∃ x₀, X.Init x₀ ∧ P.Run ok ⟨x₀, []⟩ ⟨x, X.stack w⟩) ?_ ?_
  · refine ⟨.idle u, fun _ _ hit => (by cases hit), fun _ => rfl, fun x hx => ?_⟩
    cases hu.symm.trans hx
  · rintro w l w' ⟨held, hfree, habsent, hthere⟩ hl hs
    refine ⟨held.step hM hs, hfree.step hM held hs, ?_⟩
    cases hget : X.get w.shared with
    | none =>
      obtain ⟨hst', hinit⟩ := step_absent hM held hget (habsent hget) hs
      rw [hst']
      exact ⟨fun _ => rfl, fun x hx => ⟨x, hinit x hx, .refl⟩⟩
    | some x =>
      obtain ⟨x₀, hx₀, hr⟩ := hthere x hget
      have hfollows : X.Follows w ⟨x, X.stack w⟩ := ⟨hget, rfl⟩
      obtain ⟨c', hc', hget', hst'⟩ := hfollows.step hM held hfree hs
      refine ⟨fun hn => (by cases hn.symm.trans hget'), fun y hy => ⟨x₀, hx₀, ?_⟩⟩
      obtain rfl := Option.some.inj (hget'.symm.trans hy)
      rw [hst']
      cases ha : X.label w l with
      | none =>
        rw [ha] at hc'
        obtain rfl := Option.some.inj hc'
        exact hr
      | some a =>
        rw [ha] at hc'
        obtain ⟨c₁, hc₁, he⟩ := Option.bind_eq_some_iff.1 hc'
        obtain rfl := Option.some.inj he
        exact hr.step (hok w l _ a hl hfollows ha) hc₁

/-- Nothing is left of the closures of a strand that nobody holds. -/
theorem stack_idle (held : Held M w) (hs : w.holder s = none) : X.stack w = [] := by
  simp only [stack, View.frames, held.items_nil.2 hs, List.filterMap_nil]

end Sequential

end Executor
