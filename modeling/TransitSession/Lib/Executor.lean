/-
  Strands over a pool of threads: closures that are dispatched to strands and
  run on the threads of the pool, at most one at a time on each strand.

  A thread that dispatches a closure runs it inline if it holds the strand, or
  if nobody does and nothing is queued there; otherwise the closure is queued,
  first in, first out.  A closure runs to its end, or up to a point where it
  dispatches another closure or calls user code; what is left of it is a frame.
  User code may dispatch the closures that are `callable`.

  * `Machine.step`: one step of one thread, or of the environment; `Step` is its
    inversion;
  * `Held`: a thread holds a strand while a closure of the strand is on its
    stack; it is an invariant (`run_held`), so the closures of one strand never
    run on two threads (`Held.exclusive`);
  * `step_effect`: what one step does to the shared state and the frames.
-/
import TransitSession.Lib.Transition
import Mathlib.Logic.Function.Basic

namespace Executor

variable {σ S Q F E : Type}

/-- How a part of a closure ends. -/
inductive Tail (Q F : Type) where
  | done
  /-- the closure dispatches `q` and goes on as `f` -/
  | dispatch (q : Q) (f : F)
  /-- the closure calls user code and goes on as `f` -/
  | user (f : F)

/-- The closures of a program over the shared state `σ`; `E` are the operations
    that complete outside of it. -/
structure Machine (σ S Q F E : Type) where
  /-- the strand that a closure is dispatched to -/
  strand : Q → S
  /-- the strand of the closure that a frame is left of -/
  home : F → S
  run : Q → σ → σ × Tail Q F
  resume : F → σ → σ × Tail Q F
  /-- the operation completes: its completion handler -/
  complete : E → σ → Option (σ × Q)
  /-- the closures that user code may dispatch -/
  callable : Q → σ → Bool

/-- The items of the stack of a thread, innermost first. -/
inductive Item (S Q F : Type) where
  | resume (f : F)
  | dispatch (q : Q) (f : F)
  /-- user code is running, called by the closure that `f` is left of -/
  | user (f : F)
  /-- a closure has ended that took the strand `s` -/
  | release (s : S)

def Tail.items : Tail Q F → List (Item S Q F)
  | .done => []
  | .dispatch q f => [.dispatch q f]
  | .user f => [.user f]

/-- What is left of a closure, if it goes on. -/
def Tail.frame? : Tail Q F → Option F
  | .done => none
  | .dispatch _ f | .user f => some f

def Item.frame? : Item S Q F → Option F
  | .resume f | .dispatch _ f | .user f => some f
  | .release _ => none

/-- The shared state, the queue and the holder of each strand, and the stack of
    each thread. -/
structure World (σ S Q F : Type) where
  shared : σ
  queue : S → List Q
  holder : S → Option ℕ
  stack : ℕ → List (Item S Q F)

inductive Label (S Q E : Type) where
  /-- a closure is dispatched from outside the pool -/
  | post (q : Q)
  | complete (e : E)
  /-- the idle thread `t` takes the first closure of the strand `s` -/
  | take (t : ℕ) (s : S)
  /-- the thread `t` goes on -/
  | step (t : ℕ)
  /-- the user code on `t` dispatches a closure -/
  | call (t : ℕ) (q : Q)
  /-- the user code on `t` returns -/
  | ret (t : ℕ)

/-- The thread that a step is one of. -/
def Label.thread : Label S Q E → Option ℕ
  | .post _ | .complete _ => none
  | .take t _ | .step t | .call t _ | .ret t => some t

/-- A world in which nothing runs. -/
def World.idle (s : σ) : World σ S Q F := ⟨s, fun _ => [], fun _ => none, fun _ => []⟩

/-- What is left of the closure that a step goes on with. -/
def World.resumed (w : World σ S Q F) : Label S Q E → Option F
  | .step t =>
    match w.stack t with
    | .resume f :: _ => some f
    | _ => none
  | .ret t =>
    match w.stack t with
    | .user f :: _ => some f
    | _ => none
  | _ => none

/-! ## Stacks -/

/-- Every frame lies above the release of its strand, which is there once. -/
def Owned (home : F → S) : List (Item S Q F) → Prop
  | [] => True
  | it :: st => (∀ f, it.frame? = some f → .release (home f) ∈ st) ∧
      (∀ s, it = .release s → .release s ∉ st) ∧ Owned home st

theorem Owned.frame {home : F → S} {st : List (Item S Q F)} (h : Owned home st) {it : Item S Q F}
    (hit : it ∈ st) {f : F} (hf : it.frame? = some f) : .release (home f) ∈ st := by
  induction st with
  | nil => cases hit
  | cons it' st ih =>
    rcases List.mem_cons.1 hit with rfl | hit
    · exact List.mem_cons_of_mem _ (h.1 f hf)
    · exact List.mem_cons_of_mem _ (ih h.2.2 hit)

/-- Only the strand of its frame matters for the top item. -/
theorem Owned.replace {home : F → S} {st : List (Item S Q F)} {it it' : Item S Q F}
    (h : Owned home (it :: st)) (hf : it'.frame? = it.frame?) (hr : ∀ s, it' ≠ .release s) :
    Owned home (it' :: st) :=
  ⟨fun f hf' => h.1 f (hf ▸ hf'), fun s hs => absurd hs (hr s), h.2.2⟩

theorem Tail.release_notMem (r : Tail Q F) (s : S) :
    Item.release s ∉ (r.items : List (Item S Q F)) := by
  cases r <;> simp [Tail.items]

theorem Tail.frame?_items {r : Tail Q F} {it : Item S Q F} {f : F}
    (hit : it ∈ (r.items : List (Item S Q F))) (hf : it.frame? = some f) : r.frame? = some f := by
  cases r <;> simp_all [Tail.items, Tail.frame?, Item.frame?]

theorem Tail.owned {home : F → S} {r : Tail Q F} {st : List (Item S Q F)} (h : Owned home st)
    (hr : ∀ f, r.frame? = some f → .release (home f) ∈ st) : Owned home (r.items ++ st) := by
  cases r with
  | done => exact h
  | dispatch q f | user f => exact ⟨fun f' hf => hr f' hf, by simp, h⟩

/-- The stack of one thread changes. -/
theorem owned_update {home : F → S} {ths : ℕ → List (Item S Q F)} {t : ℕ}
    {st : List (Item S Q F)} (hst : Owned home st)
    (h : ∀ t', t' ≠ t → Owned home (ths t')) :
    ∀ t', Owned home (Function.update ths t st t') :=
  (Function.forall_update_iff ths fun _ st => Owned home st).2 ⟨hst, h⟩

section
variable [DecidableEq S]

/-! ## Steps -/

/-- `t` may run a closure of the strand `s` inline. -/
def World.inline (w : World σ S Q F) (t : ℕ) (s : S) : Bool :=
  w.holder s = some t || (w.holder s = none && (w.queue s).isEmpty)

/-- The closure that took `s` has ended. -/
def World.free (w : World σ S Q F) (t : ℕ) (s : S) (below : List (Item S Q F)) :
    World σ S Q F :=
  { w with
    holder := Function.update w.holder s none
    stack := Function.update w.stack t below }

namespace Machine
variable (M : Machine σ S Q F E)

/-- The thread `t` runs the closure `q` of the strand `s`, above the items
    `below`. -/
def enter (w : World σ S Q F) (t : ℕ) (s : S) (q : Q) (below : List (Item S Q F)) :
    World σ S Q F :=
  let r := M.run q w.shared
  { w with
    shared := r.1
    holder := Function.update w.holder s (some t)
    stack := Function.update w.stack t
      (r.2.items ++ ((if w.holder s = some t then [] else [.release s]) ++ below)) }

/-- The closure `q` is queued. -/
def enqueue (w : World σ S Q F) (q : Q) : World σ S Q F :=
  { w with queue := Function.update w.queue (M.strand q) (w.queue (M.strand q) ++ [q]) }

/-- The thread `t` dispatches `q` and has the items `below` left. -/
def dispatch (w : World σ S Q F) (t : ℕ) (q : Q) (below : List (Item S Q F)) : World σ S Q F :=
  if w.inline t (M.strand q) then M.enter w t (M.strand q) q below
  else { M.enqueue w q with stack := Function.update w.stack t below }

/-- The thread `t` goes on with `f`, above the items `below`. -/
def goOn (w : World σ S Q F) (t : ℕ) (f : F) (below : List (Item S Q F)) : World σ S Q F :=
  let r := M.resume f w.shared
  { w with shared := r.1, stack := Function.update w.stack t (r.2.items ++ below) }

def step (w : World σ S Q F) : Label S Q E → Option (World σ S Q F)
  | .post q => if M.callable q w.shared then some (M.enqueue w q) else none
  | .complete e => (M.complete e w.shared).map fun r => M.enqueue { w with shared := r.1 } r.2
  | .take t s =>
    match w.stack t, w.holder s, w.queue s with
    | [], none, q :: rest =>
      some (M.enter { w with queue := Function.update w.queue s rest } t s q [])
    | _, _, _ => none
  | .step t =>
    match w.stack t with
    | .resume f :: st => some (M.goOn w t f st)
    | .dispatch q f :: st => some (M.dispatch w t q (.resume f :: st))
    | .release s :: st => some (w.free t s st)
    | _ => none
  | .call t q =>
    match w.stack t with
    | .user f :: st =>
      if M.callable q w.shared then some (M.dispatch w t q (.user f :: st)) else none
    | _ => none
  | .ret t =>
    match w.stack t with
    | .user f :: st => some (M.goOn w t f st)
    | _ => none

/-- What one step does. -/
inductive Step (w : World σ S Q F) : Label S Q E → World σ S Q F → Prop where
  | post (q) : M.callable q w.shared = true → Step w (.post q) (M.enqueue w q)
  | complete (e s q) : M.complete e w.shared = some (s, q) →
      Step w (.complete e) (M.enqueue { w with shared := s } q)
  | take (t s q rest) : w.stack t = [] → w.holder s = none → w.queue s = q :: rest →
      Step w (.take t s) (M.enter { w with queue := Function.update w.queue s rest } t s q [])
  | resume (t f st) : w.stack t = .resume f :: st → Step w (.step t) (M.goOn w t f st)
  | dispatch (t q f st) : w.stack t = .dispatch q f :: st →
      Step w (.step t) (M.dispatch w t q (.resume f :: st))
  | release (t s st) : w.stack t = .release s :: st → Step w (.step t) (w.free t s st)
  | call (t q f st) : w.stack t = .user f :: st → M.callable q w.shared = true →
      Step w (.call t q) (M.dispatch w t q (.user f :: st))
  | ret (t f st) : w.stack t = .user f :: st → Step w (.ret t) (M.goOn w t f st)

variable {M} {w w' : World σ S Q F} {l : Label S Q E}

theorem step_cases (h : M.step w l = some w') : M.Step w l w' := by
  cases l with
  | post q =>
    simp only [step, Option.ite_none_right_eq_some, Option.some.injEq] at h
    obtain ⟨hc, rfl⟩ := h
    exact .post q hc
  | complete e =>
    simp only [step, Option.map_eq_some_iff] at h
    obtain ⟨⟨s, q⟩, hr, rfl⟩ := h
    exact .complete e s q hr
  | take t s =>
    simp only [step] at h
    split at h
    · next q rest hst hh hq =>
      cases h
      exact .take t s q rest hst hh hq
    · cases h
  | step t =>
    simp only [step] at h
    split at h
    · next f st hst => cases h; exact .resume t f st hst
    · next q f st hst => cases h; exact .dispatch t q f st hst
    · next s st hst => cases h; exact .release t s st hst
    · cases h
  | call t q =>
    simp only [step] at h
    split at h
    · next f st hst =>
      simp only [Option.ite_none_right_eq_some, Option.some.injEq] at h
      obtain ⟨hc, rfl⟩ := h
      exact .call t q f st hst hc
    · cases h
  | ret t =>
    simp only [step] at h
    split at h
    · next f st hst => cases h; exact .ret t f st hst
    · cases h

/-- A step is one of one thread. -/
theorem step_stack (hs : M.step w l = some w') {t : ℕ} (ht : l.thread ≠ some t) :
    w'.stack t = w.stack t := by
  have hne {t' : ℕ} (h : some t' ≠ some t) : t ≠ t' := fun he => h (congrArg some he.symm)
  have hdispatch {t' : ℕ} (h : some t' ≠ some t) (q : Q) (below : List (Item S Q F)) :
      (M.dispatch w t' q below).stack t = w.stack t := by
    unfold dispatch
    split_ifs <;> exact Function.update_of_ne (hne h) _ _
  cases step_cases hs with
  | post | complete => rfl
  | take | resume | release | ret => exact Function.update_of_ne (hne ht) _ _
  | dispatch t' q f st hst => exact hdispatch ht q _
  | call t' q f st hst hc => exact hdispatch ht q _

theorem exec_stack {ls : List (Label S Q E)} {t : ℕ} (ht : ∀ l ∈ ls, l.thread ≠ some t)
    (h : Transition.exec M.step w ls = some w') : w'.stack t = w.stack t := by
  induction ls generalizing w with
  | nil =>
    obtain rfl : w = w' := Option.some.inj h
    rfl
  | cons l ls ih =>
    obtain ⟨w₁, h₁, h₂⟩ := Option.bind_eq_some_iff.1 h
    rw [ih (fun l hl => ht l (List.mem_cons_of_mem _ hl)) h₂,
      step_stack h₁ (ht l List.mem_cons_self)]

/-! ## Holding strands -/

/-- The frames of a closure belong to its strand. -/
structure Lawful (M : Machine σ S Q F E) : Prop where
  home_run : ∀ q s f, (M.run q s).2.frame? = some f → M.home f = M.strand q
  home_resume : ∀ f s g, (M.resume f s).2.frame? = some g → M.home g = M.home f

end Machine

/-- A thread holds a strand while it has a closure of the strand on its stack. -/
structure Held (M : Machine σ S Q F E) (w : World σ S Q F) : Prop where
  owned : ∀ t, Owned M.home (w.stack t)
  holder : ∀ s t, w.holder s = some t ↔ .release s ∈ w.stack t
  queued : ∀ s, ∀ q ∈ w.queue s, M.strand q = s

namespace Held
variable {M : Machine σ S Q F E} {w w' : World σ S Q F} {l : Label S Q E}

omit [DecidableEq S] in
theorem idle (s : σ) : Held M (World.idle s) :=
  ⟨fun _ => trivial, fun _ _ => by simp [World.idle], fun _ _ h => by cases h⟩

omit [DecidableEq S] in
/-- A frame on the stack of a thread: the thread holds its strand. -/
theorem frame (h : Held M w) {t : ℕ} {it : Item S Q F} (hit : it ∈ w.stack t) {f : F}
    (hf : it.frame? = some f) : w.holder (M.home f) = some t :=
  (h.holder _ t).2 ((h.owned t).frame hit hf)

theorem enqueue (h : Held M w) (q : Q) : Held M (M.enqueue w q) := by
  refine ⟨h.owned, h.holder, ?_⟩
  intro s q' hq'
  by_cases hs : s = M.strand q
  · subst hs
    simp only [Machine.enqueue, Function.update_self, List.mem_append, List.mem_singleton] at hq'
    rcases hq' with hq' | rfl
    exacts [h.queued _ q' hq', rfl]
  · simp only [Machine.enqueue, Function.update_of_ne hs] at hq'
    exact h.queued s q' hq'

theorem dequeue (h : Held M w) {s : S} {q : Q} {rest : List Q} (hq : w.queue s = q :: rest) :
    Held M { w with queue := Function.update w.queue s rest } := by
  refine ⟨h.owned, h.holder, fun s' q' hq' => ?_⟩
  by_cases hs' : s' = s
  · subst hs'
    simp only [Function.update_self] at hq'
    exact h.queued s' q' (by rw [hq]; exact List.mem_cons_of_mem _ hq')
  · simp only [Function.update_of_ne hs'] at hq'
    exact h.queued s' q' hq'

omit [DecidableEq S] in
/-- The items of a thread change, but not the strands that it holds. -/
theorem restack (h : Held M w) {t : ℕ} {st : List (Item S Q F)} (hst : Owned M.home st)
    (hr : ∀ s, .release s ∈ st ↔ .release s ∈ w.stack t) :
    Held M { w with stack := Function.update w.stack t st } := by
  refine ⟨owned_update hst fun t' _ => h.owned t', fun s t' => ?_, h.queued⟩
  by_cases ht : t' = t
  · subst ht; simp [h.holder, hr]
  · simp [Function.update_of_ne ht, h.holder]

theorem enter (hM : M.Lawful) (h : Held M w) {t : ℕ} {s : S} {q : Q} {below : List (Item S Q F)}
    (hb : Owned M.home below) (hr : ∀ s, .release s ∈ below ↔ .release s ∈ w.stack t)
    (hs : w.holder s = some t ∨ w.holder s = none) (hq : M.strand q = s) :
    Held M (M.enter w t s q below) := by
  have hhome (f) (hf : (M.run q w.shared).2.frame? = some f) : M.home f = s :=
    (hM.home_run q _ f hf).trans hq
  have hitems (s' : S) := (M.run q w.shared).2.release_notMem s'
  rcases hs with hs | hs
  · -- the strand is held already
    have hown : Owned M.home ((M.run q w.shared).2.items ++ below) := by
      refine Tail.owned hb fun f hf => ?_
      rw [hhome f hf, hr, ← h.holder]; exact hs
    have := (h.restack (t := t) hown fun s' => by simp [hitems, hr])
    have hh : Function.update w.holder s (some t) = w.holder := by
      rw [← hs, Function.update_eq_self]
    simp only [Machine.enter, hs, if_true, List.nil_append, hh]
    exact ⟨this.owned, this.holder, this.queued⟩
  · -- the strand is taken
    have hn (t') : .release s ∉ w.stack t' := by
      rw [← h.holder, hs]; simp
    have hown : Owned M.home ((M.run q w.shared).2.items ++ .release s :: below) := by
      refine Tail.owned ⟨by simp [Item.frame?], ?_, hb⟩ fun f hf => ?_
      · rintro s' hs'
        cases hs'
        rw [hr]; exact hn t
      · rw [hhome f hf]; exact List.mem_cons_self
    simp only [Machine.enter, hs, reduceCtorEq, if_false, List.singleton_append]
    refine ⟨owned_update hown fun t' _ => h.owned t', fun s' t' => ?_, h.queued⟩
    by_cases ht : t' = t <;> by_cases hs' : s' = s
    · subst ht hs'; simp
    · subst ht; simp [h.holder, hitems, hr, hs']
    · subst hs'; simp [Function.update_of_ne ht, hn, Ne.symm ht]
    · simp [Function.update_of_ne hs', Function.update_of_ne ht, h.holder]

theorem dispatch (hM : M.Lawful) (h : Held M w) {t : ℕ} {q : Q} {below : List (Item S Q F)}
    (hb : Owned M.home below) (hr : ∀ s, .release s ∈ below ↔ .release s ∈ w.stack t) :
    Held M (M.dispatch w t q below) := by
  unfold Machine.dispatch
  split_ifs with hi
  · refine h.enter hM hb hr ?_ rfl
    simp only [World.inline, Bool.or_eq_true, Bool.and_eq_true, decide_eq_true_eq] at hi
    exact hi.imp id And.left
  · exact (h.enqueue q).restack hb hr

omit [DecidableEq S] in
theorem goOn (hM : M.Lawful) (h : Held M w) {t : ℕ} {it : Item S Q F} {f : F}
    {st : List (Item S Q F)} (hst : w.stack t = it :: st) (hf : it.frame? = some f) :
    Held M (M.goOn w t f st) := by
  have ho := h.owned t
  rw [hst] at ho
  have hitems (s' : S) := (M.resume f w.shared).2.release_notMem s'
  have hown : Owned M.home ((M.resume f w.shared).2.items ++ st) := by
    refine Tail.owned ho.2.2 fun g hg => ?_
    rw [hM.home_resume f _ g hg]; exact ho.1 f hf
  have := h.restack (t := t) hown fun s' => by
    rw [hst]
    cases it <;> simp_all [Item.frame?]
  exact ⟨this.owned, this.holder, this.queued⟩

theorem free (h : Held M w) {t : ℕ} {s : S} {st : List (Item S Q F)}
    (hst : w.stack t = .release s :: st) : Held M (w.free t s st) := by
  have ho := h.owned t
  rw [hst] at ho
  have hs : w.holder s = some t := (h.holder s t).2 (by simp [hst])
  refine ⟨owned_update ho.2.2 fun t' _ => h.owned t', fun s' t' => ?_, h.queued⟩
  by_cases hs' : s' = s
  · subst hs'
    have hn : .release s' ∉ (w.free t s' st).stack t' := by
      by_cases ht : t' = t
      · subst ht; simpa [World.free] using ho.2.1 s' rfl
      · simp only [World.free, Function.update_of_ne ht]
        rw [← h.holder, hs]
        simpa using Ne.symm ht
    simpa [World.free] using hn
  · by_cases ht : t' = t
    · subst ht
      simp [World.free, h.holder, hst, hs']
    · simp [World.free, Function.update_of_ne hs', Function.update_of_ne ht, h.holder]

theorem step (hM : M.Lawful) (h : Held M w) (hs : M.step w l = some w') : Held M w' := by
  cases Machine.step_cases hs with
  | post q => exact h.enqueue q
  | complete e s q =>
    have : Held M { w with shared := s } := ⟨h.owned, h.holder, h.queued⟩
    exact this.enqueue q
  | take t s q rest hst hh hq =>
    exact (h.dequeue hq).enter hM trivial (by simp [hst]) (Or.inr hh) (h.queued s q (by simp [hq]))
  | resume t f st hst => exact h.goOn hM hst rfl
  | dispatch t q f st hst =>
    have ho := h.owned t
    rw [hst] at ho
    exact h.dispatch hM (ho.replace rfl (by simp)) (by simp [hst])
  | release t s st hst => exact h.free hst
  | call t q f st hst hc =>
    have ho := h.owned t
    rw [hst] at ho
    exact h.dispatch hM ho (by simp [hst])
  | ret t f st hst => exact h.goOn hM hst rfl

end Held

/-! ## Where frames come from -/

/-- The frame `f` is on the stack of the thread `t`. -/
def World.HasFrame (w : World σ S Q F) (t : ℕ) (f : F) : Prop :=
  ∃ it ∈ w.stack t, it.frame? = some f

namespace Machine
variable (M : Machine σ S Q F E) (w w' : World σ S Q F)

/-- The closure that a step runs, and the thread: one that the thread takes from
    a queue, or one that it or its user code dispatches. -/
inductive Runs : Label S Q E → ℕ → Q → Prop where
  | take (t q rest) : w.stack t = [] → w.holder (M.strand q) = none →
      w.queue (M.strand q) = q :: rest → Runs (.take t (M.strand q)) t q
  | dispatch (t q f st) : w.stack t = .dispatch q f :: st → w.inline t (M.strand q) = true →
      Runs (.step t) t q
  | call (t q f st) : w.stack t = .user f :: st → M.callable q w.shared = true →
      w.inline t (M.strand q) = true → Runs (.call t q) t q

/-- The closure that a step runs, computed. -/
def ran (w : World σ S Q F) : Label S Q E → Option Q
  | .take t s =>
    match w.stack t, w.holder s, w.queue s with
    | [], none, q :: _ => some q
    | _, _, _ => none
  | .step t =>
    match w.stack t with
    | .dispatch q _ :: _ => if w.inline t (M.strand q) then some q else none
    | _ => none
  | .call t q => if w.inline t (M.strand q) then some q else none
  | _ => none

omit [DecidableEq S] in
variable {M} {w} in
theorem Runs.ran {l : Label S Q E} {t : ℕ} {q : Q} (h : M.Runs w l t q) : M.ran w l = some q := by
  cases h with
  | take t q rest hst hh hq => simp [Machine.ran, hst, hh, hq]
  | dispatch t q f st hst hi => simp [Machine.ran, hst, hi]
  | call t q f st hst hc hi => simp [Machine.ran, hi]

/-- The thread `t` executes a part of a closure with the result `r`; its frame
    is the only new one. -/
structure Executes (t : ℕ) (r : σ × Tail Q F) : Prop where
  shared : w'.shared = r.1
  frames : ∀ t' f, w'.HasFrame t' f → w.HasFrame t' f ∨ t' = t ∧ r.2.frame? = some f

/-- What one step does to the shared state and the frames: nothing, it completes
    an operation, it runs a closure, or it goes on with one. -/
inductive Effect (l : Label S Q E) : Prop where
  | stay : w'.shared = w.shared → (∀ t f, w'.HasFrame t f → w.HasFrame t f) → Effect l
  | complete (e q) : M.complete e w.shared = some (w'.shared, q) →
      (∀ t f, w'.HasFrame t f → w.HasFrame t f) → Effect l
  | run (t q) : M.Runs w l t q → Executes w w' t (M.run q w.shared) → Effect l
  | resume (t f) : w.HasFrame t f → Executes w w' t (M.resume f w.shared) → Effect l

variable {M w w'} {l : Label S Q E}

theorem executes_enter {t : ℕ} {s : S} {q : Q} {below : List (Item S Q F)}
    {w₀ : World σ S Q F} (hw : w₀.shared = w.shared) (hst : w₀.stack = w.stack)
    (hb : ∀ it ∈ below, ∀ f, it.frame? = some f → w.HasFrame t f) :
    Executes w (M.enter w₀ t s q below) t (M.run q w.shared) := by
  refine ⟨by rw [← hw]; rfl, fun t' f hf => ?_⟩
  obtain ⟨it, hit, hf⟩ := hf
  by_cases ht : t' = t
  · subst ht
    simp only [enter, Function.update_self, List.mem_append, hw] at hit
    rcases hit with hit | hit | hit
    · exact Or.inr ⟨rfl, Tail.frame?_items hit hf⟩
    · split_ifs at hit
      · cases hit
      · rw [List.mem_singleton.1 hit] at hf; cases hf
    · exact Or.inl (hb it hit f hf)
  · simp only [enter, Function.update_of_ne ht, hst] at hit
    exact Or.inl ⟨it, hit, hf⟩

omit [DecidableEq S] in
theorem executes_goOn {t : ℕ} {f : F} {it : Item S Q F} {st : List (Item S Q F)}
    (hst : w.stack t = it :: st) : Executes w (M.goOn w t f st) t (M.resume f w.shared) := by
  refine ⟨rfl, fun t' g hg => ?_⟩
  obtain ⟨it', hit, hg⟩ := hg
  by_cases ht : t' = t
  · subst ht
    simp only [goOn, Function.update_self, List.mem_append] at hit
    rcases hit with hit | hit
    · exact Or.inr ⟨rfl, Tail.frame?_items hit hg⟩
    · exact Or.inl ⟨it', by rw [hst]; exact List.mem_cons_of_mem _ hit, hg⟩
  · simp only [goOn, Function.update_of_ne ht] at hit
    exact Or.inl ⟨it', hit, hg⟩

theorem effect_dispatch {t : ℕ} {q : Q} {f : F} {it it' : Item S Q F} {st : List (Item S Q F)}
    (hst : w.stack t = it :: st) (hf : it.frame? = some f) (hf' : it'.frame? = some f)
    (hr : w.inline t (M.strand q) = true → M.Runs w l t q) :
    M.Effect w (M.dispatch w t q (it' :: st)) l := by
  have hb : ∀ it₁ ∈ it' :: st, ∀ g, it₁.frame? = some g → w.HasFrame t g := by
    intro it₁ hit g hg
    rcases List.mem_cons.1 hit with rfl | hit
    · exact ⟨it, by rw [hst]; exact List.mem_cons_self, by rw [hf, ← hf', hg]⟩
    · exact ⟨it₁, by rw [hst]; exact List.mem_cons_of_mem _ hit, hg⟩
  unfold dispatch
  split_ifs with hi
  · exact .run t q (hr hi) (executes_enter rfl rfl hb)
  · refine .stay rfl fun t' g hg => ?_
    obtain ⟨it₁, hit, hg⟩ := hg
    by_cases ht : t' = t
    · subst ht
      simp only [Function.update_self] at hit
      exact hb it₁ hit g hg
    · simp only [Function.update_of_ne ht] at hit
      exact ⟨it₁, hit, hg⟩

theorem ran_shared {q : Q} (hr : M.ran w l = some q) (hs : M.step w l = some w') :
    w'.shared = (M.run q w.shared).1 := by
  cases step_cases hs with
  | post | complete | release | ret => simp_all [ran]
  | resume t f st hst => simp [ran, hst] at hr
  | take t s q' rest hst hh hq =>
    simp only [ran, hst, hh, hq, Option.some.injEq] at hr
    subst hr
    rfl
  | dispatch t q' f st hst | call t q' f st hst hc =>
    simp only [ran, hst, Option.ite_none_right_eq_some, Option.some.injEq] at hr
    obtain ⟨hi, rfl⟩ := hr
    unfold dispatch
    rw [if_pos hi]
    rfl

theorem step_effect (h : Held M w) (hs : M.step w l = some w') : M.Effect w w' l := by
  cases step_cases hs with
  | post q => exact .stay rfl fun _ _ hf => hf
  | complete e s q he => exact .complete e q he fun _ _ hf => hf
  | take t s q rest hst hh hq =>
    obtain rfl : M.strand q = s := h.queued s q (by simp [hq])
    exact .run t q (.take t q rest hst hh hq) (executes_enter rfl rfl (by simp))
  | resume t f st hst =>
    exact .resume t f ⟨_, by rw [hst]; exact List.mem_cons_self, rfl⟩ (executes_goOn hst)
  | dispatch t q f st hst => exact effect_dispatch hst rfl rfl fun hi => .dispatch t q f st hst hi
  | release t s st hst =>
    refine .stay rfl fun t' f hf => ?_
    obtain ⟨it, hit, hf⟩ := hf
    by_cases ht : t' = t
    · subst ht
      simp only [World.free, Function.update_self] at hit
      exact ⟨it, by rw [hst]; exact List.mem_cons_of_mem _ hit, hf⟩
    · simp only [World.free, Function.update_of_ne ht] at hit
      exact ⟨it, hit, hf⟩
  | call t q f st hst hc => exact effect_dispatch hst rfl rfl fun hi => .call t q f st hst hc hi
  | ret t f st hst =>
    exact .resume t f ⟨_, by rw [hst]; exact List.mem_cons_self, rfl⟩ (executes_goOn hst)

end Machine

/-- **A thread holds the strands of its closures, in every run.** -/
theorem Machine.run_held {M : Machine σ S Q F E} (hM : M.Lawful)
    {ok : World σ S Q F → Label S Q E → Prop} {w w' : World σ S Q F} (h : Held M w)
    (hr : Transition.Run M.step ok w w') : Held M w' :=
  hr.inv h fun _ _ _ h _ hs => h.step hM hs

end

end Executor
