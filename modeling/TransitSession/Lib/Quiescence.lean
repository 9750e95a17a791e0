/-
  A pool of threads comes to rest.

  When nothing arrives from outside and user code only returns, the threads go on with
  the closures that are queued and those that they have begun.  A `Ranking` gives each
  closure and each frame a rank above those of the calls that it makes and of what is
  left of it; then every such run is finite, by the multiset order on the ranks of all
  that is left to do (`Load`).

  * `progress`: while something is left to do, a thread of the pool can go on;
  * `step_lighter`: a step of a thread makes the load smaller;
  * `finite`, `settles`: the pool comes to rest, in whatever order the threads go on.
-/
import TransitSession.Lib.Executor
import Mathlib.Algebra.BigOperators.Group.Multiset.Basic
import Mathlib.Algebra.BigOperators.Group.Finset.Basic
import Mathlib.Data.Multiset.DershowitzManna

namespace Executor

/-! ## Sums of finitely many multisets -/

section
variable {ι α : Type} [DecidableEq ι]

/-- `m` is the sum of the multisets `f i`, all but finitely many of which are empty. -/
def Total (f : ι → Multiset α) (m : Multiset α) : Prop :=
  ∃ s : Finset ι, (∀ i ∉ s, f i = 0) ∧ m = ∑ i ∈ s, f i

theorem Total.update {f : ι → Multiset α} {m : Multiset α} (h : Total f m) (i : ι) :
    ∃ rest, m = f i + rest ∧ ∀ x, Total (Function.update f i x) (x + rest) := by
  obtain ⟨s, hs, rfl⟩ := h
  refine ⟨∑ j ∈ s.erase i, f j, ?_, fun x => ⟨insert i s, fun j hj => ?_, ?_⟩⟩
  · by_cases hi : i ∈ s
    · exact (Finset.add_sum_erase s f hi).symm
    · rw [hs i hi, zero_add, Finset.erase_eq_of_notMem hi]
  · rw [Finset.mem_insert, not_or] at hj
    rw [Function.update_of_ne hj.1, hs j hj.2]
  · rw [← Finset.add_sum_erase _ _ (Finset.mem_insert_self i s), Function.update_self,
      Finset.erase_insert_eq_erase]
    refine congrArg (x + ·) (Finset.sum_congr rfl fun j hj => ?_)
    rw [Function.update_of_ne (Finset.ne_of_mem_erase hj)]

end

variable {σ S Q F E α : Type}

/-! ## What is left to do -/

/-- Ranks of closures and frames; `floor` is that of the end of a closure. -/
structure Rank (Q F α : Type) where
  closure : Q → α
  frame : F → α
  floor : α

namespace Rank
variable (ρ : Rank Q F α)

def tail : Tail Q F → Multiset α
  | .done => 0
  | .dispatch q f => {ρ.floor} + ({ρ.closure q} + {ρ.frame f})
  | .user f => {ρ.frame f}

def item : Item S Q F → Multiset α
  | .resume f | .user f => {ρ.frame f}
  | .dispatch q f => {ρ.floor} + ({ρ.closure q} + {ρ.frame f})
  | .release _ => {ρ.floor}

def stack (st : List (Item S Q F)) : Multiset α := (st.map ρ.item).sum

def queue (qs : List Q) : Multiset α := qs.map ρ.closure

@[simp] theorem stack_nil : ρ.stack ([] : List (Item S Q F)) = 0 := rfl

@[simp] theorem stack_cons (it : Item S Q F) (st : List (Item S Q F)) :
    ρ.stack (it :: st) = ρ.item it + ρ.stack st := by
  simp [stack]

@[simp] theorem stack_append (st st' : List (Item S Q F)) :
    ρ.stack (st ++ st') = ρ.stack st + ρ.stack st' := by
  simp [stack]

@[simp] theorem stack_items (r : Tail Q F) :
    ρ.stack (r.items : List (Item S Q F)) = ρ.tail r := by
  cases r <;> simp [Tail.items, tail, item]

@[simp] theorem queue_cons (q : Q) (qs : List Q) : ρ.queue (q :: qs) = {ρ.closure q} + ρ.queue qs :=
  rfl

@[simp] theorem queue_append (qs : List Q) (q : Q) :
    ρ.queue (qs ++ [q]) = {ρ.closure q} + ρ.queue qs := by
  simp [queue, ← Multiset.coe_add, add_comm]

end Rank

/-- `m` are the ranks of all that is left to do. -/
def Load (ρ : Rank Q F α) (w : World σ S Q F) (m : Multiset α) : Prop :=
  ∃ a b, Total (ρ.queue ∘ w.queue) a ∧ Total (ρ.stack ∘ w.stack) b ∧ m = a + b

namespace Load
variable {ρ : Rank Q F α} {w : World σ S Q F} {m : Multiset α} (h : Load ρ w m)
include h

/-- The stack of the thread `t` is another one. -/
theorem restack (t : ℕ) : ∃ rest, m = ρ.stack (w.stack t) + rest ∧
    ∀ (w' : World σ S Q F) (st : List (Item S Q F)), w'.queue = w.queue →
      w'.stack = Function.update w.stack t st → Load ρ w' (ρ.stack st + rest) := by
  obtain ⟨a, b, ha, hb, rfl⟩ := h
  obtain ⟨rest, rfl, hall⟩ := hb.update t
  refine ⟨a + rest, add_left_comm a _ rest, fun w' st hq hst => ⟨a, ρ.stack st + rest, ?_, ?_,
    add_left_comm _ a rest⟩⟩
  · rw [hq]
    exact ha
  · rw [hst, Function.comp_update]
    exact hall _

/-- The queue of the strand `s` is another one. -/
theorem requeue [DecidableEq S] (s : S) : ∃ rest, m = ρ.queue (w.queue s) + rest ∧
    ∀ (w' : World σ S Q F) (qs : List Q), w'.queue = Function.update w.queue s qs →
      w'.stack = w.stack → Load ρ w' (ρ.queue qs + rest) := by
  obtain ⟨a, b, ha, hb, rfl⟩ := h
  obtain ⟨rest, rfl, hall⟩ := ha.update s
  refine ⟨rest + b, add_assoc _ rest b, fun w' qs hq hst => ⟨ρ.queue qs + rest, b, ?_, ?_,
    (add_assoc _ rest b).symm⟩⟩
  · rw [hq, Function.comp_update]
    exact hall _
  · rw [hst]
    exact hb

end Load

theorem load_idle (ρ : Rank Q F α) (s : σ) : Load ρ (World.idle s : World σ S Q F) 0 :=
  ⟨0, 0, ⟨∅, fun _ _ => rfl, rfl⟩, ⟨∅, fun _ _ => rfl, rfl⟩, rfl⟩

variable [Preorder α]

/-- What is replaced outranks what replaces it. -/
theorem lighter {rest new old : Multiset α} (hold : old ≠ 0) (h : ∀ a ∈ new, ∃ b ∈ old, a < b) :
    (new + rest).IsDershowitzMannaLT (old + rest) :=
  ⟨rest, new, old, hold, add_comm new rest, add_comm old rest, h⟩

/-- A closure has ended. -/
theorem ended {rest : Multiset α} (a : α) : rest.IsDershowitzMannaLT ({a} + rest) := by
  have h : (0 + rest).IsDershowitzMannaLT ({a} + rest) :=
    lighter (Multiset.singleton_ne_zero a) fun b hb => absurd hb (Multiset.notMem_zero b)
  rwa [zero_add] at h

/-- What a closure calls, and what is left of it, ranks below it. -/
structure Rank.Descends (ρ : Rank Q F α) (M : Machine σ S Q F E) : Prop where
  floor_lt : ∀ q, ρ.floor < ρ.closure q
  run_lt : ∀ q s, ∀ a ∈ ρ.tail (M.run q s).2, a < ρ.closure q
  resume_lt : ∀ f s, ∀ a ∈ ρ.tail (M.resume f s).2, a < ρ.frame f

/-- The steps by which the threads below `N` go on, while user code only returns. -/
def Label.Internal (N : ℕ) : Label S Q E → Prop
  | .take t _ | .step t | .ret t => t < N
  | _ => False

/-- Nothing is queued, and nothing runs. -/
structure World.AtRest (w : World σ S Q F) : Prop where
  queue : ∀ s, w.queue s = []
  stack : ∀ t, w.stack t = []

section
variable [DecidableEq S] {M : Machine σ S Q F E} {ρ : Rank Q F α} (hρ : ρ.Descends M)
  {w w' : World σ S Q F} {l : Label S Q E} {m : Multiset α}
include hρ

/-- What a closure puts on the stack when it begins. -/
theorem Rank.Descends.enter (w : World σ S Q F) (t : ℕ) (s : S) (q : Q)
    (below : List (Item S Q F)) : ∃ new, (∀ a ∈ new, a < ρ.closure q) ∧ ∀ rest,
      (∀ (w' : World σ S Q F) (st : List (Item S Q F)), w'.queue = w.queue →
        w'.stack = Function.update w.stack t st → Load ρ w' (ρ.stack st + rest)) →
      Load ρ (M.enter w t s q below) (new + ρ.stack below + rest) := by
  refine ⟨ρ.tail (M.run q w.shared).2 + if w.holder s = some t then 0 else {ρ.floor},
    fun a ha => ?_, fun rest h => ?_⟩
  · rcases Multiset.mem_add.1 ha with ha | ha
    · exact hρ.run_lt q _ a ha
    · split_ifs at ha
      · exact absurd ha (Multiset.notMem_zero a)
      · rw [Multiset.mem_singleton.1 ha]
        exact hρ.floor_lt q
  · have hload := h (M.enter w t s q below) _ rfl rfl
    rw [Rank.stack_append, Rank.stack_append, Rank.stack_items, ← add_assoc] at hload
    convert hload using 4
    split_ifs
    · rfl
    · simp [Rank.item]

/-- **A step of a thread makes the load smaller.** -/
theorem step_lighter {N : ℕ} (h : Load ρ w m) (hl : l.Internal N) (hs : M.step w l = some w') :
    ∃ m', Load ρ w' m' ∧ m'.IsDershowitzMannaLT m := by
  have hgoOn {t : ℕ} {it : Item S Q F} {f : F} {st : List (Item S Q F)}
      (hst : w.stack t = it :: st) (hit : ρ.item it = {ρ.frame f}) :
      ∃ m', Load ρ (M.goOn w t f st) m' ∧ m'.IsDershowitzMannaLT m := by
    obtain ⟨rest, rfl, hload⟩ := h.restack t
    refine ⟨_, hload (M.goOn w t f st) _ rfl rfl, ?_⟩
    rw [hst, Rank.stack_cons, hit, Rank.stack_append, Rank.stack_items, add_assoc, add_assoc]
    exact lighter (Multiset.singleton_ne_zero _) fun a ha =>
      ⟨_, Multiset.mem_singleton_self _, hρ.resume_lt f _ a ha⟩
  cases Machine.step_cases hs with
  | post | complete | call => exact hl.elim
  | take t s q rest hst hh hq =>
    obtain ⟨r₁, rfl, hload₁⟩ := h.requeue s
    have h₁ := hload₁ { w with queue := Function.update w.queue s rest } rest rfl rfl
    obtain ⟨r₂, he, hload₂⟩ := h₁.restack t
    obtain ⟨new, hnew, hload⟩ :=
      hρ.enter { w with queue := Function.update w.queue s rest } t s q []
    refine ⟨_, hload r₂ hload₂, ?_⟩
    have he : ρ.queue rest + r₁ = r₂ := by simpa [hst] using he
    rw [hq, Rank.queue_cons, Rank.stack_nil, add_zero, add_assoc, he]
    exact lighter (Multiset.singleton_ne_zero _) fun a ha =>
      ⟨_, Multiset.mem_singleton_self _, hnew a ha⟩
  | resume t f st hst => exact hgoOn hst rfl
  | ret t f st hst => exact hgoOn hst rfl
  | release t s st hst =>
    obtain ⟨rest, rfl, hload⟩ := h.restack t
    refine ⟨_, hload (w.free t s st) st rfl rfl, ?_⟩
    rw [hst, Rank.stack_cons, add_assoc]
    exact ended _
  | dispatch t q f st hst =>
    obtain ⟨rest, rfl, hload⟩ := h.restack t
    have hold : ρ.stack (w.stack t) + rest =
        {ρ.floor} + ({ρ.closure q} + (ρ.stack (.resume f :: st : List (Item S Q F)) + rest)) := by
      rw [hst]
      simp only [Rank.stack_cons, Rank.item, add_assoc]
    rw [hold]
    unfold Machine.dispatch
    split_ifs
    · -- the closure runs inline
      obtain ⟨new, hnew, henter⟩ := hρ.enter w t (M.strand q) q (.resume f :: st)
      refine ⟨_, henter rest hload, .trans ?_ (ended _)⟩
      rw [add_assoc]
      exact lighter (Multiset.singleton_ne_zero _) fun a ha =>
        ⟨_, Multiset.mem_singleton_self _, hnew a ha⟩
    · -- the closure is queued
      have h₁ := hload { w with stack := Function.update w.stack t (.resume f :: st) } _ rfl rfl
      obtain ⟨r, he, hload₁⟩ := h₁.requeue (M.strand q)
      refine ⟨_, hload₁ { M.enqueue w q with stack := Function.update w.stack t (.resume f :: st) }
        (w.queue (M.strand q) ++ [q]) rfl rfl, ?_⟩
      rw [Rank.queue_append, add_assoc, he]
      exact ended _

end

/-! ## Coming to rest -/

section
variable [DecidableEq S] {M : Machine σ S Q F E} {ρ : Rank Q F α} {w w' : World σ S Q F}
  {l : Label S Q E} {m : Multiset α} {N : ℕ}

omit [Preorder α] in
/-- Only finitely many things are left to do, after any step. -/
theorem Load.step (h : Load ρ w m) (hs : M.step w l = some w') : ∃ m', Load ρ w' m' := by
  have henqueue {w : World σ S Q F} {m : Multiset α} (h : Load ρ w m) (s : σ) (q : Q) :
      ∃ m', Load ρ (M.enqueue { w with shared := s } q) m' := by
    obtain ⟨rest, -, hload⟩ := h.requeue (M.strand q)
    exact ⟨_, hload (M.enqueue { w with shared := s } q) _ rfl rfl⟩
  have hdispatch {t : ℕ} (q : Q) (below : List (Item S Q F)) :
      ∃ m', Load ρ (M.dispatch w t q below) m' := by
    obtain ⟨rest, -, hload⟩ := h.restack t
    unfold Machine.dispatch
    split_ifs
    · exact ⟨_, hload (M.enter w t (M.strand q) q below) _ rfl rfl⟩
    · have h₁ := hload { w with stack := Function.update w.stack t below } _ rfl rfl
      exact henqueue h₁ w.shared q
  cases Machine.step_cases hs with
  | post q hc => exact henqueue h w.shared q
  | complete e s q hc => exact henqueue h s q
  | take t s q rest hst hh hq =>
    obtain ⟨r, -, hload⟩ := h.requeue s
    obtain ⟨r', -, hload'⟩ :=
      (hload { w with queue := Function.update w.queue s rest } rest rfl rfl).restack t
    exact ⟨_, hload' (M.enter { w with queue := Function.update w.queue s rest } t s q []) _
      rfl rfl⟩
  | resume t f st hst | ret t f st hst =>
    obtain ⟨rest, -, hload⟩ := h.restack t
    exact ⟨_, hload (M.goOn w t f st) _ rfl rfl⟩
  | release t s st hst =>
    obtain ⟨rest, -, hload⟩ := h.restack t
    exact ⟨_, hload (w.free t s st) st rfl rfl⟩
  | dispatch t q f st hst | call t q f st hst hc => exact hdispatch q _

/-- **The pool is never stuck.**  While something is left to do, one of its threads can go
    on. -/
theorem Held.progress (h : Held M w) (hN : 0 < N) (hpool : ∀ t, N ≤ t → w.stack t = [])
    (hw : ¬ w.AtRest) : ∃ l w', l.Internal N ∧ M.step w l = some w' := by
  by_cases hst : ∀ t, w.stack t = []
  · -- nothing runs, so the strand of a closure that is queued is free
    obtain ⟨s, hs⟩ : ∃ s, w.queue s ≠ [] := by
      by_contra hno
      push Not at hno
      exact hw ⟨hno, hst⟩
    obtain ⟨q, rest, hq⟩ := List.exists_cons_of_ne_nil hs
    have hfree : w.holder s = none := by
      refine Option.eq_none_iff_forall_ne_some.2 fun t ht => ?_
      have hrelease := (h.holder s t).1 ht
      rw [hst t] at hrelease
      cases hrelease
    exact ⟨.take 0 s, _, hN, by simp only [Machine.step, hst 0, hfree, hq]; rfl⟩
  · push Not at hst
    obtain ⟨t, ht⟩ := hst
    have htN : t < N := Nat.lt_of_not_le fun hle => ht (hpool t hle)
    obtain ⟨it, st, hit⟩ := List.exists_cons_of_ne_nil ht
    cases it with
    | resume f => exact ⟨.step t, _, htN, by simp only [Machine.step, hit]; rfl⟩
    | dispatch q f => exact ⟨.step t, _, htN, by simp only [Machine.step, hit]; rfl⟩
    | user f => exact ⟨.ret t, _, htN, by simp only [Machine.step, hit]; rfl⟩
    | release s => exact ⟨.step t, _, htN, by simp only [Machine.step, hit]; rfl⟩

variable [WellFoundedLT α] (hρ : ρ.Descends M)
include hρ

/-- **The pool does not go on for ever.** -/
theorem finite {tr : ℕ → World σ S Q F} (h : Load ρ (tr 0) m) :
    ¬ ∀ n, ∃ l : Label S Q E, l.Internal N ∧ M.step (tr n) l = some (tr (n + 1)) := by
  have wf : WellFounded (Multiset.IsDershowitzMannaLT : Multiset α → Multiset α → Prop) :=
    Multiset.wellFounded_isDershowitzMannaLT
  induction m using wf.induction generalizing tr with
  | _ m ih =>
    intro hall
    obtain ⟨l, hl, hs⟩ := hall 0
    obtain ⟨m', h', hlt⟩ := step_lighter hρ h hl hs
    exact @ih m' hlt (fun n => tr (n + 1)) h' fun n => hall (n + 1)

/-- **The pool comes to rest.** -/
theorem settles (hM : M.Lawful) (hN : 0 < N) (h : Load ρ w m) (hh : Held M w)
    (hpool : ∀ t, N ≤ t → w.stack t = []) :
    ∃ w', Transition.Run M.step (fun _ l => l.Internal N) w w' ∧ w'.AtRest := by
  have wf : WellFounded (Multiset.IsDershowitzMannaLT : Multiset α → Multiset α → Prop) :=
    Multiset.wellFounded_isDershowitzMannaLT
  induction m using wf.induction generalizing w with
  | _ m ih =>
    by_cases hw : w.AtRest
    · exact ⟨w, .refl, hw⟩
    · obtain ⟨l, w₁, hl, hs⟩ := hh.progress hN hpool hw
      obtain ⟨m', h', hlt⟩ := step_lighter hρ h hl hs
      have hpool' : ∀ t, N ≤ t → w₁.stack t = [] := by
        intro t ht
        rw [Machine.step_stack hs, hpool t ht]
        cases l with
        | post | complete | call => exact hl.elim
        | take t' | step t' | ret t' =>
          have hlt' : t' < N := hl
          intro he
          obtain rfl := Option.some.inj he
          omega
      obtain ⟨w', hr, hrest⟩ := ih m' hlt h' (hh.step hM hs) hpool'
      have hfirst : Transition.Run M.step (fun _ l => l.Internal N) w w₁ := .step .refl hl hs
      exact ⟨w', hfirst.trans hr, hrest⟩

end

end Executor
