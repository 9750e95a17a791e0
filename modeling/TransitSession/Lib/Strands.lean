/-
  The strands of a world, each as a sequential program.

  A strand that is held has its items on the stack of one thread; without the
  threads, each strand has a queue and a stack of its own (`View`).  A step of a
  world is a step of its strands (`step_view`), so what holds along the steps of
  the strands holds in every run, whatever the threads do:

  * `View.Everywhere`: what holds of every closure and every item;
  * `Weight`: closures, items and the shared state are given weights; a step
    changes the sum of those outside of the shared state as the closure that it
    runs does (`Weight.step_effect`).
-/
import TransitSession.Lib.Executor
import Mathlib.Algebra.Order.BigOperators.Group.Finset
import Mathlib.Algebra.Order.BigOperators.Group.List
import Mathlib.Algebra.Order.Ring.Nat

namespace Executor

variable {σ S Q F E : Type}

/-- The strand that an item belongs to. -/
def Item.strand (home : F → S) : Item S Q F → S
  | .resume f | .dispatch _ f | .user f => home f
  | .release s => s

theorem Item.strand_of_frame {home : F → S} {it : Item S Q F} {f : F} (h : it.frame? = some f) :
    it.strand home = home f := by
  cases it <;> cases h <;> rfl

/-- The shared state, and the queue and the stack of each strand; a strand is
    held while there are items on its stack. -/
structure View (σ S Q F : Type) where
  shared : σ
  queue : S → List Q
  items : S → List (Item S Q F)

section
variable [DecidableEq S]

/-- The items of a strand, on the stack of the thread that holds it. -/
def itemsOf (home : F → S) (holder : S → Option ℕ) (stack : ℕ → List (Item S Q F)) (s : S) :
    List (Item S Q F) :=
  match holder s with
  | none => []
  | some t => (stack t).filter fun it => it.strand home = s

def World.view (home : F → S) (w : World σ S Q F) : View σ S Q F :=
  ⟨w.shared, w.queue, itemsOf home w.holder w.stack⟩

namespace View
variable (M : Machine σ S Q F E)

/-- The closure `q` is queued. -/
def enqueue (v : View σ S Q F) (q : Q) : View σ S Q F :=
  { v with queue := Function.update v.queue (M.strand q) (v.queue (M.strand q) ++ [q]) }

/-- The stack of the strand `s` changes. -/
def put (v : View σ S Q F) (s : S) (st : List (Item S Q F)) : View σ S Q F :=
  { v with items := Function.update v.items s st }

omit [DecidableEq S] in
/-- The stack of a strand when one of its closures starts. -/
def entered (s : S) : List (Item S Q F) → List (Item S Q F)
  | [] => [.release s]
  | st => st

omit [DecidableEq S] in
theorem entered_of_ne_nil {s : S} {st : List (Item S Q F)} (h : st ≠ []) : entered s st = st := by
  cases st with
  | nil => exact absurd rfl h
  | cons => rfl

/-- The closure `q` runs. -/
def enter (v : View σ S Q F) (q : Q) : View σ S Q F :=
  let r := M.run q v.shared
  { v with
    shared := r.1
    items := Function.update v.items (M.strand q)
      (r.2.items ++ entered (M.strand q) (v.items (M.strand q))) }

/-- The strand of `f` goes on with it, above the items `st`. -/
def goOn (v : View σ S Q F) (f : F) (st : List (Item S Q F)) : View σ S Q F :=
  let r := M.resume f v.shared
  { v with
    shared := r.1
    items := Function.update v.items (M.home f) (r.2.items ++ st) }

/-- One step of the strands, with the closure that it runs, or what is left of the
    one that it goes on with. -/
inductive Step (v : View σ S Q F) :
    Label S Q E → Option Q → Option F → View σ S Q F → Prop where
  | post (q) : M.callable q v.shared = true → Step v (.post q) none none (v.enqueue M q)
  | complete (e s q) : M.complete e v.shared = some (s, q) →
      Step v (.complete e) none none (enqueue M { v with shared := s } q)
  | take (t q rest) : v.items (M.strand q) = [] → v.queue (M.strand q) = q :: rest →
      Step v (.take t (M.strand q)) (some q) none
        (enter M { v with queue := Function.update v.queue (M.strand q) rest } q)
  | dispatch (t q f st) : v.items (M.home f) = .dispatch q f :: st →
      Step v (.step t) (some q) none ((v.put (M.home f) (.resume f :: st)).enter M q)
  /-- the closure is queued behind others -/
  | later (t q f st) : v.items (M.home f) = .dispatch q f :: st →
      v.items (M.strand q) ≠ [] ∨ v.queue (M.strand q) ≠ [] →
      Step v (.step t) none none ((v.put (M.home f) (.resume f :: st)).enqueue M q)
  | call (t q f st) : v.items (M.home f) = .user f :: st → M.callable q v.shared = true →
      Step v (.call t q) (some q) none (v.enter M q)
  | callLater (t q) : M.callable q v.shared = true →
      Step v (.call t q) none none (v.enqueue M q)
  | resume (t f st) : v.items (M.home f) = .resume f :: st →
      Step v (.step t) none (some f) (v.goOn M f st)
  | ret (t f st) : v.items (M.home f) = .user f :: st →
      Step v (.ret t) none (some f) (v.goOn M f st)
  | release (t s) : v.items s = [.release s] → Step v (.step t) none none (v.put s [])

end View

/-! ## Steps of the threads are steps of the strands -/

section
variable {M : Machine σ S Q F E} {w w' : World σ S Q F} {l : Label S Q E} {t : ℕ} {s : S}

theorem itemsOf_none {home : F → S} {holder : S → Option ℕ} (stack : ℕ → List (Item S Q F))
    (hs : holder s = none) : itemsOf home holder stack s = [] := by
  unfold itemsOf
  rw [hs]

theorem itemsOf_some {home : F → S} {holder : S → Option ℕ} (stack : ℕ → List (Item S Q F))
    (hs : holder s = some t) :
    itemsOf home holder stack s = (stack t).filter fun it => it.strand home = s := by
  unfold itemsOf
  rw [hs]

/-- The stacks differ on one thread, but not in the items of the strand. -/
theorem itemsOf_congr {home : F → S} {holder holder' : S → Option ℕ}
    {stack stack' : ℕ → List (Item S Q F)} (t : ℕ) (hh : holder' s = holder s)
    (hne : ∀ t', t' ≠ t → stack' t' = stack t')
    (hst : (stack' t).filter (fun it => it.strand home = s) =
      (stack t).filter fun it => it.strand home = s) :
    itemsOf home holder' stack' s = itemsOf home holder stack s := by
  cases hs : holder s with
  | none => rw [itemsOf_none _ hs, itemsOf_none _ (hh.trans hs)]
  | some t' =>
    rw [itemsOf_some _ hs, itemsOf_some _ (hh.trans hs)]
    by_cases ht : t' = t
    · subst ht
      exact hst
    · rw [hne t' ht]

theorem Held.items_ne_nil (h : Held M w) (hs : w.holder s = some t) :
    (w.view M.home).items s ≠ [] := by
  show itemsOf M.home w.holder w.stack s ≠ []
  rw [itemsOf_some _ hs]
  have hr := (h.holder s t).1 hs
  exact List.ne_nil_of_mem (List.mem_filter.2 ⟨hr, by simp [Item.strand]⟩)

/-- A strand that nobody holds has no items. -/
theorem Held.items_nil (h : Held M w) : (w.view M.home).items s = [] ↔ w.holder s = none := by
  constructor
  · intro hi
    cases hs : w.holder s with
    | none => rfl
    | some t => exact absurd hi (h.items_ne_nil hs)
  · exact itemsOf_none _

theorem items_strand {home : F → S} {it : Item S Q F} (hit : it ∈ (w.view home).items s) :
    it.strand home = s := by
  change it ∈ itemsOf home w.holder w.stack s at hit
  unfold itemsOf at hit
  split at hit
  · cases hit
  · simpa using (List.mem_filter.1 hit).2

/-- The items of a strand are on the stack of a thread. -/
theorem items_stack {home : F → S} {it : Item S Q F} (hit : it ∈ (w.view home).items s) :
    ∃ t, it ∈ w.stack t := by
  change it ∈ itemsOf home w.holder w.stack s at hit
  unfold itemsOf at hit
  split at hit
  · cases hit
  · next t _ => exact ⟨t, (List.mem_filter.1 hit).1⟩

/-- An item on the stack of a thread is one of its strand. -/
theorem Held.stack_items (h : Held M w) {it : Item S Q F} (hit : it ∈ w.stack t) {f : F}
    (hf : it.frame? = some f) : it ∈ (w.view M.home).items (M.home f) := by
  show it ∈ itemsOf M.home w.holder w.stack (M.home f)
  rw [itemsOf_some _ (h.frame hit hf)]
  exact List.mem_filter.2 ⟨hit, by simpa using Item.strand_of_frame hf⟩

/-- The item on top of the stack of a thread is on top of its strand. -/
theorem Held.items_top (h : Held M w) {it : Item S Q F} {st : List (Item S Q F)}
    (hst : w.stack t = it :: st) {f : F} (hf : it.frame? = some f) :
    (w.view M.home).items (M.home f) =
      it :: st.filter fun it => it.strand M.home = M.home f := by
  have hh := h.frame (t := t) (by rw [hst]; exact List.mem_cons_self) hf
  show itemsOf M.home w.holder w.stack (M.home f) = _
  rw [itemsOf_some _ hh, hst, List.filter_cons_of_pos]
  simpa using Item.strand_of_frame hf

omit [DecidableEq S] in
/-- A strand has no items below its release. -/
theorem Owned.not_strand {home : F → S} {st : List (Item S Q F)} (h : Owned home st)
    (hs : .release s ∉ st) {it : Item S Q F} (hit : it ∈ st) : it.strand home ≠ s := by
  rintro rfl
  cases hf : it.frame? with
  | none =>
    cases it with
    | release => exact hs hit
    | _ => cases hf
  | some f =>
    rw [Item.strand_of_frame hf] at hs
    exact hs (h.frame hit hf)

theorem Owned.filter_nil {home : F → S} {st : List (Item S Q F)} (h : Owned home st)
    (hs : .release s ∉ st) : st.filter (fun it => it.strand home = s) = [] := by
  refine List.filter_eq_nil_iff.2 fun it hit => ?_
  simpa using h.not_strand hs hit

/-- The part of a closure of the strand `s` that has run pushes items of `s`. -/
theorem filter_items (home : F → S) {r : Tail Q F} (hr : ∀ f, r.frame? = some f → home f = s)
    (s' : S) (st : List (Item S Q F)) :
    (r.items ++ st).filter (fun it => it.strand home = s') =
      (if s' = s then r.items else []) ++ st.filter fun it => it.strand home = s' := by
  have hitems : ∀ it ∈ (r.items : List (Item S Q F)), it.strand home = s := by
    intro it hit
    cases r with
    | done => cases hit
    | dispatch q f | user f =>
      rw [List.mem_singleton.1 hit]
      exact hr f rfl
  rw [List.filter_append]
  congr 1
  split_ifs with hs
  · subst hs
    exact List.filter_eq_self.2 fun it hit => by simpa using hitems it hit
  · exact List.filter_eq_nil_iff.2 fun it hit => by simpa [hitems it hit] using Ne.symm hs

theorem filter_cons_frame {home : F → S} {it : Item S Q F} {f : F} (hf : it.frame? = some f)
    (hs : s ≠ home f) (st : List (Item S Q F)) :
    (it :: st).filter (fun it => it.strand home = s) = st.filter fun it => it.strand home = s := by
  rw [List.filter_cons_of_neg]
  simpa [Item.strand_of_frame hf] using Ne.symm hs

theorem filter_cons_release {home : F → S} {s' : S} (hs : s ≠ s') (st : List (Item S Q F)) :
    (.release s' :: st).filter (fun it => it.strand home = s) =
      st.filter fun it => it.strand home = s := by
  rw [List.filter_cons_of_neg]
  simp [Item.strand, Ne.symm hs]

/-- The item on top of the stack of a thread changes, in its strand. -/
theorem Held.items_restack (h : Held M w) {it it' : Item S Q F} {st : List (Item S Q F)}
    (hst : w.stack t = it :: st) {f : F} (hf : it.frame? = some f) (hf' : it'.frame? = some f) :
    itemsOf M.home w.holder (Function.update w.stack t (it' :: st)) =
      Function.update (w.view M.home).items (M.home f)
        (it' :: st.filter fun it => it.strand M.home = M.home f) := by
  have hh := h.frame (t := t) (by rw [hst]; exact List.mem_cons_self) hf
  funext s
  by_cases hs : s = M.home f
  · subst hs
    rw [Function.update_self, itemsOf_some _ hh, Function.update_self,
      List.filter_cons_of_pos (by simpa using Item.strand_of_frame hf')]
  · rw [Function.update_of_ne hs]
    refine itemsOf_congr t rfl (fun t' ht => Function.update_of_ne ht _ _) ?_
    rw [Function.update_self, hst, filter_cons_frame hf hs, filter_cons_frame hf' hs]

theorem view_enter (hM : M.Lawful) {q : Q} (below : List (Item S Q F))
    (h : Held M { w with stack := Function.update w.stack t below })
    (hs : w.holder (M.strand q) = some t ∨ w.holder (M.strand q) = none) :
    (M.enter w t (M.strand q) q below).view M.home =
      (({ w with stack := Function.update w.stack t below } : World σ S Q F).view M.home).enter
        M q := by
  have hitems := filter_items M.home (r := (M.run q w.shared).2)
    (fun f hf => hM.home_run q _ f hf)
  have hrel : w.holder (M.strand q) = some t ↔ .release (M.strand q) ∈ below := by
    simpa using h.holder (M.strand q) t
  have howned : Owned M.home below := by simpa using h.owned t
  show View.mk _ _ _ = View.mk _ _ _
  congr 1
  funext s
  show itemsOf M.home (Function.update w.holder (M.strand q) (some t))
    (Function.update w.stack t _) s = Function.update (itemsOf M.home w.holder
      (Function.update w.stack t below)) (M.strand q) _ s
  by_cases hs' : s = M.strand q
  · subst hs'
    rw [Function.update_self, itemsOf_some (t := t) _ (Function.update_self ..),
      Function.update_self, hitems, if_pos rfl]
    congr 1
    show _ = View.entered _ (itemsOf M.home w.holder (Function.update w.stack t below) _)
    rcases hs with hh | hh
    · rw [itemsOf_some _ hh, Function.update_self, if_pos hh, List.nil_append]
      refine (View.entered_of_ne_nil ?_).symm
      exact List.ne_nil_of_mem (List.mem_filter.2 ⟨hrel.1 hh, by simp [Item.strand]⟩)
    · rw [itemsOf_none _ hh, if_neg (by simp [hh]), List.singleton_append,
        List.filter_cons_of_pos (by simp [Item.strand]), howned.filter_nil]
      · rfl
      · rw [← hrel, hh]
        nofun
  · rw [Function.update_of_ne hs']
    refine itemsOf_congr t (Function.update_of_ne hs' _ _) (fun t' ht => ?_) ?_
    · rw [Function.update_of_ne ht, Function.update_of_ne ht]
    rw [Function.update_self, Function.update_self, hitems, if_neg hs', List.nil_append]
    split_ifs
    · rfl
    · exact filter_cons_release hs' below

theorem view_goOn (hM : M.Lawful) (h : Held M w) {it : Item S Q F} {f : F}
    {st : List (Item S Q F)} (hst : w.stack t = it :: st) (hf : it.frame? = some f) :
    (M.goOn w t f st).view M.home =
      (w.view M.home).goOn M f (st.filter fun it => it.strand M.home = M.home f) := by
  have hitems := filter_items M.home (r := (M.resume f w.shared).2)
    (fun g hg => hM.home_resume f _ g hg)
  have hh := h.frame (t := t) (by rw [hst]; exact List.mem_cons_self) hf
  show View.mk _ _ _ = View.mk _ _ _
  congr 1
  funext s
  show itemsOf M.home w.holder (Function.update w.stack t _) s =
    Function.update (itemsOf M.home w.holder w.stack) (M.home f) _ s
  by_cases hs : s = M.home f
  · subst hs
    rw [Function.update_self, itemsOf_some _ hh, Function.update_self, hitems, if_pos rfl]
    rfl
  · rw [Function.update_of_ne hs]
    refine itemsOf_congr t rfl (fun t' ht => Function.update_of_ne ht _ _) ?_
    rw [Function.update_self, hitems, if_neg hs, List.nil_append, hst, filter_cons_frame hf hs]

theorem view_free (h : Held M w) {st : List (Item S Q F)} (hst : w.stack t = .release s :: st) :
    (w.view M.home).items s = [.release s] ∧
    (w.free t s st).view M.home = (w.view M.home).put s [] := by
  have ho := h.owned t
  rw [hst] at ho
  have hs : w.holder s = some t := (h.holder s t).2 (by simp [hst])
  constructor
  · show itemsOf M.home w.holder w.stack s = _
    rw [itemsOf_some _ hs, hst, List.filter_cons_of_pos (by simp [Item.strand]),
      ho.2.2.filter_nil (ho.2.1 s rfl)]
  · show View.mk _ _ _ = View.mk _ _ _
    congr 1
    funext s'
    show itemsOf M.home (Function.update w.holder s none) (Function.update w.stack t st) s' =
      Function.update (itemsOf M.home w.holder w.stack) s [] s'
    by_cases hs' : s' = s
    · subst hs'
      rw [Function.update_self, itemsOf_none _ (Function.update_self ..)]
    · rw [Function.update_of_ne hs']
      refine itemsOf_congr t (Function.update_of_ne hs' _ _)
        (fun t' ht => Function.update_of_ne ht _ _) ?_
      rw [Function.update_self, hst, filter_cons_release hs']

/-- A dispatched closure runs, or is queued behind others. -/
theorem view_dispatch (hM : M.Lawful) (h : Held M w) {q : Q} {f : F} {it it' : Item S Q F}
    {st : List (Item S Q F)} (hst : w.stack t = it :: st) (hf : it.frame? = some f)
    (hf' : it'.frame? = some f) :
    (M.dispatch w t q (it' :: st)).view M.home =
      if w.inline t (M.strand q) then ((w.view M.home).put (M.home f)
        (it' :: st.filter fun it => it.strand M.home = M.home f)).enter M q
      else ((w.view M.home).put (M.home f)
        (it' :: st.filter fun it => it.strand M.home = M.home f)).enqueue M q := by
  have hitems := h.items_restack hst hf hf'
  have ho := h.owned t
  rw [hst] at ho
  have hrel : ∀ g : Item S Q F, g.frame? = some f → ∀ s, g ≠ .release s := by
    rintro g hg s rfl
    cases hg
  have hheld : Held M { w with stack := Function.update w.stack t (it' :: st) } :=
    h.restack (ho.replace (hf'.trans hf.symm) (hrel it' hf')) fun s => by
      simp [hst, (hrel it hf s).symm, (hrel it' hf' s).symm]
  have hview : ({ w with stack := Function.update w.stack t (it' :: st) } : World σ S Q F).view
      M.home = (w.view M.home).put (M.home f)
        (it' :: st.filter fun it => it.strand M.home = M.home f) := by
    show View.mk _ _ _ = View.mk _ _ _
    rw [hitems]
    rfl
  unfold Machine.dispatch
  split_ifs with hi
  · rw [← hview]
    refine view_enter hM _ hheld ?_
    simp only [World.inline, Bool.or_eq_true, Bool.and_eq_true, decide_eq_true_eq] at hi
    exact hi.imp id And.left
  · rw [← hview]
    rfl

/-- A closure that does not run inline is queued behind others. -/
theorem Held.busy (h : Held M w) (hi : ¬ w.inline t s = true) :
    (w.view M.home).items s ≠ [] ∨ (w.view M.home).queue s ≠ [] := by
  by_contra hn
  push Not at hn
  refine hi ?_
  simp only [World.inline, Bool.or_eq_true, Bool.and_eq_true, decide_eq_true_eq,
    List.isEmpty_iff]
  exact Or.inr ⟨h.items_nil.1 hn.1, hn.2⟩

/-- **A step of a thread is a step of the strands.** -/
theorem step_view (hM : M.Lawful) (h : Held M w) (hs : M.step w l = some w') :
    View.Step M (w.view M.home) l (M.ran w l) (w.resumed l) (w'.view M.home) := by
  cases Machine.step_cases hs with
  | post q hc => exact .post q hc
  | complete e s q hc => exact .complete e s q hc
  | take t s q rest hst hh hq =>
    obtain rfl : M.strand q = s := h.queued s q (by simp [hq])
    have hran : M.ran w (.take t (M.strand q)) = some q := by simp [Machine.ran, hst, hh, hq]
    have hstack : Function.update w.stack t [] = w.stack := by rw [← hst, Function.update_eq_self]
    have hview := view_enter (t := t) (q := q)
      (w := { w with queue := Function.update w.queue (M.strand q) rest }) hM []
      (by rw [hstack]; exact h.dequeue hq) (Or.inr hh)
    rw [hran, hview, hstack]
    exact .take t q rest (h.items_nil.2 hh) hq
  | resume t f st hst =>
    rw [view_goOn hM h hst rfl]
    have hran : M.ran w (.step t) = none := by simp [Machine.ran, hst]
    have hresumed : w.resumed (Label.step t : Label S Q E) = some f := by simp [World.resumed, hst]
    rw [hran, hresumed]
    exact .resume t f _ (h.items_top hst rfl)
  | dispatch t q f st hst =>
    have hran : M.ran w (.step t) = if w.inline t (M.strand q) then some q else none := by
      simp [Machine.ran, hst]
    have hresumed : w.resumed (Label.step t : Label S Q E) = none := by simp [World.resumed, hst]
    rw [view_dispatch hM h hst rfl rfl, hran, hresumed]
    split_ifs with hi
    · exact .dispatch t q f _ (h.items_top hst rfl)
    · exact .later t q f _ (h.items_top hst rfl) (h.busy hi)
  | release t s st hst =>
    have hran : M.ran w (.step t) = none := by simp [Machine.ran, hst]
    have hresumed : w.resumed (Label.step t : Label S Q E) = none := by simp [World.resumed, hst]
    obtain ⟨hi, hview⟩ := view_free h hst
    rw [hran, hresumed, hview]
    exact .release t s hi
  | call t q f st hst hc =>
    have hran : M.ran w (.call t q) = if w.inline t (M.strand q) then some q else none := rfl
    have htop := h.items_top hst rfl
    have hput : (w.view M.home).put (M.home f)
        (.user f :: st.filter fun it => it.strand M.home = M.home f) = w.view M.home := by
      unfold View.put
      rw [← htop, Function.update_eq_self]
    rw [view_dispatch hM h hst rfl rfl, hput, hran]
    split_ifs with hi
    · exact .call t q f _ htop hc
    · exact .callLater t q hc
  | ret t f st hst =>
    have hresumed : w.resumed (Label.ret t : Label S Q E) = some f := by simp [World.resumed, hst]
    rw [view_goOn hM h hst rfl, hresumed]
    exact .ret t f _ (h.items_top hst rfl)

end

/-! ## Strands at rest -/

namespace View

omit [DecidableEq S] in
/-- Nothing waits or runs on the strand. -/
structure Rests (v : View σ S Q F) (s : S) : Prop where
  queue : v.queue s = []
  items : v.items s = []

/-- The closure is called or completes, or a closure that goes on dispatches it. -/
inductive Wakes (M : Machine σ S Q F E) (v v' : View σ S Q F) (q : Q) : Prop where
  | called : M.callable q v.shared = true → Wakes M v v' q
  | completed (e s) : M.complete e v.shared = some (s, q) → Wakes M v v' q
  | dispatched (f) : .dispatch q f ∈ v.items (M.home f) → .resume f ∈ v'.items (M.home f) →
      Wakes M v v' q

variable {M : Machine σ S Q F E} {v v' : View σ S Q F} {l : Label S Q E} {o : Option Q}
  {g : Option F} {s : S}

theorem Rests.enqueue (h : v.Rests s) {q : Q} (hq : M.strand q ≠ s) : (v.enqueue M q).Rests s :=
  ⟨(Function.update_of_ne (Ne.symm hq) _ _).trans h.queue, h.items⟩

theorem Rests.enter (h : v.Rests s) {q : Q} (hq : M.strand q ≠ s) : (v.enter M q).Rests s :=
  ⟨h.queue, (Function.update_of_ne (Ne.symm hq) _ _).trans h.items⟩

omit [DecidableEq S] in
/-- What goes on does so on another strand. -/
theorem Rests.ne (h : v.Rests s) {s' : S} {it : Item S Q F} {st : List (Item S Q F)}
    (hi : v.items s' = it :: st) : s ≠ s' := by
  rintro rfl
  rw [h.items] at hi
  cases hi

theorem Rests.put (h : v.Rests s) {s' : S} (hs : s ≠ s') (st : List (Item S Q F)) :
    (v.put s' st).Rests s :=
  ⟨h.queue, (Function.update_of_ne hs _ _).trans h.items⟩

/-- **A strand at rest is woken by a closure of its own.** -/
theorem Rests.step (h : v.Rests s) (hs : Step M v l o g v') :
    v'.Rests s ∨ ∃ q, M.strand q = s ∧ Wakes M v v' q := by
  cases hs with
  | post q hc =>
    by_cases hq : M.strand q = s
    · exact Or.inr ⟨q, hq, .called hc⟩
    · exact Or.inl (h.enqueue hq)
  | complete e s' q hc =>
    by_cases hq : M.strand q = s
    · exact Or.inr ⟨q, hq, .completed e s' hc⟩
    · have hrests : Rests { v with shared := s' } s := ⟨h.queue, h.items⟩
      exact Or.inl (hrests.enqueue hq)
  | take t q rest hi hq =>
    by_cases hs : M.strand q = s
    · subst hs
      rw [h.queue] at hq
      cases hq
    · have hdequeued : Rests { v with queue := Function.update v.queue (M.strand q) rest } s :=
        ⟨(Function.update_of_ne (Ne.symm hs) _ _).trans h.queue, h.items⟩
      exact Or.inl (hdequeued.enter hs)
  | dispatch t q f st hi =>
    by_cases hq : M.strand q = s
    · refine Or.inr ⟨q, hq, .dispatched f (by rw [hi]; exact List.mem_cons_self) ?_⟩
      have hne : M.home f ≠ M.strand q := by
        rw [hq]
        exact Ne.symm (h.ne hi)
      show .resume f ∈ Function.update (v.put _ _).items _ _ (M.home f)
      rw [Function.update_of_ne hne]
      show .resume f ∈ Function.update v.items _ _ (M.home f)
      rw [Function.update_self]
      exact List.mem_cons_self
    · exact Or.inl ((h.put (h.ne hi) _).enter hq)
  | later t q f st hi hb =>
    by_cases hq : M.strand q = s
    · refine Or.inr ⟨q, hq, .dispatched f (by rw [hi]; exact List.mem_cons_self) ?_⟩
      show .resume f ∈ Function.update v.items _ _ (M.home f)
      rw [Function.update_self]
      exact List.mem_cons_self
    · exact Or.inl ((h.put (h.ne hi) _).enqueue hq)
  | call t q f st hi hc =>
    by_cases hq : M.strand q = s
    · exact Or.inr ⟨q, hq, .called hc⟩
    · exact Or.inl (h.enter hq)
  | callLater t q hc =>
    by_cases hq : M.strand q = s
    · exact Or.inr ⟨q, hq, .called hc⟩
    · exact Or.inl (h.enqueue hq)
  | resume t f st hi | ret t f st hi =>
    exact Or.inl ⟨h.queue, (Function.update_of_ne (h.ne hi) _ _).trans h.items⟩
  | release t s' hi => exact Or.inl (h.put (h.ne hi) [])

end View

/-! ## What holds everywhere -/

namespace View
variable {M : Machine σ S Q F E} {v v' : View σ S Q F} {l : Label S Q E} {o : Option Q}
  {g : Option F} {P : Q → Prop} {PI : Item S Q F → Prop}

omit [DecidableEq S] in
/-- `P` holds of the closures that are queued, and `PI` of the items. -/
structure Everywhere (P : Q → Prop) (PI : Item S Q F → Prop) (v : View σ S Q F) : Prop where
  queue : ∀ s, ∀ q ∈ v.queue s, P q
  items : ∀ s, ∀ it ∈ v.items s, PI it

namespace Everywhere

theorem idle {home : F → S} (s : σ) : ((World.idle s).view home).Everywhere P PI := by
  constructor
  · intro s' q hq
    cases hq
  · intro s' it hit
    cases hit

/-- The queue of one strand changes. -/
theorem setQueue (h : v.Everywhere P PI) {s : S} {qs : List Q} (hq : ∀ q ∈ qs, P q) :
    ({ v with queue := Function.update v.queue s qs } : View σ S Q F).Everywhere P PI :=
  ⟨(Function.forall_update_iff v.queue fun _ qs => ∀ q ∈ qs, P q).2 ⟨hq, fun s' _ => h.queue s'⟩,
    h.items⟩

/-- The stack of one strand changes. -/
theorem put (h : v.Everywhere P PI) {s : S} {st : List (Item S Q F)} (hst : ∀ it ∈ st, PI it) :
    (v.put s st).Everywhere P PI :=
  ⟨h.queue, (Function.forall_update_iff v.items fun _ st => ∀ it ∈ st, PI it).2
    ⟨hst, fun s' _ => h.items s'⟩⟩

theorem enqueue (h : v.Everywhere P PI) {q : Q} (hq : P q) : (v.enqueue M q).Everywhere P PI := by
  refine h.setQueue fun q' hq' => ?_
  rcases List.mem_append.1 hq' with hq' | hq'
  · exact h.queue _ q' hq'
  · rw [List.mem_singleton.1 hq']
    exact hq

theorem enter (h : v.Everywhere P PI) {q : Q} (hrel : ∀ s, PI (.release s))
    (hq : ∀ it ∈ (M.run q v.shared).2.items, PI it) : (v.enter M q).Everywhere P PI := by
  have hold : ∀ it ∈ entered (M.strand q) (v.items (M.strand q)), PI it := by
    cases hi : v.items (M.strand q) with
    | nil =>
      intro it hit
      rw [List.mem_singleton.1 hit]
      exact hrel _
    | cons it st =>
      show ∀ it' ∈ it :: st, PI it'
      rw [← hi]
      exact h.items _
  have hst : ∀ it ∈ (M.run q v.shared).2.items ++
      entered (M.strand q) (v.items (M.strand q)), PI it :=
    fun it hit => (List.mem_append.1 hit).elim (hq it) (hold it)
  exact ⟨h.queue, (h.put hst).items⟩

theorem goOn (h : v.Everywhere P PI) {f : F} {it : Item S Q F} {st : List (Item S Q F)}
    (hi : v.items (M.home f) = it :: st) (hf : ∀ it ∈ (M.resume f v.shared).2.items, PI it) :
    (v.goOn M f st).Everywhere P PI := by
  have hst : ∀ it ∈ (M.resume f v.shared).2.items ++ st, PI it := by
    intro it' hit
    rcases List.mem_append.1 hit with hit | hit
    · exact hf it' hit
    · exact h.items (M.home f) it' (by rw [hi]; exact List.mem_cons_of_mem _ hit)
  exact ⟨h.queue, (h.put hst).items⟩

/-- **What holds of every closure and every item**, if it holds of what a step
    adds. -/
theorem step (h : v.Everywhere P PI) (hs : Step M v l o g v') (hrel : ∀ s, PI (.release s))
    (hcall : ∀ q, M.callable q v.shared = true → P q)
    (hcomplete : ∀ e s q, M.complete e v.shared = some (s, q) → P q)
    (hrest : ∀ q f, PI (.dispatch q f) → PI (.resume f))
    (hlater : ∀ q f, PI (.dispatch q f) →
      v.items (M.strand q) ≠ [] ∨ v.queue (M.strand q) ≠ [] → P q)
    (hrun : ∀ q, o = some q → (P q ∨ ∃ f, PI (.dispatch q f)) →
      ∀ it ∈ (M.run q v.shared).2.items, PI it)
    (hresume : ∀ it f, it.frame? = some f → PI it → ∀ it' ∈ (M.resume f v.shared).2.items, PI it') :
    v'.Everywhere P PI := by
  have htop {s : S} {it : Item S Q F} {st : List (Item S Q F)} (hi : v.items s = it :: st) :
      PI it ∧ ∀ it' ∈ st, PI it' := by
    refine ⟨h.items s it (by rw [hi]; exact List.mem_cons_self), fun it' hit => ?_⟩
    exact h.items s it' (by rw [hi]; exact List.mem_cons_of_mem _ hit)
  have hput {q : Q} {f : F} {st : List (Item S Q F)}
      (hi : v.items (M.home f) = .dispatch q f :: st) :
      (v.put (M.home f) (.resume f :: st)).Everywhere P PI := by
    refine h.put fun it hit => ?_
    rcases List.mem_cons.1 hit with rfl | hit
    exacts [hrest q f (htop hi).1, (htop hi).2 it hit]
  cases hs with
  | post q hc | callLater t q hc => exact h.enqueue (hcall q hc)
  | complete e s q hc =>
    have h' : ({ v with shared := s } : View σ S Q F).Everywhere P PI := ⟨h.queue, h.items⟩
    exact h'.enqueue (hcomplete e s q hc)
  | take t q rest hi hq =>
    have hrest : ∀ q' ∈ rest, P q' := fun q' hq' =>
      h.queue _ q' (by rw [hq]; exact List.mem_cons_of_mem _ hq')
    refine (h.setQueue hrest).enter hrel (hrun q rfl (Or.inl ?_))
    exact h.queue _ q (by rw [hq]; exact List.mem_cons_self)
  | dispatch t q f st hi => exact (hput hi).enter hrel (hrun q rfl (Or.inr ⟨f, (htop hi).1⟩))
  | later t q f st hi hb => exact (hput hi).enqueue (hlater q f (htop hi).1 hb)
  | call t q f st hi hc => exact h.enter hrel (hrun q rfl (Or.inl (hcall q hc)))
  | resume t f st hi | ret t f st hi => exact h.goOn hi (hresume _ f rfl (htop hi).1)
  | release t s hi => exact h.put (by simp)

end Everywhere

end View

/-! ## Weights -/

/-- Weights of closures and frames; user code dispatches none that has one. -/
structure Weight (M : Machine σ S Q F E) where
  closure : Q → ℕ
  frame : F → ℕ
  callable : ∀ q s, M.callable q s = true → closure q = 0

namespace Weight
variable {M : Machine σ S Q F E} (W : Weight M) {v v' : View σ S Q F}

omit [DecidableEq S] in
def item : Item S Q F → ℕ
  | .dispatch q f => W.closure q + W.frame f
  | .resume f | .user f => W.frame f
  | .release _ => 0

def tail : Tail Q F → ℕ
  | .done => 0
  | .dispatch q f => W.closure q + W.frame f
  | .user f => W.frame f

/-- The weight of the closures that wait and run on a strand. -/
def load (v : View σ S Q F) (s : S) : ℕ :=
  ((v.queue s).map W.closure).sum + ((v.items s).map W.item).sum

/-- The loads of all strands sum up to `n`. -/
def Total (v : View σ S Q F) (n : ℕ) : Prop :=
  ∃ T : Finset S, (∀ s, s ∉ T → W.load v s = 0) ∧ ∑ s ∈ T, W.load v s = n

variable {W} {n : ℕ}

theorem Total.idle (s : σ) : W.Total ((World.idle s).view M.home) 0 :=
  ⟨∅, fun _ _ => rfl, rfl⟩

/-- No closure weighs more than all of them. -/
theorem Total.load_le (h : W.Total v n) (s : S) : W.load v s ≤ n := by
  obtain ⟨T, hT, rfl⟩ := h
  by_cases hs : s ∈ T
  · exact Finset.single_le_sum (fun _ _ => Nat.zero_le _) hs
  · rw [hT s hs]
    exact Nat.zero_le _

theorem Total.closure_le (h : W.Total v n) {s : S} {q : Q} (hq : q ∈ v.queue s) :
    W.closure q ≤ n := by
  have hle := List.single_le_sum (fun _ _ => Nat.zero_le _) (W.closure q) (List.mem_map_of_mem hq)
  exact (hle.trans (Nat.le_add_right _ _)).trans (h.load_le s)

theorem Total.item_le (h : W.Total v n) {s : S} {it : Item S Q F} (hit : it ∈ v.items s) :
    W.item it ≤ n := by
  have hle := List.single_le_sum (fun _ _ => Nat.zero_le _) (W.item it) (List.mem_map_of_mem hit)
  exact (hle.trans (Nat.le_add_left _ _)).trans (h.load_le s)

/-- All the weight is on one strand. -/
theorem Total.single (h : W.Total v n) (s₀ : S) (hz : ∀ s, s ≠ s₀ → W.load v s = 0) :
    n = W.load v s₀ := by
  obtain ⟨T, hT, rfl⟩ := h
  by_cases hs : s₀ ∈ T
  · exact Finset.sum_eq_single_of_mem s₀ hs fun s _ => hz s
  · rw [hT s₀ hs]
    exact Finset.sum_eq_zero fun s hs' => hz s (fun he => hs (he ▸ hs'))

omit [DecidableEq S] in
/-- What has a weight is somewhere. -/
theorem Total.exists (h : W.Total v n) (hn : n ≠ 0) :
    (∃ s, ∃ q ∈ v.queue s, W.closure q ≠ 0) ∨ ∃ s, ∃ it ∈ v.items s, W.item it ≠ 0 := by
  by_contra hno
  push Not at hno
  obtain ⟨T, -, rfl⟩ := h
  refine hn (Finset.sum_eq_zero fun s _ => ?_)
  have hq : ((v.queue s).map W.closure).sum = 0 := List.sum_eq_zero (by simpa using hno.1 s)
  have hi : ((v.items s).map W.item).sum = 0 := List.sum_eq_zero (by simpa using hno.2 s)
  exact Nat.add_eq_zero_iff.2 ⟨hq, hi⟩

omit [DecidableEq S] in
/-- Two weights that are no more than a third, closure by closure. -/
theorem load_add_le {W₁ W₂ : Weight M} (hq : ∀ q, W₁.closure q + W₂.closure q ≤ W.closure q)
    (hf : ∀ f, W₁.frame f + W₂.frame f ≤ W.frame f) (s : S) :
    W₁.load v s + W₂.load v s ≤ W.load v s := by
  have hitem (it : Item S Q F) : W₁.item it + W₂.item it ≤ W.item it := by
    cases it with
    | resume f | user f => exact hf f
    | dispatch q f =>
      have h₁ := hq q
      have h₂ := hf f
      simp only [item]
      omega
    | release => exact le_rfl
  have hqueue := List.sum_le_sum (l := v.queue s) fun q _ => hq q
  have hitems := List.sum_le_sum (l := v.items s) fun it _ => hitem it
  rw [List.sum_map_add] at hqueue hitems
  unfold load
  omega

omit [DecidableEq S] in
/-- Their sums are no more than its sum, then. -/
theorem Total.add_le {W₁ W₂ : Weight M} (h : W.Total v n)
    (hq : ∀ q, W₁.closure q + W₂.closure q ≤ W.closure q)
    (hf : ∀ f, W₁.frame f + W₂.frame f ≤ W.frame f) {a : ℕ} (h₁ : W₁.Total v a) :
    ∃ b, W₂.Total v b ∧ a + b ≤ n := by
  obtain ⟨T, hT, rfl⟩ := h
  obtain ⟨T₁, hT₁, rfl⟩ := h₁
  have hzero {s : S} (hs : s ∉ T) : W₁.load v s = 0 ∧ W₂.load v s = 0 := by
    have := load_add_le (v := v) hq hf s
    rw [hT s hs] at this
    omega
  have hsum : ∑ s ∈ T₁, W₁.load v s = ∑ s ∈ T, W₁.load v s :=
    Finset.sum_congr_of_eq_on_inter (fun _ _ hs => (hzero hs).1) (fun s _ hs => hT₁ s hs)
      fun _ _ _ => rfl
  refine ⟨_, ⟨T, fun s hs => (hzero hs).2, rfl⟩, ?_⟩
  rw [hsum, ← Finset.sum_add_distrib]
  exact Finset.sum_le_sum fun s _ => load_add_le hq hf s

/-- The load of one strand changes. -/
theorem Total.change (h : W.Total v n) (s₀ : S) {a b : ℕ}
    (hne : ∀ s, s ≠ s₀ → W.load v' s = W.load v s)
    (hs : W.load v' s₀ + a = W.load v s₀ + b) : ∃ n', W.Total v' n' ∧ n' + a = n + b := by
  obtain ⟨T, hT, rfl⟩ := h
  refine ⟨_, ⟨insert s₀ T, fun s hs' => ?_, rfl⟩, ?_⟩
  · rw [Finset.mem_insert, not_or] at hs'
    rw [hne s hs'.1, hT s hs'.2]
  · have hsum : ∑ s ∈ T, W.load v s = ∑ s ∈ insert s₀ T, W.load v s :=
      (Finset.sum_insert_of_eq_zero_if_notMem (hT s₀)).symm
    have hrest : ∑ s ∈ (insert s₀ T).erase s₀, W.load v' s =
        ∑ s ∈ (insert s₀ T).erase s₀, W.load v s :=
      Finset.sum_congr rfl fun s hs' => hne s (Finset.ne_of_mem_erase hs')
    rw [hsum, ← Finset.add_sum_erase _ _ (Finset.mem_insert_self s₀ T),
      ← Finset.add_sum_erase _ (W.load v) (Finset.mem_insert_self s₀ T), hrest]
    omega

theorem Total.setQueue (h : W.Total v n) (s : S) (qs : List Q) {a b : ℕ}
    (hq : (qs.map W.closure).sum + a = ((v.queue s).map W.closure).sum + b) :
    ∃ n', W.Total { v with queue := Function.update v.queue s qs } n' ∧ n' + a = n + b := by
  refine h.change s (fun s' hs' => ?_) ?_
  · simp only [load, Function.update_of_ne hs']
  · simp only [load, Function.update_self]
    omega

theorem Total.put (h : W.Total v n) (s : S) (st : List (Item S Q F)) {a b : ℕ}
    (hst : (st.map W.item).sum + a = ((v.items s).map W.item).sum + b) :
    ∃ n', W.Total (v.put s st) n' ∧ n' + a = n + b := by
  refine h.change s (fun s' hs' => ?_) ?_
  · simp only [load, View.put, Function.update_of_ne hs']
  · simp only [load, View.put, Function.update_self]
    omega

theorem Total.enqueue (h : W.Total v n) (q : Q) : W.Total (v.enqueue M q) (n + W.closure q) := by
  obtain ⟨n', h', hn⟩ := h.setQueue (M.strand q) (v.queue (M.strand q) ++ [q])
    (a := 0) (b := W.closure q) (by simp)
  obtain rfl : n' = n + W.closure q := hn
  exact h'

omit [DecidableEq S] in
theorem items_weight (r : Tail Q F) :
    ((r.items : List (Item S Q F)).map W.item).sum = W.tail r := by
  cases r <;> simp [Tail.items, tail, item]

theorem Total.enter (h : W.Total v n) (q : Q) :
    W.Total (v.enter M q) (n + W.tail (M.run q v.shared).2) := by
  have hentered (s : S) (st : List (Item S Q F)) :
      ((View.entered s st).map W.item).sum = (st.map W.item).sum := by
    cases st <;> rfl
  obtain ⟨n', h', hn⟩ := h.put (M.strand q)
    ((M.run q v.shared).2.items ++ View.entered (M.strand q) (v.items (M.strand q))) (a := 0)
    (b := W.tail (M.run q v.shared).2) (by
      rw [List.map_append, List.sum_append, items_weight, hentered]
      omega)
  obtain rfl : n' = n + W.tail (M.run q v.shared).2 := hn
  exact h'

theorem Total.goOn (h : W.Total v n) {f : F} {it : Item S Q F} {st : List (Item S Q F)}
    (hi : v.items (M.home f) = it :: st) (hit : W.item it = W.frame f) :
    ∃ n', W.Total (v.goOn M f st) n' ∧
      n' + W.frame f = n + W.tail (M.resume f v.shared).2 := by
  refine h.put (M.home f) _ ?_
  rw [hi, List.map_append, List.sum_append, items_weight, List.map_cons, List.sum_cons, hit]
  omega

/-- What one step does to the shared state and to the sum of the loads. -/
inductive Weighed (W : Weight M) (v v' : View σ S Q F) (l : Label S Q E) (o : Option Q)
    (n n' : ℕ) : Prop where
  | stay : v'.shared = v.shared → n' = n → Weighed W v v' l o n n'
  | complete (e q) : l = .complete e → M.complete e v.shared = some (v'.shared, q) →
      n' = n + W.closure q → Weighed W v v' l o n n'
  | run (q) : o = some q → v'.shared = (M.run q v.shared).1 → W.closure q ≤ n →
      n' + W.closure q = n + W.tail (M.run q v.shared).2 → Weighed W v v' l o n n'
  | resume (it f) : it ∈ v.items (M.home f) → it.frame? = some f →
      v'.shared = (M.resume f v.shared).1 → W.frame f ≤ n →
      n' + W.frame f = n + W.tail (M.resume f v.shared).2 → Weighed W v v' l o n n'

/-- The sum of the loads loses `a` and gains `b`, if they sum up to something. -/
def Moves (W : Weight M) (v v' : View σ S Q F) (a b : ℕ) : Prop :=
  ∀ n, W.Total v n → a ≤ n ∧ ∃ n', W.Total v' n' ∧ n' + a = n + b

/-- What one step does to the shared state and to all weights. -/
inductive Effect (M : Machine σ S Q F E) (v v' : View σ S Q F) (l : Label S Q E) :
    Option Q → Option F → Prop where
  | stay : v'.shared = v.shared → (∀ W : Weight M, W.Moves v v' 0 0) → Effect M v v' l none none
  | complete (e q) : l = .complete e → M.complete e v.shared = some (v'.shared, q) →
      (∀ W : Weight M, W.Moves v v' 0 (W.closure q)) → Effect M v v' l none none
  | run (q) : v'.shared = (M.run q v.shared).1 →
      (∀ W : Weight M, W.Moves v v' (W.closure q) (W.tail (M.run q v.shared).2)) →
      Effect M v v' l (some q) none
  | resume (it f) : it ∈ v.items (M.home f) → it.frame? = some f →
      v'.shared = (M.resume f v.shared).1 →
      (∀ W : Weight M, W.Moves v v' (W.frame f) (W.tail (M.resume f v.shared).2)) →
      Effect M v v' l none (some f)

/-- **The law of weights**: a step changes the sums of the loads as the closure
    that it runs does. -/
theorem step_effect {l : Label S Q E} {o : Option Q} {g : Option F}
    (hs : View.Step M v l o g v') : Effect M v v' l o g := by
  have hgoOn {f : F} {it : Item S Q F} {st : List (Item S Q F)}
      (hi : v.items (M.home f) = it :: st) (hf : it = .resume f ∨ it = .user f) :
      Effect M v (v.goOn M f st) l none (some f) := by
    have hit : it.frame? = some f := by rcases hf with rfl | rfl <;> rfl
    have hmem : it ∈ v.items (M.home f) := by
      rw [hi]
      exact List.mem_cons_self
    refine .resume it f hmem hit rfl fun W n h => ?_
    have hw : W.item it = W.frame f := by rcases hf with rfl | rfl <;> rfl
    exact ⟨hw ▸ h.item_le hmem, h.goOn hi hw⟩
  cases hs with
  | post q hc | callLater t q hc =>
    refine .stay rfl fun W n h => ⟨Nat.zero_le _, _, h.enqueue q, ?_⟩
    rw [W.callable q _ hc]
  | complete e s q hc =>
    refine .complete e q rfl hc fun W n h => ⟨Nat.zero_le _, _, ?_, rfl⟩
    have h' : W.Total { v with shared := s } n := h
    exact h'.enqueue q
  | take t q rest hi hq =>
    refine .run q rfl fun W n h => ?_
    obtain ⟨n₁, h₁, hn⟩ := h.setQueue (M.strand q) rest (a := W.closure q) (b := 0)
      (by rw [hq, List.map_cons, List.sum_cons]; omega)
    refine ⟨h.closure_le (s := M.strand q) (by rw [hq]; exact List.mem_cons_self), _,
      h₁.enter q, ?_⟩
    show n₁ + W.tail (M.run q v.shared).2 + W.closure q = _
    omega
  | dispatch t q f st hi =>
    refine .run q rfl fun W n h => ?_
    have hle : W.item (.dispatch q f) ≤ n :=
      h.item_le (s := M.home f) (by rw [hi]; exact List.mem_cons_self)
    obtain ⟨n₁, h₁, hn⟩ := h.put (M.home f) (.resume f :: st) (a := W.closure q) (b := 0)
      (by rw [hi, List.map_cons, List.map_cons, List.sum_cons, List.sum_cons, item, item]; omega)
    refine ⟨Nat.le_of_add_right_le hle, _, h₁.enter q, ?_⟩
    show n₁ + W.tail (M.run q v.shared).2 + W.closure q = _
    omega
  | later t q f st hi hb =>
    refine .stay rfl fun W n h => ⟨Nat.zero_le _, ?_⟩
    obtain ⟨n₁, h₁, hn⟩ := h.put (M.home f) (.resume f :: st) (a := W.closure q) (b := 0)
      (by rw [hi, List.map_cons, List.map_cons, List.sum_cons, List.sum_cons, item, item]; omega)
    exact ⟨_, h₁.enqueue q, hn⟩
  | call t q f st hi hc =>
    refine .run q rfl fun W n h => ?_
    rw [W.callable q _ hc]
    exact ⟨Nat.zero_le _, _, h.enter q, rfl⟩
  | resume t f st hi => exact hgoOn hi (Or.inl rfl)
  | ret t f st hi => exact hgoOn hi (Or.inr rfl)
  | release t s hi =>
    refine .stay rfl fun W n h => ⟨Nat.zero_le _, ?_⟩
    exact h.put s [] (by rw [hi, List.map_singleton, List.sum_singleton]; rfl)

/-- The law for one weight. -/
theorem Total.step {l : Label S Q E} {o : Option Q} {g : Option F} (h : W.Total v n)
    (hs : View.Step M v l o g v') : ∃ n', W.Total v' n' ∧ W.Weighed v v' l o n n' := by
  cases step_effect hs with
  | stay hsh hm =>
    obtain ⟨-, n', h', hn⟩ := hm W n h
    exact ⟨n', h', .stay hsh hn⟩
  | complete e q hl hc hm =>
    obtain ⟨-, n', h', hn⟩ := hm W n h
    exact ⟨n', h', .complete e q hl hc hn⟩
  | run q hsh hm =>
    obtain ⟨hle, n', h', hn⟩ := hm W n h
    exact ⟨n', h', .run q rfl hsh hle hn⟩
  | resume it f hit hf hsh hm =>
    obtain ⟨hle, n', h', hn⟩ := hm W n h
    exact ⟨n', h', .resume it f hit hf hsh hle hn⟩

end Weight

end

end Executor
