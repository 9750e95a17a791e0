/-
  A server comes to rest.

  Between two events from outside - a connection, a message, a call of the user - the
  threads of the pool work off what is queued.  They get to the end of it
  (`comes_to_rest`), on any number of threads and in whatever order they take the
  strands: no thread waits for another one, and no closure calls itself again for ever.
  Then no session has anything left to start.

  A run ends early where the set of active sessions changes under the loop of a `stop()`
  (`Broken`); without a `stop()` it does not (`Stopless`).
-/
import TransitSession.Lib.Quiescence
import TransitSession.WebSocket.Refinement
import Mathlib.Data.ENat.Basic

namespace TransitSession.WebSocket.Server

/-- How far what is left of a closure of a session may still call. -/
def frameRank : Frame ServerFrame → ℕ
  | .readError _ | .derived (.startClosing ..) => 2
  | _ => 0

/-- The rank of `stop()` is above that of any loop over the active sessions. -/
def rank : Executor.Rank Closure ServerRest ℕ∞ where
  closure
    | .stop => ⊤
    | .accepted .. => 5
    | .call .. | .event .. => 3
    | _ => 1
  frame
    | .stopLoop _ _ rest => (4 + rest.length : ℕ)
    | .acceptStart .. => 4
    | .session _ f => frameRank f
    | _ => 0
  floor := 0

theorem frameRank_le (f : Frame ServerFrame) : frameRank f ≤ 2 := by
  rcases f with g | g | (g | g | g)
  exacts [Nat.le_refl 2, Nat.zero_le 2, Nat.zero_le 2, Nat.le_refl 2, Nat.zero_le 2]

/-- A frame of rank 2 leaves at most one of rank 0. -/
theorem resume_rank (f : Frame ServerFrame) (x : WebSocketServerSession) :
    (WebSocketServerSession.cls.resume f x).2 = none ∨
      frameRank f = 2 ∧ ∃ g, (WebSocketServerSession.cls.resume f x).2 = some g ∧
        frameRank g = 0 := by
  rcases f with g | g | (h | ⟨h, handler, e⟩ | ⟨h, ec⟩)
  · -- the read handler was told of an error: the session closes
    show (WebSocketServerSession.cls.close x).2 = none ∨ _ ∧ ∃ g,
      (WebSocketServerSession.cls.close x).2 = some g ∧ _
    cases hc : (WebSocketServerSession.cls.close x).2 with
    | none => exact Or.inl rfl
    | some f =>
      obtain ⟨f', hf', rfl⟩ := Option.map_eq_some_iff.1 hc
      refine Or.inr ⟨rfl, _, rfl, ?_⟩
      unfold Session.close at hf'
      split_ifs at hf'
      obtain ⟨h, -, rfl⟩ := Option.map_eq_some_iff.1 hf'
      rfl
  · exact Or.inl rfl
  · exact Or.inl rfl
  · -- `start` has failed: its own handler is called
    cases handler with
    | none => exact Or.inl rfl
    | some g => exact Or.inr ⟨rfl, _, rfl, rfl⟩
  · exact Or.inl rfl

/-- What a closure of a session calls. -/
theorem sessionTail_rank {i : ℕ} {o : Option (Frame ServerFrame)} {a : ℕ∞}
    (ha : a ∈ rank.tail (sessionTail i o)) : a ≤ 1 ∨ ∃ f, o = some f ∧ a = frameRank f := by
  have hdispatch {q : Closure} {f : Frame ServerFrame} (hq : rank.closure q = 1)
      (ha : a ∈ rank.tail (.dispatch q (.session i f))) : a ≤ 1 ∨ a = frameRank f := by
    simp only [Executor.Rank.tail, hq, Multiset.mem_add, Multiset.mem_singleton] at ha
    rcases ha with rfl | rfl | rfl
    · exact Or.inl zero_le_one
    · exact Or.inl le_rfl
    · exact Or.inr rfl
  have huser {f : Frame ServerFrame} (ha : a ∈ rank.tail (.user (.session i f))) :
      a = frameRank f := Multiset.mem_singleton.1 ha
  cases o with
  | none => exact absurd ha (Multiset.notMem_zero a)
  | some f =>
    suffices h : a ≤ 1 ∨ a = frameRank f from h.imp_right fun he => ⟨f, rfl, he⟩
    rcases f with g | g | (h | ⟨h, handler, e⟩ | ⟨h, ec⟩)
    · exact Or.inr (huser ha)
    · exact Or.inr (huser ha)
    all_goals
      cases h with
      | server => exact hdispatch rfl ha
      | user id => exact Or.inr (huser ha)

theorem onSession_rank {i : ℕ} {s : Server} {a : ℕ∞}
    {part : WebSocketServerSession → WebSocketServerSession × Option (Frame ServerFrame)}
    (ha : a ∈ rank.tail (s.onSession i part).2) :
    ∃ x, a ∈ rank.tail (sessionTail i (part x).2) := by
  unfold Server.onSession at ha
  cases hx : s.sessions[i]? with
  | none =>
    rw [hx] at ha
    exact absurd ha (Multiset.notMem_zero a)
  | some x =>
    rw [hx] at ha
    exact ⟨x, ha⟩

theorem stopLoop_rank {entry visited rest : List ℕ} {s : Server} {a : ℕ∞}
    (ha : a ∈ rank.tail (s.stopLoop entry visited rest).2) : a < (4 + rest.length : ℕ) := by
  cases rest with
  | nil => exact absurd ha (Multiset.notMem_zero a)
  | cons i rest =>
    simp only [stopLoop, Executor.Rank.tail, Multiset.mem_add, Multiset.mem_singleton] at ha
    rw [List.length_cons]
    rcases ha with rfl | rfl | rfl
    · show ((0 : ℕ) : ℕ∞) < _
      exact Nat.cast_lt.2 (by omega)
    · show ((3 : ℕ) : ℕ∞) < _
      exact Nat.cast_lt.2 (by omega)
    · show ((4 + rest.length : ℕ) : ℕ∞) < _
      exact Nat.cast_lt.2 (by omega)

theorem rank_descends {I : Iteration} : rank.Descends (machine I) where
  floor_lt q := by
    cases q with
    | stop => exact ENat.natCast_lt_top 0
    | accepted | call | event | setSessionHandler | start | erase | handOver =>
      exact Nat.cast_lt.2 (Nat.succ_pos _)
  run_lt q s a ha := by
    have hsession {i : ℕ} {part} (ha : a ∈ rank.tail (s.onSession i part).2) : a < 3 := by
      obtain ⟨x, ha⟩ := onSession_rank ha
      rcases sessionTail_rank ha with h | ⟨f, -, rfl⟩
      · exact h.trans_lt (Nat.cast_lt.2 (by decide))
      · exact Nat.cast_lt.2 (Nat.lt_succ_of_le (frameRank_le f))
    have hnotify {ec : ErrorCode} {session : Option ℕ} {s' : Server} {rest : ServerRest} {next}
        (hrest : rank.frame rest = 0)
        (ha : a ∈ rank.tail (s'.notifySession ec session rest next).2) : a = 0 := by
      unfold notifySession at ha
      split_ifs at ha
      · rw [← hrest]
        exact Multiset.mem_singleton.1 ha
      · exact absurd ha (Multiset.notMem_zero a)
    cases q with
    | setSessionHandler | start | erase => exact absurd ha (Multiset.notMem_zero a)
    | stop => exact (stopLoop_rank ha).trans (ENat.natCast_lt_top _)
    | accepted ec noDelayEc =>
      change a ∈ rank.tail (s.onAccept ec noDelayEc).2 at ha
      unfold onAccept at ha
      split_ifs at ha
      · exact absurd ha (Multiset.notMem_zero a)
      · cases ec with
        | some e => exact hnotify rfl ha ▸ Nat.cast_lt.2 (Nat.succ_pos 4)
        | none =>
          simp only [Executor.Rank.tail, Multiset.mem_add, Multiset.mem_singleton] at ha
          rcases ha with rfl | rfl | rfl
          · exact Nat.cast_lt.2 (Nat.succ_pos 4)
          · exact Nat.cast_lt.2 (show 3 < 5 by decide)
          · exact Nat.cast_lt.2 (show 4 < 5 by decide)
    | handOver i ec => exact hnotify rfl ha ▸ zero_lt_one
    | call i x => exact hsession ha
    | event i e => exact hsession ha
  resume_lt f s a ha := by
    cases f with
    | stopLoop entry visited rest => exact stopLoop_rank ha
    | acceptStart i noDelayEc =>
      change a ∈ rank.tail (.dispatch (.call i (.derived (.start _ _))) .acceptNext) at ha
      simp only [Executor.Rank.tail, Multiset.mem_add, Multiset.mem_singleton] at ha
      rcases ha with rfl | rfl | rfl
      · exact Nat.cast_lt.2 (Nat.succ_pos 3)
      · exact Nat.cast_lt.2 (show 3 < 4 by decide)
      · exact Nat.cast_lt.2 (Nat.succ_pos 3)
    | acceptNext | handOverEnd | acceptFailed => exact absurd ha (Multiset.notMem_zero a)
    | session i f =>
      obtain ⟨x, ha⟩ := onSession_rank ha
      rcases resume_rank f x with hnone | ⟨hf, g, hg, hrank⟩
      · rw [hnone] at ha
        exact absurd ha (Multiset.notMem_zero a)
      · rw [show rank.frame (.session i f) = frameRank f from rfl, hf]
        rcases sessionTail_rank ha with h | ⟨g', hg', rfl⟩
        · exact h.trans_lt (Nat.cast_lt.2 (show 1 < 2 by decide))
        · obtain rfl := Option.some.inj (hg.symm.trans hg')
          rw [hrank]
          exact Nat.cast_lt.2 Nat.zero_lt_two

/-! ## Without `stop()` -/

/-- The item is not one of a `stop()`, and will not dispatch one. -/
def stopless : Item → Prop
  | .dispatch q f => q ≠ .stop ∧ isLoop f = false
  | .resume f | .user f => isLoop f = false
  | .release _ => True

/-- No `stop()` is queued or running. -/
structure Stopless (w : World) : Prop where
  queue : ∀ s, .stop ∉ w.queue s
  stack : ∀ t, ∀ it ∈ w.stack t, stopless it

/-- The step dispatches a `stop()`: the user calls it. -/
def callsStop : Label → Bool
  | .post .stop | .call _ .stop => true
  | _ => false

/-- No closure but the user's dispatches `stop()`. -/
theorem stopless_items {r : Tail} (hrank : ∀ a ∈ rank.tail r, a ≠ ⊤)
    (hloop : ∀ f, r.frame? = some f → isLoop f = false) :
    ∀ it ∈ (r.items : List Item), stopless it := by
  intro it hit
  cases r with
  | done => cases hit
  | dispatch q f =>
    rw [List.mem_singleton.1 hit]
    refine ⟨?_, hloop f rfl⟩
    rintro rfl
    refine hrank ⊤ ?_ rfl
    simp only [Executor.Rank.tail, Multiset.mem_add, Multiset.mem_singleton]
    exact Or.inr (Or.inl rfl)
  | user f =>
    rw [List.mem_singleton.1 hit]
    exact hloop f rfl

namespace Stopless
variable {I : Iteration} {w w' : World} {l : Label}

theorem cons (h : Stopless w) {t : ℕ} {it : Item} {st : List Item} (hst : w.stack t = it :: st) :
    stopless it ∧ ∀ it' ∈ st, stopless it' :=
  List.forall_mem_cons.1 (hst ▸ h.stack t)

/-- The stack of one thread changes. -/
theorem restack (h : Stopless w) {t : ℕ} {st : List Item} (hst : ∀ it ∈ st, stopless it) :
    ∀ t', ∀ it ∈ Function.update w.stack t st t', stopless it :=
  (Function.forall_update_iff w.stack fun _ st => ∀ it ∈ st, stopless it).2
    ⟨hst, fun t' _ => h.stack t'⟩

theorem enter (h : Stopless w) {t : ℕ} {s : StrandId} {q : Closure} {below : List Item}
    (hq : q ≠ .stop) (hb : ∀ it ∈ below, stopless it) :
    Stopless ((machine I).enter w t s q below) where
  queue := h.queue
  stack := by
    refine h.restack fun it hit => ?_
    rcases List.mem_append.1 hit with hit | hit
    · refine stopless_items (fun a ha => (rank_descends.run_lt q _ a ha).ne_top) (fun f hf => ?_)
        it hit
      rw [Bool.eq_false_iff]
      intro hl
      obtain ⟨e, v, r, rfl⟩ := isLoop_iff.1 hl
      exact hq (run_loop hf).1
    · rcases List.mem_append.1 hit with hit | hit
      · split_ifs at hit
        · cases hit
        · rw [List.mem_singleton.1 hit]
          trivial
      · exact hb it hit

theorem goOn (h : Stopless w) {t : ℕ} {f : ServerRest} {st : List Item}
    (hf : isLoop f = false) (hst : ∀ it ∈ st, stopless it) :
    Stopless ((machine I).goOn w t f st) where
  queue := h.queue
  stack := by
    refine h.restack fun it hit => ?_
    rcases List.mem_append.1 hit with hit | hit
    · refine stopless_items (fun a ha => (rank_descends.resume_lt f _ a ha).ne_top)
        (fun g hg => ?_) it hit
      rw [Bool.eq_false_iff]
      intro hl
      obtain ⟨e, v, r, rfl⟩ := isLoop_iff.1 hl
      obtain ⟨v', r', rfl, -⟩ := resume_loop hg
      cases hf
    · exact hst it hit

theorem enqueue (h : Stopless w) {q : Closure} (hq : q ≠ .stop) (s : Server) :
    Stopless ((machine I).enqueue { w with shared := s } q) where
  queue := by
    refine (Function.forall_update_iff w.queue fun _ qs => Closure.stop ∉ qs).2
      ⟨fun hmem => ?_, fun s' _ => h.queue s'⟩
    rcases List.mem_append.1 hmem with hmem | hmem
    · exact h.queue _ hmem
    · exact hq (List.mem_singleton.1 hmem).symm
  stack := h.stack

theorem dispatch (h : Stopless w) {t : ℕ} {q : Closure} {below : List Item} (hq : q ≠ .stop)
    (hb : ∀ it ∈ below, stopless it) : Stopless ((machine I).dispatch w t q below) := by
  unfold Executor.Machine.dispatch
  split_ifs
  · exact h.enter hq hb
  · exact ⟨(h.enqueue (I := I) hq w.shared).queue, h.restack hb⟩

theorem step (h : Stopless w) (hl : callsStop l = false)
    (hs : (machine I).step w l = some w') : Stopless w' := by
  cases Executor.Machine.step_cases hs with
  | post q => exact h.enqueue (by rintro rfl; cases hl) w.shared
  | complete e s q hc =>
    refine h.enqueue ?_ s
    rintro rfl
    rcases complete_cases hc with ⟨ec, nd, -, -, -, he⟩ | ⟨i, e', X, r, -, -, -, -, he⟩ <;> cases he
  | call t q f st hst =>
    exact h.dispatch (by rintro rfl; cases hl) (hst ▸ h.stack t)
  | take t s q rest hst hh hq =>
    have hs : ∀ q' ∈ q :: rest, q' ≠ .stop := fun q' hq' he => h.queue s (hq ▸ he ▸ hq')
    have hqueue : ∀ s', Closure.stop ∉ Function.update w.queue s rest s' := by
      refine (Function.forall_update_iff w.queue fun _ qs => Closure.stop ∉ qs).2
        ⟨fun hmem => ?_, fun s' _ => h.queue s'⟩
      exact hs _ (List.mem_cons_of_mem q hmem) rfl
    have hrest : Stopless { w with queue := Function.update w.queue s rest } :=
      ⟨hqueue, h.stack⟩
    exact hrest.enter (hs q List.mem_cons_self) fun it hit => absurd hit List.not_mem_nil
  | resume t f st hst | ret t f st hst => exact h.goOn (h.cons hst).1 (h.cons hst).2
  | release t s st hst => exact ⟨h.queue, h.restack (h.cons hst).2⟩
  | dispatch t q f st hst =>
    obtain ⟨⟨hq, hf⟩, hst⟩ := h.cons hst
    exact h.dispatch hq (List.forall_mem_cons.2 ⟨hf, hst⟩)

theorem idle (config : ServerConfig) :
    Stopless (Executor.World.idle { config := config }) where
  queue _ := List.not_mem_nil
  stack _ _ hit := absurd hit List.not_mem_nil

theorem unbroken (h : Stopless w) : ¬ Broken w := by
  rintro ⟨t, e, v, r, ⟨it, hit, hf⟩, -⟩
  have hstop := h.stack t it hit
  cases it with
  | resume | user => cases hf; cases hstop
  | dispatch => cases hf; cases hstop.2
  | release => cases hf

end Stopless

/-! ## At rest -/

/-- The threads below `N` go on, user code only returns, and no loop over the active
    sessions has had its set changed. -/
def WorksOff (N : ℕ) (w : World) (l : Label) : Prop := ¬ Broken w ∧ l.Internal N

theorem WorksOff.callsStop {N : ℕ} {w : World} {l : Label} (h : WorksOff N w l) :
    callsStop l = false := by
  cases l with
  | post | call => exact h.2.elim
  | _ => rfl

/-- Nothing is queued or running, and no session has a read or a write to start. -/
structure Resting (w : World) : Prop where
  rest : w.AtRest
  quiet : ∀ (i : ℕ) (X : WebSocketServerSession), w.shared.sessions[i]? = some X →
    WebSocketServerSession.canStartWrite X = false ∧ WebSocketServerSession.canStartRead X = false

theorem resting_of_rest {I : Iteration} {ok : World → Label → Prop} {w : World}
    (h : RunsTo I ok w) (hw : w.AtRest) : Resting w := by
  refine ⟨hw, fun i X hX => ?_⟩
  refine session_quiet h hX (Option.eq_none_iff_forall_ne_some.2 fun t ht => ?_)
  have hrelease := (h.held.holder _ t).1 ht
  rw [hw.stack t] at hrelease
  cases hrelease

/-- **A server comes to rest.**  From every state of every run, the threads of the pool,
    of which there may be any number, work off what is left to do in finitely many steps,
    in whatever order they take the strands, as long as user code only returns: they are
    stuck nowhere but where nothing is queued, nothing runs, and no session has a read or a
    write to start.  All this ends where the set of active sessions changes under the loop
    of a `stop()`; without a `stop()` it never does. -/
theorem comes_to_rest {I : Iteration} {ok : World → Label → Prop} {w : World} {N : ℕ}
    (h : ReachableBy I ok w) (hN : 0 < N) (hpool : ∀ t, N ≤ t → w.stack t = []) :
    (∀ tr : ℕ → World, tr 0 = w → ¬ ∀ n, ∃ l : Label, WorksOff N (tr n) l ∧
      (machine I).step (tr n) l = some (tr (n + 1))) ∧
    (∀ w', Transition.Run (machine I).step (WorksOff N) w w' →
      Resting w' ∨ ∃ l w'', l.Internal N ∧ (machine I).step w' l = some w'') ∧
    ∃ w', Transition.Run (machine I).step (WorksOff N) w w' ∧
      (Resting w' ∨ Broken w') ∧ (Stopless w → Resting w') := by
  obtain ⟨config, hr⟩ := h
  have hto : RunsTo I (fun w l => ¬ Broken w ∧ ok w l) w := ⟨config, hr⟩
  have hlater {w' : World} {okl : World → Label → Prop}
      (hrun : Transition.Run (machine I).step okl w w') : RunsTo I (fun _ _ => True) w' :=
    ⟨config, (hr.mono fun _ _ _ => trivial).trans (hrun.mono fun _ _ _ => trivial)⟩
  obtain ⟨m, hload⟩ : ∃ m, Executor.Load rank w m := by
    refine hr.inv (I := fun w => ∃ m, Executor.Load rank w m) ⟨0, Executor.load_idle _ _⟩ ?_
    rintro w₁ l w₂ ⟨m, hm⟩ - hs
    exact hm.step hs
  refine ⟨fun tr htr hall => ?_, fun w' hrun => ?_, ?_⟩
  · refine Executor.finite (M := machine I) (N := N) rank_descends (htr ▸ hload) fun n => ?_
    obtain ⟨l, hl, hs⟩ := hall n
    exact ⟨l, hl.2, hs⟩
  · by_cases hw : w'.AtRest
    · exact Or.inl (resting_of_rest (hlater hrun) hw)
    · refine Or.inr ((hlater hrun).held.progress hN (fun t ht => ?_) hw)
      -- the threads from `N` on have no part in this
      refine hrun.inv (I := fun w => w.stack t = []) (hpool t ht) fun w₁ l w₂ h₁ hl hs => ?_
      rw [Executor.Machine.step_stack hs fun hlt => ?_, h₁]
      cases l with
      | post | complete | call => exact hl.2
      | take t' | step t' | ret t' =>
        obtain rfl := Option.some.inj hlt
        exact Nat.not_lt.2 ht hl.2
  · obtain ⟨w', hrun, hrest⟩ :=
      Executor.settles rank_descends machine_lawful hN hload hto.held hpool
    rcases hrun.first Broken with hrun | ⟨w₁, hrun, hb⟩
    · have hresting := resting_of_rest (hlater hrun) hrest
      exact ⟨w', hrun, Or.inl hresting, fun _ => hresting⟩
    · refine ⟨w₁, hrun, Or.inr hb, fun hstop => absurd hb ?_⟩
      exact (hrun.inv hstop fun _ _ _ h hl hs => h.step (WorksOff.callsStop hl) hs).unbroken

/-- One thread works off the calls that were posted to a session. -/
theorem comes_to_rest_connection : ∃ w w' : World, w.queue (.session 0) ≠ [] ∧
    Transition.Run (machine inOrder).step (WorksOff 1) w w' ∧ Resting w' := by
  obtain ⟨w, hw, hp⟩ := exec_reachableBy
    (fun _ l => !callsStop l && l.thread.all fun t => t == 0)
    (connect ++ handshake ++
      [.post (.call 0 (.setReadHandler (some 1))), .post (.call 0 .startReading)])
    (fun w => !(w.queue (.session 0)).isEmpty) (by decide +kernel)
  obtain ⟨hstop, hpool⟩ : Stopless w ∧ ∀ t, 1 ≤ t → w.stack t = [] := by
    obtain ⟨config, hr⟩ := hw
    refine hr.inv (I := fun w => Stopless w ∧ ∀ t, 1 ≤ t → w.stack t = [])
      ⟨.idle config, fun _ _ => rfl⟩ fun w₁ l w₂ h₁ hl hs => ?_
    simp only [Bool.and_eq_true, Bool.not_eq_true'] at hl
    obtain ⟨-, -, hcalls, hthread⟩ := hl
    refine ⟨h₁.1.step hcalls hs, fun t ht => ?_⟩
    rw [Executor.Machine.step_stack hs fun hlt => ?_, h₁.2 t ht]
    rw [hlt] at hthread
    simp only [Option.all_some, beq_iff_eq] at hthread
    omega
  obtain ⟨-, -, w', hr, -, hrest⟩ := comes_to_rest hw Nat.one_pos hpool
  exact ⟨w, w', by simpa using hp, hr, hrest hstop⟩

end TransitSession.WebSocket.Server
