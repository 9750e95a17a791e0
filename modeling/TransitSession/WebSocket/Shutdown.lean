/-
  After `WebSocketServer::stop`: which sessions survive it.

  `do_accept` checks `started_` when an accept completes, but the closure that
  takes over a session whose handshake has finished does not: if it runs after
  `stop()`, the session is inserted and handed over (`handsOverLate`).  In runs
  without such a step no session survives (`no_survivor`).
-/
import TransitSession.Core.Invariants
import TransitSession.WebSocket.StopLoop

namespace TransitSession.WebSocket.Server

/-! ## Phases -/

/-- What the history says of `start()` and `stop()`: no closure of `stop()` has
    begun since the last start, or one has, or one has ended. -/
inductive Phase where
  | running
  | stopping
  | stopped
deriving DecidableEq

def Phase.next : Phase → ServerEvent → Phase
  | _, .started => .running
  | .running, .stopping => .stopping
  | .stopping, .stopped _ _ => .stopped
  | p, _ => p

def phase (log : List ServerEvent) : Phase := log.foldl Phase.next .running

theorem phase_append (log es : List ServerEvent) :
    phase (log ++ es) = es.foldl Phase.next (phase log) := List.foldl_append

theorem Phase.next_minor {ev : ServerEvent} (h : Minor ev) (p : Phase) : p.next ev = p := by
  cases ev with
  | started | stopping | stopped => exact h.elim
  | accepting | inserted | erased | handed => cases p <;> rfl

theorem Phase.foldl_minor {es : List ServerEvent} (h : ∀ ev ∈ es, Minor ev) (p : Phase) :
    es.foldl Phase.next p = p := by
  induction es with
  | nil => rfl
  | cons ev es ih =>
    rw [List.foldl_cons, Phase.next_minor (h ev List.mem_cons_self)]
    exact ih fun ev' h' => h ev' (List.mem_cons_of_mem _ h')

theorem phase_minor {log es : List ServerEvent} (h : ∀ ev ∈ es, Minor ev) :
    phase (log ++ es) = phase log := by
  rw [phase_append, Phase.foldl_minor h]

/-! ## Survivors -/

/-- No session was handed over after a stop. -/
def HandedInTime (log : List ServerEvent) : Prop :=
  ∀ pre ec i, pre ++ [.handed ec (some i)] <+: log → phase pre ≠ .stopped

/-- The session was visited by a loop of `stop()`. -/
def Visited (s : Server) (i : ℕ) : Prop := ∃ e v, .stopped e v ∈ s.log ∧ i ∈ v

/-- `close()` was called on the session: by a loop of `stop()`, or such that the
    closure of the call has run. -/
def CloseCalled (s : Server) (i : ℕ) : Prop :=
  Visited s i ∨ ∃ x : WebSocketServerSession, s.sessions[i]? = some x ∧ x.CloseRan

/-- No session survives a stop. -/
structure NoSurvivor (s : Server) : Prop where
  handed : HandedInTime s.log
  closed : phase s.log = .stopped → ∀ i ∈ s.activeSessions, CloseCalled s i

/-- The step runs the hand-over of a session while the server is not started. -/
def handsOverLate (I : Iteration) (w : World) (l : Label) : Bool :=
  match (machine I).ran w l with
  | some (.handOver _ none) => !w.shared.started
  | _ => false

theorem HandedInTime.concat {log : List ServerEvent} {ev : ServerEvent} (h : HandedInTime log)
    (hev : ∀ ec i, ev = .handed ec (some i) → phase log ≠ .stopped) :
    HandedInTime (log ++ [ev]) := by
  intro pre ec i hp
  rcases List.prefix_concat_iff.1 hp with heq | hp
  · obtain ⟨rfl, he⟩ := List.append_inj' heq rfl
    exact hev ec i (List.singleton_inj.1 he).symm
  · exact h pre ec i hp

theorem HandedInTime.append {log es : List ServerEvent} (h : HandedInTime log)
    (hes : ∀ ec i, .handed ec (some i) ∉ es) : HandedInTime (log ++ es) := by
  induction es generalizing log with
  | nil => simpa using h
  | cons ev es ih =>
    rw [List.append_cons]
    refine ih (h.concat fun ec i he => ?_) fun ec i hm => hes ec i (List.mem_cons_of_mem _ hm)
    exact absurd (he ▸ List.mem_cons_self) (hes ec i)

/-! ## The invariant -/

/-- The members and the history of a server whose hand-overs were in time. -/
structure Stopped (s : Server) : Prop where
  started : phase s.log ≠ .running → s.started = false
  handed : HandedInTime s.log
  visited : phase s.log = .stopped → ∀ i ∈ s.activeSessions, Visited s i

theorem Stopped.noSurvivor {s : Server} (h : Stopped s) : NoSurvivor s :=
  ⟨h.handed, fun hp i hi => Or.inl (h.visited hp i hi)⟩

theorem Visited.append {s s' : Server} {es : List ServerEvent} (hl : s'.log = s.log ++ es) {i : ℕ}
    (h : Visited s i) : Visited s' i := by
  obtain ⟨e, v, hm, hi⟩ := h
  exact ⟨e, v, by rw [hl]; exact List.mem_append_left _ hm, hi⟩

theorem minor_notHanded {es : List ServerEvent} (h : ∀ ev ∈ es, Minor ev) (ec : ErrorCode) (i : ℕ) :
    .handed ec (some i) ∉ es := fun hm => h _ hm

variable {I : Iteration} {w w' : World} {l : Label}

namespace Stopped
variable {s s' : Server}

theorem quiet (h : Stopped s) (hq : Quiet s s') : Stopped s' := by
  obtain ⟨es, hl, hes⟩ := hq.log
  have hp : phase s'.log = phase s.log := by rw [hl, phase_minor hes]
  refine ⟨fun hr => ?_, ?_, fun hst i hi => ?_⟩
  · rw [hq.started]
    exact h.started (hp ▸ hr)
  · rw [hl]
    exact h.handed.append (minor_notHanded hes)
  · exact (h.visited (hp ▸ hst) i (hq.active.subset hi)).append hl

theorem start (h : Stopped s) : Stopped s.start := by
  obtain ⟨⟨hl, hs⟩ | ⟨hl, hs⟩, ha⟩ := start_log s
  · refine ⟨?_, hl ▸ h.handed, ?_⟩
    · rw [hl, hs]
      exact h.started
    · rw [hl, ha]
      exact fun hp i hi => (h.visited hp i hi).append (by rw [hl, List.append_nil])
  · have hp : phase s.start.log = .running := by
      rw [hl, phase_append]
      cases phase s.log <;> rfl
    refine ⟨fun hr => absurd hp hr, ?_, fun hst => absurd (hp.symm.trans hst) (by simp)⟩
    rw [hl]
    exact h.handed.append (by simp)

theorem stop (h : Stopped s) : Stopped (s.stop I).1 := by
  obtain ⟨hs, ha, hlog⟩ := stop_log (I := I) s
  refine ⟨fun _ => hs, ?_, fun hst i hi => ?_⟩
  · rcases hlog with hl | ⟨-, hl⟩ <;> rw [hl] <;> exact h.handed.append (by simp)
  · rcases hlog with hl | ⟨hnil, hl⟩
    · have hp : phase s.log = .stopped := by
        rw [hl, phase_append] at hst
        cases hp : phase s.log <;> rw [hp] at hst <;> cases hst
      exact (h.visited hp i (ha ▸ hi)).append hl
    · rw [ha, hnil] at hi
      cases hi

/-- A hand-over, while the server is started. -/
theorem handOver (h : Stopped s) (hs : s.started = true) (i : ℕ) :
    Stopped (s.handOver i none).1 := by
  obtain ⟨⟨es, hl, hes⟩, hst, -⟩ := handOver_log i s
  have hrun : phase s.log = .running := by
    by_contra hp
    rw [h.started hp] at hs
    cases hs
  have hin : phase (s.log ++ es) = .running := by rw [phase_minor hes, hrun]
  have hh := h.handed.append (minor_notHanded hes)
  have hp : phase (s.handOver i none).1.log = .running := by
    rw [hl, phase_append, hin]
    split_ifs <;> rfl
  refine ⟨fun hr => absurd hp hr, ?_, fun hst => absurd (hp.symm.trans hst) (by simp)⟩
  rw [hl]
  split_ifs
  · exact hh.concat fun _ _ _ => by simp [hin]
  · simpa using hh

/-- A loop ends that has visited all sessions of the set. -/
theorem stopped (h : Stopped s) {e v : List ℕ} (hv : ∀ i ∈ s.activeSessions, i ∈ v) :
    Stopped (s.emit (.stopped e v)) := by
  refine ⟨fun hr => h.started fun hp => hr ?_, h.handed.concat (by simp), fun _ i hi => ?_⟩
  · show phase (s.log ++ _) = _
    rw [phase_append, hp]
    rfl
  · exact ⟨e, v, List.mem_append_right _ (List.mem_singleton_self _), hv i hi⟩

end Stopped

theorem stopped_step (hsh : Shaped I w) (hb : ¬ Broken w) (hg : handsOverLate I w l = false)
    (hs : (machine I).step w l = some w') (h : Stopped w.shared) : Stopped w'.shared := by
  cases step_effect hsh.held hs with
  | quiet hq hl => exact h.quiet hq
  | start hw hl => rw [hw]; exact h.start
  | stop t hw hl => rw [hw]; exact h.stop
  | handOver t i hr hw hl =>
    rw [hw]
    exact h.handOver (by simpa [handsOverLate, hr.ran] using hg) i
  | stopped t e v hf hw hl =>
    rw [hw]
    refine h.stopped fun i hi => ?_
    have he : w.shared.activeSessions = e := by
      by_contra hne
      exact hb ⟨t, e, v, [], hf, hne⟩
    have hv := (hsh.loops t e v [] hf).2
    rw [List.append_nil] at hv
    rw [hv]
    exact (I.perm e).mem_iff.2 (he ▸ hi)

/-- A hand-over to a session handler after a stop. -/
theorem handOver_survives {s : Server} {i : ℕ} (hp : phase s.log = .stopped)
    (hh : s.sessionHandler.isSome = true) : ¬ NoSurvivor (s.handOver i none).1 := by
  intro h
  obtain ⟨⟨es, hl, hes⟩, -, -⟩ := handOver_log i s
  rw [if_pos hh] at hl
  refine h.handed (s.log ++ es) none i ?_ (by rw [phase_minor hes, hp])
  rw [hl]

/-- **No session survives a stop, as long as none is handed over while the
    server is not started.**  A hand-over after a stop breaks it. -/
theorem no_survivor (I : Iteration) :
    (∀ w, ReachableBy I (fun w l => handsOverLate I w l = false) w → NoSurvivor w.shared) ∧
    ∀ w l w', Reachable I w → phase w.shared.log = .stopped → handsOverLate I w l = true →
      w.shared.sessionHandler.isSome = true → (machine I).step w l = some w' →
      ¬ NoSurvivor w'.shared := by
  constructor
  · rintro w ⟨config, hr⟩
    have hinit : Stopped { config := config } :=
      ⟨fun h => absurd rfl h, fun pre ec i hp => by simp at hp, fun h => by cases h⟩
    have hinv := hr.inv (I := fun w => Shaped I w ∧ Stopped w.shared) ⟨.idle config, hinit⟩
      fun w l w' h hok hs => ⟨h.1.step hs, stopped_step h.1 hok.1 hok.2 hs h.2⟩
    exact hinv.2.noSurvivor
  · intro w l w' _ hp hg hh hs
    unfold handsOverLate at hg
    split at hg
    · next i hr =>
      rw [Executor.Machine.ran_shared hr hs]
      exact handOver_survives hp hh
    · cases hg

/-- A stop while a session is active whose strand is busy; a handshake that is
    outstanding at a stop. -/
theorem no_survivor_busy :
    (∃ w : World, phase w.shared.log = .stopped ∧ w.shared.activeSessions = [0] ∧
      NoSurvivor w.shared) ∧
    ∃ w w', Reachable inOrder w ∧ (machine inOrder).step w (.step 0) = some w' ∧
      ¬ NoSurvivor w'.shared := by
  constructor
  · obtain ⟨w, hr, hw⟩ := exec_reachableBy (fun w l => !handsOverLate inOrder w l)
      (connect ++ handshake ++ [.post (.call 0 (.setReadHandler (some 1))), .take 1 (.session 0),
        .post .stop, .take 0 .server, .step 0, .step 0])
      (fun w => phase w.shared.log = .stopped && w.shared.activeSessions = [0]) (by decide +kernel)
    simp only [Bool.and_eq_true, decide_eq_true_eq] at hw
    exact ⟨w, hw.1, hw.2, (no_survivor inOrder).1 w (hr.mono fun _ _ h => by simpa using h.2)⟩
  · obtain ⟨w, hr, hw⟩ := exec_reachableBy (fun _ _ => true)
      (connect ++ [.post .stop, .take 0 .server, .step 0] ++ handshake.take 2)
      (fun w => phase w.shared.log = .stopped && handsOverLate inOrder w (.step 0) &&
        w.shared.sessionHandler.isSome && ((machine inOrder).step w (.step 0)).isSome)
      (by decide +kernel)
    simp only [Bool.and_eq_true, decide_eq_true_eq] at hw
    obtain ⟨⟨⟨hp, hg⟩, hh⟩, hs⟩ := hw
    obtain ⟨w', hs⟩ := Option.isSome_iff_exists.1 hs
    exact ⟨w, w', hr.reachable, hs, (no_survivor inOrder).2 w _ w' hr.reachable hp hg hh hs⟩

/-- `stop()` while a handshake is outstanding: when it finishes, the session is
    inserted and handed over. -/
theorem handshake_survives_stop : ¬ ∀ (I : Iteration) w, Reachable I w → NoSurvivor w.shared := by
  intro h
  obtain ⟨w, hr, hw⟩ := exec_reachableBy (fun _ _ => true)
    (connect ++ [.post .stop, .take 0 .server, .step 0] ++ handshake)
    (fun w => w.shared.log = [.started, .accepting true, .accepting true, .stopping,
      .stopped [] [], .inserted 0, .handed none (some 0)]) (by decide +kernel)
  simp only [decide_eq_true_eq] at hw
  have hlate : phase [.started, .accepting true, .accepting true, .stopping, .stopped [] [],
      .inserted 0] = .stopped := rfl
  refine (h _ w hr.reachable).handed _ none 0 ?_ hlate
  rw [hw]
  exact List.prefix_rfl

end TransitSession.WebSocket.Server
