/-
  What one step of a server does to its members and to the loops of `stop()`.

  * `Broken`: the set of active sessions changed under a loop over it.  What the
    code does then is undefined, and a run ends there (`ReachableBy`);
  * `Server.Effect`: what one step does to the history, to `started_` and to the
    set, and where the loops on the stacks come from;
  * `Shaped`: which sessions the loops visit.
-/
import Mathlib.Data.List.Nodup
import TransitSession.WebSocket.Server

namespace TransitSession.WebSocket.Server

abbrev World := Executor.World Server StrandId Closure ServerRest

abbrev Label := Executor.Label StrandId Closure Completed

abbrev Item := Executor.Item StrandId Closure ServerRest

/-! ## Parts of closures -/

theorem sessionTail_frame {i : ℕ} {o : Option (Frame ServerFrame)} {f : ServerRest}
    (h : (sessionTail i o).frame? = some f) : ∃ g, f = .session i g := by
  unfold sessionTail at h
  split at h
  · cases h
  · split at h <;> exact ⟨_, (Option.some.inj h).symm⟩

theorem onSession_frame {i : ℕ}
    {part : WebSocketServerSession → WebSocketServerSession × Option (Frame ServerFrame)}
    {s : Server} {f : ServerRest} (h : (s.onSession i part).2.frame? = some f) :
    ∃ g, f = .session i g := by
  unfold onSession at h
  split at h
  · cases h
  · exact sessionTail_frame h

theorem notifySession_frame {ec : ErrorCode} {session : Option ℕ} {s : Server}
    {rest f : ServerRest} {next : Server → Server}
    (h : (s.notifySession ec session rest next).2.frame? = some f) : f = rest := by
  unfold notifySession at h
  split_ifs at h
  · exact (Option.some.inj h).symm
  · cases h

theorem stopLoop_frame {entry visited : List ℕ} {s : Server} {rest : List ℕ} {f : ServerRest}
    (h : (s.stopLoop entry visited rest).2.frame? = some f) :
    ∃ v r, f = .stopLoop entry v r ∧ v ++ r = visited ++ rest := by
  cases rest with
  | nil => cases h
  | cons i rest => exact ⟨visited ++ [i], rest, (Option.some.inj h).symm, by simp⟩

/-- The frames of the server's closures are not those of a session. -/
theorem onAccept_frame {ec noDelayEc : ErrorCode} {s : Server} {f : ServerRest}
    (h : (s.onAccept ec noDelayEc).2.frame? = some f) :
    (∃ e, f = .acceptFailed e) ∨ ∃ i, f = .acceptStart i noDelayEc := by
  unfold onAccept at h
  split_ifs at h
  · cases h
  · cases ec with
    | some e => exact Or.inl ⟨e, notifySession_frame h⟩
    | none => exact Or.inr ⟨_, (Option.some.inj h).symm⟩

variable {I : Iteration}

theorem machine_lawful : (machine I).Lawful := by
  constructor
  · intro q s f h
    cases q with
    | setSessionHandler | start | erase => cases h
    | stop =>
      obtain ⟨v, r, rfl, -⟩ := stopLoop_frame h
      rfl
    | accepted ec noDelayEc =>
      rcases onAccept_frame h with ⟨e, rfl⟩ | ⟨i, rfl⟩ <;> rfl
    | handOver i ec =>
      rw [notifySession_frame h]; rfl
    | call i x | event i e =>
      obtain ⟨g, rfl⟩ := onSession_frame h
      rfl
  · intro f s g h
    cases f with
    | stopLoop entry visited rest =>
      obtain ⟨v, r, rfl, -⟩ := stopLoop_frame h
      rfl
    | acceptStart i noDelayEc =>
      rw [← Option.some.inj h]; rfl
    | acceptNext | acceptFailed | handOverEnd => cases h
    | session i f =>
      obtain ⟨g', rfl⟩ := onSession_frame h
      rfl

/-- A loop starts in `stop()`. -/
theorem run_loop {q : Closure} {s : Server} {e v r : List ℕ}
    (h : ((machine I).run q s).2.frame? = some (.stopLoop e v r)) :
    q = .stop ∧ e = s.activeSessions ∧ v ++ r = I.order e := by
  cases q with
  | setSessionHandler | start | erase => cases h
  | stop =>
    obtain ⟨v', r', he, hl⟩ := stopLoop_frame h
    cases he
    exact ⟨rfl, rfl, hl⟩
  | accepted ec noDelayEc => rcases onAccept_frame h with ⟨e, he⟩ | ⟨i, he⟩ <;> cases he
  | handOver i ec => cases notifySession_frame h
  | call i x | event i e =>
    obtain ⟨g, he⟩ := onSession_frame h
    cases he

/-- A loop goes on with the same set and the same order. -/
theorem resume_loop {f : ServerRest} {s : Server} {e v r : List ℕ}
    (h : ((machine I).resume f s).2.frame? = some (.stopLoop e v r)) :
    ∃ v' r', f = .stopLoop e v' r' ∧ v ++ r = v' ++ r' := by
  cases f with
  | stopLoop entry visited rest =>
    obtain ⟨v', r', he, hl⟩ := stopLoop_frame h
    cases he
    exact ⟨visited, rest, rfl, hl⟩
  | acceptStart i noDelayEc => cases Option.some.inj h
  | acceptNext | acceptFailed | handOverEnd => cases h
  | session i f =>
    obtain ⟨g', he⟩ := onSession_frame h
    cases he

/-- Only `erase` and the hand-over of a session change the set. -/
def Changes : Closure → Prop
  | .erase _ | .handOver _ none => True
  | _ => False

theorem notifySession_active (ec : ErrorCode) (session : Option ℕ) (s : Server)
    (rest : ServerRest) {next : Server → Server}
    (hn : (next s).activeSessions = s.activeSessions) :
    (s.notifySession ec session rest next).1.activeSessions = s.activeSessions := by
  unfold notifySession
  split_ifs
  exacts [rfl, hn]

theorem acceptAgain_active (e : Errc) (s : Server) :
    (s.acceptAgain e).activeSessions = s.activeSessions := by
  unfold acceptAgain
  split_ifs <;> rfl

theorem onSession_server (i : ℕ)
    (part : WebSocketServerSession → WebSocketServerSession × Option (Frame ServerFrame))
    (s : Server) : ∃ ss, (s.onSession i part).1 = { s with sessions := ss } := by
  unfold onSession
  split <;> exact ⟨_, rfl⟩

theorem onSession_active (i : ℕ)
    (part : WebSocketServerSession → WebSocketServerSession × Option (Frame ServerFrame))
    (s : Server) : (s.onSession i part).1.activeSessions = s.activeSessions := by
  obtain ⟨ss, hs⟩ := onSession_server i part s
  rw [hs]

theorem stopLoop_active (entry visited : List ℕ) (s : Server) (rest : List ℕ) :
    (s.stopLoop entry visited rest).1.activeSessions = s.activeSessions := by
  cases rest <;> rfl

theorem run_active {q : Closure} (hq : ¬ Changes q) (s : Server) :
    ((machine I).run q s).1.activeSessions = s.activeSessions := by
  cases q with
  | setSessionHandler => rfl
  | start =>
    show s.start.activeSessions = _
    unfold start
    split_ifs <;> rfl
  | stop => exact stopLoop_active _ _ _ _
  | accepted ec noDelayEc =>
    show (s.onAccept ec noDelayEc).1.activeSessions = _
    unfold onAccept
    split_ifs
    · rfl
    · cases ec with
      | some e => exact notifySession_active _ _ _ _ (acceptAgain_active e s)
      | none => rfl
  | erase => exact absurd trivial hq
  | handOver i ec =>
    cases ec with
    | some e => exact notifySession_active _ _ _ _ rfl
    | none => exact absurd trivial hq
  | call | event => exact onSession_active _ _ s

theorem resume_active (f : ServerRest) (s : Server) :
    ((machine I).resume f s).1.activeSessions = s.activeSessions := by
  cases f with
  | stopLoop => exact stopLoop_active _ _ _ _
  | acceptStart | acceptNext | handOverEnd => rfl
  | acceptFailed e => exact acceptAgain_active e s
  | session i f => exact onSession_active _ _ s

/-- An operation that completes changes nothing but the accepts outstanding. -/
theorem complete_server {e : Completed} {s s' : Server} {q : Closure}
    (h : (machine I).complete e s = some (s', q)) : ∃ n, s' = { s with accepts := n } := by
  cases e with
  | accept ec noDelayEc =>
    simp only [machine] at h
    split_ifs at h
    cases h
    exact ⟨_, rfl⟩
  | session i e =>
    simp only [machine] at h
    split at h
    · cases h
    · obtain ⟨_, -, he⟩ := Option.map_eq_some_iff.1 h
      cases he
      exact ⟨s.accepts, rfl⟩

/-- An event that is neither about starting and stopping nor a hand-over. -/
def Minor : ServerEvent → Prop
  | .accepting _ | .inserted _ | .erased _ | .handed _ none => True
  | _ => False

/-- A part of a closure that neither starts nor stops the server, nor hands over
    a session. -/
structure Quiet (s s' : Server) : Prop where
  log : ∃ es, s'.log = s.log ++ es ∧ ∀ ev ∈ es, Minor ev
  started : s'.started = s.started
  active : s'.activeSessions.Sublist s.activeSessions

namespace Quiet
variable {s s' : Server}

theorem silent (hl : s'.log = s.log) (hs : s'.started = s.started)
    (ha : s'.activeSessions = s.activeSessions) : Quiet s s' :=
  ⟨⟨[], by simpa using hl, by simp⟩, hs, by rw [ha]⟩

theorem refl (s : Server) : Quiet s s := silent rfl rfl rfl

theorem emit {ev : ServerEvent} (hl : s'.log = s.log ++ [ev]) (hev : Minor ev)
    (hs : s'.started = s.started) (ha : s'.activeSessions.Sublist s.activeSessions) :
    Quiet s s' :=
  ⟨⟨[ev], hl, by simpa using hev⟩, hs, ha⟩

theorem mem (h : Quiet s s') {ev : ServerEvent} (hev : ev ∈ s'.log) (hm : ¬ Minor ev) :
    ev ∈ s.log := by
  obtain ⟨es, hl, hes⟩ := h.log
  rw [hl] at hev
  rcases List.mem_append.1 hev with hev | hev
  exacts [hev, absurd (hes ev hev) hm]

theorem doAccept (s : Server) : Quiet s s.doAccept := emit rfl trivial rfl (List.Sublist.refl _)

theorem acceptAgain (e : Errc) (s : Server) : Quiet s (s.acceptAgain e) := by
  unfold Server.acceptAgain
  split_ifs
  exacts [doAccept s, refl s]

theorem notifyNone {ec : ErrorCode} {rest : ServerRest} {next : Server → Server}
    (h : Quiet s (next s)) : Quiet s (s.notifySession ec none rest next).1 := by
  unfold notifySession
  split_ifs
  exacts [emit rfl trivial rfl (List.Sublist.refl _), h]

theorem onSession (i : ℕ)
    (part : WebSocketServerSession → WebSocketServerSession × Option (Frame ServerFrame))
    (s : Server) : Quiet s (s.onSession i part).1 := by
  obtain ⟨ss, hs⟩ := onSession_server i part s
  rw [hs]
  exact silent rfl rfl rfl

theorem run {q : Closure} (hstart : q ≠ .start) (hstop : q ≠ .stop)
    (hand : ∀ i, q ≠ .handOver i none) (s : Server) : Quiet s ((machine I).run q s).1 := by
  cases q with
  | setSessionHandler => exact silent rfl rfl rfl
  | start => exact absurd rfl hstart
  | stop => exact absurd rfl hstop
  | accepted ec noDelayEc =>
    show Quiet s (s.onAccept ec noDelayEc).1
    unfold onAccept
    split_ifs
    · exact refl s
    · cases ec with
      | some e => exact notifyNone (acceptAgain e s)
      | none => exact silent rfl rfl rfl
  | erase i => exact emit rfl trivial rfl List.erase_sublist
  | handOver i ec =>
    cases ec with
    | some e => exact notifyNone (refl s)
    | none => exact absurd rfl (hand i)
  | call | event => exact onSession _ _ s

/-- The loop of `stop()` is quiet until it ends. -/
theorem resume {f : ServerRest} (hf : ∀ e v, f ≠ .stopLoop e v []) (s : Server) :
    Quiet s ((machine I).resume f s).1 := by
  cases f with
  | stopLoop e v rest =>
    cases rest with
    | nil => exact absurd rfl (hf e v)
    | cons => exact refl s
  | acceptStart | handOverEnd => exact refl s
  | acceptNext => exact doAccept s
  | acceptFailed e => exact acceptAgain e s
  | session i f => exact onSession _ _ s

theorem complete {e : Completed} {q : Closure} (h : (machine I).complete e s = some (s', q)) :
    Quiet s s' := by
  obtain ⟨n, rfl⟩ := complete_server h
  exact silent rfl rfl rfl

end Quiet

theorem start_log (s : Server) :
    (s.start.log = s.log ∧ s.start.started = s.started ∨
      s.start.log = s.log ++ [.started, .accepting s.acceptorOpen] ∧ s.start.started = true) ∧
    s.start.activeSessions = s.activeSessions := by
  unfold start
  split_ifs
  · exact ⟨Or.inl ⟨rfl, rfl⟩, rfl⟩
  · exact ⟨Or.inr ⟨by simp [doAccept, emit], rfl⟩, rfl⟩

theorem stop_log (s : Server) :
    (s.stop I).1.started = false ∧ (s.stop I).1.activeSessions = s.activeSessions ∧
    ((s.stop I).1.log = s.log ++ [.stopping] ∨
      s.activeSessions = [] ∧ (s.stop I).1.log = s.log ++ [.stopping, .stopped [] []]) := by
  dsimp only [stop]
  cases hl : I.order s.activeSessions with
  | nil =>
    have ha : s.activeSessions = [] := (hl ▸ I.perm s.activeSessions).nil_eq.symm
    exact ⟨rfl, rfl, Or.inr ⟨ha, by simp [stopLoop, emit, ha]⟩⟩
  | cons i rest => exact ⟨rfl, rfl, Or.inl rfl⟩

/-- `insert` adds at most the session, and only its event. -/
theorem insert_spec (i : ℕ) (s : Server) :
    (∃ es, (s.insert i).log = s.log ++ es ∧ ∀ ev ∈ es, Minor ev) ∧
    (s.insert i).started = s.started ∧ (s.insert i).sessionHandler = s.sessionHandler ∧
    (s.activeSessions.Nodup → (s.insert i).activeSessions.Nodup) := by
  unfold insert
  split_ifs with hi
  · exact ⟨⟨[], by simp, by simp⟩, rfl, rfl, id⟩
  · refine ⟨⟨[.inserted i], rfl, by simp [Minor]⟩, rfl, rfl, fun h => ?_⟩
    rw [← List.concat_eq_append]
    exact List.Nodup.concat hi h

/-- The hand-over of a session. -/
theorem handOver_log (i : ℕ) (s : Server) :
    (∃ es, (s.handOver i none).1.log = s.log ++ es ++
        (if s.sessionHandler.isSome then [.handed none (some i)] else []) ∧ ∀ ev ∈ es, Minor ev) ∧
    (s.handOver i none).1.started = s.started ∧
    (s.handOver i none).1.activeSessions = (s.insert i).activeSessions := by
  obtain ⟨⟨es, hl, hes⟩, hst, hh, -⟩ := insert_spec i s
  show (∃ es, ((s.insert i).notifySession none (some i) .handOverEnd id).1.log = _ ∧ _) ∧
    ((s.insert i).notifySession none (some i) .handOverEnd id).1.started = _ ∧
    ((s.insert i).notifySession none (some i) .handOverEnd id).1.activeSessions = _
  unfold notifySession
  rw [hh]
  split_ifs
  · exact ⟨⟨es, by simp [emit, hl], hes⟩, hst, rfl⟩
  · exact ⟨⟨es, by simp [hl], hes⟩, hst, rfl⟩

/-! ## Steps of the server -/

/-- The loops of `w'` are those of `w`. -/
def LoopsOf (w w' : World) : Prop :=
  ∀ t e v r, w'.HasFrame t (.stopLoop e v r) →
    ∃ v' r', w.HasFrame t (.stopLoop e v' r') ∧ v ++ r = v' ++ r'

/-- What one step does to the history, `started_` and the set, and to the loops. -/
inductive Effect (I : Iteration) (w w' : World) (l : Label) : Prop where
  | quiet : Quiet w.shared w'.shared → LoopsOf w w' → Effect I w w' l
  | start : w'.shared = w.shared.start → LoopsOf w w' → Effect I w w' l
  | stop (t) : w'.shared = (w.shared.stop I).1 →
      (∀ t' e v r, w'.HasFrame t' (.stopLoop e v r) → w.HasFrame t' (.stopLoop e v r) ∨
        t' = t ∧ e = w.shared.activeSessions ∧ v ++ r = I.order e) → Effect I w w' l
  | handOver (t i) : (machine I).Runs w l t (.handOver i none) →
      w'.shared = (w.shared.handOver i none).1 → LoopsOf w w' → Effect I w w' l
  | stopped (t e v) : w.HasFrame t (.stopLoop e v []) →
      w'.shared = w.shared.emit (.stopped e v) → LoopsOf w w' → Effect I w w' l

variable {w w' : World} {l : Label}

theorem loopsOf_stay (hf : ∀ t f, w'.HasFrame t f → w.HasFrame t f) : LoopsOf w w' :=
  fun t _ v r h => ⟨v, r, hf t _ h, rfl⟩

theorem loopsOf_run {t : ℕ} {q : Closure} (hq : q ≠ .stop)
    (hx : Executor.Machine.Executes w w' t ((machine I).run q w.shared)) : LoopsOf w w' := by
  intro t' e v r h
  rcases hx.frames t' _ h with h | ⟨-, h⟩
  · exact ⟨v, r, h, rfl⟩
  · exact absurd (run_loop h).1 hq

theorem loopsOf_resume {t : ℕ} {f : ServerRest} (hf : w.HasFrame t f)
    (hx : Executor.Machine.Executes w w' t ((machine I).resume f w.shared)) : LoopsOf w w' := by
  intro t' e v r h
  rcases hx.frames t' _ h with h | ⟨rfl, h⟩
  · exact ⟨v, r, h, rfl⟩
  · obtain ⟨v', r', rfl, hl⟩ := resume_loop h
    exact ⟨v', r', hf, hl⟩

theorem step_effect (h : Executor.Held (machine I) w) (hs : (machine I).step w l = some w') :
    Effect I w w' l := by
  cases Executor.Machine.step_effect h hs with
  | stay hw hf =>
    refine .quiet ?_ (loopsOf_stay hf)
    rw [hw]; exact Quiet.refl _
  | complete _ _ he hf => exact .quiet (Quiet.complete he) (loopsOf_stay hf)
  | run t q hr hx =>
    have hw := hx.shared
    by_cases hstop : q = .stop
    · subst hstop
      refine .stop t hw fun t' e v r h => ?_
      rcases hx.frames t' _ h with h | ⟨rfl, h⟩
      · exact Or.inl h
      · exact Or.inr ⟨rfl, (run_loop h).2⟩
    have hl := loopsOf_run hstop hx
    by_cases hstart : q = .start
    · subst hstart
      exact .start hw hl
    by_cases hand : ∃ i, q = .handOver i none
    · obtain ⟨i, rfl⟩ := hand
      exact .handOver t i hr hw hl
    · refine .quiet ?_ hl
      rw [hw]
      exact Quiet.run hstart hstop (fun i hi => hand ⟨i, hi⟩) _
  | resume t f hf hx =>
    have hw := hx.shared
    have hl := loopsOf_resume hf hx
    by_cases hend : ∃ e v, f = .stopLoop e v []
    · obtain ⟨e, v, rfl⟩ := hend
      exact .stopped t e v hf hw hl
    · refine .quiet ?_ hl
      rw [hw]
      exact Quiet.resume (fun e v he => hend ⟨e, v, he⟩) _

/-! ## Runs of the server -/

/-- The set of active sessions changed under a loop over it. -/
def Broken (w : World) : Prop :=
  ∃ t e v r, w.HasFrame t (.stopLoop e v r) ∧ w.shared.activeSessions ≠ e

/-- The worlds of the runs, from a server that was just created, whose steps all
    meet `ok`; a run ends where the set changes under a loop. -/
def ReachableBy (I : Iteration) (ok : World → Label → Prop) (w : World) : Prop :=
  ∃ config, Transition.Run (machine I).step (fun w l => ¬ Broken w ∧ ok w l)
    (Executor.World.idle { config := config }) w

/-- The worlds of all runs. -/
abbrev Reachable (I : Iteration) (w : World) : Prop := ReachableBy I (fun _ _ => True) w

/-- The sessions that the loops visit, whatever the steps. -/
structure Shaped (I : Iteration) (w : World) : Prop where
  held : Executor.Held (machine I) w
  nodup : w.shared.activeSessions.Nodup
  loops : ∀ t e v r, w.HasFrame t (.stopLoop e v r) → e.Nodup ∧ v ++ r = I.order e
  stopped : ∀ e v, .stopped e v ∈ w.shared.log → e.Nodup ∧ v = I.order e

namespace Shaped

theorem idle (config : ServerConfig) :
    Shaped I (Executor.World.idle { config := config }) where
  held := .idle _
  nodup := List.nodup_nil
  loops t e v r h := by
    obtain ⟨it, hit, -⟩ := h
    cases hit
  stopped e v h := by cases h

theorem loopsOf (h : Shaped I w) (hl : LoopsOf w w') (t : ℕ) (e v r : List ℕ)
    (hf : w'.HasFrame t (.stopLoop e v r)) : e.Nodup ∧ v ++ r = I.order e := by
  obtain ⟨v', r', hf', he⟩ := hl t e v r hf
  rw [he]
  exact h.loops t e v' r' hf'

theorem step (h : Shaped I w) (hs : (machine I).step w l = some w') : Shaped I w' := by
  have held := h.held.step machine_lawful hs
  cases step_effect h.held hs with
  | quiet hq hl =>
    exact ⟨held, hq.active.nodup h.nodup, h.loopsOf hl, fun e v hm => h.stopped e v (hq.mem hm id)⟩
  | start hw hl =>
    obtain ⟨hlog, ha⟩ := start_log w.shared
    rw [← hw] at hlog ha
    refine ⟨held, by rw [ha]; exact h.nodup, h.loopsOf hl, fun e v hm => h.stopped e v ?_⟩
    rcases hlog with ⟨hlog, -⟩ | ⟨hlog, -⟩ <;> simpa [hlog] using hm
  | stop t hw hl =>
    obtain ⟨-, ha, hlog⟩ := stop_log (I := I) w.shared
    rw [← hw] at ha hlog
    refine ⟨held, by rw [ha]; exact h.nodup, fun t' e v r hf => ?_, fun e v hm => ?_⟩
    · rcases hl t' e v r hf with hf | ⟨-, rfl, hv⟩
      exacts [h.loops t' e v r hf, ⟨h.nodup, hv⟩]
    · rcases hlog with hlog | ⟨-, hlog⟩
      · exact h.stopped e v (by simpa [hlog] using hm)
      · simp only [hlog, List.mem_append, List.mem_cons, ServerEvent.stopped.injEq, reduceCtorEq,
          false_or, List.not_mem_nil, or_false] at hm
        rcases hm with hm | ⟨rfl, rfl⟩
        · exact h.stopped e v hm
        · exact ⟨List.nodup_nil, (I.perm []).symm.nil_eq⟩
  | handOver t i hr hw hl =>
    obtain ⟨⟨es, hlog, hes⟩, -, ha⟩ := handOver_log i w.shared
    rw [← hw] at hlog ha
    have hnodup := (insert_spec i w.shared).2.2.2 h.nodup
    refine ⟨held, by rw [ha]; exact hnodup, h.loopsOf hl, fun e v hm => ?_⟩
    rw [hlog] at hm
    rcases List.mem_append.1 hm with hm | hm
    · rcases List.mem_append.1 hm with hm | hm
      exacts [h.stopped e v hm, (hes _ hm).elim]
    · split_ifs at hm <;> simp at hm
  | stopped t e v hf hw hl =>
    refine ⟨held, by rw [hw]; exact h.nodup, h.loopsOf hl, fun e' v' hm => ?_⟩
    rw [hw] at hm
    rcases List.mem_append.1 hm with hm | hm
    · exact h.stopped e' v' hm
    · cases List.mem_singleton.1 hm
      simpa using h.loops t e v [] hf

end Shaped

variable {ok : World → Label → Prop}

theorem ReachableBy.shaped (h : ReachableBy I ok w) : Shaped I w := by
  obtain ⟨config, hr⟩ := h
  exact hr.inv (.idle config) fun _ _ _ h _ hs => h.step hs

theorem ReachableBy.mono {ok' : World → Label → Prop} (h : ReachableBy I ok w)
    (hok : ∀ w l, ok w l → ok' w l) : ReachableBy I ok' w := by
  obtain ⟨config, hr⟩ := h
  exact ⟨config, hr.mono fun w l h => ⟨h.1, hok w l h.2⟩⟩

theorem ReachableBy.reachable (h : ReachableBy I ok w) : Reachable I w :=
  h.mono fun _ _ _ => trivial

end TransitSession.WebSocket.Server
