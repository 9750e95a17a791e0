/-
  The sessions of a server are sessions.

  `WebSocketServerSession` is modelled twice: as a sequential class among the others
  (Sessions), and as closures on strands of their own over a pool of threads (Server).
  `sessionStrand` relates the two: of any run of the server, on any number of threads,
  the steps of one session are a run of the class, which starts in what `create`
  returned (`sessions_refine`).  So every session that a server accepted has what
  holds of the class, in every state of every run of the server.
-/
import TransitSession.Delivery
import TransitSession.Guarantees
import TransitSession.Lib.Sequential
import TransitSession.WebSocket.ActiveSessions

namespace TransitSession.WebSocket.Server

variable {I : Iteration} {i : ℕ} {w : World} {ok : World → Label → Prop}

/-! ## The strand of a session -/

/-- The closures of session `i`. -/
def closureOf (i : ℕ) : Closure →
    Option (Call (List UInt8) WebSocketServerSession.DerivedCall ⊕
      Completion WebSocketServerSession.Handshake)
  | .call j x => if j = i then some (.inl x) else none
  | .event j e => if j = i then some (.inr e) else none
  | _ => none

/-- What is left of them. -/
def frameOf (i : ℕ) : ServerRest → Option (Frame ServerFrame)
  | .session j f => if j = i then some f else none
  | _ => none

theorem closureOf_call {q : Closure} {x} (h : closureOf i q = some (.inl x)) : q = .call i x := by
  cases q with
  | call j y =>
    simp only [closureOf, Option.ite_none_right_eq_some, Option.some.injEq, Sum.inl.injEq] at h
    rw [h.1, h.2]
  | event j y => simp [closureOf] at h
  | _ => cases h

theorem closureOf_event {q : Closure} {e} (h : closureOf i q = some (.inr e)) :
    q = .event i e := by
  cases q with
  | event j y =>
    simp only [closureOf, Option.ite_none_right_eq_some, Option.some.injEq, Sum.inr.injEq] at h
    rw [h.1, h.2]
  | call j y => simp [closureOf] at h
  | _ => cases h

theorem frameOf_some {f : ServerRest} {g : Frame ServerFrame} (h : frameOf i f = some g) :
    f = .session i g := by
  cases f with
  | session j f =>
    simp only [frameOf, Option.ite_none_right_eq_some, Option.some.injEq] at h
    rw [h.1, h.2]
  | _ => cases h

/-- A session goes on with the frame that its closure left. -/
theorem sessionTail_frameOf (o : Option (Frame ServerFrame)) :
    (sessionTail i o).frame?.bind (frameOf i) = o := by
  cases o with
  | none => rfl
  | some f =>
    unfold sessionTail
    dsimp only
    split <;> simp [Executor.Tail.frame?, frameOf]

theorem onSession_spec {s : Server} {X : WebSocketServerSession} {p : Part}
    (hX : s.sessions[i]? = some X) :
    (s.onSession i p.run).1.sessions[i]? = some (p.run X).1 ∧
      (s.onSession i p.run).2.frame?.bind (frameOf i) = (p.run X).2 := by
  constructor
  · rw [onSession_get hX, if_pos rfl]
  · rw [onSession_tail hX, sessionTail_frameOf]

theorem onSession_absent {s : Server} {p : Part} {j : ℕ} (h : s.sessions[i]? = none) :
    (s.onSession j p.run).1.sessions[i]? = none := by
  rw [List.getElem?_eq_none_iff] at h ⊢
  rw [onSession_length]
  exact h

/-- A closure that is not one of session `i` leaves it as it is. -/
theorem run_other {q : Closure} {s : Server} {X : WebSocketServerSession}
    (hq : (machine I).strand q ≠ .session i) (hX : s.sessions[i]? = some X) :
    ((machine I).run q s).1.sessions[i]? = some X := by
  cases hp : q.part? with
  | none => exact run_get hp hX
  | some jp =>
    obtain ⟨j, p⟩ := jp
    have hij : j ≠ i := by
      rintro rfl
      refine hq ?_
      cases q with
      | call | event =>
        cases hp
        rfl
      | _ => cases hp
    rw [run_part hp, onSession_get hX, if_neg hij]

theorem resume_other {f : ServerRest} {s : Server} {X : WebSocketServerSession}
    (hf : (machine I).home f ≠ .session i) (hX : s.sessions[i]? = some X) :
    ((machine I).resume f s).1.sessions[i]? = some X := by
  cases hp : f.part? with
  | none => rw [resume_sessions hp, hX]
  | some jp =>
    obtain ⟨j, p⟩ := jp
    have hij : j ≠ i := by
      rintro rfl
      refine hf ?_
      cases f with
      | session =>
        cases hp
        rfl
      | _ => cases hp
    rw [resume_part hp, onSession_get hX, if_neg hij]

/-- Only the completion handler of an accept adds a session. -/
theorem run_adds {q : Closure} {s : Server} {X : WebSocketServerSession}
    (hn : s.sessions[i]? = none) (hX : ((machine I).run q s).1.sessions[i]? = some X) :
    (machine I).strand q ≠ .session i ∧ ∃ config, X = WebSocketServerSession.create config := by
  cases hp : q.part? with
  | some jp =>
    obtain ⟨j, p⟩ := jp
    rw [run_part hp, onSession_absent hn] at hX
    cases hX
  | none =>
    by_cases ha : Accepts q s
    · refine ⟨?_, s.config, ?_⟩
      · obtain ⟨nd, rfl, -⟩ := ha
        nofun
      · rw [onAccept_sessions ha, List.getElem?_append_right (List.getElem?_eq_none_iff.1 hn)] at hX
        exact (List.mem_singleton.1 (List.mem_of_getElem? hX))
    · rw [run_sessions hp ha, hn] at hX
      cases hX

theorem resume_adds {f : ServerRest} {s : Server} (hn : s.sessions[i]? = none) :
    ((machine I).resume f s).1.sessions[i]? = none := by
  cases hp : f.part? with
  | none => rw [resume_sessions hp, hn]
  | some jp => rw [resume_part hp, onSession_absent hn]

/-- **The strand of a session runs the closures of the class.** -/
def sessionStrand (I : Iteration) (i : ℕ) :
    Executor.Sequential (machine I) (.session i) WebSocketServerSession.cls.program where
  get s := s.sessions[i]?
  closure? := closureOf i
  frame? := frameOf i
  Init X := ∃ config, X = WebSocketServerSession.create config
  closure_strand {q c} h := by
    cases c with
    | inl x => rw [closureOf_call h]; rfl
    | inr e => rw [closureOf_event h]; rfl
  frame_home h := by rw [frameOf_some h]; rfl
  strand_closure {q} h := by
    cases q with
    | call j x =>
      cases h
      exact ⟨_, if_pos rfl⟩
    | event j e =>
      cases h
      exact ⟨_, if_pos rfl⟩
    | _ => cases h
  home_frame {f} h := by
    cases f with
    | session j f =>
      cases h
      exact ⟨_, if_pos rfl⟩
    | _ => cases h
  run_none {q u} hq hu := by
    cases q with
    | call j x =>
      cases hq
      rw [run_part rfl, onSession_none hu]
      rfl
    | event j e =>
      cases hq
      rw [run_part rfl, onSession_none hu]
      rfl
    | _ => cases hq
  run_call {q x u X} hq hX := by
    rw [closureOf_call hq, run_part rfl]
    exact onSession_spec hX
  run_event {q e u X} hq hX := by
    rw [closureOf_event hq, run_part rfl]
    exact onSession_spec hX
  resume {f g u X} hf hX := by
    rw [frameOf_some hf, resume_part rfl]
    exact onSession_spec hX
  run_other := run_other
  resume_other := resume_other
  complete {e u r} h := by
    obtain ⟨s, q⟩ := r
    obtain ⟨n, rfl⟩ := complete_server h
    rfl
  run_created := run_adds
  resume_created := resume_adds
  event_called h := by rw [closureOf_event h]; rfl
  event_run h hd := by
    rw [closureOf_event h] at hd
    cases run_dispatches hd
  event_resume h hd := by
    rw [closureOf_event h] at hd
    cases resume_dispatches hd

/-! ## Runs of the server, session by session -/

/-- The user code of session `i` that is running, innermost first. -/
abbrev sessionStack (I : Iteration) (i : ℕ) (w : World) : List (Frame ServerFrame) :=
  (sessionStrand I i).stack w

/-- **A session of a server runs like a session of its own.**  The steps of session
    `i` in a run of the server are a run of its class. -/
theorem sessions_refine {config : ServerConfig} {es : List (World × Label)}
    {X : WebSocketServerSession}
    (h : Transition.Trace (machine I).step (Executor.World.idle { config := config }) es w)
    (hX : w.shared.sessions[i]? = some X) :
    ∃ c, WebSocketServerSession.cls.program.exec ⟨WebSocketServerSession.create c, []⟩
      ((sessionStrand I i).labels es) = some ⟨X, sessionStack I i w⟩ := by
  obtain ⟨-, -, -, hthere⟩ := (Executor.Sequential.trace_exec (X := sessionStrand I i)
    machine_lawful rfl h)
  obtain ⟨x₀, ⟨c, rfl⟩, he⟩ := hthere X hX
  exact ⟨c, he⟩

/-- A connection whose handshake has completed: the server has set the close handler
    and started the session, the handshake completed, and its handler returned. -/
theorem sessions_refine_connection : ∃ es w X c,
    ((sessionStrand inOrder 0).labels es).length = 4 ∧ w.shared.sessions[0]? = some X ∧
    WebSocketServerSession.cls.program.exec ⟨WebSocketServerSession.create c, []⟩
      ((sessionStrand inOrder 0).labels es) = some ⟨X, sessionStack inOrder 0 w⟩ := by
  obtain ⟨w, hr, hp, -⟩ := exec_history (connect ++ handshake)
    (fun w => (w.shared.sessions[0]?).isSome) (by decide +kernel) (by decide +kernel)
  obtain ⟨X, hX⟩ := Option.isSome_iff_exists.1 hp
  obtain ⟨c, hc⟩ := sessions_refine hr hX
  exact ⟨_, w, X, c, by decide +kernel, hX, hc⟩

/-- What holds in the runs of the class holds of every session of a server. -/
theorem session_reachableBy {ok' : World → Label → Prop}
    {ok : Kind.webSocketServer.Config → Kind.webSocketServer.Label → Prop}
    (hok : ∀ w l c a, ok' w l → (sessionStrand I i).Follows w c →
      (sessionStrand I i).label w l = some a → ok c a)
    (h : RunsTo I ok' w) {X : WebSocketServerSession} (hX : w.shared.sessions[i]? = some X) :
    Kind.webSocketServer.ReachableBy ok ⟨X, sessionStack I i w⟩ := by
  obtain ⟨config, hr⟩ := h
  obtain ⟨x₀, hx₀, hrun⟩ := (sessionStrand I i).run_program machine_lawful rfl hok hr hX
  exact ⟨x₀, hx₀, hrun⟩

/-- What is left of the closures of a session is on the thread that holds its strand. -/
theorem sessionStack_held (h : Executor.Held (machine I) w) {t : ℕ} {f : Frame ServerFrame}
    (hf : w.HasFrame t (.session i f)) :
    w.holder (.session i) = some t ∧ f ∈ sessionStack I i w := by
  obtain ⟨it, hit, hf⟩ := hf
  refine ⟨h.frame hit hf, List.mem_filterMap.2 ⟨.session i f, ?_, if_pos rfl⟩⟩
  exact List.mem_filterMap.2 ⟨it, h.stack_items hit hf, hf⟩

/-! ## What every session of a server has -/

theorem session_reaches (h : RunsTo I ok w) {X : WebSocketServerSession}
    (hX : w.shared.sessions[i]? = some X) :
    Kind.webSocketServer.ReachableBy (fun _ l => Kind.webSocketServer.OnStrand l)
      ⟨X, sessionStack I i w⟩ :=
  session_reachableBy (fun _ _ _ _ _ _ _ => trivial) h hX

/-- A session whose strand nobody holds has nothing to start. -/
theorem session_quiet (h : RunsTo I ok w) {X : WebSocketServerSession}
    (hX : w.shared.sessions[i]? = some X) (hidle : w.holder (.session i) = none) :
    WebSocketServerSession.canStartWrite X = false ∧
      WebSocketServerSession.canStartRead X = false := by
  obtain ⟨s, hs, hr⟩ := session_reaches h hX
  exact SessionClass.idle_quiet Kind.webSocketServer.lawful Kind.webSocketServer.keepsQuiet
    hs.fresh hr (Executor.Sequential.stack_idle h.held hidle)

/-- **The sessions of a server on a pool of threads.**  Whatever the threads do, each
    session writes first in, first out, has at most one operation of each kind
    outstanding, is closed once and for good, is in its read handler once at most, on the
    thread that holds its strand, and has nothing to start when no thread holds it. -/
theorem pooled_sessions (h : RunsTo I (fun _ _ => True) w) {X : WebSocketServerSession}
    (hX : w.shared.sessions[i]? = some X) :
    Fifo X ∧ Mirrored X ∧ ClosedOk X ∧
    (sessionStack I i w).countP Frame.ofReadHandler ≤ 1 ∧
    (∀ t f, w.HasFrame t (.session i f) →
      w.holder (.session i) = some t ∧ f ∈ sessionStack I i w) ∧
    (w.holder (.session i) = none →
      WebSocketServerSession.canStartWrite X = false ∧
        WebSocketServerSession.canStartRead X = false) := by
  have hreach := session_reaches h hX
  obtain ⟨s, hs, hr⟩ := id hreach
  exact ⟨hreach.kept.fifo, hreach.kept.mirrored, hreach.kept.closedOk,
    SessionClass.run_readHandler Kind.webSocketServer.lawful hr,
    fun t f => sessionStack_held h.held, session_quiet h hX⟩

/-- The user starts reading on a session that was handed over. -/
def read : List Label :=
  [.post (.call 0 (.setReadHandler (some 1))), .take 0 (.session 0), .step 0,
    .post (.call 0 .startReading), .take 0 (.session 0), .step 0]

/-- A message arrives, and the read handler returns. -/
def receive (message : List UInt8) : List Label :=
  [.complete (.session 0 (.read 0 none message)), .take 0 (.session 0), .ret 0, .step 0]

theorem pooled_sessions_reading : ∃ (w : World) (X : WebSocketServerSession),
    w.shared.sessions[0]? = some X ∧ X.readInProgress = true ∧ Fifo X ∧
      WebSocketServerSession.canStartRead X = false := by
  obtain ⟨w, hw, hp⟩ := (Option.any_eq_true _ _).1 (show (Transition.exec
    (machine inOrder).step (Executor.World.idle {}) (connect ++ handshake ++ read)).any
      (fun w => (w.holder (.session 0)).isNone &&
        (w.shared.sessions[0]?).any fun X => X.readInProgress) = true by decide +kernel)
  simp only [Bool.and_eq_true, Option.isNone_iff_eq_none, Option.any_eq_true] at hp
  obtain ⟨hidle, X, hX, hread⟩ := hp
  obtain ⟨hfifo, -, -, -, -, hquiet⟩ := pooled_sessions ⟨{}, Transition.exec_run hw⟩ hX
  exact ⟨w, X, hX, hread, hfifo, (hquiet hidle).2⟩

/-- A read of session `i` completes only while the session has a read handler. -/
def hasReader (I : Iteration) (i : ℕ) (w : World) (l : Label) : Bool :=
  match (machine I).ran w l with
  | some (.event j (.read ..)) =>
    j != i || (w.shared.sessions[i]?).all fun X => X.readHandler.isSome
  | _ => true

/-- **Nothing is lost or duplicated on the pool.**  A session of a server that has a read
    handler whenever a read completes gives it what its connection received. -/
theorem pooled_reads (h : RunsTo I (fun w l => hasReader I i w l = true) w)
    {X : WebSocketServerSession} (hX : w.shared.sessions[i]? = some X) :
    X.delivered = X.received := by
  have hreach : Kind.webSocketServer.ReachableBy Kind.webSocketServer.Receiving
      ⟨X, sessionStack I i w⟩ := by
    refine session_reachableBy (fun w l c a hl hc ha => ?_) h hX
    cases a with
    | call x => cases x <;> trivial
    | ret => trivial
    | event e =>
      cases e with
      | read k ec data =>
        obtain ⟨q, hq, he⟩ := Executor.Sequential.label_event _ ha
        rw [closureOf_event he] at hq
        have hX : w.shared.sessions[i]? = some c.state := hc.1
        simp only [hasReader, hq, hX, bne_self_eq_false, Bool.false_or, Option.all_some] at hl
        exact Option.isSome_iff_ne_none.1 hl
      | write | derived => trivial
  obtain ⟨s, hs, hr⟩ := hreach
  have := SessionClass.run_delivers Kind.webSocketServer.lawful Kind.webSocketServer.receives
    hs.fresh hr fun _ _ _ _ h => h
  rw [Delivers, show Kind.webSocketServer.payload = some from rfl, List.filterMap_some] at this
  exact this

theorem pooled_reads_two : ∃ (w : World) (X : WebSocketServerSession),
    w.shared.sessions[0]? = some X ∧ X.received = [[1, 2], [3]] ∧ X.delivered = X.received := by
  obtain ⟨w, hw, hp⟩ := (Option.any_eq_true _ _).1 (show (Transition.exec
    (Transition.guarded (hasReader inOrder 0) (machine inOrder).step) (Executor.World.idle {})
    (connect ++ handshake ++ read ++ receive [1, 2] ++ receive [3])).any
      (fun w => (w.shared.sessions[0]?).any fun X => X.received = [[1, 2], [3]]) = true by
        decide +kernel)
  obtain ⟨X, hX, hr⟩ := (Option.any_eq_true _ _).1 hp
  exact ⟨w, X, hX, by simpa using hr,
    pooled_reads ⟨{}, (Transition.exec_run hw).of_guarded⟩ hX⟩

end TransitSession.WebSocket.Server
