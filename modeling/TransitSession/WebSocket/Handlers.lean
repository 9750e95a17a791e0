/-
  The slots of stored handlers in the runs of a server.

  The slots of the sessions and `session_handler_` are written on the strands
  that call the stored functions.  `Overwrites` are the steps that replace a
  function object while it runs: user code on the strand calls a setter, which
  runs inline.
-/
import TransitSession.Handlers
import TransitSession.WebSocket.SessionSteps

namespace TransitSession.WebSocket.Server

/-- The frames of calls of `session_handler_`. -/
def CallsSessionHandler : ServerRest → Prop
  | .acceptFailed _ | .handOverEnd => True
  | _ => False

/-- The slot of `session_handler_` holds the same function object in both states. -/
def SameSessionHandler (s s' : Server) : Prop :=
  s'.sessionHandler = s.sessionHandler ∧ s'.sessionHandlerVersion = s.sessionHandlerVersion

/-- What a frame is a call of is in its slot; those of `session_handler_` do not name
    the handler. -/
def InSlot (s : Server) : ServerRest → Prop
  | .session i f => ∃ X, s.sessions[i]? = some X ∧ Kind.webSocketServer.InSlot X f
  | .acceptFailed _ | .handOverEnd => s.sessionHandler.isSome = true
  | _ => True

/-- The slot that a frame was called through holds the same function object in both
    states. -/
def SameSlot (s s' : Server) : ServerRest → Prop
  | .session i f => ∃ X X', s.sessions[i]? = some X ∧ s'.sessions[i]? = some X' ∧
      Kind.webSocketServer.SameSlot X X' f
  | .acceptFailed _ | .handOverEnd => SameSessionHandler s s'
  | _ => True

/-- What was called through a slot is still in it. -/
def SlotsHeld (w : World) : Prop := ∀ t f, w.HasFrame t f → InSlot w.shared f

/-- The closure assigns the slot that the frame was called through. -/
def Replaces : Closure → ServerRest → Prop
  | .setSessionHandler _, f => CallsSessionHandler f
  | .call i x, .session j f => i = j ∧ Kind.webSocketServer.Replaces x f
  | _, _ => False

/-- The step runs a setter that replaces a function object that is running. -/
def Overwrites (I : Iteration) (w : World) (l : Label) : Prop :=
  ∃ q, (machine I).ran w l = some q ∧ ∃ t f, w.HasFrame t f ∧ Replaces q f

/-- The call that `f` goes on from is running on the thread `t`, above the items
    `below`. -/
def InCall (t : ℕ) (f : ServerRest) (below : List Item) (w : World) : Prop :=
  ∃ it : Item, it.frame? = some f ∧ it :: below <:+ w.stack t

variable {I : Iteration} {w w' : World} {l : Label} {s s' s'' : Server} {f : ServerRest}

theorem InCall.hasFrame {t : ℕ} {below : List Item} (h : InCall t f below w) : w.HasFrame t f := by
  obtain ⟨it, hit, hst⟩ := h
  exact ⟨it, hst.subset List.mem_cons_self, hit⟩

/-! ## The session handler -/

namespace SameSessionHandler

theorem refl (s : Server) : SameSessionHandler s s := ⟨rfl, rfl⟩

theorem trans (h : SameSessionHandler s s') (h' : SameSessionHandler s' s'') :
    SameSessionHandler s s'' :=
  ⟨h'.1.trans h.1, h'.2.trans h.2⟩

theorem notifySession (ec : ErrorCode) (session : Option ℕ) (s : Server) (rest : ServerRest)
    {next : Server → Server} (hn : SameSessionHandler s (next s)) :
    SameSessionHandler s (s.notifySession ec session rest next).1 := by
  unfold Server.notifySession
  split_ifs
  exacts [⟨rfl, rfl⟩, hn]

theorem acceptAgain (e : Errc) (s : Server) : SameSessionHandler s (s.acceptAgain e) := by
  unfold Server.acceptAgain
  split_ifs <;> exact ⟨rfl, rfl⟩

theorem stopLoop (entry visited : List ℕ) (s : Server) (rest : List ℕ) :
    SameSessionHandler s (s.stopLoop entry visited rest).1 := by
  cases rest <;> exact ⟨rfl, rfl⟩

theorem insert (i : ℕ) (s : Server) : SameSessionHandler s (s.insert i) := by
  unfold Server.insert
  split_ifs <;> exact ⟨rfl, rfl⟩

theorem onSession (i : ℕ) (p : Part) (s : Server) :
    SameSessionHandler s (s.onSession i p.run).1 := by
  obtain ⟨ss, hs⟩ := onSession_server i p.run s
  rw [hs]
  exact ⟨rfl, rfl⟩

/-- Only `set_session_handler` writes the session handler. -/
theorem run {q : Closure} (hq : ∀ h, q ≠ .setSessionHandler h) (s : Server) :
    SameSessionHandler s ((machine I).run q s).1 := by
  cases q with
  | setSessionHandler h => exact absurd rfl (hq h)
  | start =>
    show SameSessionHandler s s.start
    unfold Server.start
    split_ifs <;> exact ⟨rfl, rfl⟩
  | stop => exact stopLoop _ _ _ _
  | accepted ec nd =>
    show SameSessionHandler s (s.onAccept ec nd).1
    unfold onAccept
    split_ifs
    · exact refl s
    · cases ec with
      | some e => exact notifySession _ _ _ _ (acceptAgain e s)
      | none => exact ⟨rfl, rfl⟩
  | erase => exact ⟨rfl, rfl⟩
  | handOver i ec =>
    cases ec with
    | some e => exact notifySession _ _ _ _ (refl s)
    | none => exact (insert i s).trans (notifySession _ _ (s.insert i) _ (refl _))
  | call i x => exact onSession i (.call x) s
  | event i e => exact onSession i (.event e) s

theorem resume (f : ServerRest) (s : Server) :
    SameSessionHandler s ((machine I).resume f s).1 := by
  cases f with
  | stopLoop => exact stopLoop _ _ _ _
  | acceptStart | acceptNext | handOverEnd => exact ⟨rfl, rfl⟩
  | acceptFailed e => exact acceptAgain e s
  | session i f => exact onSession i (.resume f) s

/-- An assignment stores another object, of whatever handler. -/
theorem not_set (h : Option Handler) (s : Server) :
    ¬ SameSessionHandler s (s.setSessionHandler h) :=
  fun h => Nat.succ_ne_self _ h.2

end SameSessionHandler

/-! ## Slots -/

namespace SameSlot

theorem trans (h : SameSlot s s' f) (h' : SameSlot s' s'' f) : SameSlot s s'' f := by
  cases f with
  | session i f =>
    obtain ⟨X, X', hX, hX', hs⟩ := h
    obtain ⟨Y, X'', hY, hX'', hs'⟩ := h'
    rw [hX'] at hY
    cases hY
    exact ⟨X, X'', hX, hX'', hs.trans hs'⟩
  | acceptFailed | handOverEnd => exact SameSessionHandler.trans h h'
  | stopLoop | acceptStart | acceptNext => trivial

theorem inSlot (h : SameSlot s s' f) (hin : InSlot s f) : InSlot s' f := by
  cases f with
  | session i f =>
    obtain ⟨X, X', hX, hX', hs⟩ := h
    obtain ⟨Y, hY, hin⟩ := hin
    rw [hX] at hY
    cases hY
    exact ⟨X', hX', hs.inSlot hin⟩
  | acceptFailed | handOverEnd =>
    show s'.sessionHandler.isSome = true
    rw [h.1]
    exact hin
  | stopLoop | acceptStart | acceptNext => trivial

/-- The sessions and the session handler are as before. -/
theorem of_same (hin : InSlot s f) (hh : SameSessionHandler s s')
    (hs : ∀ (i : ℕ) (X : WebSocketServerSession), s.sessions[i]? = some X →
      s'.sessions[i]? = some X) : SameSlot s s' f := by
  cases f with
  | session i f =>
    obtain ⟨X, hX, -⟩ := hin
    exact ⟨X, X, hX, hs i X hX, Kind.SameSlot.refl (k := .webSocketServer) X f⟩
  | acceptFailed | handOverEnd => exact hh
  | stopLoop | acceptStart | acceptNext => trivial

/-- A part of a closure of session `i` ran. -/
theorem part (hin : InSlot s f) (i : ℕ) (p : Part)
    (hp : ∀ X g, f = .session i g → Kind.webSocketServer.SameSlot X (p.run X).1 g) :
    SameSlot s (s.onSession i p.run).1 f := by
  cases f with
  | session j g =>
    obtain ⟨X, hX, -⟩ := hin
    refine ⟨X, _, hX, onSession_get hX, ?_⟩
    split_ifs with hij
    · exact hp X g (by rw [hij])
    · exact Kind.SameSlot.refl (k := .webSocketServer) X g
  | acceptFailed | handOverEnd => exact .onSession i p s
  | stopLoop | acceptStart | acceptNext => trivial

end SameSlot

theorem part_event (e : Completion WebSocketServerSession.Handshake) (X : WebSocketServerSession) :
    WebSocketServerSession.cls.event e X = some ((Part.event e).run X) ∨
      (Part.event e).run X = (X, none) := by
  show _ = some (Option.getD _ _) ∨ Option.getD _ _ = _
  cases WebSocketServerSession.cls.event e X with
  | none => exact Or.inr rfl
  | some r => exact Or.inl rfl

/-- **A closure leaves a function object in its slot iff it does not assign the slot.** -/
theorem run_sameSlot (q : Closure) (hin : InSlot s f) :
    SameSlot s ((machine I).run q s).1 f ↔ ¬ Replaces q f := by
  cases q with
  | setSessionHandler h =>
    cases f with
    | acceptFailed | handOverEnd =>
      exact iff_of_false (SameSessionHandler.not_set h s) (not_not.2 trivial)
    | session i g =>
      obtain ⟨X, hX, -⟩ := hin
      exact iff_of_true ⟨X, X, hX, hX, Kind.SameSlot.refl (k := .webSocketServer) X g⟩ id
    | stopLoop | acceptStart | acceptNext => exact iff_of_true trivial id
  | call i x =>
    constructor
    · intro h hrep
      cases f with
      | session j g =>
        obtain ⟨rfl, hrep⟩ := hrep
        obtain ⟨X, X', hX, hX', hsame⟩ := h
        have hget := onSession_get (i := i) (p := .call x) hX
        rw [if_pos rfl] at hget
        obtain rfl := Option.some.inj (hX'.symm.trans hget)
        exact (Kind.call_sameSlot (k := .webSocketServer) x X g).1 hsame hrep
      | acceptFailed | handOverEnd | stopLoop | acceptStart | acceptNext => exact hrep
    · intro hno
      refine .part hin i (.call x) fun X g hf => ?_
      refine (Kind.call_sameSlot (k := .webSocketServer) x X g).2 fun hrep => hno ?_
      rw [hf]
      exact ⟨rfl, hrep⟩
  | event i e =>
    refine iff_of_true (.part hin i (.event e) fun X g _ => ?_) id
    rcases part_event e X with he | he
    · exact Kind.event_sameSlot (k := .webSocketServer) he
    · rw [he]
      exact Kind.SameSlot.refl (k := .webSocketServer) X g
  | start | stop | accepted | erase | handOver =>
    refine iff_of_true (.of_same hin (.run (by rintro h ⟨⟩) s) fun i X hX => ?_) id
    exact run_get rfl hX

theorem resume_sameSlot (g : ServerRest) (hin : InSlot s f) :
    SameSlot s ((machine I).resume g s).1 f := by
  cases g with
  | session i g =>
    exact .part hin i (.resume g) fun X _ _ => Kind.resume_sameSlot (k := .webSocketServer) g X
  | stopLoop | acceptStart | acceptNext | acceptFailed | handOverEnd =>
    refine .of_same hin (.resume _ s) fun i X hX => ?_
    rw [resume_sessions rfl]
    exact hX

/-! ## New frames -/

theorem notifySession_inSlot {ec : ErrorCode} {session : Option ℕ} {rest : ServerRest}
    {next : Server → Server} (hrest : CallsSessionHandler rest)
    (h : (s.notifySession ec session rest next).2.frame? = some f) :
    InSlot (s.notifySession ec session rest next).1 f := by
  unfold notifySession at h ⊢
  split_ifs at h ⊢ with hs
  · cases h
    cases f with
    | acceptFailed | handOverEnd => exact hs
    | session | stopLoop | acceptStart | acceptNext => exact hrest.elim
  · cases h

theorem stopLoop_inSlot {entry visited rest : List ℕ}
    (h : (s.stopLoop entry visited rest).2.frame? = some f) :
    InSlot (s.stopLoop entry visited rest).1 f := by
  cases rest <;> cases h
  trivial

theorem onSession_inSlot {i : ℕ} {p : Part} (hp : ∀ X, Kind.webSocketServer.CallsSlot (p.run X))
    (h : (s.onSession i p.run).2.frame? = some f) : InSlot (s.onSession i p.run).1 f := by
  obtain ⟨X, g, hX, hg, rfl⟩ := onSession_rest h
  refine ⟨_, onSession_get hX, ?_⟩
  rw [if_pos rfl]
  exact hp X g hg

/-- What a closure calls is in its slot. -/
theorem run_inSlot {q : Closure} (h : ((machine I).run q s).2.frame? = some f) :
    InSlot ((machine I).run q s).1 f := by
  cases q with
  | setSessionHandler | start | erase => cases h
  | stop => exact stopLoop_inSlot h
  | accepted ec nd =>
    replace h : (s.onAccept ec nd).2.frame? = some f := h
    show InSlot (s.onAccept ec nd).1 f
    unfold onAccept at h ⊢
    split_ifs at h ⊢
    · cases h
    · cases ec with
      | some e => exact notifySession_inSlot trivial h
      | none =>
        cases h
        trivial
  | handOver i ec => exact notifySession_inSlot trivial h
  | call i x =>
    exact onSession_inSlot (p := .call x)
      (fun X => Kind.call_callsSlot (k := .webSocketServer) x X) h
  | event i e =>
    refine onSession_inSlot (p := .event e) (fun X => ?_) h
    rcases part_event e X with he | he
    · exact Kind.event_callsSlot (k := .webSocketServer) he
    · rw [he]
      rintro f ⟨⟩

theorem resume_inSlot {g : ServerRest} (h : ((machine I).resume g s).2.frame? = some f) :
    InSlot ((machine I).resume g s).1 f := by
  cases g with
  | stopLoop => exact stopLoop_inSlot h
  | acceptStart =>
    cases h
    trivial
  | acceptNext | acceptFailed | handOverEnd => cases h
  | session i g =>
    exact onSession_inSlot (p := .resume g)
      (fun X => Kind.resume_callsSlot (k := .webSocketServer) g X) h

/-! ## Runs -/

/-- **A step leaves every function object that is running in its slot iff it does not
    run a setter of one of these slots.** -/
theorem step_sameSlot (held : Executor.Held (machine I) w) (h : SlotsHeld w)
    (hs : (machine I).step w l = some w') :
    (∀ t f, w.HasFrame t f → SameSlot w.shared w'.shared f) ↔ ¬ Overwrites I w l := by
  constructor
  · rintro hsame ⟨q, hq, t, f, hf, hrep⟩
    have hslot := hsame t f hf
    rw [Executor.Machine.ran_shared hq hs] at hslot
    exact (run_sameSlot q (h t f hf)).1 hslot hrep
  · intro hok t f hf
    have hin := h t f hf
    cases Executor.Machine.step_effect held hs with
    | stay hw =>
      rw [hw]
      exact .of_same hin (.refl _) fun _ _ hX => hX
    | complete e q he =>
      obtain ⟨n, hn⟩ := complete_server he
      rw [hn]
      exact .of_same hin ⟨rfl, rfl⟩ fun _ _ hX => hX
    | run t' q hr hx =>
      rw [hx.shared]
      exact (run_sameSlot q hin).2 fun hrep => hok ⟨q, hr.ran, t, f, hf, hrep⟩
    | resume t' g hg hx =>
      rw [hx.shared]
      exact resume_sameSlot g hin

theorem SlotsHeld.idle (config : ServerConfig) :
    SlotsHeld (Executor.World.idle { config := config }) := by
  rintro t f ⟨it, ⟨⟩, -⟩

theorem SlotsHeld.step (held : Executor.Held (machine I) w) (h : SlotsHeld w)
    (hok : ¬ Overwrites I w l) (hs : (machine I).step w l = some w') : SlotsHeld w' := by
  have hsame := (step_sameSlot held h hs).2 hok
  have hold {t : ℕ} {f : ServerRest} (hf : w.HasFrame t f) : InSlot w'.shared f :=
    (hsame t f hf).inSlot (h t f hf)
  intro t f hf
  cases Executor.Machine.step_effect held hs with
  | stay hw hframes => exact hold (hframes t f hf)
  | complete e q he hframes => exact hold (hframes t f hf)
  | run t' q hr hx =>
    rcases hx.frames t f hf with hf | ⟨-, hf⟩
    · exact hold hf
    · rw [hx.shared]
      exact run_inSlot hf
  | resume t' g hg hx =>
    rcases hx.frames t f hf with hf | ⟨-, hf⟩
    · exact hold hf
    · rw [hx.shared]
      exact resume_inSlot hf

/-- **As long as no setter assigns the slot of a function object that is running,
    every one of them is in its slot.** -/
theorem RunsTo.slotsHeld (h : RunsTo I (fun w l => ¬ Overwrites I w l) w) : SlotsHeld w := by
  obtain ⟨config, hr⟩ := h
  refine (hr.inv (I := fun w => Executor.Held (machine I) w ∧ SlotsHeld w)
    ⟨.idle _, .idle config⟩ fun w₁ l w₂ h hok hs => ?_).2
  exact ⟨h.1.step machine_lawful hs, h.2.step h.1 hok hs⟩

/-- **The slot holds the same function object until the call returns.** -/
theorem SlotsHeld.run_sameSlot (held : Executor.Held (machine I) w) (h : SlotsHeld w) {t : ℕ}
    {below : List Item} (hc : InCall t f below w)
    (hr : Transition.Run (machine I).step
      (fun w l => ¬ Overwrites I w l ∧ InCall t f below w) w w') :
    SameSlot w.shared w'.shared f := by
  refine (hr.inv (I := fun w' => Executor.Held (machine I) w' ∧ SlotsHeld w' ∧
    SameSlot w.shared w'.shared f)
    ⟨held, h, .of_same (h t f hc.hasFrame) (.refl _) fun _ _ hX => hX⟩
    fun w₁ l w₂ h₁ hok hs => ?_).2.2
  obtain ⟨hheld, hslots, hsame⟩ := h₁
  have hstep := (step_sameSlot hheld hslots hs).2 hok.1
  exact ⟨hheld.step machine_lawful hs, hslots.step hheld hok.1 hs,
    hsame.trans (hstep t f hok.2.hasFrame)⟩

/-- The closure assigns a slot. -/
def setsSlot : Closure → Bool
  | .setSessionHandler _ | .call _ (.setReadHandler _) => true
  | .call _ (.derived (.setCloseHandler _)) => true
  | _ => false

theorem replaces_home {q : Closure} (h : Replaces q f) :
    (machine I).home f = (machine I).strand q := by
  cases q with
  | setSessionHandler =>
    cases f with
    | acceptFailed | handOverEnd => rfl
    | session | stopLoop | acceptStart | acceptNext => exact h.elim
  | call i x =>
    cases f with
    | session j g => exact congrArg StrandId.session h.1.symm
    | stopLoop | acceptStart | acceptNext | acceptFailed | handOverEnd => exact h.elim
  | start | stop | accepted | erase | handOver | event => exact h.elim

theorem replaces_setsSlot {q : Closure} (h : Replaces q f) : setsSlot q = true := by
  cases q with
  | setSessionHandler => rfl
  | call i x =>
    cases f with
    | session j g =>
      obtain ⟨-, h⟩ := h
      cases x with
      | setReadHandler => rfl
      | derived x =>
        cases x with
        | setCloseHandler => rfl
        | start => cases g <;> exact h.elim
      | startReading | stopReading | send | close => cases g <;> exact h.elim
    | stopLoop | acceptStart | acceptNext | acceptFailed | handOverEnd => exact h.elim
  | start | stop | accepted | erase | handOver | event => exact h.elim

/-- A setter that is a closure of its own replaces nothing that is running: the strand
    that it takes has no frames. -/
theorem take_not_overwrites (held : Executor.Held (machine I) w) (t : ℕ) (s : StrandId) :
    ¬ Overwrites I w (.take t s) := by
  rintro ⟨q, hq, t', f, ⟨it, hit, hf⟩, hrep⟩
  simp only [Executor.Machine.ran] at hq
  split at hq
  · next hst hh hqueue =>
    cases hq
    have hstrand := held.queued s q (by rw [hqueue]; exact List.mem_cons_self)
    have hholder := held.frame hit hf
    rw [replaces_home hrep, hstrand, hh] at hholder
    cases hholder
  · cases hq

/-- The step assigns no slot, or it is a closure of its own. -/
def leavesSlots (w : World) : Label → Bool
  | .take _ _ => true
  | l => !((machine inOrder).ran w l).any setsSlot

theorem leavesSlots_ok (held : Executor.Held (machine inOrder) w) (h : leavesSlots w l = true) :
    ¬ Overwrites inOrder w l := by
  unfold leavesSlots at h
  split at h
  · exact take_not_overwrites held _ _
  · rintro ⟨q, hq, t, f, -, hrep⟩
    simp [hq, replaces_setsSlot hrep] at h

theorem leavesSlots_run (h : Transition.Run (machine inOrder).step
    (fun w l => leavesSlots w l = true) (Executor.World.idle {}) w) :
    RunsTo inOrder (fun w l => ¬ Overwrites inOrder w l) w := by
  refine ⟨{}, (h.inv (I := fun w => Executor.Held (machine inOrder) w ∧
    Transition.Run (machine inOrder).step (fun w l => ¬ Overwrites inOrder w l)
      (Executor.World.idle {}) w) ⟨.idle _, .refl⟩ fun w₁ l w₂ h hok hs => ?_).2⟩
  exact ⟨h.1.step machine_lawful hs, h.2.step (leavesSlots_ok h.1 hok) hs⟩

/-- The session handler is told on thread 0 that an accept failed, and stops the
    server. -/
def stopsInHandler (w : World) : Bool :=
  match w.stack 0 with
  | [.user (.acceptFailed .invalidArgument), .release .server] =>
    ((machine inOrder).step w (.call 0 .stop)).any fun w' => !w'.shared.started
  | _ => false

theorem stopsInHandler_of (h : stopsInHandler w = true) :
    InCall 0 (.acceptFailed .invalidArgument) [.release .server] w ∧
      ∃ w', (machine inOrder).step w (.call 0 .stop) = some w' ∧ w'.shared.started = false := by
  unfold stopsInHandler at h
  split at h
  · next hst =>
    obtain ⟨w', hs, hw'⟩ := (Option.any_eq_true _ _).1 h
    refine ⟨⟨.user (.acceptFailed .invalidArgument), rfl, ?_⟩, w', hs, by simpa using hw'⟩
    rw [hst]
  · cases h

end TransitSession.WebSocket.Server

namespace TransitSession

open WebSocket

/-- **Handlers stay in their slots while they run.**  As long as no setter of a slot
    runs inline in a handler that was called through it, every handler that is running
    is in its slot, and the slot holds the same function object until the call returns;
    and a setter that runs so ends this. -/
theorem running_handlers_kept {k : Kind} {c : k.Config} {I : Iteration} {w : Server.World}
    (hc : k.ReachableBy (fun c l => ¬ k.Overwrites c l) c)
    (hw : Server.RunsTo I (fun w l => ¬ Server.Overwrites I w l) w) :
    (k.SlotsHeld c ∧
      (∀ l c', k.cls.program.step c l = some c' →
        ((∀ f ∈ c.stack, k.SameSlot c.state c'.state f) ↔ ¬ k.Overwrites c l)) ∧
      ∀ f below c', k.Run (fun c l => ¬ k.Overwrites c l ∧ k.InCall f below c) c c' →
        k.SameSlot c.state c'.state f) ∧
    Server.SlotsHeld w ∧
      (∀ l w', (Server.machine I).step w l = some w' →
        ((∀ t f, w.HasFrame t f → Server.SameSlot w.shared w'.shared f) ↔
          ¬ Server.Overwrites I w l)) ∧
      ∀ t f below w', Server.InCall t f below w →
        Transition.Run (Server.machine I).step
          (fun w l => ¬ Server.Overwrites I w l ∧ Server.InCall t f below w) w w' →
        Server.SameSlot w.shared w'.shared f :=
  ⟨⟨Kind.run_slotsHeld hc, fun _ _ => Kind.step_sameSlot, fun _ _ _ => Kind.run_sameSlot⟩,
    hw.slotsHeld, fun _ _ => Server.step_sameSlot hw.held hw.slotsHeld,
    fun _ _ _ _ hin => hw.slotsHeld.run_sameSlot hw.held hin⟩

/-- A read handler that sends, and a session handler that stops the server when an
    accept has failed. -/
theorem running_handlers_kept_reading :
    (∃ c c' : Kind.webSocket.Config, c.stack = [.readValue 0] ∧ Kind.webSocket.SlotsHeld c ∧
      c'.state.writes ≠ [] ∧ Kind.webSocket.SameSlot c.state c'.state (.readValue 0)) ∧
    ∃ w w' : Server.World, w.HasFrame 0 (.acceptFailed .invalidArgument) ∧
      w'.shared.started = false ∧
      Server.SameSlot w.shared w'.shared (.acceptFailed .invalidArgument) := by
  have idle (s) (l : Kind.webSocket.Label) : ¬ Kind.webSocket.Overwrites ⟨s, []⟩ l := by
    intro h
    cases l with
    | call x => obtain ⟨f, hf, -⟩ := h; cases hf
    | event | ret => exact h
  have hc : Kind.webSocket.ReachableBy (fun c l => ¬ Kind.webSocket.Overwrites c l) _ :=
    ⟨_, ⟨{}, {}, rfl⟩, .step (l := .event (.read 0 none [1])) (.step (l := .call .startReading)
      (.step (l := .call (.setReadHandler (some 0))) .refl (idle _ _) rfl) (idle _ _) rfl)
      (idle _ _) rfl⟩
  obtain ⟨w, hw, hp⟩ := (Option.any_eq_true _ _).1 (show (Transition.exec
    (Transition.guarded Server.leavesSlots (Server.machine Server.inOrder).step)
    (Executor.World.idle {}) [.post (.setSessionHandler (some 5)), .take 0 .server, .step 0,
      .post .start, .take 0 .server, .step 0,
      .complete (.accept (some .invalidArgument) none), .take 0 .server]).any
      Server.stopsInHandler = true by decide +kernel)
  have hrun := Server.leavesSlots_run (Transition.exec_run hw).of_guarded
  obtain ⟨hin, w', hs, hstopped⟩ := Server.stopsInHandler_of hp
  have hstop : Server.leavesSlots w (.call 0 .stop) = true := by
    simp only [Server.leavesSlots, Executor.Machine.ran]
    split_ifs <;> rfl
  have hk := running_handlers_kept hc hrun
  refine ⟨⟨_, _, rfl, hk.1.1, ?_, hk.1.2.2 (.readValue 0) [] _
    (.step (l := .call (.send [7])) .refl ⟨?_, List.suffix_refl _⟩ rfl)⟩,
    w, w', hin.hasFrame, hstopped,
    hk.2.2.2 0 _ _ w' hin (.step .refl ⟨Server.leavesSlots_ok hrun.held hstop, hin⟩ hs)⟩
  · exact List.cons_ne_nil _ _
  · rintro ⟨f, hf, hrep⟩
    cases f <;> exact hrep

/-- A read handler that sets another read handler. -/
theorem read_handler_replaced : ¬ ∀ (k : Kind) (c : k.Config), k.Reachable c → k.SlotsHeld c := by
  intro h
  obtain ⟨c, hc, hp⟩ := Kind.exec_reachable (k := .webSocket)
    (WebSocketSession.create {} {})
    [.call (.setReadHandler (some 0)), .call .startReading, .event (.read 0 none [1]),
      .call (.setReadHandler (some 1))]
    (fun c => c.stack = [.readValue 0] ∧ c.state.readHandler = some 1)
    (fun _ ht => ⟨_, _, ht⟩) (by decide +kernel)
  obtain ⟨hst, hr⟩ := of_decide_eq_true hp
  have hin : c.state.readHandler = some 0 := h _ c hc (.readValue 0) (by simp [hst])
  rw [hr] at hin
  cases hin

end TransitSession
