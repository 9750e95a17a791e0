/-
  Nothing that was sent is left behind.

  An open session on whose strand nothing runs has the write of its first message under
  way (`Going`).  When that write completes, the next one starts; so the completions of
  the writes, one after the other, empty the queue, and no further call is needed
  (`queue_drains`).  In the same way a session that reads takes what arrives, one read
  after the other (`Serving.read`).
-/
import TransitSession.Buffers
import TransitSession.Linked

namespace TransitSession

variable {D R W C E F : Type}

/-! ## Scheduling in an open session -/

/-- What `schedule_operations` leaves as it is, unless it closes the session. -/
structure Keeps (s s' : Session D R W) : Prop where
  queue : s'.writeQueue = s.writeQueue
  closed : s'.closed = s.closed
  enabled : s'.readEnabled = s.readEnabled
  handler : s'.readHandler = s.readHandler
  pushed : s'.pushed = s.pushed
  completed : s'.completedWrites = s.completedWrites

namespace Keeps
variable {s s' s'' : Session D R W}

theorem refl (s : Session D R W) : Keeps s s := ⟨rfl, rfl, rfl, rfl, rfl, rfl⟩

theorem trans (h : Keeps s s') (h' : Keeps s' s'') : Keeps s s'' :=
  ⟨h'.queue.trans h.queue, h'.closed.trans h.closed, h'.enabled.trans h.enabled,
    h'.handler.trans h.handler, h'.pushed.trans h.pushed, h'.completed.trans h.completed⟩

theorem asyncRead (s : Session D R W) (d : D) (op : ReadOp) :
    Keeps s (Session.asyncRead (Session.markReadStarted { s with derived := d }) op) :=
  ⟨rfl, rfl, rfl, rfl, by simp [Session.pushed, Session.asyncRead, Session.markReadStarted],
    by simp [Session.completedWrites, Session.asyncRead, Session.markReadStarted]⟩

theorem asyncWrite (s : Session D R W) (d : D) (op : WriteOp W) :
    Keeps s (Session.asyncWrite (Session.markWriteStarted { s with derived := d }) op) :=
  ⟨rfl, rfl, rfl, rfl, by simp [Session.pushed, Session.asyncWrite, Session.markWriteStarted],
    by simp [Session.completedWrites, Session.asyncWrite, Session.markWriteStarted]⟩

end Keeps

namespace Hooks
variable {H : Hooks D R W F} (hH : H.Lawful)
include hH

/-- A write starts, or the session is closed. -/
theorem startWriting_keeps {s : Session D R W} (hc : (H.startWriting s).closed = s.closed) :
    Keeps s (H.startWriting s) := by
  unfold startWriting at hc ⊢
  split_ifs at hc ⊢ with hw
  · rcases hH.doWrite_starts hw with ⟨d, q, bytes, -, -, he⟩ | he
    · rw [he]
      exact .asyncWrite s d ⟨q, bytes⟩
    · rw [he, (closeHook_spec hH s).1, (hH.canStartWrite_core hw).2.2] at hc
      cases hc
  · exact .refl s

theorem schedule_keeps {s : Session D R W} (hc : (H.startWriting s).closed = s.closed) :
    Keeps s (H.scheduleOperations s) := by
  rw [schedule_eq]
  split_ifs with hr
  · obtain ⟨d, op, -, he⟩ := hH.doRead_starts hr
    rw [he]
    exact (startWriting_keeps hH hc).trans (.asyncRead _ d op)
  · exact startWriting_keeps hH hc

/-- Without anything to write nothing is handed over. -/
theorem schedule_written {s : Session D R W} (hq : s.writeQueue = []) :
    Keeps s (H.scheduleOperations s) ∧ (H.scheduleOperations s).written = s.written := by
  have hw : H.startWriting s = s := by
    unfold startWriting
    rw [if_neg]
    intro hw
    exact (hH.canStartWrite_core hw).2.1 hq
  refine ⟨schedule_keeps hH (congrArg Session.closed hw), ?_⟩
  rw [schedule_eq, hw]
  split_ifs with hr
  · obtain ⟨d, op, -, he⟩ := hH.doRead_starts hr
    rw [he]
    simp [Session.written, Session.writeOps, Session.asyncRead, Session.markReadStarted]
  · rfl

end Hooks

/-! ## Sessions that go on -/

theorem CanSession.schedule_config (s : CanSession) :
    (hooks.scheduleOperations s).derived.config = s.derived.config := by
  have hw : (hooks.startWriting s).derived.config = s.derived.config := by
    unfold Hooks.startWriting
    split_ifs
    · show (doWrite s).derived.config = _
      unfold doWrite
      split
      · rfl
      · split
        · unfold Session.close closeTransport
          split_ifs
          · rfl
          · split <;> rfl
        · rfl
    · rfl
  rw [Hooks.schedule_eq, ← hw]
  split_ifs <;> rfl

namespace Kind
variable {k : Kind} {c : k.Config}

/-- The messages that `do_write` hands on. -/
def Accepts : (k : Kind) → k.Members → k.Value → Prop
  | .can, d, frame => (Can.encodeFrame d.config.enableCanFd frame).isSome
  | .serial, _, _ | .webSocket, _, _ | .webSocketServer, _, _ => True

theorem schedule_accepts (s : Session k.Members k.Value k.Value) {m : k.Value}
    (h : k.Accepts s.derived m) : k.Accepts (k.cls.scheduleOperations s).derived m := by
  cases k with
  | can =>
    show (Can.encodeFrame _ m).isSome
    rw [show (Kind.can.cls.scheduleOperations s).derived.config = s.derived.config from
      CanSession.schedule_config s]
    exact h
  | _ => trivial

/-- No message that it accepts makes `schedule_operations` close the session. -/
theorem startWriting_open {s : Session k.Members k.Value k.Value}
    (h : ∀ q ∈ s.writeQueue, k.Accepts s.derived q.message) :
    (k.cls.startWriting s).closed = s.closed := by
  by_cases hk : k = .can
  · subst hk
    unfold Hooks.startWriting
    split_ifs with hw
    · show (CanSession.doWrite s).closed = s.closed
      unfold CanSession.doWrite
      split
      · rfl
      · next q hq =>
        obtain ⟨bytes, hb⟩ := Option.isSome_iff_exists.1 (h q (List.mem_of_mem_head? hq))
        simp only [hb]
        rfl
    · rfl
  · unfold Hooks.startWriting
    split_ifs with hw
    · exact (writesInPlace hk).doWrite_closed hw
    · rfl

theorem quiet (h : k.ReachableBy (fun _ l => k.OnStrand l) c) (hst : c.stack = []) :
    k.cls.Quiet c.state := by
  obtain ⟨s, hs, hr⟩ := h
  exact SessionClass.idle_quiet k.lawful k.keepsQuiet hs.fresh hr hst

/-- A session that reads has a read outstanding; in half duplex, if there is nothing to
    write. -/
theorem reading_of_enabled (h : k.ReachableBy (fun _ l => k.OnStrand l) c) (hst : c.stack = [])
    (ho : c.state.closed = false) (he : c.state.readEnabled = true)
    (hfree : k.halfDuplex c.state.derived = true →
      c.state.writeInProgress = false ∧ c.state.writeQueue = []) :
    ∃ op, c.state.reads = [op] := by
  have hread : c.state.readInProgress = true := by
    by_contra hr
    have hr' : c.state.readInProgress = false := by simpa using hr
    have hcan : k.cls.canStartRead c.state = true := by
      cases k with
      | serial =>
        exact SerialSession.canStartRead_eq_true.2
          ⟨he, hr', ho, fun hm => hfree (by simpa [halfDuplex] using hm)⟩
      | can => exact CanSession.canStartRead_eq_true.2 ⟨he, hr', ho⟩
      | webSocket | webSocketServer =>
        exact WebSocket.StreamSession.canStartRead_eq_true.2 ⟨he, hr', ho⟩
    rw [(quiet h hst).2] at hcan
    cases hcan
  exact List.length_eq_one_iff.1 (h.kept.mirrored.reads.trans (by simp [hread]))

/-- An open session that is used on its strand, where nothing runs, with messages that it
    accepts; in half duplex no read is outstanding that they would wait for. -/
structure Going (c : k.Config) : Prop where
  reachable : k.ReachableBy (fun _ l => k.OnStrand l) c
  idle : c.stack = []
  isOpen : c.state.closed = false
  accepts : ∀ q ∈ c.state.writeQueue, k.Accepts c.state.derived q.message
  notBlocked : c.state.writeQueue ≠ [] →
    k.halfDuplex c.state.derived = true → c.state.readInProgress = false

theorem receiving_write (c : k.Config) : k.Receiving c (.event (.write 0 none)) := by
  cases k <;> trivial

theorem receiving_ret (c : k.Config) : k.Receiving c .ret := by
  cases k <;> trivial

theorem receiving_read (h : c.state.readHandler ≠ none) (data : List UInt8) :
    k.Receiving c (.event (.read 0 none data)) := by
  cases k <;> exact h

namespace Going

/-- The write of the first message is under way. -/
theorem writing (h : Going c) (hq : c.state.writeQueue ≠ []) :
    c.state.writeInProgress = true := by
  by_contra hw
  have hcan := canStartWrite_of_queue h.reachable.reachable rfl h.isOpen (by simpa using hw)
    (h.notBlocked hq) hq
  rw [(quiet h.reachable h.idle).1] at hcan
  cases hcan

/-- In half duplex `schedule_operations` starts no read while it has something to write. -/
theorem schedule_notBlocked {s : Session k.Members k.Value k.Value}
    (hw : k.cls.canStartWrite s = true) (hr : k.halfDuplex s.derived = true →
      s.readInProgress = false) (hm : k.halfDuplex (k.cls.scheduleOperations s).derived = true) :
    (k.cls.scheduleOperations s).readInProgress = false := by
  cases k with
  | serial =>
    have hs : SerialSession.Scheduled s (Kind.serial.cls.scheduleOperations s) :=
      SerialSession.scheduled s
    have hhalf : SerialSession.Half s := by
      have hmode : (Kind.serial.cls.scheduleOperations s).derived.duplexMode = .halfDuplex := by
        simpa [halfDuplex] using hm
      rwa [hs.mode] at hmode
    have hwriting : (Kind.serial.cls.scheduleOperations s).writeInProgress = true := by
      rw [hs.writing, show SerialSession.canStartWrite s = true from hw, Bool.or_true]
    by_contra hread
    rcases hs.reading (by simpa using hread) with hread | hidle
    · rw [hr (decide_eq_true hhalf)] at hread
      cases hread
    · rw [hidle hhalf] at hwriting
      cases hwriting
  | _ => cases hm

/-- **The write of the first message completes**, and the next one starts. -/
theorem write (h : Going c) {q : Queued k.Value} {rest : List (Queued k.Value)}
    (hq : c.state.writeQueue = q :: rest) :
    ∃ c', k.cls.program.step c (.event (.write 0 none)) = some c' ∧ Going c' ∧
      c'.state.writeQueue = rest ∧ c'.state.completedWrites = c.state.completedWrites ++ [q] ∧
      c'.state.pushed = c.state.pushed ∧ c'.state.readEnabled = c.state.readEnabled ∧
      c'.state.readHandler = c.state.readHandler := by
  have hne : c.state.writeQueue ≠ [] := by
    rw [hq]
    exact List.cons_ne_nil q rest
  obtain ⟨op, hop, hfront⟩ := h.reachable.kept.fifo.inFlight h.isOpen (h.writing hne)
  have helem : q = op.element := by
    rw [hq] at hfront
    exact Option.some.inj hfront
  have hget : c.state.writes[0]? = some op := by rw [hop]; rfl
  -- the session, before it schedules
  have hdone : ∃ t : Session k.Members k.Value k.Value,
      t = (c.state.writeDone 0 op none).consumeWrite ∧ t.writeQueue = rest ∧ t.closed = false ∧
      t.derived = c.state.derived ∧ t.readInProgress = c.state.readInProgress ∧
      t.readEnabled = c.state.readEnabled ∧ t.readHandler = c.state.readHandler ∧
      t.writeInProgress = false ∧ t.pushed = c.state.pushed ∧
      t.completedWrites = c.state.completedWrites ++ [q] := by
    refine ⟨_, rfl, ?_⟩
    rw [Session.consumeWrite_eq]
    refine ⟨by simp [Session.writeDone, hq], h.isOpen, rfl, rfl, rfl, rfl, rfl, ?_, ?_⟩
    · simp [Session.pushed, Session.writeDone]
    · simp [Session.completedWrites, Session.writeDone, helem]
  obtain ⟨t, ht, hqueue, hclosed, hderived, hread, henabled, hhandler, hidle, hpushed,
    hcompleted⟩ := hdone
  have hstep : k.cls.program.step c (.event (.write 0 none)) =
      some ⟨k.cls.scheduleOperations t, []⟩ := by
    refine Strand.Program.step_event_iff.2 ⟨h.idle, (k.cls.scheduleOperations t, none), ?_, rfl⟩
    show k.cls.event (.write 0 none) c.state = _
    rw [ht]
    simp only [SessionClass.event, hget]
    rfl
  have haccepts : ∀ q ∈ t.writeQueue, k.Accepts t.derived q.message := by
    intro q' hq'
    rw [hqueue] at hq'
    rw [hderived]
    exact h.accepts q' (hq ▸ List.mem_cons_of_mem _ hq')
  have hkeeps := Hooks.schedule_keeps k.lawful.toLawful (startWriting_open haccepts)
  have hreach : k.ReachableBy (fun _ l => k.OnStrand l) ⟨k.cls.scheduleOperations t, []⟩ :=
    h.reachable.trans (.step .refl (Receiving.onStrand (receiving_write c)) hstep)
  refine ⟨_, hstep, ⟨hreach, rfl, hkeeps.closed.trans hclosed, fun q' hq' => ?_, fun hq' hm => ?_⟩,
    hkeeps.queue.trans hqueue, hkeeps.completed.trans hcompleted, hkeeps.pushed.trans hpushed,
    hkeeps.enabled.trans henabled, hkeeps.handler.trans hhandler⟩
  · have hq'' : q' ∈ t.writeQueue := by
      rw [← hkeeps.queue]
      exact hq'
    exact schedule_accepts t (haccepts q' hq'')
  · have hne' : t.writeQueue ≠ [] := by
      rw [← hkeeps.queue]
      exact hq'
    have hfree : k.halfDuplex t.derived = true → t.readInProgress = false := by
      rw [hderived, hread]
      exact h.notBlocked hne
    exact schedule_notBlocked
      (canStartWrite_of_queue h.reachable.reachable hderived hclosed hidle hfree hne') hfree hm

theorem writes (h : Going c) {n : ℕ} (hn : n ≤ c.state.writeQueue.length) :
    ∃ c', k.cls.program.exec c (List.replicate n (.event (.write 0 none))) = some c' ∧
      Going c' ∧ c'.state.writeQueue = c.state.writeQueue.drop n ∧
      c'.state.completedWrites = c.state.completedWrites ++ c.state.writeQueue.take n ∧
      c'.state.pushed = c.state.pushed ∧ c'.state.readEnabled = c.state.readEnabled := by
  induction n generalizing c with
  | zero => exact ⟨c, rfl, h, rfl, (List.append_nil _).symm, rfl, rfl⟩
  | succ n ih =>
    obtain ⟨q, rest, hq⟩ : ∃ q rest, c.state.writeQueue = q :: rest := by
      refine List.exists_cons_of_ne_nil fun hnil => ?_
      rw [hnil] at hn
      exact absurd hn (Nat.not_succ_le_zero n)
    obtain ⟨c₁, hs, h₁, hrest, hcompleted, hpushed, henabled, -⟩ := h.write hq
    have hn₁ : n ≤ c₁.state.writeQueue.length := by
      rw [hrest]
      rw [hq] at hn
      exact Nat.le_of_succ_le_succ hn
    obtain ⟨c', he, h', hqueue', hcompleted', hpushed', henabled'⟩ := ih h₁ hn₁
    refine ⟨c', ?_, h', ?_, ?_, hpushed'.trans hpushed, henabled'.trans henabled⟩
    · rw [List.replicate_succ, Strand.Program.exec, Transition.exec, List.foldlM_cons, hs]
      exact he
    · rw [hqueue', hrest, hq, List.drop_succ_cons]
    · rw [hcompleted', hcompleted, hrest, hq, List.take_succ_cons, List.append_assoc,
        List.singleton_append]

/-- With nothing to write, no write is under way. -/
theorem notWriting (h : Going c) (hq : c.state.writeQueue = []) :
    c.state.writeInProgress = false := by
  by_contra hw
  obtain ⟨op, -, hfront⟩ := h.reachable.kept.fifo.inFlight h.isOpen (by simpa using hw)
  rw [hq] at hfront
  cases hfront

/-- With nothing to write, a session that reads has a read outstanding. -/
theorem reading (h : Going c) (hq : c.state.writeQueue = []) (he : c.state.readEnabled = true) :
    ∃ op, c.state.reads = [op] :=
  reading_of_enabled h.reachable h.idle h.isOpen he fun _ => ⟨h.notWriting hq, hq⟩

end Going

/-- **The queue drains.**  Without any further call, the completions of the writes of an
    open session write what it has been given to send, in order; then nothing is being
    written, and a session that reads has a read outstanding.  A serial session has not
    been configured off its strand: `apply_config` schedules nothing. -/
theorem queue_drains (h : Going c) :
    ∃ c', k.cls.program.exec c
        (List.replicate c.state.writeQueue.length (.event (.write 0 none))) = some c' ∧
      c'.stack = [] ∧ c'.state.closed = false ∧
      c'.state.completedWrites = c.state.pushed ∧ c'.state.writes = [] ∧
      (c.state.readEnabled = true → ∃ op, c'.state.reads = [op]) := by
  obtain ⟨c', he, h', hqueue, hcompleted, -, henabled⟩ := h.writes (Nat.le_refl _)
  rw [List.drop_length] at hqueue
  rw [List.take_length, ← h.reachable.kept.fifo.balance h.isOpen] at hcompleted
  exact ⟨c', he, h'.idle, h'.isOpen, hcompleted,
    h'.reachable.kept.mirrored.writes_nil.2 (h'.notWriting hqueue),
    fun hr => h'.reading hqueue (henabled.trans hr)⟩

/-- Two messages, whose writes complete. -/
theorem queue_drains_two : ∃ c c' : Kind.webSocket.Config,
    c.state.completedWrites = [] ∧
      Kind.webSocket.cls.program.exec c [.event (.write 0 none), .event (.write 0 none)] =
        some c' ∧
      c'.state.completedWrites = [⟨0, [1]⟩, ⟨1, [2]⟩] ∧ ∃ op, c'.state.reads = [op] := by
  obtain ⟨s, hs⟩ : ∃ s, WebSocketSession.create {} {} = some s := ⟨_, rfl⟩
  have hr : Kind.webSocket.ReachableBy (fun _ l => Kind.webSocket.OnStrand l) _ := ⟨s, ⟨_, _, hs⟩,
    .step (l := .call (.send [2])) (.step (l := .call (.send [1]))
      (.step (l := .call .startReading) .refl trivial rfl) trivial rfl) trivial
      (by cases hs; rfl)⟩
  cases hs
  obtain ⟨c', he, -, -, hcompleted, -, hreads⟩ :=
    queue_drains ⟨hr, rfl, rfl, fun _ _ => trivial, nofun⟩
  exact ⟨_, c', rfl, he, hcompleted, hreads rfl⟩

/-! ## Sessions that receive -/

/-- The transport may store `data` in a read, which has a value. -/
structure Readable (k : Kind) (data : List UInt8) : Prop where
  payload : ∃ value, k.payload data = some value
  fill : ∀ {c : k.Config} {op}, k.ReachableBy k.Receiving c → op ∈ c.state.reads →
    ∃ d, k.cls.fill op data c.state.derived = some d

/-- A session that goes on, and reads; it has had a read handler whenever a read
    completed. -/
structure Serving (c : k.Config) : Prop extends Going c where
  receiving : k.ReachableBy k.Receiving c
  enabled : c.state.readEnabled = true
  handler : c.state.readHandler ≠ none

namespace Serving

/-- **Data arrives**, the read handler is told and returns, and the next read starts. -/
theorem read (h : Serving c) (hq : c.state.writeQueue = []) {data : List UInt8}
    (hd : k.Readable data) :
    ∃ c₁ c', k.cls.program.step c (.event (.read 0 none data)) = some c₁ ∧
      k.cls.program.step c₁ .ret = some c' ∧ Serving c' ∧ c'.state.writeQueue = [] ∧
      c'.state.pushed = c.state.pushed ∧ c₁.state.written = c.state.written ∧
      c'.state.written = c.state.written := by
  obtain ⟨g, hg⟩ := Option.ne_none_iff_exists'.1 h.handler
  obtain ⟨op, hop⟩ := h.toGoing.reading hq h.enabled
  have hmem : op ∈ c.state.reads := by rw [hop]; exact List.mem_singleton_self op
  obtain ⟨d, hfill⟩ := hd.fill h.receiving hmem
  obtain ⟨value, hvalue⟩ := hd.payload
  have hfit : k.Fit op c.state.derived := by
    obtain ⟨s, hs, hr⟩ := h.receiving
    exact SessionClass.run_fits k.lawful k.receives hs.fresh hr op hmem
  have hget : c.state.reads[0]? = some op := by rw [hop]; rfl
  obtain ⟨d', ⟨v, -, he⟩ | ⟨e, hnone, -⟩⟩ := k.receives.onRead_payload
    (s := { c.state with
      derived := d
      reads := c.state.reads.eraseIdx 0
      log := c.state.log ++ [.readCompleted none data] }) hfit hfill
  · -- the session in the read handler
    obtain ⟨u, hu⟩ : ∃ u : Session k.Members k.Value k.Value, u =
        { c.state with
          derived := d'
          readInProgress := false
          reads := c.state.reads.eraseIdx 0
          log := c.state.log ++ [.readCompleted none data] ++ [.notified none v] } := ⟨_, rfl⟩
    have hread : k.cls.event (.read 0 none data) c.state = some (u, some (.readValue g)) := by
      simp only [SessionClass.event, hget, hfill, Option.map_some, he]
      unfold Hooks.deliverRead
      simp only [Session.markReadFinished, hg, hu]
      rfl
    have hstep₁ : k.cls.program.step c (.event (.read 0 none data)) =
        some ⟨u, [.readValue g]⟩ := Strand.Program.step_event_iff.2 ⟨h.idle, _, hread, rfl⟩
    have hstep₂ : k.cls.program.step ⟨u, [.readValue g]⟩ .ret =
        some ⟨k.cls.scheduleOperations u, []⟩ := rfl
    have hqueue : u.writeQueue = [] := by rw [hu]; exact hq
    have hpushed : u.pushed = c.state.pushed := by rw [hu]; simp [Session.pushed]
    have hwritten : u.written = c.state.written := by
      rw [hu]
      simp [Session.written, Session.writeOps]
    obtain ⟨hkeeps, hwritten'⟩ := Hooks.schedule_written k.lawful.toLawful hqueue
    have hqueue' : (k.cls.scheduleOperations u).writeQueue = [] := hkeeps.queue.trans hqueue
    have hreach : k.ReachableBy k.Receiving ⟨k.cls.scheduleOperations u, []⟩ :=
      h.receiving.trans (.step (.step .refl (receiving_read h.handler data) hstep₁)
        (receiving_ret _) hstep₂)
    refine ⟨_, _, hstep₁, hstep₂, ⟨⟨hreach.onStrand, rfl, ?_, ?_, ?_⟩, hreach, ?_, ?_⟩, hqueue',
      hkeeps.pushed.trans hpushed, hwritten, hwritten'.trans hwritten⟩
    · exact hkeeps.closed.trans (by rw [hu]; exact h.isOpen)
    · intro q hmem
      rw [hqueue'] at hmem
      cases hmem
    · exact fun hne => absurd hqueue' hne
    · exact hkeeps.enabled.trans (by rw [hu]; exact h.enabled)
    · show (k.cls.scheduleOperations u).readHandler ≠ none
      rw [hkeeps.handler, hu]
      exact h.handler
  · rw [hvalue] at hnone
    cases hnone

end Serving

end Kind

end TransitSession
