/-
  Frames that cannot be encoded.

  `do_write` encodes the front of the queue, and closes the session when
  `encode_frame` rejects it.  So what is written are the images of the first frames
  that were pushed (`Encodes`), and the step that meets a rejected frame, and all
  that follow, start nothing (`rejected_frame_stops`).
-/
import TransitSession.Guarantees
import TransitSession.Reopening

namespace TransitSession

namespace Session
variable {D R W : Type}

/-- The writes initiated, in order. -/
def writeOps (s : Session D R W) : List (WriteOp W) :=
  s.log.filterMap fun | .writeStarted op _ _ => some op | _ => none

theorem map_writeOps (s : Session D R W) : s.writeOps.map WriteOp.element = s.startedWrites := by
  unfold writeOps startedWrites
  rw [List.map_filterMap]
  refine List.filterMap_congr fun e _ => ?_
  cases e <;> rfl

end Session

namespace CanSession
open Can

/-! ## What is written -/

/-- The writes hand on what `encode_frame` makes of their frames; an open session has
    the configuration with which it was created. -/
structure Encodes (enableCanFd : Bool) (s : CanSession) : Prop where
  writes : ∀ op ∈ s.writeOps, encodeFrame enableCanFd op.element.message = some op.bytes
  config : s.closed = false → s.isOpen = true ∧ s.derived.config.enableCanFd = enableCanFd

namespace Encodes
variable {enableCanFd : Bool} {s s' : CanSession}

/-- Changes that start no write and leave the socket alone. -/
theorem congr (h : Encodes enableCanFd s) (hw : s'.writeOps = s.writeOps)
    (hc : s'.closed = s.closed) (hfd : s'.derived.fd = s.derived.fd)
    (hconf : s'.derived.config = s.derived.config) : Encodes enableCanFd s' where
  writes := by rw [hw]; exact h.writes
  config hc' := by
    obtain ⟨ho, hf⟩ := h.config (hc.symm.trans hc')
    refine ⟨?_, by rw [hconf]; exact hf⟩
    unfold isOpen at ho ⊢
    rw [hfd]
    exact ho

theorem close (h : Encodes enableCanFd s) : Encodes enableCanFd (s.close closeTransport).1 := by
  have hclosed := (Hooks.closeHook_spec hooks_lawful s).1
  obtain ⟨d, hd⟩ := Hooks.closeHook_eq s hooks_lawful
  change (s.close closeTransport).1 = _ at hd
  change (s.close closeTransport).1.closed = true at hclosed
  refine ⟨?_, fun hc => ?_⟩
  · have hops : (s.close closeTransport).1.writeOps = s.writeOps := by
      rw [hd]
      unfold Session.shutOnce
      split_ifs <;> simp [Session.writeOps, Session.emit, Session.shut]
    rw [hops]
    exact h.writes
  · rw [hclosed] at hc
    cases hc

theorem doWrite (h : Encodes enableCanFd s) (hw : canStartWrite s = true) :
    Encodes enableCanFd (CanSession.doWrite s) := by
  obtain ⟨-, -, hc⟩ := canStartWrite_eq_true.1 hw
  obtain ⟨-, hfd⟩ := h.config hc
  unfold CanSession.doWrite
  split
  · exact h
  · next q hq =>
    split
    · exact h.close
    · next bytes he =>
      refine ⟨fun op hop => ?_, h.config⟩
      simp only [Session.writeOps, Session.asyncWrite, Session.markWriteStarted,
        List.filterMap_append, List.mem_append] at hop
      rcases hop with hop | hop
      · exact h.writes op hop
      · obtain rfl := by simpa using hop
        rw [← hfd]
        exact he

theorem schedule (h : Encodes enableCanFd s) :
    Encodes enableCanFd (hooks.scheduleOperations s) := by
  have hwrite : Encodes enableCanFd (hooks.startWriting s) := by
    unfold Hooks.startWriting
    split_ifs with hw
    · exact h.doWrite hw
    · exact h
  rw [Hooks.schedule_eq]
  split_ifs
  · refine hwrite.congr ?_ rfl rfl rfl
    simp [hooks, CanSession.doRead, Session.writeOps, Session.asyncRead, Session.markReadStarted]
  · exact hwrite

theorem failRead (h : Encodes enableCanFd s) (e : Errc) :
    Encodes enableCanFd (hooks.failRead e s).1 := by
  rcases hooks.failRead_eq s e with ⟨g, -, he⟩ | ⟨-, he⟩ <;> rw [he]
  · exact h.congr (by simp [Session.writeOps, Session.emit]) rfl rfl rfl
  · exact h.close

theorem deliverRead (h : Encodes enableCanFd s) (frame : CanFrame) :
    Encodes enableCanFd (hooks.deliverRead frame s).1 := by
  rcases hooks.deliverRead_eq s frame with ⟨g, he⟩ | he <;> rw [he]
  · exact h.congr (by simp [Session.writeOps, Session.emit]) rfl rfl rfl
  · exact h.schedule

/-- `open` is refused while the session is open. -/
theorem «open» (h : Encodes enableCanFd s) (res : OpenResults) (config : CanConfig) :
    Encodes enableCanFd (s.open res config).1 := by
  cases hc : s.closed with
  | false =>
    have : (s.open res config).1 = s := by
      unfold CanSession.open
      rw [if_pos (h.config hc).1]
    rw [this]
    exact h
  | true =>
    obtain ⟨d, hd⟩ := open_members res config s
    rw [hd]
    refine ⟨h.writes, fun hc' => ?_⟩
    rw [show ({ s with derived := d } : CanSession).closed = true from hc] at hc'
    cases hc'

theorem call (h : Encodes enableCanFd s) (x : Call CanFrame DerivedCall) :
    Encodes enableCanFd (cls.call x s).1 := by
  cases x with
  | setReadHandler | stopReading => exact h.congr rfl rfl rfl rfl
  | startReading =>
    show Encodes enableCanFd (hooks.startReading s)
    rcases hooks.startReading_eq s with ⟨-, he⟩ | ⟨-, he⟩ <;> rw [he]
    · exact h
    · exact schedule (h.congr rfl rfl rfl rfl)
  | send m =>
    show Encodes enableCanFd (hooks.enqueueWrite m s)
    rcases hooks.enqueueWrite_eq s m with ⟨-, he⟩ | ⟨-, he⟩ <;> rw [he]
    · exact h
    · exact schedule (h.congr (by simp [Session.writeOps, Session.pushBack]) rfl rfl rfl)
  | close => exact h.close
  | derived x =>
    cases x with
    | «open» res config => exact h.open res config

/-- The completion handler of a read, after the transport has stored the data. -/
theorem onRead (h : Encodes enableCanFd s) (ec : ErrorCode) (n : ℕ) :
    Encodes enableCanFd (CanSession.onRead ec n s).1 := by
  have hdone : Encodes enableCanFd s.markReadFinished := h.congr rfl rfl rfl rfl
  unfold CanSession.onRead
  cases ec with
  | some e => exact hdone.failRead e
  | none =>
    dsimp only
    split
    · exact hdone.failRead _
    · next frame _ =>
      have hframe : Encodes enableCanFd
          { s.markReadFinished with derived.lastReadFrame := frame } :=
        hdone.congr rfl rfl rfl rfl
      exact hframe.deliverRead frame

theorem event (h : Encodes enableCanFd s) {e : Completion Empty}
    {r : CanSession × Option (Frame Empty)} (hr : cls.event e s = some r) :
    Encodes enableCanFd r.1 := by
  rcases SessionClass.event_cases lawful hr with ⟨k, ec, data, op, d, rfl, -, -⟩ |
    ⟨k, op, -, -, rfl⟩ | ⟨k, op, e', -, -, rfl⟩ | ⟨e', -, -⟩
  · obtain ⟨op, d, -, hfill, rfl⟩ := SessionClass.event_read_eq hr
    change fill op data s.derived = some d at hfill
    simp only [fill, Option.ite_none_right_eq_some, Option.some.injEq] at hfill
    obtain ⟨-, hd⟩ := hfill
    have hdone : Encodes enableCanFd
        { s with
          derived := d
          reads := s.reads.eraseIdx k
          log := s.log ++ [.readCompleted ec data] } :=
      h.congr (by simp [Session.writeOps]) rfl (by rw [← hd]) (by rw [← hd])
    exact hdone.onRead ec data.length
  · have hdone : Encodes enableCanFd (s.writeDone k op none).consumeWrite := by
      rw [Session.consumeWrite_eq]
      exact h.congr (by simp [Session.writeOps, Session.writeDone]) rfl rfl rfl
    exact hdone.schedule
  · have hdone : Encodes enableCanFd (s.writeDone k op (some e')) :=
      h.congr (by simp [Session.writeOps, Session.writeDone]) rfl rfl rfl
    exact hdone.close
  · exact e'.elim

theorem resume (h : Encodes enableCanFd s) (f : Frame Empty) :
    Encodes enableCanFd (cls.resume f s).1 := by
  cases f with
  | readError => exact h.close
  | readValue => exact h.schedule
  | derived f => exact f.elim

end Encodes

theorem create_encodes {res : OpenResults} {config : CanConfig} {s : CanSession}
    (h : create res config = some s) : Encodes s.derived.config.enableCanFd s := by
  obtain ⟨d, hd⟩ := create_derived h
  have ho : s.isOpen = true := by
    unfold create at h
    dsimp only at h
    split_ifs at h with hec
    obtain rfl := Option.some.inj h
    exact (open_open res config construct).2 (Or.inr (open_ok (by simpa using hec)))
  refine ⟨fun op hop => ?_, fun _ => ⟨ho, rfl⟩⟩
  rw [hd] at hop
  cases hop

/-- **What is written are images of the first frames pushed.** -/
theorem run_encodes {s : CanSession} {c : Kind.can.Config} (hs : Kind.can.Created s)
    (h : Kind.can.Run (fun _ _ => True) ⟨s, []⟩ c) :
    Encodes s.derived.config.enableCanFd c.state := by
  refine h.inv (I := fun d => Encodes s.derived.config.enableCanFd d.state) ?_
    fun c₁ l c₂ h₁ _ hstep => ?_
  · obtain ⟨res, config, hc⟩ := hs
    exact create_encodes hc
  · rcases Strand.Program.step_cases hstep with ⟨x, -, rfl⟩ | ⟨e, r, -, -, hr, rfl⟩ |
      ⟨f, st, -, -, rfl⟩
    · exact h₁.call x
    · exact h₁.event hr
    · exact h₁.resume f

theorem Encodes.initial {enableCanFd : Bool} {s : CanSession} (h : Encodes enableCanFd s)
    (hk : Kept s) : ∃ sent, sent <+: s.pushed.map Queued.message ∧
      sent.map (encodeFrame enableCanFd) = s.writeOps.map fun op => some op.bytes := by
  refine ⟨s.startedWrites.map Queued.message, hk.fifo.starts_prefix.map _, ?_⟩
  rw [← s.map_writeOps, List.map_map, List.map_map]
  exact List.map_congr_left fun op hop => h.writes op hop

/-! ## The rejection -/

/-- The front of the queue is a frame that `encode_frame` rejects, and it would be
    written. -/
def Rejects (s : CanSession) : Prop :=
  canStartWrite s = true ∧ ∃ q, s.currentWrite = some q ∧
    encodeFrame s.derived.config.enableCanFd q.message = none

/-- The state in which a step of a session calls `schedule_operations`, if it does. -/
def scheduledAt (c : Kind.can.Config) : Kind.can.Label → Option CanSession
  | .call .startReading =>
    if c.state.closed then none else some { c.state with readEnabled := true }
  | .call (.send m) => if c.state.closed then none else some (c.state.pushBack m)
  | .event (.read k none data) =>
    if c.state.readHandler.isSome then none else
    c.state.reads[k]?.bind fun op => (fill op data c.state.derived).bind fun d =>
      (decodeFrame data.length d.readBuffer).toOption.map fun frame =>
        { c.state.readDone k none data with derived := { d with lastReadFrame := frame } }
  | .event (.write k none) =>
    c.state.writes[k]?.map fun op => (c.state.writeDone k op none).consumeWrite
  | .ret =>
    match c.stack with
    | .readValue _ :: _ => some c.state
    | _ => none
  | _ => none

/-- A session that rejects the front of its queue is closed, and starts nothing. -/
theorem schedule_rejects {s : CanSession} (h : Rejects s) :
    hooks.scheduleOperations s = (s.close closeTransport).1 := by
  obtain ⟨hw, q, hq, he⟩ := h
  have hwrite : hooks.startWriting s = (s.close closeTransport).1 := by
    refine (if_pos hw).trans ?_
    simp only [hooks, doWrite, hq, he]
  have hclosed := (Hooks.closeHook_spec hooks_lawful s).1
  have hread := Hooks.canStartRead_closed hooks_lawful hclosed
  rw [Hooks.schedule_eq, hwrite]
  exact if_neg (by rw [Bool.not_eq_true]; exact hread)

/-- A change of the session that starts nothing. -/
def Unstarted (s s' : CanSession) : Prop :=
  ∃ es, s'.log = s.log ++ es ∧ ∀ e ∈ es, e.isStart = false

namespace Unstarted
variable {s s' s'' : CanSession}

theorem of_log (h : s'.log = s.log) : Unstarted s s' := ⟨[], by simpa using h, by simp⟩

theorem emit {e : Event State CanFrame CanFrame} (h : s'.log = s.log ++ [e])
    (he : e.isStart = false) : Unstarted s s' :=
  ⟨[e], h, by simpa using he⟩

theorem trans (h : Unstarted s s') (h' : Unstarted s' s'') : Unstarted s s'' := by
  obtain ⟨es, hl, hes⟩ := h
  obtain ⟨es', hl', hes'⟩ := h'
  refine ⟨es ++ es', by rw [hl', hl, List.append_assoc], ?_⟩
  intro e he
  rcases List.mem_append.1 he with he | he
  exacts [hes e he, hes' e he]

theorem close (s : CanSession) : Unstarted s (s.close closeTransport).1 := by
  obtain ⟨d, hd⟩ := Hooks.closeHook_eq s hooks_lawful
  change (s.close closeTransport).1 = _ at hd
  rw [hd]
  unfold Session.shutOnce
  split_ifs
  · exact .emit rfl rfl
  · exact ⟨[.closeRun, .closeTransport], rfl, by simp [Event.isStart]⟩

theorem failRead (e : Errc) (s : CanSession) : Unstarted s (hooks.failRead e s).1 := by
  rcases hooks.failRead_eq s e with ⟨g, -, he⟩ | ⟨-, he⟩ <;> rw [he]
  · exact .emit rfl rfl
  · exact close s

end Unstarted

/-- Without a read handler, the completion handler of a read schedules at once. -/
theorem read_schedules {c : Kind.can.Config} {k : ℕ} {data : List UInt8} {t : CanSession}
    {r : CanSession × Option (Frame Empty)}
    (hr : cls.event (.read k none data) c.state = some r)
    (ht : scheduledAt c (.event (.read k none data)) = some t) :
    r.1 = hooks.scheduleOperations t ∧ Unstarted c.state t := by
  simp only [scheduledAt, Option.ite_none_left_eq_some, Option.bind_eq_some_iff,
    Option.map_eq_some_iff] at ht
  obtain ⟨hh, op, hop, d, hfill, frame, hdec, rfl⟩ := ht
  obtain ⟨op', d', hop', hfill', rfl⟩ := SessionClass.event_read_eq hr
  obtain rfl := Option.some.inj (hop.symm.trans hop')
  obtain rfl := Option.some.inj (hfill.symm.trans hfill')
  have hn : c.state.readHandler = none := Option.not_isSome_iff_eq_none.1 hh
  have hok : decodeFrame data.length d.readBuffer = .ok frame := by
    cases hd : decodeFrame data.length d.readBuffer with
    | error e => rw [hd] at hdec; cases hdec
    | ok f => rw [hd] at hdec; cases hdec; rfl
  have hdeliver (t : CanSession) (ht : t.readHandler = none) :
      hooks.deliverRead frame t = (hooks.scheduleOperations t, none) := by
    unfold Hooks.deliverRead
    rw [ht]
  refine ⟨?_, .emit (e := .readCompleted none data) rfl rfl⟩
  show (CanSession.onRead none data.length _).1 = _
  simp only [CanSession.onRead, Session.markReadFinished, hok]
  exact congrArg Prod.fst (hdeliver
    { c.state.readDone k none data with derived := { d with lastReadFrame := frame } } hn)

theorem step_schedules {c c' : Kind.can.Config} {l : Kind.can.Label} {t : CanSession}
    (hs : cls.program.step c l = some c') (ht : scheduledAt c l = some t) :
    c'.state = hooks.scheduleOperations t ∧ Unstarted c.state t := by
  rcases Strand.Program.step_cases hs with ⟨x, rfl, rfl⟩ | ⟨e, r, rfl, -, hr, rfl⟩ |
    ⟨f, st, rfl, hst, rfl⟩
  · cases x with
    | startReading =>
      simp only [scheduledAt, Option.ite_none_left_eq_some, Option.some.injEq] at ht
      obtain ⟨hc, rfl⟩ := ht
      exact ⟨if_neg hc, .of_log rfl⟩
    | send m =>
      simp only [scheduledAt, Option.ite_none_left_eq_some, Option.some.injEq] at ht
      obtain ⟨hc, rfl⟩ := ht
      exact ⟨if_neg hc, .emit rfl rfl⟩
    | _ => cases ht
  · cases e with
    | read k ec data =>
      cases ec with
      | some e => cases ht
      | none => exact read_schedules hr ht
    | write k ec =>
      cases ec with
      | some e => cases ht
      | none =>
        obtain ⟨op, hop, rfl⟩ := Option.map_eq_some_iff.1 ht
        change cls.event (.write k none) c.state = some r at hr
        unfold SessionClass.event at hr
        simp only [hop, Option.some.injEq] at hr
        obtain rfl := hr
        refine ⟨rfl, .emit (e := .writeCompleted op none) ?_ rfl⟩
        rw [Session.consumeWrite_eq]
        rfl
    | derived e => exact e.elim
  · cases f with
    | readValue g =>
      simp only [scheduledAt, hst, Option.some.injEq] at ht
      obtain rfl := ht
      exact ⟨rfl, .of_log rfl⟩
    | readError g => simp [scheduledAt, hst] at ht
    | derived f => exact f.elim

/-- A step that does not come to schedule starts nothing. -/
theorem step_unscheduled {c c' : Kind.can.Config} {l : Kind.can.Label}
    (hs : cls.program.step c l = some c') (ht : scheduledAt c l = none) :
    Unstarted c.state c'.state := by
  rcases Strand.Program.step_cases hs with ⟨x, rfl, rfl⟩ | ⟨e, r, rfl, -, hr, rfl⟩ |
    ⟨f, st, rfl, hst, rfl⟩
  · cases x with
    | setReadHandler | stopReading => exact .of_log rfl
    | startReading =>
      simp only [scheduledAt, ite_eq_left_iff, reduceCtorEq, imp_false, not_not] at ht
      exact .of_log (congrArg Session.log (if_pos ht))
    | send m =>
      simp only [scheduledAt, ite_eq_left_iff, reduceCtorEq, imp_false, not_not] at ht
      exact .of_log (congrArg Session.log (if_pos ht))
    | close => exact .close c.state
    | derived x =>
      cases x with
      | «open» res config =>
        have hlog : (CanSession.open res config c.state).1.log = c.state.log := by
          obtain ⟨d, hd⟩ := open_members res config c.state
          rw [hd]
        exact .of_log hlog
  · cases e with
    | read k ec data =>
      obtain ⟨op, d, hop, hfill, rfl⟩ := SessionClass.event_read_eq hr
      have hdone : Unstarted c.state
          { c.state with
            derived := d
            reads := c.state.reads.eraseIdx k
            log := c.state.log ++ [.readCompleted ec data] } := .emit rfl rfl
      change fill op data c.state.derived = some d at hfill
      refine hdone.trans ?_
      show Unstarted _ (CanSession.onRead ec data.length _).1
      unfold CanSession.onRead
      cases ec with
      | some e => exact .failRead e _
      | none =>
        dsimp only [Session.markReadFinished]
        split
        · exact .failRead _ _
        · next frame hok =>
          cases hh : c.state.readHandler with
          | some g =>
            refine .emit (e := .notified none frame) ?_ rfl
            simp [Hooks.deliverRead, Session.emit]
          | none => simp [scheduledAt, hh, hop, hfill, hok, Except.toOption] at ht
    | write k ec =>
      change cls.event (.write k ec) c.state = some r at hr
      unfold SessionClass.event at hr
      cases hop : c.state.writes[k]? with
      | none => simp [hop] at hr
      | some op =>
        simp only [hop, Option.some.injEq] at hr
        obtain rfl := hr
        cases ec with
        | none => simp [scheduledAt, hop] at ht
        | some e =>
          have hdone : Unstarted c.state (c.state.writeDone k op (some e)) := .emit rfl rfl
          exact hdone.trans (.close _)
    | derived e => exact e.elim
  · cases f with
    | readValue g => simp [scheduledAt, hst] at ht
    | readError g => exact .close c.state
    | derived f => exact f.elim

/-- **A rejected frame stops the session.**  What has been written are the images of
    the first frames pushed, none of them rejected; and a step that comes to schedule
    with a rejected frame at the front of the queue closes the session, with an empty
    queue and no write in progress, and neither this step nor any later one initiates
    a read or a write.  The steps that do not come to schedule initiate nothing. -/
theorem rejected_frame_stops {s : CanSession} {c : Kind.can.Config} (hs : Kind.can.Created s)
    (h : Kind.can.Run (fun _ _ => True) ⟨s, []⟩ c) :
    (∃ sent, sent <+: c.state.pushed.map Queued.message ∧
      sent.map (encodeFrame s.derived.config.enableCanFd) =
        c.state.writeOps.map fun op => some op.bytes) ∧
    (∀ l c' t, cls.program.step c l = some c' → scheduledAt c l = some t → Rejects t →
      c'.state.closed = true ∧ c'.state.writeQueue = [] ∧ c'.state.writeInProgress = false ∧
        ∀ c'', Kind.can.Run (fun _ _ => True) c' c'' → StaysClosed c.state c''.state) ∧
    ∀ l c', cls.program.step c l = some c' → scheduledAt c l = none →
      Unstarted c.state c'.state := by
  refine ⟨(run_encodes hs h).initial (Kind.ReachableBy.kept ⟨s, hs, h⟩), ?_,
    fun _ _ => step_unscheduled⟩
  intro l c' t hstep ht hrej
  obtain ⟨hstate, es, hl, hes⟩ := step_schedules hstep ht
  obtain ⟨hw, -, hopen⟩ := canStartWrite_eq_true.1 hrej.1
  obtain ⟨d, hd⟩ := Hooks.closeHook_eq t hooks_lawful
  have hc' : c'.state = { t.shut with derived := d } := by
    rw [hstate, schedule_rejects hrej]
    refine hd.trans ?_
    rw [Session.shutOnce, if_neg (by simp [hopen])]
  have hclosed : c'.state.closed = true := by rw [hc']; rfl
  have hstays : StaysClosed c.state c'.state := by
    refine ⟨hclosed, es ++ [.closeRun, .closeTransport], ?_, ?_⟩
    · rw [hc', ← List.append_assoc, ← hl]
      rfl
    · intro e he
      rcases List.mem_append.1 he with he | he
      · exact hes e he
      · rcases List.mem_cons.1 he with rfl | he
        · rfl
        · rw [List.mem_singleton.1 he]
          rfl
  refine ⟨hclosed, by rw [hc']; rfl, by rw [hc']; exact hw, fun c'' hr => ?_⟩
  exact hstays.trans (StaysClosed.acts hooks_lawful (SessionClass.run_acts lawful hr) hclosed)

/-- A classic frame with nine bytes of data is sent. -/
theorem rejected_frame_stops_sent : ∃ c c' : Kind.can.Config, isOpen c.state = true ∧
    c'.state.pushed.length = 1 ∧ c'.state.closed = true ∧ c'.state.writeQueue = [] ∧
      StaysClosed c.state c'.state := by
  obtain ⟨s, hs⟩ : ∃ s, create ⟨.ok 3, fun _ => none, .ok 1, none, none⟩ {} = some s := ⟨_, rfl⟩
  have hr : Kind.can.Run (fun _ _ => True) ⟨s, []⟩ ⟨s, []⟩ := .refl
  have hc : s.closed = false := by
    obtain ⟨d, rfl⟩ := create_derived hs
    rfl
  have hrej : Rejects (s.pushBack { dataLength := 9 }) := by
    cases hs
    exact ⟨rfl, _, rfl, rfl⟩
  obtain ⟨hclosed, hqueue, -, hstays⟩ := (rejected_frame_stops ⟨_, _, hs⟩ hr).2.1
    (.call (.send { dataLength := 9 })) _ _ (Strand.Program.step_call _ _)
    (if_neg (by simp [hc])) hrej
  refine ⟨⟨s, []⟩, _, ?_, ?_, hclosed, hqueue, hstays _ .refl⟩ <;> cases hs
  · rfl
  · decide +kernel

end CanSession

end TransitSession
