/-
  A serial session does what its predecessor did.

  `AsyncSession` (core/async_session.hpp) is deprecated; `SerialSession` stands in its
  place.  Whatever closures run, in whatever order, and with read handlers that call
  nothing before they return, the two start the same writes in the same order, start
  the same reads, and tell their read handlers the same things (`simulates`).  They keep
  the same queue only while they are open: a closed `SerialSession` pushes nothing, a
  closed `AsyncSession` pushes what it never writes.  A write that completes after `close()`
  finds the queue of an `AsyncSession` empty, unless something was pushed since: its
  `pop_front()` is undefined then, and leaves the queue empty in the model.
-/
import TransitSession.Core.AsyncSession
import TransitSession.Core.Exchange
import TransitSession.Serial.Configuration
import TransitSession.Serial.HalfDuplex
import Mathlib.Data.List.InsertIdx

namespace TransitSession

namespace AsyncSession

/-- The buffers whose write was initiated. -/
def started (s : AsyncSession) : List Buffer :=
  s.log.filterMap fun | .writeStarted q => some q | _ => none

/-- What the read handler was told. -/
def notified (s : AsyncSession) : List (ErrorCode × List UInt8) :=
  s.log.filterMap fun | .notified ec data => some (ec, data) | _ => none

def DuplexMode.toSerial : DuplexMode → Serial.DuplexMode
  | .fullDuplex => .fullDuplex
  | .halfDuplex => .halfDuplex

/-- The closure of a serial session in the place of one of its predecessor; the port is
    opened by `create`. -/
def Label.input : Label → Option Kind.serial.Label
  | .open _ => none
  | .setDuplexMode mode => some (.call (.derived (.setDuplexMode mode.toSerial)))
  | .setReadHandler h => some (.call (.setReadHandler h))
  | .setReadBufferSize n => some (.call (.derived (.setReadBufferSize n)))
  | .startReading => some (.call .startReading)
  | .stopReading => some (.call .stopReading)
  | .send msg => some (.call (.send msg))
  | .close => some (.call .close)
  | .readDone k ec data => some (.event (.read k ec data))
  | .writeDone k ec => some (.event (.write k ec))

end AsyncSession

namespace SerialSession
open Serial

/-- The members of a session that `create` returned. -/
theorem create_members {openEc : ErrorCode} {res : OptionResults} {config : SerialPortConfig}
    {s : SerialSession} (h : create openEc res config = some s) :
    s.derived.duplexMode = config.duplexMode ∧ s.derived.readPauseForWrite = false ∧
      s.derived.readBuffer =
        (List.replicate defaultReadBufferSize 0).take config.readBufferSize ++
          List.replicate (config.readBufferSize -
            (List.replicate defaultReadBufferSize (0 : UInt8)).length) 0 := by
  unfold create SerialSession.open at h
  dsimp only at h
  rw [applyConfig_eq, if_neg (show ¬ construct.derived.isOpen = true from Bool.false_ne_true)] at h
  cases openEc with
  | some e => cases h
  | none =>
    cases hf : failure res config with
    | some f =>
      rw [hf] at h
      cases h
    | none =>
      rw [hf] at h
      obtain rfl := Option.some.inj h
      exact ⟨rfl, rfl, rfl⟩

/-- The serial session `t` has started and told what its predecessor `s` has. -/
structure Agrees (s : AsyncSession) (t : SerialSession) : Prop where
  mode : t.derived.duplexMode = s.duplexMode.toSerial
  pause : t.derived.readPauseForWrite = false
  buffer : t.derived.readBuffer = s.readBuffer
  handler : t.readHandler = s.readHandler
  reading : t.readInProgress = s.readInProgress
  writing : t.writeInProgress = s.writeInProgress
  closed : t.closed = s.closed
  reads : t.reads.map ReadOp.size = s.reads.map ReadOp.size
  writes : t.writes.map WriteOp.element = s.writes.map AsyncSession.Write.buffer
  started : t.startedWrites = s.started
  told : t.told = s.notified

/-- And while they are open, both have the same still to do. -/
structure Same (s : AsyncSession) (t : SerialSession) : Prop extends Agrees s t where
  enabled : s.closed = false → t.readEnabled = s.readEnabled
  queue : s.closed = false → t.writeQueue = s.writeQueue
  pushed : s.closed = false → t.pushed = s.pushed

namespace Same
variable {s : AsyncSession} {t : SerialSession}

theorem half_iff (h : Same s t) : t.derived.duplexMode = .halfDuplex ↔
    s.duplexMode = .halfDuplex := by
  rw [h.mode]
  cases s.duplexMode <;> simp [AsyncSession.DuplexMode.toSerial]

theorem canStartRead (h : Same s t) : t.canStartRead = s.canStartRead := by
  unfold SerialSession.canStartRead AsyncSession.canStartRead Session.hasPendingWrites
  cases hc : s.closed with
  | true => simp [h.closed, hc]
  | false =>
    simp only [h.enabled hc, h.reading, h.closed, h.writing, h.queue hc, h.half_iff, hc,
      Bool.not_not]

theorem canStartWrite (h : Same s t) : t.canStartWrite = s.canStartWrite := by
  unfold SerialSession.canStartWrite AsyncSession.canStartWrite Session.hasPendingWrites
  cases hc : s.closed with
  | true => simp [h.closed, hc]
  | false =>
    simp only [h.reading, h.closed, h.writing, h.queue hc, h.half_iff, hc, h.pause,
      Bool.not_not, Bool.not_false, Bool.and_true]

/-- Both start the same read. -/
theorem doRead (h : Same s t) : Same s.doRead t.doRead where
  mode := h.mode
  pause := rfl
  buffer := h.buffer
  handler := h.handler
  reading := rfl
  writing := h.writing
  closed := h.closed
  reads := by
    simp [SerialSession.doRead, AsyncSession.doRead, Session.asyncRead, Session.markReadStarted,
      h.reads, h.buffer]
  writes := h.writes
  started := by
    rw [show s.doRead.started = s.started from rfl, ← h.started]
    simp [SerialSession.doRead, Session.startedWrites, Session.asyncRead, Session.markReadStarted]
  told := by
    rw [show s.doRead.notified = s.notified from rfl, ← h.told]
    simp [SerialSession.doRead, Session.told, Session.asyncRead, Session.markReadStarted]
  enabled := h.enabled
  queue := h.queue
  pushed ho := by
    rw [show s.doRead.pushed = s.pushed from rfl, ← h.pushed ho]
    simp [SerialSession.doRead, Session.pushed, Session.asyncRead, Session.markReadStarted]

/-- Both start the same write. -/
theorem startWriting (h : Same s t) :
    Same (if s.canStartWrite then s.doWrite else s) (hooks.startWriting t) := by
  rcases startWriting_eq t with ⟨he, hw⟩ | ⟨q, hw, hq, he⟩ <;> rw [he]
  · rw [if_neg (by rw [← h.canStartWrite, hw]; exact Bool.noConfusion)]
    exact h
  · have ho : s.closed = false := h.closed ▸ (canStartWrite_eq_true.1 hw).2.2.1
    obtain ⟨rest, hs⟩ : ∃ rest, s.writeQueue = q :: rest := by
      rw [h.queue ho] at hq
      exact List.head?_eq_some_iff.1 hq
    have hd : s.doWrite = { s with
        writeInProgress := true
        writes := s.writes ++ [{ buffer := q }]
        log := s.log ++ [.writeStarted q] } := by
      unfold AsyncSession.doWrite
      rw [hs]
    rw [if_pos (h.canStartWrite ▸ hw), hd]
    exact {
      mode := h.mode
      pause := h.pause
      buffer := h.buffer
      handler := h.handler
      reading := h.reading
      writing := rfl
      closed := h.closed
      reads := h.reads
      writes := by simp [Session.asyncWrite, Session.markWriteStarted, h.writes]
      started := by
        have hstarted := h.started
        simp only [Session.startedWrites, AsyncSession.started] at hstarted
        simp [Session.startedWrites, AsyncSession.started, Session.asyncWrite,
          Session.markWriteStarted, hstarted]
      told := by
        have htold := h.told
        simp only [Session.told, AsyncSession.notified] at htold
        simp [Session.told, AsyncSession.notified, Session.asyncWrite, Session.markWriteStarted,
          htold]
      enabled := h.enabled
      queue := fun _ => h.queue ho
      pushed := fun _ => by
        have hpushed := h.pushed ho
        simp only [Session.pushed, AsyncSession.pushed] at hpushed
        simp [Session.pushed, AsyncSession.pushed, Session.asyncWrite, Session.markWriteStarted,
          hpushed] }

theorem schedule (h : Same s t) :
    Same s.scheduleOperations (hooks.scheduleOperations t) := by
  rw [Hooks.schedule_eq]
  unfold AsyncSession.scheduleOperations
  dsimp only
  have hw := h.startWriting
  generalize (if s.canStartWrite then s.doWrite else s) = s₁ at hw ⊢
  generalize hooks.startWriting t = t₁ at hw ⊢
  rw [show hooks.canStartRead t₁ = s₁.canStartRead from hw.canStartRead]
  split_ifs
  exacts [hw.doRead, hw]

/-- Both are closed. -/
theorem close (h : Agrees s t) : Same s.closeSocket (hooks.close t).1 := by
  unfold AsyncSession.closeSocket Hooks.close Session.close
  dsimp only
  rw [h.closed]
  split_ifs with hc
  · have hno {P : Prop} (ho : s.closed = false) : P := by
      rw [ho] at hc
      cases hc
    exact { h with
      started := by simpa [Session.startedWrites, Session.emit] using h.started
      told := by simpa [Session.told, Session.emit] using h.told
      enabled := hno
      queue := hno
      pushed := hno }
  · exact { h with
      closed := rfl
      started := by
        show Session.startedWrites t.shut = s.started
        simpa [Session.startedWrites, Session.shut] using h.started
      told := by
        show Session.told t.shut = s.notified
        simpa [Session.told, Session.shut] using h.told
      enabled := fun ho => by cases ho
      queue := fun ho => by cases ho
      pushed := fun ho => by cases ho }

/-- A predecessor that is closed schedules nothing. -/
theorem schedule_closed (h : Same s t) (hc : s.closed = true) : Same s.scheduleOperations t := by
  have he : s.scheduleOperations = s := by
    unfold AsyncSession.scheduleOperations AsyncSession.canStartWrite AsyncSession.canStartRead
    simp [hc]
  rw [he]
  exact h

theorem startReading (h : Same s t) :
    Same (AsyncSession.scheduleOperations { s with readEnabled := true })
      (hooks.startReading t) := by
  rcases hooks.startReading_eq t with ⟨hc, he⟩ | ⟨hc, he⟩ <;> rw [he]
  · have hc' : s.closed = true := h.closed ▸ hc
    refine schedule_closed { h with enabled := fun ho => ?_ } hc'
    rw [show s.closed = false from ho] at hc'
    cases hc'
  · exact schedule { h with enabled := fun _ => rfl }

theorem send (h : Same s t) (msg : List UInt8) : Same (s.send msg) (hooks.enqueueWrite msg t) := by
  have hstarted : AsyncSession.started { s with
      writeQueue := s.writeQueue ++ [⟨s.pushed.length, msg⟩]
      log := s.log ++ [.pushed ⟨s.pushed.length, msg⟩] } = s.started := by
    simp [AsyncSession.started]
  have hnotified : AsyncSession.notified { s with
      writeQueue := s.writeQueue ++ [⟨s.pushed.length, msg⟩]
      log := s.log ++ [.pushed ⟨s.pushed.length, msg⟩] } = s.notified := by
    simp [AsyncSession.notified]
  unfold AsyncSession.send
  rcases hooks.enqueueWrite_eq t msg with ⟨hc, he⟩ | ⟨hc, he⟩ <;> rw [he]
  · have hc' : s.closed = true := h.closed ▸ hc
    have hno {P : Prop} (ho : s.closed = false) : P := by
      rw [ho] at hc'
      cases hc'
    exact schedule_closed { h with
      started := h.started.trans hstarted.symm
      told := h.told.trans hnotified.symm
      enabled := hno
      queue := hno
      pushed := hno } hc'
  · have ho : s.closed = false := h.closed ▸ hc
    refine schedule { h with
      started := ?_
      told := (t.told_pushBack msg).trans (h.told.trans hnotified.symm)
      queue := fun _ => ?_
      pushed := fun _ => ?_ }
    · rw [hstarted, ← h.started]
      simp [Session.startedWrites, Session.pushBack]
    · show t.writeQueue ++ [⟨t.pushed.length, msg⟩] = _
      rw [h.queue ho, h.pushed ho]
    · rw [Session.pushed_pushBack, h.pushed ho]
      simp [AsyncSession.pushed]

theorem call (h : Same s t) {s' : AsyncSession} {l : AsyncSession.Label}
    (hs : s.step l = some s') {x} (hx : l.input = some (.call x)) : Same s' (cls.call x t).1 := by
  cases l with
  | «open» ec => cases hx
  | setDuplexMode mode =>
    obtain rfl := Option.some.inj hs
    cases hx
    exact schedule { h with mode := rfl }
  | setReadHandler g =>
    obtain rfl := Option.some.inj hs
    cases hx
    exact { h with handler := rfl }
  | setReadBufferSize n =>
    obtain rfl := Option.some.inj hs
    cases hx
    show Same (s.setReadBufferSize n) (setReadBufferSize n t)
    have hguard : (t.readInProgress || n == 0) = (s.readInProgress || n == 0) := by
      rw [h.reading]
    unfold AsyncSession.setReadBufferSize setReadBufferSize
    by_cases hn : (s.readInProgress || n == 0) = true
    · rw [if_pos hn, if_pos (hguard.trans hn)]
      exact h
    · rw [if_neg hn, if_neg (hguard ▸ hn)]
      exact { h with buffer := by simp [State.resize, h.buffer] }
  | startReading =>
    obtain rfl := Option.some.inj hs
    cases hx
    exact h.startReading
  | stopReading =>
    obtain rfl := Option.some.inj hs
    cases hx
    exact { h with enabled := fun _ => rfl }
  | send msg =>
    obtain rfl := Option.some.inj hs
    cases hx
    exact h.send msg
  | close =>
    obtain rfl := Option.some.inj hs
    cases hx
    exact close { h.toAgrees with writes := by rw [h.writes]; simp }
  | readDone => cases hx
  | writeDone => cases hx

theorem close_frame (t : SerialSession) : (hooks.close t).2 = none := by
  unfold Hooks.close Session.close
  dsimp only
  split_ifs <;> rfl

theorem writeDone (h : Same s t) {s' : AsyncSession} {k : ℕ} {ec : ErrorCode}
    (hs : s.step (.writeDone k ec) = some s') :
    ∃ t', cls.event (.write k ec) t = some (t', none) ∧ Same s' t' := by
  simp only [AsyncSession.step] at hs
  split at hs
  · cases hs
  · next w hw =>
    obtain rfl := Option.some.inj hs
    obtain ⟨op, hop, -⟩ : ∃ op, t.writes[k]? = some op ∧ op.element = w.buffer := by
      have hk : (t.writes.map WriteOp.element)[k]? = some w.buffer := by
        rw [h.writes, List.getElem?_map, hw]
        rfl
      rw [List.getElem?_map] at hk
      exact Option.map_eq_some_iff.1 hk
    have hwrites : (t.writes.eraseIdx k).map WriteOp.element =
        (s.writes.eraseIdx k).map AsyncSession.Write.buffer := by
      rw [← List.eraseIdx_map, h.writes, List.eraseIdx_map]
    cases ec with
    | some e =>
      refine ⟨(hooks.close (t.writeDone k op (some e))).1, ?_, ?_⟩
      · simp only [SessionClass.event, hop]
        exact congrArg some (Prod.ext rfl (close_frame _))
      · exact close { h.toAgrees with
          writing := rfl
          writes := hwrites
          started := by
            show Session.startedWrites _ = s.started
            simpa [Session.startedWrites, Session.writeDone] using h.started
          told := by
            show Session.told _ = s.notified
            simpa [Session.told, Session.writeDone] using h.told }
    | none =>
      refine ⟨hooks.scheduleOperations (t.writeDone k op none).consumeWrite, ?_, ?_⟩
      · simp only [SessionClass.event, hop]
        rfl
      · rw [Session.consumeWrite_eq]
        refine schedule { h with
          writing := rfl
          writes := hwrites
          started := ?_
          told := ?_
          queue := fun ho => congrArg List.tail (h.queue ho)
          pushed := fun ho => ?_ }
        · simpa [Session.startedWrites, AsyncSession.started, Session.writeDone] using h.started
        · simpa [Session.told, AsyncSession.notified, Session.writeDone] using h.told
        · simpa [Session.pushed, AsyncSession.pushed, Session.writeDone] using h.pushed ho

/-- What both tell the read handler. -/
theorem notify (h : Same s t) (ec : ErrorCode) (data : List UInt8) {g : Handler}
    (hg : s.readHandler = some g) :
    Same (s.notifyRead ec data) (t.emit (.notified ec data)) := by
  rw [AsyncSession.notifyRead, if_pos (by rw [hg]; rfl)]
  have hp : (s.emit (.notified ec data)).pushed = s.pushed := by
    simp [AsyncSession.emit, AsyncSession.pushed]
  exact { h with
    started := by
      have hstarted := h.started
      simp only [Session.startedWrites, AsyncSession.started] at hstarted
      simp [Session.startedWrites, AsyncSession.started, Session.emit, AsyncSession.emit, hstarted]
    told := by
      have htold := h.told
      rw [Session.told_emit, htold]
      simp [AsyncSession.notified, AsyncSession.emit]
    pushed := fun ho => by
      rw [hp, ← h.pushed ho]
      simp [Session.pushed, Session.emit] }

/-- The completion handlers of reads; the serial session's closes or schedules when the
    read handler has returned. -/
theorem onRead (h : Same s t) (ec : ErrorCode) (n : ℕ) :
    ∃ ls t', cls.program.exec ⟨(cls.onRead ec n t).1, (cls.onRead ec n t).2.toList⟩ ls =
      some ⟨t', []⟩ ∧ ls.filter Strand.Label.isInput = [] ∧ Same (s.onRead ec n) t' := by
  have hdone : Same { s with readInProgress := false } t.markReadFinished :=
    { h with reading := rfl }
  have hp : ¬ (t.markReadFinished.derived.readPauseForWrite = true ∧
      ec = some .operationAborted) := by
    rintro ⟨ht, -⟩
    rw [hdone.pause] at ht
    cases ht
  show ∃ ls t', cls.program.exec ⟨(SerialSession.onRead ec n t).1,
    (SerialSession.onRead ec n t).2.toList⟩ ls = some ⟨t', []⟩ ∧ _ ∧ _
  unfold SerialSession.onRead AsyncSession.onRead
  dsimp only
  rw [if_neg hp, show t.markReadFinished.derived.readBuffer = s.readBuffer from h.buffer]
  generalize s.readBuffer.take n = data
  generalize { s with readInProgress := false } = s₁ at hdone ⊢
  generalize t.markReadFinished = t₁ at hdone ⊢
  cases ec with
  | some e =>
    unfold Hooks.failRead
    cases hg : s₁.readHandler with
    | none =>
      rw [hdone.handler, hg]
      refine ⟨[], (hooks.close t₁).1, ?_, rfl, ?_⟩
      · rw [close_frame]
        rfl
      · rw [AsyncSession.notifyRead, hg]
        exact close hdone.toAgrees
    | some g =>
      rw [hdone.handler, hg]
      refine ⟨[.ret], (hooks.close (t₁.emit (.notified (some e) []))).1, ?_, rfl, ?_⟩
      · exact congrArg (fun f => some (Strand.Config.mk _ (Option.toList f ++ [])))
          (close_frame _)
      · exact close (hdone.notify _ _ hg).toAgrees
  | none =>
    unfold Hooks.deliverRead
    cases hg : s₁.readHandler with
    | none =>
      rw [hdone.handler, hg]
      refine ⟨[], hooks.scheduleOperations t₁, rfl, rfl, schedule ?_⟩
      rw [AsyncSession.notifyRead, hg]
      exact hdone
    | some g =>
      rw [hdone.handler, hg]
      exact ⟨[.ret], _, rfl, rfl, schedule (hdone.notify none data hg)⟩

theorem call_frame (x : Call (List UInt8) DerivedCall) (t : SerialSession) :
    (cls.call x t).2 = none := by
  cases x with
  | setReadHandler | startReading | stopReading | send => rfl
  | close => exact close_frame t
  | derived c => cases c <;> rfl

/-- A completion handler, and what follows it. -/
theorem exec_event {e : Completion Empty} {t : SerialSession} {r : _ × _}
    (he : cls.event e t = some r) (ls : List Kind.serial.Label) :
    cls.program.exec ⟨t, []⟩ (.event e :: ls) = cls.program.exec ⟨r.1, r.2.toList⟩ ls := by
  have hs : cls.program.step ⟨t, []⟩ (.event e) = some ⟨r.1, r.2.toList⟩ :=
    Strand.Program.step_event_iff.2 ⟨rfl, r, he, rfl⟩
  show List.foldlM _ _ _ = _
  rw [List.foldlM_cons, hs]
  rfl

/-- **One closure.** -/
theorem step (h : Same s t) {s' : AsyncSession} {l : AsyncSession.Label} (hs : s.step l = some s') :
    ∃ ls t', cls.program.exec ⟨t, []⟩ ls = some ⟨t', []⟩ ∧
      ls.filter Strand.Label.isInput = l.input.toList ∧ Same s' t' := by
  have hcall {x} (hx : l.input = some (.call x)) : ∃ ls t',
      cls.program.exec ⟨t, []⟩ ls = some ⟨t', []⟩ ∧
        ls.filter Strand.Label.isInput = l.input.toList ∧ Same s' t' := by
    refine ⟨[.call x], (cls.call x t).1, ?_, by rw [hx]; rfl, h.call hs hx⟩
    exact congrArg (fun f => some (Strand.Config.mk _ (Option.toList f ++ []))) (call_frame x t)
  cases l with
  | «open» ec =>
    obtain rfl := Option.some.inj hs
    exact ⟨[], t, rfl, rfl, { h with }⟩
  | setDuplexMode | setReadHandler | setReadBufferSize | startReading | stopReading | send
  | close => exact hcall rfl
  | writeDone k ec =>
    obtain ⟨t', he, hsame⟩ := h.writeDone hs
    exact ⟨[.event (.write k ec)], t', exec_event he [], rfl, hsame⟩
  | readDone k ec data =>
    simp only [AsyncSession.step] at hs
    split at hs
    · cases hs
    · next op hop =>
      split_ifs at hs with hlen
      obtain rfl := Option.some.inj hs
      obtain ⟨op', hop', hsize⟩ : ∃ op', t.reads[k]? = some op' ∧ op'.size = op.size := by
        have hk : (t.reads.map ReadOp.size)[k]? = some op.size := by
          rw [h.reads, List.getElem?_map, hop]
          rfl
        rw [List.getElem?_map] at hk
        exact Option.map_eq_some_iff.1 hk
      have hdone : Same { s with
          reads := s.reads.eraseIdx k
          readBuffer := (data ++ s.readBuffer.drop data.length).take s.readBuffer.length }
        { t with
          derived.readBuffer :=
            (data ++ t.derived.readBuffer.drop data.length).take t.derived.readBuffer.length
          reads := t.reads.eraseIdx k
          log := t.log ++ [.readCompleted ec data] } := { h with
        buffer := by
          show List.take _ _ = List.take _ _
          rw [h.buffer]
        reads := by rw [← List.eraseIdx_map, h.reads, List.eraseIdx_map]
        started := by
          show Session.startedWrites _ = s.started
          simpa [Session.startedWrites] using h.started
        told := by
          show Session.told _ = s.notified
          simpa [Session.told] using h.told
        pushed := fun ho => by
          show Session.pushed _ = s.pushed
          simpa [Session.pushed] using h.pushed ho }
      obtain ⟨ls, t', he, hls, hsame⟩ := hdone.onRead ec data.length
      refine ⟨.event (.read k ec data) :: ls, t', ?_, congrArg (_ :: ·) hls, hsame⟩
      refine (exec_event ?_ ls).trans he
      simp only [SessionClass.event, hop']
      exact congrArg (Option.map _) (if_pos (hsize ▸ hlen))

/-- **A run.** -/
theorem run (h : Same s t) {ls : List AsyncSession.Label} {s' : AsyncSession}
    (hs : Transition.exec AsyncSession.step s ls = some s') : ∃ ls' t',
    cls.program.exec ⟨t, []⟩ ls' = some ⟨t', []⟩ ∧
      ls'.filter Strand.Label.isInput = ls.filterMap AsyncSession.Label.input ∧ Same s' t' := by
  induction ls generalizing s t with
  | nil =>
    obtain rfl := Option.some.inj hs
    exact ⟨[], t, rfl, rfl, h⟩
  | cons l ls ih =>
    simp only [Transition.exec, List.foldlM_cons, bind, Option.bind_eq_some_iff] at hs
    obtain ⟨s₁, h₁, h₂⟩ := hs
    obtain ⟨ls₁, t₁, he₁, hl₁, hsame⟩ := h.step h₁
    obtain ⟨ls₂, t₂, he₂, hl₂, hlast⟩ := ih hsame h₂
    refine ⟨ls₁ ++ ls₂, t₂, (Transition.exec_append he₁).trans he₂, ?_, hlast⟩
    rw [List.filter_append, hl₁, hl₂, List.filterMap_cons]
    cases l.input <;> rfl

/-- A session that was created with the default mode and buffer. -/
theorem created {openEc : ErrorCode} {res : OptionResults} {config : SerialPortConfig}
    (hc : create openEc res config = some t) (hd : config.duplexMode = .fullDuplex)
    (hb : config.readBufferSize = AsyncSession.defaultReadBufferSize) : Same {} t := by
  have hfull : ∀ n, List.take n (List.replicate n (0 : UInt8)) ++
      List.replicate (n - (List.replicate n (0 : UInt8)).length) 0 = List.replicate n 0 := by
    simp
  obtain ⟨d, rfl⟩ := create_derived hc
  obtain ⟨hmode, hpause, hbuffer⟩ := create_members hc
  exact {
    mode := hmode.trans hd
    pause := hpause
    buffer := by
      show d.readBuffer = List.replicate defaultReadBufferSize 0
      rw [hbuffer, hb, show AsyncSession.defaultReadBufferSize = defaultReadBufferSize from rfl]
      exact hfull defaultReadBufferSize
    handler := rfl
    reading := rfl
    writing := rfl
    closed := rfl
    reads := rfl
    writes := rfl
    started := rfl
    told := rfl
    enabled := fun _ => rfl
    queue := fun _ => rfl
    pushed := fun _ => rfl }

end Same

/-- **The predecessor's closures, run by a serial session.**  From a session that was
    created with the default mode and buffer, the same closures start the same operations
    and tell the read handler the same. -/
theorem simulates {openEc : ErrorCode} {res : OptionResults} {config : SerialPortConfig}
    {t₀ : SerialSession} (hc : create openEc res config = some t₀)
    (hd : config.duplexMode = .fullDuplex)
    (hb : config.readBufferSize = AsyncSession.defaultReadBufferSize)
    {ls : List AsyncSession.Label} {s : AsyncSession}
    (hs : Transition.exec AsyncSession.step {} ls = some s) : ∃ ls' t,
    cls.program.exec ⟨t₀, []⟩ ls' = some ⟨t, []⟩ ∧
      ls'.filter Strand.Label.isInput = ls.filterMap AsyncSession.Label.input ∧
      t.startedWrites = s.started ∧ t.told = s.notified ∧
      t.reads.map ReadOp.size = s.reads.map ReadOp.size ∧ t.closed = s.closed ∧
      (s.closed = false → t.writeQueue = s.writeQueue) := by
  obtain ⟨ls', t, he, hl, h⟩ := (Same.created hc hd hb).run hs
  exact ⟨ls', t, he, hl, h.started, h.told, h.reads, h.closed, h.queue⟩

set_option maxRecDepth 8000 in
/-- A buffer is sent and written, and data is read. -/
theorem simulates_one : ∃ (t₀ t : SerialSession) (ls : List AsyncSession.Label) (ls' : _),
    create none {} {} = some t₀ ∧ cls.program.exec ⟨t₀, []⟩ ls' = some ⟨t, []⟩ ∧
      ls'.filter Strand.Label.isInput = ls.filterMap AsyncSession.Label.input ∧
      t.startedWrites = [⟨0, [5]⟩] ∧ t.told = [(none, [7])] := by
  obtain ⟨s, hs, hstarted, hnotified⟩ : ∃ s, Transition.exec AsyncSession.step {}
      [.setReadHandler (some 0), .startReading, .send [5], .readDone 0 none [7],
        .writeDone 0 none] = some s ∧ s.started = [⟨0, [5]⟩] ∧ s.notified = [(none, [7])] :=
    ⟨_, rfl, rfl, rfl⟩
  obtain ⟨t₀, ht₀⟩ : ∃ t₀, create none {} {} = some t₀ := ⟨_, rfl⟩
  obtain ⟨ls', t, he, hl, hw, hr, -⟩ := simulates ht₀ rfl rfl hs
  exact ⟨t₀, t, _, ls', ht₀, he, hl, hw.trans hstarted, hr.trans hnotified⟩

end SerialSession

end TransitSession
