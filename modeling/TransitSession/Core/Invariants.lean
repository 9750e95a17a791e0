/-
  What every session keeps, proved for one action of `Act`.

  * `Mirrored`: at most one read and one write are outstanding, and the flags
    tell which;
  * `ClosedOk`: a closed session reads and sends nothing, and `close()` has
    called `close_transport()` once; `StaysClosed`: it stays so;
  * `Refines`: the history of a session is a run of the outbox (Lib/Outbox), and
    its queue are the messages that the outbox still has to write.

  `run_kept` collects them for every run of a lawful session class from a fresh
  session.
-/
import TransitSession.Core.Actions
import TransitSession.Lib.Outbox

namespace TransitSession

variable {D R W C E F : Type}

/-! ## The history of a session -/

/-- The entry of the outbox that an element of the queue stands for. -/
def Queued.entry (q : Queued W) : W × ℕ := (q.message, q.pos)

theorem Queued.entry_inj {q q' : Queued W} : q.entry = q'.entry ↔ q = q' := by
  cases q; cases q'; simp [Queued.entry, and_comm]

/-- The operation of the outbox that an event of a session is. -/
def Event.op? : Event D R W → Option (Outbox.Op W)
  | .pushed q => some (.accept q.pos q.message)
  | .writeStarted op _ _ => some (.start op.element.pos op.element.message)
  | .writeCompleted op none => some (.finish op.element.pos op.element.message)
  | .writeCompleted op (some _) => some (.fail op.element.pos)
  | .closeTransport => some .shut
  | _ => none

namespace Session

/-- The history of a session, as operations of the outbox. -/
def ops (s : Session D R W) : List (Outbox.Op W) := s.log.filterMap Event.op?

/-- The elements whose write was initiated, in order. -/
def startedWrites (s : Session D R W) : List (Queued W) :=
  s.log.filterMap fun | .writeStarted op _ _ => some op.element | _ => none

/-- The elements whose write completed without error, in order. -/
def completedWrites (s : Session D R W) : List (Queued W) :=
  s.log.filterMap fun | .writeCompleted op none => some op.element | _ => none

theorem accepts_ops (s : Session D R W) : Outbox.accepts s.ops = s.pushed.map Queued.entry := by
  unfold Outbox.accepts ops pushed
  rw [List.filterMap_filterMap, List.map_filterMap]
  refine List.filterMap_congr fun e _ => ?_
  rcases e with _ | _ | _ | _ | ⟨_, _ | _⟩ | _ | _ | _ <;> rfl

theorem starts_ops (s : Session D R W) :
    Outbox.starts s.ops = s.startedWrites.map Queued.entry := by
  unfold Outbox.starts ops startedWrites
  rw [List.filterMap_filterMap, List.map_filterMap]
  refine List.filterMap_congr fun e _ => ?_
  rcases e with _ | _ | _ | _ | ⟨_, _ | _⟩ | _ | _ | _ <;> rfl

theorem finishes_ops (s : Session D R W) :
    Outbox.finishes s.ops = s.completedWrites.map Queued.entry := by
  unfold Outbox.finishes ops completedWrites
  rw [List.filterMap_filterMap, List.map_filterMap]
  refine List.filterMap_congr fun e _ => ?_
  rcases e with _ | _ | _ | _ | ⟨_, _ | _⟩ | _ | _ | _ <;> rfl

theorem consumeWrite_eq (s : Session D R W) :
    s.consumeWrite = { s with writeQueue := s.writeQueue.tail } := by
  unfold consumeWrite
  split_ifs with h
  · rw [List.isEmpty_iff] at h
    cases s; simp_all
  · rfl

end Session

/-! ## One outstanding operation per direction -/

/-- The flags tell which operations are outstanding. -/
structure Mirrored (s : Session D R W) : Prop where
  reads : s.reads.length = if s.readInProgress then 1 else 0
  writes : s.writes.length = if s.writeInProgress then 1 else 0

namespace Mirrored
variable {s s' : Session D R W}

theorem reads_nil (h : Mirrored s) : s.reads = [] ↔ s.readInProgress = false := by
  rw [← List.length_eq_zero_iff, h.reads]
  cases s.readInProgress <;> simp

theorem writes_nil (h : Mirrored s) : s.writes = [] ↔ s.writeInProgress = false := by
  rw [← List.length_eq_zero_iff, h.writes]
  cases s.writeInProgress <;> simp

/-- The completed read was the only one. -/
theorem reads_eq (h : Mirrored s) {k : ℕ} {op : ReadOp} (hk : s.reads[k]? = some op) :
    s.reads = [op] ∧ s.reads.eraseIdx k = [] ∧ s.readInProgress = true := by
  obtain ⟨hlt, he⟩ := List.getElem?_eq_some_iff.1 hk
  have hl := h.reads
  cases hr : s.readInProgress with
  | false => simp [hr] at hl; simp [hl] at hlt
  | true =>
    obtain ⟨a, ha⟩ := List.length_eq_one_iff.1 (hl.trans (by simp [hr]))
    have hk0 : k = 0 := by simp [ha] at hlt; omega
    subst hk0
    simp only [ha, List.getElem_cons_zero] at he
    simp [ha, he]

/-- The completed write was the only one. -/
theorem writes_eq (h : Mirrored s) {k : ℕ} {op : WriteOp W} (hk : s.writes[k]? = some op) :
    s.writes = [op] ∧ s.writes.eraseIdx k = [] ∧ s.writeInProgress = true := by
  obtain ⟨hlt, he⟩ := List.getElem?_eq_some_iff.1 hk
  have hl := h.writes
  cases hw : s.writeInProgress with
  | false => simp [hw] at hl; simp [hl] at hlt
  | true =>
    obtain ⟨a, ha⟩ := List.length_eq_one_iff.1 (hl.trans (by simp [hw]))
    have hk0 : k = 0 := by simp [ha] at hlt; omega
    subst hk0
    simp only [ha, List.getElem_cons_zero] at he
    simp [ha, he]

theorem shutOnce (h : Mirrored s) : Mirrored s.shutOnce := by
  unfold Session.shutOnce
  split_ifs <;> exact ⟨h.reads, h.writes⟩

theorem writeDone (h : Mirrored s) {k : ℕ} {op : WriteOp W} (hk : s.writes[k]? = some op)
    (ec : ErrorCode) : Mirrored (s.writeDone k op ec) :=
  ⟨h.reads, by simp [Session.writeDone, (h.writes_eq hk).2.1]⟩

theorem act {H : Hooks D R W F} (hH : H.Lawful) (ha : Act H s s') (h : Mirrored s) :
    Mirrored s' := by
  cases ha with
  | members | setHandler | enable | disable | push | notify => exact ⟨h.reads, h.writes⟩
  | startRead op hc =>
    have hr := h.reads_nil.2 (hH.canStartRead_core hc).2.1
    exact ⟨by simp [Session.asyncRead, Session.markReadStarted, hr], h.writes⟩
  | startWrite q bytes hc _ =>
    have hw := h.writes_nil.2 (hH.canStartWrite_core hc).1
    exact ⟨h.reads, by simp [Session.asyncWrite, Session.markWriteStarted, hw]⟩
  | close => exact h.shutOnce
  | readDone k op ec data hk =>
    exact ⟨by simp [Session.readDone, (h.reads_eq hk).2.1], h.writes⟩
  | writeDone k op hk =>
    have := h.writeDone hk none
    rw [Session.consumeWrite_eq]; exact ⟨this.reads, this.writes⟩
  | writeFailed k op e hk => exact (h.writeDone hk _).shutOnce

end Mirrored

/-! ## Closed sessions -/

def Event.isCloseTransport : Event D R W → Bool
  | .closeTransport => true
  | _ => false

/-- A read or a write was initiated. -/
def Event.isStart : Event D R W → Bool
  | .readStarted .. | .writeStarted .. => true
  | _ => false

/-- The number of times `close()` called `close_transport()`. -/
def Session.closeTransportCount (s : Session D R W) : ℕ := s.log.countP Event.isCloseTransport

/-- A closure of `close()` has run. -/
def Session.CloseRan (s : Session D R W) : Prop := Event.closeRun ∈ s.log

/-- A closed session reads and sends nothing; it was closed by `close()`, which
    called `close_transport()` once. -/
structure ClosedOk (s : Session D R W) : Prop where
  enabled : s.closed = true → s.readEnabled = false
  queue : s.closed = true → s.writeQueue = []
  count : s.closeTransportCount = if s.closed then 1 else 0
  ran : s.CloseRan ↔ s.closed = true

namespace ClosedOk
variable {s s' : Session D R W}

/-- Events other than those of `close()` do not matter. -/
theorem emit (h : ClosedOk s) {e : Event D R W} (he : e ≠ .closeRun) (he' : e ≠ .closeTransport)
    (s' : Session D R W) (hl : s'.log = s.log ++ [e]) (hc : s'.closed = s.closed)
    (hr : s.closed = true → s'.readEnabled = s.readEnabled)
    (hq : s.closed = true → s'.writeQueue = []) : ClosedOk s' where
  enabled hc' := by rw [hc] at hc'; rw [hr hc']; exact h.enabled hc'
  queue hc' := by rw [hc] at hc'; exact hq hc'
  count := by
    have := h.count
    unfold Session.closeTransportCount at this ⊢
    rw [hl, hc, List.countP_append, this]
    cases e <;> simp [Event.isCloseTransport] at he' ⊢
  ran := by
    have := h.ran
    unfold Session.CloseRan at this ⊢
    rw [hl, hc, ← this]
    simp [List.mem_append, Ne.symm he]

theorem shutOnce (h : ClosedOk s) : ClosedOk s.shutOnce := by
  unfold Session.shutOnce
  split_ifs with hc
  · refine ⟨h.enabled, h.queue, ?_, ?_⟩
    · have := h.count
      unfold Session.closeTransportCount at this
      show (s.log ++ [Event.closeRun]).countP Event.isCloseTransport = if s.closed then 1 else 0
      rw [List.countP_append, this]; rfl
    · simp [Session.CloseRan, Session.emit, hc]
  · refine ⟨fun _ => rfl, fun _ => rfl, ?_, by simp [Session.CloseRan, Session.shut]⟩
    have := h.count
    simp only [Session.closeTransportCount, Session.shut, List.countP_append] at this ⊢
    simp [this, hc, Event.isCloseTransport, List.countP_cons]

theorem act {H : Hooks D R W F} (ha : Act H s s') (h : ClosedOk s) : ClosedOk s' := by
  cases ha with
  | members | setHandler => exact ⟨h.enabled, h.queue, h.count, h.ran⟩
  | enable hc => exact ⟨fun hc' => by simp [hc] at hc', h.queue, h.count, h.ran⟩
  | disable => exact ⟨fun _ => rfl, h.queue, h.count, h.ran⟩
  | push m hc =>
    exact h.emit (by simp) (by simp) _ rfl rfl (fun _ => rfl) fun hc' => by simp [hc] at hc'
  | notify => exact h.emit (by simp) (by simp) _ rfl rfl (fun _ => rfl) h.queue
  | startRead op hc =>
    exact h.emit (by simp) (by simp) _ rfl rfl (fun _ => rfl) h.queue
  | startWrite q bytes hc _ =>
    exact h.emit (by simp) (by simp) _ rfl rfl (fun _ => rfl) h.queue
  | close => exact h.shutOnce
  | readDone => exact h.emit (by simp) (by simp) _ rfl rfl (fun _ => rfl) h.queue
  | writeDone k op hk =>
    rw [Session.consumeWrite_eq]
    exact h.emit (by simp) (by simp) _ rfl rfl (fun _ => rfl) fun hc => by
      simp [Session.writeDone, h.queue hc]
  | writeFailed k op e hk =>
    refine ClosedOk.shutOnce (s := s.writeDone k op (some e)) ?_
    exact h.emit (by simp) (by simp) _ rfl rfl (fun _ => rfl) h.queue

end ClosedOk

/-- A closed session stays closed and starts nothing. -/
def StaysClosed (s s' : Session D R W) : Prop :=
  s'.closed = true ∧ ∃ es, s'.log = s.log ++ es ∧ ∀ e ∈ es, e.isStart = false

namespace StaysClosed
variable {s s' s'' : Session D R W}

theorem refl (hc : s.closed = true) : StaysClosed s s :=
  ⟨hc, [], by simp, by simp⟩

theorem trans (h : StaysClosed s s') (h' : StaysClosed s' s'') : StaysClosed s s'' := by
  obtain ⟨-, es, hl, hes⟩ := h
  obtain ⟨hc, es', hl', hes'⟩ := h'
  refine ⟨hc, es ++ es', by rw [hl', hl, List.append_assoc], ?_⟩
  intro e he
  rcases List.mem_append.1 he with he | he
  exacts [hes e he, hes' e he]

theorem emit {e : Event D R W} (hc : s'.closed = true) (hl : s'.log = s.log ++ [e])
    (he : e.isStart = false) : StaysClosed s s' :=
  ⟨hc, [e], hl, by simpa using he⟩

theorem act {H : Hooks D R W F} (hH : H.Lawful) (ha : Act H s s') (hc : s.closed = true) :
    StaysClosed s s' := by
  cases ha with
  | members | setHandler | disable => exact refl hc
  | enable ho | push _ ho => rw [hc] at ho; cases ho
  | startRead _ hs =>
    have := (hH.canStartRead_core hs).2.2
    rw [hc] at this; cases this
  | startWrite _ _ hs =>
    have := (hH.canStartWrite_core hs).2.2
    rw [hc] at this; cases this
  | close =>
    rw [Session.shutOnce, if_pos hc]
    exact emit hc rfl rfl
  | notify => exact emit hc rfl rfl
  | readDone => exact emit hc rfl rfl
  | writeDone =>
    rw [Session.consumeWrite_eq]
    exact emit hc rfl rfl
  | writeFailed k op e =>
    have h : StaysClosed s (s.writeDone k op (some e)) := emit hc rfl rfl
    rw [Session.shutOnce, if_pos h.1]
    exact h.trans (emit h.1 rfl rfl)

theorem acts {H : Hooks D R W F} (hH : H.Lawful) (ha : Acts H s s') (hc : s.closed = true) :
    StaysClosed s s' := by
  induction ha with
  | refl => exact refl hc
  | tail _ ha ih => exact ih.trans (act hH ha ih.1)

end StaysClosed

/-! ## Refinement of the outbox -/

/-- The session `s` has the history and the state of the outbox `b`. -/
structure Refines (s : Session D R W) (b : Outbox.Box W) : Prop where
  runs : Outbox.Runs s.ops b
  shut : s.closed = b.shut
  /-- an open session queues what the outbox still has to write -/
  queue : s.closed = false → s.writeQueue.map Queued.entry = b.waiting
  idle : s.writes = [] → b.failed = true ∨ b.started = b.finished
  /-- the write outstanding is that of the first message not finished -/
  flight : ∀ op ∈ s.writes, b.failed = false ∧ b.finished < b.started ∧
    b.entries[b.finished]? = some op.element.entry

namespace Refines
variable {s s' : Session D R W} {b : Outbox.Box W}

/-- The next element to be pushed has the position of the next message. -/
theorem pushed_length (h : Refines s b) : s.pushed.length = b.accepted.length := by
  have := congrArg List.length (s.accepts_ops.symm.trans h.runs.accepts_eq)
  simpa using this

/-- Changes that the outbox does not see. -/
theorem congr (h : Refines s b) (ho : s'.ops = s.ops) (hc : s'.closed = s.closed)
    (hq : s'.writeQueue = s.writeQueue) (hw : s'.writes = s.writes) : Refines s' b where
  runs := ho ▸ h.runs
  shut := hc.trans h.shut
  queue hc' := by rw [hq]; exact h.queue (hc ▸ hc')
  idle hw' := h.idle (hw ▸ hw')
  flight op hop := h.flight op (hw ▸ hop)

theorem push (h : Refines s b) (m : W) (hc : s.closed = false) :
    Refines (s.pushBack m) (b.accept m) where
  runs := by
    have := h.runs.accept m (h.shut ▸ hc)
    simpa [Session.ops, Session.pushBack, Event.op?, h.pushed_length] using this
  shut := h.shut
  queue _ := by
    have hf : b.finished ≤ b.entries.length := by
      have := b.finished_le; have := b.started_le_length; simp; omega
    have hq := h.queue hc
    simp only [Outbox.Box.waiting] at hq
    simp only [Session.pushBack, List.map_append, hq, Outbox.Box.waiting, Outbox.Box.accept,
      Outbox.Box.entries, List.zipIdx_append] at hf ⊢
    rw [List.drop_append_of_le_length hf]
    simp [Queued.entry, h.pushed_length]
  idle := h.idle
  flight op hop := by
    obtain ⟨h1, h2, h3⟩ := h.flight op hop
    refine ⟨h1, h2, ?_⟩
    simp only [Outbox.Box.entries, Outbox.Box.accept, List.zipIdx_append] at h3 ⊢
    rw [List.getElem?_append_left (List.getElem?_eq_some_iff.1 h3).1]
    exact h3

/-- The first message not finished, as an element of the queue. -/
theorem front_eq {q : Queued W} (h : b.entries[b.finished]? = some q.entry) :
    q.pos = b.finished ∧ b.accepted[b.finished]? = some q.message := by
  obtain ⟨hlt, he⟩ := List.getElem?_eq_some_iff.1 h
  simp only [Outbox.Box.entries, List.getElem_zipIdx, Queued.entry, Prod.mk.injEq] at he
  exact ⟨by omega, List.getElem?_eq_some_iff.2 ⟨_, he.1⟩⟩

theorem startWrite (h : Refines s b) {q : Queued W} (bytes : List UInt8)
    (hc : s.closed = false) (hw : s.writes = []) (hq : s.currentWrite = some q) :
    ∃ b', Refines (s.markWriteStarted.asyncWrite ⟨q, bytes⟩) b' := by
  have hshut : b.shut = false := h.shut ▸ hc
  have hfailed : b.failed = false := by
    by_contra hf
    rw [b.failed_shut (by simpa using hf)] at hshut; cases hshut
  have hidle : b.started = b.finished := (h.idle hw).resolve_left (by simp [hfailed])
  -- the front of the queue is the first message not finished
  have hfront : b.entries[b.finished]? = some q.entry := by
    have := congrArg List.head? (h.queue hc)
    rw [List.head?_map, show s.writeQueue.head? = some q from hq, Outbox.Box.waiting,
      List.head?_drop] at this
    exact this.symm
  obtain ⟨hpos, hmsg⟩ := front_eq hfront
  obtain ⟨hlt, hstart⟩ := List.getElem?_eq_some_iff.1 (hidle ▸ hmsg)
  refine ⟨b.start hidle hlt, ?_, h.shut, h.queue, fun hn => ?_, fun op hop => ?_⟩
  · have := h.runs.start hidle hlt hshut hstart
    simpa [Session.ops, Session.asyncWrite, Session.markWriteStarted, Event.op?, hpos,
      hidle] using this
  · simp [Session.asyncWrite] at hn
  · simp only [Session.asyncWrite, Session.markWriteStarted, hw, List.nil_append,
      List.mem_singleton] at hop
    subst hop
    exact ⟨hfailed, by simp only [Outbox.Box.start]; omega, hfront⟩

theorem shutOnce (h : Refines s b) : ∃ b', Refines s.shutOnce b' := by
  unfold Session.shutOnce
  split_ifs with hc
  · exact ⟨b, h.congr (by simp [Session.ops, Session.emit, Event.op?]) rfl rfl rfl⟩
  · refine ⟨b.close, ?_, rfl, fun hc' => by simp [Session.shut] at hc', h.idle, h.flight⟩
    simpa [Session.ops, Session.shut, Event.op?, List.filterMap_cons] using h.runs.shut

theorem writeDone (h : Refines s b) (hm : Mirrored s) {k : ℕ} {op : WriteOp W}
    (hk : s.writes[k]? = some op) : ∃ b', Refines (s.writeDone k op none).consumeWrite b' := by
  obtain ⟨hw, hw', -⟩ := hm.writes_eq hk
  obtain ⟨hf, hlt, hfront⟩ := h.flight op (by simp [hw])
  rw [Session.consumeWrite_eq]
  refine ⟨b.finish hlt, ?_, h.shut, fun hc => ?_, fun _ => Or.inr ?_, fun op' hop' => ?_⟩
  · have := h.runs.finish hlt hf (front_eq hfront).2
    simpa [Session.ops, Session.writeDone, Event.op?, (front_eq hfront).1] using this
  · have hq := h.queue hc
    simp only [Session.writeDone, List.map_tail, hq, Outbox.Box.waiting, Outbox.Box.finish,
      List.tail_drop]
    rfl
  · have := b.started_le
    simp only [Outbox.Box.finish]; omega
  · simp [Session.writeDone, hw'] at hop'

theorem writeFailed (h : Refines s b) (hm : Mirrored s) {k : ℕ} {op : WriteOp W} {e : Errc}
    (hk : s.writes[k]? = some op) : ∃ b', Refines (s.writeDone k op (some e)).shutOnce b' := by
  obtain ⟨hw, hw', -⟩ := hm.writes_eq hk
  obtain ⟨hf, hlt, hfront⟩ := h.flight op (by simp [hw])
  have hr := h.runs.fail hlt hf
  rw [← (front_eq hfront).1] at hr
  unfold Session.shutOnce
  split_ifs with hc
  · have hc' : s.closed = true := hc
    refine ⟨b.fail, ?_, by simp [Session.emit, Session.writeDone, hc', Outbox.Box.fail],
      fun hn => by simp [Session.emit, hc] at hn, fun _ => Or.inl rfl, fun op' hop' => ?_⟩
    · simpa [Session.ops, Session.emit, Session.writeDone, Event.op?, List.filterMap_cons] using hr
    · simp [Session.emit, Session.writeDone, hw'] at hop'
  · refine ⟨b.fail.close, ?_, rfl, fun hn => by simp [Session.shut] at hn, fun _ => Or.inl rfl,
      fun op' hop' => ?_⟩
    · simpa [Session.ops, Session.shut, Session.writeDone, Event.op?, List.filterMap_cons] using
        hr.shut
    · simp [Session.shut, Session.writeDone, hw'] at hop'

/-- **Every action is matched by the outbox.** -/
theorem act {H : Hooks D R W F} (hH : H.Lawful) (ha : Act H s s') (hm : Mirrored s)
    (h : Refines s b) : ∃ b', Refines s' b' := by
  cases ha with
  | members | setHandler | enable | disable => exact ⟨b, h.congr rfl rfl rfl rfl⟩
  | push m hc => exact ⟨_, h.push m hc⟩
  | startRead op _ =>
    exact ⟨b, h.congr (by simp [Session.ops, Session.asyncRead, Session.markReadStarted,
      Event.op?]) rfl rfl rfl⟩
  | startWrite q bytes hc hq =>
    obtain ⟨h1, -, h2⟩ := hH.canStartWrite_core hc
    exact h.startWrite bytes h2 (hm.writes_nil.2 h1) hq
  | close => exact h.shutOnce
  | notify => exact ⟨b, h.congr (by simp [Session.ops, Session.emit, Event.op?]) rfl rfl rfl⟩
  | readDone =>
    exact ⟨b, h.congr (by simp [Session.ops, Session.readDone, Event.op?]) rfl rfl rfl⟩
  | writeDone k op hk => exact h.writeDone hm hk
  | writeFailed k op e hk => exact h.writeFailed hm hk

end Refines

/-! ## Every run -/

/-- What every session keeps. -/
structure Kept (s : Session D R W) : Prop where
  mirrored : Mirrored s
  closedOk : ClosedOk s
  refines : ∃ b, Refines s b

theorem Kept.act {H : Hooks D R W F} (hH : H.Lawful) {s s' : Session D R W} (ha : Act H s s')
    (h : Kept s) : Kept s' := by
  obtain ⟨b, hb⟩ := h.refines
  exact ⟨h.mirrored.act hH ha, h.closedOk.act ha, hb.act hH ha h.mirrored⟩

/-- Invariants of the sessions that keep `Kept`. -/
theorem Kept.acts_inv {H : Hooks D R W F} (hH : H.Lawful) {I : Session D R W → Prop}
    {s s' : Session D R W} (ha : Acts H s s') (h : Kept s) (h₀ : I s)
    (hI : ∀ {t t'}, Kept t → Act H t t' → I t → I t') : Kept s' ∧ I s' := by
  induction ha with
  | refl => exact ⟨h, h₀⟩
  | tail _ ha ih => exact ⟨ih.1.act hH ha, hI ih.1 ha ih.2⟩

theorem Kept.acts {H : Hooks D R W F} (hH : H.Lawful) {s s' : Session D R W} (ha : Acts H s s')
    (h : Kept s) : Kept s' :=
  (h.acts_inv hH ha trivial fun _ _ _ => trivial).1

/-- A session on which nothing has happened. -/
def Session.Fresh (s : Session D R W) : Prop := ∃ d, s = { derived := d }

theorem Session.Fresh.kept {s : Session D R W} (h : s.Fresh) : Kept s := by
  obtain ⟨d, rfl⟩ := h
  refine ⟨⟨rfl, rfl⟩, ⟨by simp, fun _ => rfl, rfl, by simp [Session.CloseRan]⟩, .empty, .nil, rfl,
    fun _ => rfl, fun _ => Or.inr rfl, by simp⟩

namespace SessionClass
variable [Inhabited R] {K : SessionClass D R W C E F}

/-- The runs of the sessions of a class. -/
abbrev Guard (_ : SessionClass D R W C E F) :=
  Strand.Program.Guard (Session D R W) (Call W C) (Completion E) (Frame F)

/-- **What every session keeps, in every run.** -/
theorem run_kept (hK : K.Lawful) {ok : K.Guard} {s : Session D R W}
    {c : Strand.Config (Session D R W) (Frame F)} (hs : s.Fresh)
    (h : K.program.Run ok ⟨s, []⟩ c) : Kept c.state :=
  hs.kept.acts hK.toLawful (run_acts hK h)

end SessionClass

end TransitSession
