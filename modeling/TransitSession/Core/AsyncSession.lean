/-
  `AsyncSession` (core/async_session.hpp), the deprecated predecessor of
  `AsyncTransportSession`.

  Every public call is posted, so that its closure never runs inside another one:
  a run is a sequence of closures, in any order, each as a whole.  `open` is the
  one call that runs where it is made.

  `close()` clears `write_queue_`, but the completion handler of a write pops the
  queue without a look at it.  What it pops is the buffer that was written unless
  `close()` ran in between (`pops_what_it_wrote`).
-/
import TransitSession.Core.Session

namespace TransitSession

namespace AsyncSession

def defaultReadBufferSize : ℕ := 1024

inductive DuplexMode where
  | fullDuplex
  | halfDuplex
deriving DecidableEq

/-- A buffer of `write_queue_`; each `send` makes a new one. -/
abbrev Buffer := Queued (List UInt8)

/-- A write that was initiated: the buffer that its completion handler holds, and
    whether a closure of `close()` ran since. -/
structure Write where
  buffer : Buffer
  closedSince : Bool := false
deriving DecidableEq

inductive Event where
  /-- `send` pushed a buffer -/
  | pushed (q : Buffer)
  | writeStarted (q : Buffer)
  /-- the completion handler of the write of `q` called `pop_front()` on `queue` -/
  | popped (queue : List Buffer) (q : Buffer)
  /-- `read_handler_` was invoked -/
  | notified (ec : ErrorCode) (data : List UInt8)
deriving DecidableEq

end AsyncSession

/-- A session; `reads` and `writes` are the operations initiated and not
    completed. -/
structure AsyncSession where
  isOpen : Bool := false
  duplexMode : AsyncSession.DuplexMode := .fullDuplex
  readHandler : Option Handler := none
  readBuffer : List UInt8 := List.replicate AsyncSession.defaultReadBufferSize 0
  writeQueue : List AsyncSession.Buffer := []
  readEnabled : Bool := false
  readInProgress : Bool := false
  writeInProgress : Bool := false
  closed : Bool := false
  reads : List ReadOp := []
  writes : List AsyncSession.Write := []
  log : List AsyncSession.Event := []
deriving DecidableEq

namespace AsyncSession

def emit (s : AsyncSession) (e : Event) : AsyncSession := { s with log := s.log ++ [e] }

/-- The buffers pushed so far. -/
def pushed (s : AsyncSession) : List Buffer :=
  s.log.filterMap fun | .pushed q => some q | _ => none

/-- The queues on which `pop_front()` was called, each with the buffer whose write had
    completed. -/
def popped (s : AsyncSession) : List (List Buffer × Buffer) :=
  s.log.filterMap fun | .popped queue q => some (queue, q) | _ => none

def canStartRead (s : AsyncSession) : Bool :=
  if !s.readEnabled || s.readInProgress || s.closed then false
  else if s.duplexMode = .halfDuplex then !s.writeInProgress && s.writeQueue.isEmpty
  else true

def canStartWrite (s : AsyncSession) : Bool :=
  if s.writeInProgress || s.writeQueue.isEmpty || s.closed then false
  else if s.duplexMode = .halfDuplex then !s.readInProgress
  else true

def doRead (s : AsyncSession) : AsyncSession :=
  { s with readInProgress := true, reads := s.reads ++ [{ size := s.readBuffer.length }] }

/-- `can_start_write` holds, so there is a front element. -/
def doWrite (s : AsyncSession) : AsyncSession :=
  match s.writeQueue with
  | [] => s
  | q :: _ =>
    { s with
      writeInProgress := true
      writes := s.writes ++ [{ buffer := q }]
      log := s.log ++ [.writeStarted q] }

def scheduleOperations (s : AsyncSession) : AsyncSession :=
  let s := if s.canStartWrite then s.doWrite else s
  if s.canStartRead then s.doRead else s

def closeSocket (s : AsyncSession) : AsyncSession :=
  if s.closed then s else { s with closed := true, isOpen := false }

def notifyRead (ec : ErrorCode) (data : List UInt8) (s : AsyncSession) : AsyncSession :=
  if s.readHandler.isSome then s.emit (.notified ec data) else s

def send (msg : List UInt8) (s : AsyncSession) : AsyncSession :=
  let q : Buffer := ⟨s.pushed.length, msg⟩
  scheduleOperations { s with writeQueue := s.writeQueue ++ [q], log := s.log ++ [.pushed q] }

def close (s : AsyncSession) : AsyncSession :=
  closeSocket { s with
    readEnabled := false
    writeQueue := []
    writes := s.writes.map fun w => { w with closedSince := true } }

def setReadBufferSize (n : ℕ) (s : AsyncSession) : AsyncSession :=
  if s.readInProgress || n == 0 then s
  else { s with
    readBuffer := s.readBuffer.take n ++ List.replicate (n - s.readBuffer.length) 0 }

/-- The completion handler of `do_read`; the transport has stored `n` bytes. -/
def onRead (ec : ErrorCode) (n : ℕ) (s : AsyncSession) : AsyncSession :=
  let s := { s with readInProgress := false }
  match ec with
  | some _ => (s.notifyRead ec []).closeSocket
  | none => (s.notifyRead none (s.readBuffer.take n)).scheduleOperations

/-- The completion handler of `do_write`, with the buffer that it holds. -/
def onWrite (ec : ErrorCode) (q : Buffer) (s : AsyncSession) : AsyncSession :=
  let s := { s with writeInProgress := false }
  match ec with
  | some _ => s.closeSocket
  | none =>
    scheduleOperations { s with
      writeQueue := s.writeQueue.tail
      log := s.log ++ [.popped s.writeQueue q] }

/-- The closures of a session, and `open`. -/
inductive Label where
  | open (ec : ErrorCode)
  | setDuplexMode (mode : DuplexMode)
  | setReadHandler (h : Option Handler)
  | setReadBufferSize (n : ℕ)
  | startReading
  | stopReading
  | send (msg : List UInt8)
  | close
  /-- the `k`-th outstanding read completes, and the transport has stored `data` -/
  | readDone (k : ℕ) (ec : ErrorCode) (data : List UInt8)
  /-- the `k`-th outstanding write completes -/
  | writeDone (k : ℕ) (ec : ErrorCode)
deriving DecidableEq

def step (s : AsyncSession) : Label → Option AsyncSession
  | .open ec => some { s with isOpen := s.isOpen || ec.isNone }
  | .setDuplexMode mode => some (scheduleOperations { s with duplexMode := mode })
  | .setReadHandler h => some { s with readHandler := h }
  | .setReadBufferSize n => some (s.setReadBufferSize n)
  | .startReading => some (scheduleOperations { s with readEnabled := true })
  | .stopReading => some { s with readEnabled := false }
  | .send msg => some (s.send msg)
  | .close => some s.close
  | .readDone k ec data =>
    match s.reads[k]? with
    | none => none
    | some op =>
      if data.length ≤ op.size then
        some (onRead ec data.length { s with
          reads := s.reads.eraseIdx k
          readBuffer := (data ++ s.readBuffer.drop data.length).take s.readBuffer.length })
      else none
  | .writeDone k ec =>
    match s.writes[k]? with
    | none => none
    | some w => some (onWrite ec w.buffer { s with writes := s.writes.eraseIdx k })

/-- A run from a new session whose steps all meet `ok`. -/
abbrev Run (ok : AsyncSession → Label → Prop) : AsyncSession → Prop :=
  Transition.Run step ok {}

/-! ## What the completion handler of a write pops -/

/-- Each `pop_front()` took the buffer whose write had completed off the front of the
    queue. -/
def PopsOwn (s : AsyncSession) : Prop := ∀ p ∈ s.popped, p.1.head? = some p.2

/-- A write completes without an error after a closure of `close()` ran. -/
def PopsAfterClose (s : AsyncSession) : Label → Prop
  | .writeDone k none => ∃ w, s.writes[k]? = some w ∧ w.closedSince = true
  | _ => False

/-- The write that is outstanding is that of the front element, or `close()` has
    taken its buffer away and later ones were pushed. -/
structure Consistent (s : AsyncSession) : Prop where
  writes : s.writes.length = if s.writeInProgress then 1 else 0
  front : ∀ w ∈ s.writes, w.closedSince = false → s.writeQueue.head? = some w.buffer
  later : ∀ w ∈ s.writes, w.closedSince = true → ∀ q ∈ s.writeQueue, w.buffer.pos < q.pos
  queued : ∀ q ∈ s.writeQueue, q.pos < s.pushed.length
  written : ∀ w ∈ s.writes, w.buffer.pos < s.pushed.length

namespace Consistent
variable {s s' : AsyncSession}

/-- Changes of other members. -/
theorem congr (h : Consistent s) (hq : s'.writeQueue = s.writeQueue) (hw : s'.writes = s.writes)
    (hp : s'.writeInProgress = s.writeInProgress) (hl : s'.pushed = s.pushed) :
    Consistent s' where
  writes := by rw [hw, hp]; exact h.writes
  front := by rw [hw, hq]; exact h.front
  later := by rw [hw, hq]; exact h.later
  queued := by rw [hq, hl]; exact h.queued
  written := by rw [hw, hl]; exact h.written

theorem writes_nil (h : Consistent s) (hp : s.writeInProgress = false) : s.writes = [] := by
  have := h.writes
  rw [hp] at this
  exact List.length_eq_zero_iff.1 this

/-- The write that completes was the only one. -/
theorem writes_eq (h : Consistent s) {k : ℕ} {w : Write} (hk : s.writes[k]? = some w) :
    w ∈ s.writes ∧ s.writes.eraseIdx k = [] := by
  obtain ⟨hlt, -⟩ := List.getElem?_eq_some_iff.1 hk
  refine ⟨List.mem_of_getElem? hk, List.length_eq_zero_iff.1 ?_⟩
  have hl := h.writes
  rw [List.length_eraseIdx_of_lt hlt]
  split_ifs at hl <;> omega

theorem doWrite (h : Consistent s) (hp : s.writeInProgress = false) :
    Consistent s.doWrite := by
  have hnil := h.writes_nil hp
  unfold AsyncSession.doWrite
  split
  · exact h
  · next q rest hq =>
    have hlen : AsyncSession.pushed { s with
        writeInProgress := true
        writes := s.writes ++ [{ buffer := q }]
        log := s.log ++ [.writeStarted q] } = s.pushed := by
      simp [AsyncSession.pushed]
    have hmem {w : Write} (hw : w ∈ s.writes ++ [{ buffer := q }]) :
        w = { buffer := q } := by simpa [hnil] using hw
    refine ⟨by simp [hnil], fun w hw _ => ?_, fun w hw hc => ?_, ?_, fun w hw => ?_⟩
    · rw [hmem hw, hq]
      rfl
    · rw [hmem hw] at hc
      cases hc
    · rw [hlen]
      exact h.queued
    · rw [hlen, hmem hw]
      exact h.queued q (by simp [hq])

theorem scheduleOperations (h : Consistent s) : Consistent s.scheduleOperations := by
  have hread {t : AsyncSession} (ht : Consistent t) :
      Consistent (if t.canStartRead then t.doRead else t) := by
    split_ifs
    · exact ht.congr rfl rfl rfl rfl
    · exact ht
  refine hread ?_
  split_ifs with hw
  · refine h.doWrite (Bool.eq_false_iff.2 fun hp => ?_)
    simp [canStartWrite, hp] at hw
  · exact h

theorem closeSocket (h : Consistent s) : Consistent s.closeSocket := by
  unfold AsyncSession.closeSocket
  split_ifs
  · exact h
  · exact h.congr rfl rfl rfl rfl

theorem send (h : Consistent s) (msg : List UInt8) : Consistent (s.send msg) := by
  have hlen : AsyncSession.pushed { s with
      writeQueue := s.writeQueue ++ [⟨s.pushed.length, msg⟩]
      log := s.log ++ [.pushed ⟨s.pushed.length, msg⟩] } =
        s.pushed ++ [⟨s.pushed.length, msg⟩] := by
    simp [AsyncSession.pushed]
  refine scheduleOperations ⟨h.writes, fun w hw hc => ?_, fun w hw hc q hq => ?_,
    fun q hq => ?_, fun w hw => ?_⟩
  · -- the front stays where it is
    have hfront := h.front w hw hc
    simp only [List.head?_append, hfront, Option.some_or]
  · rcases List.mem_append.1 hq with hq | hq
    · exact h.later w hw hc q hq
    · rw [List.mem_singleton.1 hq]
      exact h.written w hw
  · rw [hlen, List.length_append, List.length_singleton]
    rcases List.mem_append.1 hq with hq | hq
    · exact Nat.lt_succ_of_lt (h.queued q hq)
    · rw [List.mem_singleton.1 hq]
      exact Nat.lt_succ_self _
  · rw [hlen, List.length_append, List.length_singleton]
    exact Nat.lt_succ_of_lt (h.written w hw)

theorem close (h : Consistent s) : Consistent s.close := by
  refine closeSocket ⟨?_, fun w hw hc => ?_, fun w hw hc q hq => ?_, fun q hq => ?_,
    fun w hw => ?_⟩
  · rw [List.length_map]
    exact h.writes
  · obtain ⟨v, -, rfl⟩ := List.mem_map.1 hw
    cases hc
  · cases hq
  · cases hq
  · obtain ⟨v, hv, rfl⟩ := List.mem_map.1 hw
    exact h.written v hv

theorem notifyRead (h : Consistent s) (ec : ErrorCode) (data : List UInt8) :
    Consistent (s.notifyRead ec data) := by
  unfold AsyncSession.notifyRead
  split_ifs
  · exact h.congr rfl rfl rfl (by simp [AsyncSession.emit, AsyncSession.pushed])
  · exact h

theorem onRead (h : Consistent s) (ec : ErrorCode) (n : ℕ) : Consistent (s.onRead ec n) := by
  have hdone : Consistent { s with readInProgress := false } := h.congr rfl rfl rfl rfl
  unfold AsyncSession.onRead
  cases ec with
  | some e => exact (hdone.notifyRead _ _).closeSocket
  | none => exact (hdone.notifyRead _ _).scheduleOperations

theorem onWrite (h : Consistent s) {k : ℕ} {w : Write} (hk : s.writes[k]? = some w)
    (ec : ErrorCode) :
    Consistent (AsyncSession.onWrite ec w.buffer { s with writes := s.writes.eraseIdx k }) := by
  obtain ⟨-, hnil⟩ := h.writes_eq hk
  unfold AsyncSession.onWrite
  rw [hnil]
  cases ec with
  | some e =>
    exact closeSocket ⟨rfl, fun w hw => (by cases hw), fun w hw => (by cases hw), h.queued,
      fun w hw => (by cases hw)⟩
  | none =>
    have hlen : AsyncSession.pushed { s with
        writes := []
        writeInProgress := false
        writeQueue := s.writeQueue.tail
        log := s.log ++ [.popped s.writeQueue w.buffer] } = s.pushed := by
      simp [AsyncSession.pushed]
    refine scheduleOperations ⟨rfl, fun w hw => (by cases hw), fun w hw => (by cases hw),
      fun q hq => ?_, fun w hw => (by cases hw)⟩
    exact lt_of_lt_of_eq (h.queued q (List.mem_of_mem_tail hq)) (congrArg List.length hlen).symm

theorem step (h : Consistent s) {l : Label} (hs : s.step l = some s') : Consistent s' := by
  cases l with
  | «open» ec | setReadHandler g | stopReading =>
    obtain rfl := Option.some.inj hs
    exact h.congr rfl rfl rfl rfl
  | setDuplexMode mode =>
    obtain rfl := Option.some.inj hs
    exact scheduleOperations (h.congr rfl rfl rfl rfl)
  | setReadBufferSize n =>
    obtain rfl := Option.some.inj hs
    unfold AsyncSession.setReadBufferSize
    split_ifs
    · exact h
    · exact h.congr rfl rfl rfl rfl
  | startReading =>
    obtain rfl := Option.some.inj hs
    exact scheduleOperations (h.congr rfl rfl rfl rfl)
  | send msg =>
    obtain rfl := Option.some.inj hs
    exact h.send msg
  | close =>
    obtain rfl := Option.some.inj hs
    exact h.close
  | readDone k ec data =>
    simp only [AsyncSession.step] at hs
    split at hs
    · cases hs
    · split_ifs at hs
      obtain rfl := Option.some.inj hs
      have hdone : Consistent { s with
          reads := s.reads.eraseIdx k
          readBuffer := (data ++ s.readBuffer.drop data.length).take s.readBuffer.length } :=
        h.congr rfl rfl rfl rfl
      exact hdone.onRead ec data.length
  | writeDone k ec =>
    simp only [AsyncSession.step] at hs
    split at hs
    · cases hs
    · next w hk =>
      obtain rfl := Option.some.inj hs
      exact h.onWrite hk ec

/-- The front of the queue is the buffer that was written iff `close()` did not take it
    away. -/
theorem front_iff (h : Consistent s) {w : Write} (hw : w ∈ s.writes) :
    s.writeQueue.head? = some w.buffer ↔ w.closedSince = false := by
  constructor
  · intro hq
    by_contra hc
    have := h.later w hw (by simpa using hc) w.buffer (List.mem_of_mem_head? hq)
    exact Nat.lt_irrefl _ this
  · exact h.front w hw

end Consistent

@[simp] theorem popped_closeSocket (s : AsyncSession) : s.closeSocket.popped = s.popped := by
  unfold closeSocket
  split_ifs <;> rfl

@[simp] theorem popped_notifyRead (ec : ErrorCode) (data : List UInt8) (s : AsyncSession) :
    (s.notifyRead ec data).popped = s.popped := by
  unfold notifyRead
  split_ifs
  · simp [popped, emit]
  · rfl

@[simp] theorem popped_scheduleOperations (s : AsyncSession) :
    s.scheduleOperations.popped = s.popped := by
  have hread (t : AsyncSession) : (if t.canStartRead then t.doRead else t).popped = t.popped := by
    split_ifs <;> rfl
  refine (hread _).trans ?_
  split_ifs
  · unfold doWrite
    split <;> simp [popped]
  · rfl

/-- Only the completion handler of a write pops. -/
theorem step_popped {s s' : AsyncSession} {l : Label} (hs : s.step l = some s') :
    (∃ k w, l = .writeDone k none ∧ s.writes[k]? = some w ∧
      s'.popped = s.popped ++ [(s.writeQueue, w.buffer)]) ∨
    ((∀ k, l ≠ .writeDone k none) ∧ s'.popped = s.popped) := by
  cases l with
  | «open» ec | setReadHandler g | stopReading =>
    obtain rfl := Option.some.inj hs
    exact Or.inr ⟨fun k h => (by cases h), rfl⟩
  | setDuplexMode mode | startReading =>
    obtain rfl := Option.some.inj hs
    exact Or.inr ⟨fun k h => (by cases h), popped_scheduleOperations _⟩
  | setReadBufferSize n =>
    obtain rfl := Option.some.inj hs
    refine Or.inr ⟨fun k h => (by cases h), ?_⟩
    unfold setReadBufferSize
    split_ifs <;> rfl
  | send msg =>
    obtain rfl := Option.some.inj hs
    refine Or.inr ⟨fun k h => (by cases h), (popped_scheduleOperations _).trans ?_⟩
    simp [popped]
  | close =>
    obtain rfl := Option.some.inj hs
    exact Or.inr ⟨fun k h => (by cases h), popped_closeSocket _⟩
  | readDone k ec data =>
    refine Or.inr ⟨fun k h => (by cases h), ?_⟩
    simp only [step] at hs
    split at hs
    · cases hs
    · split_ifs at hs
      obtain rfl := Option.some.inj hs
      cases ec with
      | some e => exact (popped_closeSocket _).trans (popped_notifyRead _ _ _)
      | none => exact (popped_scheduleOperations _).trans (popped_notifyRead _ _ _)
  | writeDone k ec =>
    simp only [step] at hs
    split at hs
    · cases hs
    · next w hk =>
      obtain rfl := Option.some.inj hs
      cases ec with
      | some e => exact Or.inr ⟨fun k h => (by cases h), popped_closeSocket _⟩
      | none =>
        refine Or.inl ⟨k, w, rfl, hk, (popped_scheduleOperations _).trans ?_⟩
        simp [popped]

theorem run_consistent {ok : AsyncSession → Label → Prop} {s : AsyncSession} (h : Run ok s) :
    Consistent s := by
  refine h.inv (I := Consistent) ?_ fun _ _ _ hc _ hs => hc.step hs
  exact ⟨rfl, fun w hw => (by cases hw), fun w hw => (by cases hw), fun q hq => (by cases hq),
    fun w hw => (by cases hw)⟩

/-- A step pops the right buffer unless a write completes after `close()`. -/
theorem step_popsOwn {s s' : AsyncSession} {l : Label} (h : Consistent s) (hp : PopsOwn s)
    (hs : s.step l = some s') : PopsOwn s' ↔ ¬ PopsAfterClose s l := by
  rcases step_popped hs with ⟨k, w, rfl, hk, he⟩ | ⟨hl, he⟩
  · have hfront := h.front_iff (List.mem_of_getElem? hk)
    have hclose : PopsAfterClose s (.writeDone k none) ↔ w.closedSince = true := by
      simp [PopsAfterClose, hk]
    rw [hclose, Bool.not_eq_true, ← hfront]
    unfold PopsOwn
    rw [he]
    constructor
    · intro hp'
      exact hp' (s.writeQueue, w.buffer) (by simp)
    · intro hq p hp'
      rcases List.mem_append.1 hp' with hp' | hp'
      · exact hp p hp'
      · rw [List.mem_singleton.1 hp']
        exact hq
  · refine iff_of_true (fun p hp' => hp p (he ▸ hp')) fun hc => ?_
    cases l with
    | writeDone k ec =>
      cases ec with
      | some e => exact hc
      | none => exact hl k rfl
    | _ => exact hc

/-- **The completion handler of a write pops what it wrote**, in the runs in which no
    write completes without an error after `close()` ran; and a write that does so
    pops another buffer, or an empty queue. -/
theorem pops_what_it_wrote {s : AsyncSession} (h : Run (fun s l => ¬ PopsAfterClose s l) s) :
    PopsOwn s ∧ ∀ l s', s.step l = some s' → (PopsOwn s' ↔ ¬ PopsAfterClose s l) := by
  suffices hp : PopsOwn s from ⟨hp, fun l s' hs => step_popsOwn (run_consistent h) hp hs⟩
  induction h with
  | refl => exact fun p hp => (by cases hp)
  | step hr hl hs ih => exact (step_popsOwn (run_consistent hr) ih hs).2 hl

theorem pops_what_it_wrote_two : ∃ s : AsyncSession,
    s.popped = [([⟨0, [1]⟩, ⟨1, [2]⟩], ⟨0, [1]⟩)] ∧ PopsOwn s := by
  have hr : Run (fun s l => ¬ PopsAfterClose s l) _ :=
    .step (l := .writeDone 0 none) (.step (l := .send [2]) (.step (l := .send [1])
      .refl id rfl) id rfl) (by rintro ⟨w, hw, hc⟩; cases hw; cases hc) rfl
  exact ⟨_, by decide +kernel, (pops_what_it_wrote hr).1⟩

/-- A message is sent, the session is closed while it is written, and the write
    succeeds: the handler pops an empty queue. -/
theorem pops_after_close : ¬ ∀ s, Run (fun _ _ => True) s → PopsOwn s := by
  intro h
  obtain ⟨s, hs⟩ : ∃ s, Transition.exec step {} [.send [1], .close, .writeDone 0 none] = some s :=
    ⟨_, rfl⟩
  have := h s (Transition.exec_run hs) ([], ⟨0, [1]⟩)
    (by cases hs; decide +kernel)
  cases this

end AsyncSession
end TransitSession
