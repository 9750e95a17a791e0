/-
  The buffer of an outstanding write.

  Serial and WebSocket sessions hand the transport a pointer to the front
  element of `write_queue_`, which has to stay there until the write completes
  (`BufferAlive`).  `close()` clears the queue: a session that closes while a
  write is outstanding takes the buffer away (`ClosesInFlight`), and nothing
  else does (`buffers_alive`).
-/
import TransitSession.Core.Fifo
import TransitSession.Core.Scheduling
import TransitSession.Serial.HalfDuplex

namespace TransitSession

variable {D R W C E F : Type}

/-- The front of the queue is the element whose bytes are being written. -/
def BufferAlive (s : Session D R W) : Prop :=
  ∀ op ∈ s.writes, s.writeQueue.head? = some op.element

instance [DecidableEq W] (s : Session D R W) : Decidable (BufferAlive s) :=
  inferInstanceAs (Decidable (∀ op ∈ s.writes, _))

/-- `close()` would clear the queue under a write. -/
def InFlight (s : Session D R W) : Prop := s.closed = false ∧ s.writeInProgress = true

/-- A step that closes the session while a write is outstanding: a call of
    `close()`, the end of a notification of a read error, or a read error
    that nobody is notified of. -/
def ClosesInFlight (c : Strand.Config (Session D R W) (Frame F)) :
    Strand.Label (Call W C) (Completion E) → Prop
  | .call .close => InFlight c.state
  | .event (.read _ (some _) _) => InFlight c.state ∧ c.state.readHandler = none
  | .ret => InFlight c.state ∧ ∃ h st, c.stack = .readError h :: st
  | _ => False

/-- A closed session has no write outstanding. -/
def Dry (s : Session D R W) : Prop := s.closed = true → s.writes = []

namespace SessionClass
variable [Inhabited R] {K : SessionClass D R W C E F}

/-- Every write that may start is started from the queue, and a read without an
    error is delivered. -/
structure WritesInPlace (K : SessionClass D R W C E F) : Prop where
  lawful : K.Lawful
  doWrite_closed : ∀ {s}, K.canStartWrite s = true → (K.doWrite s).closed = s.closed
  onRead_delivers : ∀ n s, ∃ d v,
    K.onRead none n s = K.deliverRead v { s.markReadFinished with derived := d }

namespace WritesInPlace
variable (hK : K.WritesInPlace)
include hK

theorem schedule_closed (s : Session D R W) : (K.scheduleOperations s).closed = s.closed := by
  have hw : (K.startWriting s).closed = s.closed := by
    unfold Hooks.startWriting
    split_ifs with h
    · exact hK.doWrite_closed h
    · rfl
  rw [Hooks.schedule_eq]
  split_ifs with h
  · obtain ⟨d, op, -, he⟩ := hK.lawful.doRead_starts h
    rw [he]; exact hw
  · exact hw

theorem schedule_dry {s : Session D R W} (h : Dry s) : Dry (K.scheduleOperations s) := by
  intro hc
  rw [hK.schedule_closed] at hc
  rw [Hooks.schedule_of_quiet _ (Hooks.quiet_of_closed hK.lawful.toLawful hc)]
  exact h hc

theorem close_dry {s : Session D R W} (hw : s.writes = [] ↔ s.writeInProgress = false)
    (h : Dry s) (hf : ¬ InFlight s) : Dry (K.close s).1 := by
  intro _
  rw [Hooks.close_writes hK.lawful.toLawful]
  cases hc : s.closed with
  | true => exact h hc
  | false => exact hw.2 (Bool.eq_false_iff.2 fun hw => hf ⟨hc, hw⟩)

theorem failRead_dry {s : Session D R W} (e : Errc)
    (hw : s.writes = [] ↔ s.writeInProgress = false) (h : Dry s)
    (hf : s.readHandler = none → ¬ InFlight s) : Dry (K.failRead e s).1 := by
  rcases K.failRead_eq s e with ⟨g, -, he⟩ | ⟨hh, he⟩ <;> rw [he]
  · exact h
  · exact hK.close_dry hw h (hf hh)

theorem deliverRead_dry {s : Session D R W} (value : R) (h : Dry s) :
    Dry (K.deliverRead value s).1 := by
  rcases K.deliverRead_eq s value with ⟨g, he⟩ | he <;> rw [he]
  · exact h
  · exact hK.schedule_dry h

theorem call_dry {c : Strand.Config (Session D R W) (Frame F)} {x : Call W C}
    (hm : Mirrored c.state) (h : Dry c.state)
    (hl : ¬ ClosesInFlight c (.call x : Strand.Label (Call W C) (Completion E))) :
    Dry (K.call x c.state).1 := by
  cases x with
  | setReadHandler | stopReading => exact h
  | startReading =>
    show Dry (K.startReading c.state)
    rcases K.startReading_eq c.state with ⟨-, he⟩ | ⟨-, he⟩ <;> rw [he]
    · exact h
    · exact hK.schedule_dry h
  | send m =>
    show Dry (K.enqueueWrite m c.state)
    rcases K.enqueueWrite_eq c.state m with ⟨-, he⟩ | ⟨-, he⟩ <;> rw [he]
    · exact h
    · exact hK.schedule_dry h
  | close => exact hK.close_dry hm.writes_nil h hl
  | derived x =>
    rcases hK.lawful.callDerived_members x c.state with ⟨⟨d, hd⟩, -⟩ | ⟨d, hd⟩
    · intro hc
      rw [show K.call (.derived x) c.state = K.callDerived x c.state from rfl, hd] at hc ⊢
      exact h hc
    · rw [show K.call (.derived x) c.state = K.callDerived x c.state from rfl, hd]
      exact hK.schedule_dry h

theorem event_dry {c : Strand.Config (Session D R W) (Frame F)} {e : Completion E}
    {r : Session D R W × Option (Frame F)} (hm : Mirrored c.state) (h : Dry c.state)
    (hl : ¬ ClosesInFlight c (.event e : Strand.Label (Call W C) (Completion E)))
    (hr : K.event e c.state = some r) : Dry r.1 := by
  rcases event_cases hK.lawful hr with ⟨k, ec, data, op, d, rfl, -, hread⟩ | ⟨k, op, -, hop, rfl⟩ |
    ⟨k, op, e', -, hop, rfl⟩ | ⟨-, -, ⟨d, hd⟩, -⟩
  · have ht (d : D) : Dry { c.state.readDone k ec data with derived := d } := h
    cases ec with
    | none =>
      obtain ⟨_, _, -, -, rfl⟩ := event_read_eq hr
      obtain ⟨d', v, hv⟩ := hK.onRead_delivers data.length _
      rw [hv]
      exact hK.deliverRead_dry v (ht d')
    | some e' =>
      cases hread with
      | resumed => exact hK.schedule_dry (ht d)
      | failed _ d' e'' =>
        exact hK.failRead_dry e'' hm.writes_nil (ht d') fun hh hf => hl ⟨hf, hh⟩
  · have hw := (hm.writes_eq hop).2.1
    refine hK.schedule_dry fun _ => ?_
    rw [Session.consumeWrite_eq]
    exact hw
  · have hw := (hm.writes_eq hop).2.1
    intro _
    rw [Hooks.close_writes hK.lawful.toLawful]
    exact hw
  · rw [hd]; exact h

theorem resume_dry {c : Strand.Config (Session D R W) (Frame F)} {f : Frame F}
    {st : List (Frame F)} (hm : Mirrored c.state) (h : Dry c.state) (hst : c.stack = f :: st)
    (hl : ¬ ClosesInFlight c (.ret : Strand.Label (Call W C) (Completion E))) :
    Dry (K.resume f c.state).1 := by
  cases f with
  | readError g => exact hK.close_dry hm.writes_nil h fun hf => hl ⟨hf, g, st, hst⟩
  | readValue g => exact hK.schedule_dry h
  | derived f =>
    obtain ⟨⟨d, hd⟩, -⟩ := hK.lawful.resumeDerived_members f c.state
    rw [show K.resume (.derived f) c.state = K.resumeDerived f c.state from rfl, hd]
    exact h

/-- The buffer of an outstanding write stays alive in the runs that do not
    close the session under a write. -/
theorem run_dry {s : Session D R W} {c : Strand.Config (Session D R W) (Frame F)} (hs : s.Fresh)
    (h : K.program.Run (fun c l => ¬ ClosesInFlight c l) ⟨s, []⟩ c) : Dry c.state := by
  induction h with
  | refl =>
    obtain ⟨d, rfl⟩ := hs
    intro _; rfl
  | @step c₁ c₂ l hr hl hstep ih =>
    have hm : Mirrored c₁.state := (run_kept hK.lawful hs hr).mirrored
    rcases Strand.Program.step_cases hstep with ⟨x, rfl, rfl⟩ | ⟨e, r, rfl, -, he, rfl⟩ |
      ⟨f, st, rfl, hst, rfl⟩
    · exact hK.call_dry hm ih hl
    · exact hK.event_dry hm ih hl he
    · exact hK.resume_dry hm ih hst hl

end WritesInPlace
end SessionClass

/-- An open session keeps the buffer alive, and so does one that closed with
    nothing to write. -/
theorem Kept.bufferAlive {s : Session D R W} (h : Kept s) (hd : Dry s) : BufferAlive s := by
  obtain ⟨b, hb⟩ := h.refines
  intro op hop
  refine hb.flight_front (Bool.eq_false_iff.2 fun hc => ?_) hop
  rw [hd hc] at hop; cases hop

/-! ## The sessions that write in place -/

theorem SerialSession.doWrite_closed (s : SerialSession) : s.doWrite.closed = s.closed := by
  unfold doWrite
  split
  · rfl
  · split_ifs <;> rfl

/-- Unless a read was cancelled for a write, its error is reported. -/
theorem SerialSession.onRead_failed {s : SerialSession} {e : Errc} {n : ℕ}
    (hp : s.derived.readPauseForWrite = false) :
    onRead (some e) n s = hooks.failRead e s.markReadFinished := by
  unfold onRead
  rw [if_neg (by simp [Session.markReadFinished, hp])]

theorem WebSocket.StreamSession.doWrite_closed {M : Type} (s : StreamSession M) :
    (StreamSession.doWrite s).closed = s.closed := by
  unfold StreamSession.doWrite
  split <;> rfl

namespace Kind

theorem writesInPlace : ∀ {k : Kind}, k ≠ .can → k.cls.WritesInPlace
  | .serial, _ => by
    refine ⟨Kind.serial.lawful, fun {s} _ => SerialSession.doWrite_closed s, fun n s => ?_⟩
    refine ⟨s.derived, s.derived.readBuffer.take n, ?_⟩
    show SerialSession.onRead none n s = _
    unfold SerialSession.onRead
    rw [if_neg (by simp)]
    rfl
  | .can, h => absurd rfl h
  | .webSocket, _ => ⟨Kind.webSocket.lawful,
      fun {s} _ => WebSocket.StreamSession.doWrite_closed s, fun _ _ => ⟨_, _, rfl⟩⟩
  | .webSocketServer, _ => ⟨Kind.webSocketServer.lawful,
      fun {s} _ => WebSocket.StreamSession.doWrite_closed s, fun _ _ => ⟨_, _, rfl⟩⟩

variable {k : Kind} {c c' : k.Config}

/-- A read error that nobody is notified of closes the session. -/
theorem event_read_closes (hk : k ≠ .can) (h : k.Reachable c) {i : ℕ} {e : Errc}
    {data : List UInt8} {r : Session k.Members k.Value k.Value × Option (Frame k.DerivedFrame)}
    (hr : k.cls.event (.read i (some e) data) c.state = some r) (hn : c.state.readHandler = none) :
    ∃ d, r = k.cls.close { c.state.readDone i (some e) data with derived := d } := by
  have hf (d : k.Members) :
      k.cls.failRead e { c.state.readDone i (some e) data with derived := d } =
        k.cls.close { c.state.readDone i (some e) data with derived := d } := by
    rcases k.cls.failRead_eq { c.state.readDone i (some e) data with derived := d } e with
      ⟨g, hg, -⟩ | ⟨-, he⟩
    · cases hn.symm.trans hg
    · exact he
  obtain ⟨op, d, -, hd, rfl⟩ := SessionClass.event_read_eq hr
  refine ⟨d, ?_⟩
  cases k with
  | serial =>
    -- the branch of cancelled reads is never taken
    have hp : d.readPauseForWrite = false := by
      change SerialSession.fill op data c.state.derived = some d at hd
      unfold SerialSession.fill at hd
      split_ifs at hd
      rw [← Option.some.inj hd]
      exact (SerialSession.never_paused h).pause
    exact (SerialSession.onRead_failed (n := data.length) hp).trans (hf d)
  | can => exact absurd rfl hk
  | webSocket => exact hf d
  | webSocketServer => exact hf d

theorem closesInFlight_dangles {l : k.Label} (hk : k ≠ .can) (h : k.Reachable c)
    (hl : ClosesInFlight c l) (hs : k.cls.program.step c l = some c') : ¬ BufferAlive c'.state := by
  have hH := k.lawful.toLawful
  -- the session is closed and still writes
  suffices hc : c'.state.closed = true ∧ c'.state.writes = c.state.writes ∧ InFlight c.state by
    obtain ⟨hc, hw, hf⟩ := hc
    have hq := (ReachableBy.trans h (.step .refl trivial hs)).kept.closedOk.queue hc
    obtain ⟨op, hop⟩ : ∃ op, c.state.writes = [op] :=
      List.length_eq_one_iff.1 (h.kept.mirrored.writes.trans (by simp [hf.2]))
    intro ha
    have := ha op (by simp [hw, hop])
    rw [hq] at this; cases this
  rcases Strand.Program.step_cases hs with ⟨x, rfl, rfl⟩ | ⟨e, r, rfl, -, hr, rfl⟩ |
    ⟨f, st, rfl, hst, rfl⟩
  · cases x with
    | close => exact ⟨Hooks.close_closed hH _, Hooks.close_writes hH _, hl⟩
    | _ => exact hl.elim
  · cases e with
    | read i ec data =>
      cases ec with
      | some e =>
        obtain ⟨d, rfl⟩ := event_read_closes hk h hr hl.2
        exact ⟨Hooks.close_closed hH _, Hooks.close_writes hH _, hl.1⟩
      | none => exact hl.elim
    | _ => exact hl.elim
  · obtain ⟨hf, g, st', hst'⟩ := hl
    rw [hst] at hst'
    obtain ⟨rfl, rfl⟩ := List.cons.inj hst'
    exact ⟨Hooks.close_closed hH _, Hooks.close_writes hH _, hf⟩

/-- **When the buffer of an outstanding write stays alive.**  It does in the
    runs that never close the session under a write; a step that does so, in
    any run, takes it away. -/
theorem buffers_alive (hk : k ≠ .can) :
    (∀ c, k.ReachableBy (fun c l => ¬ ClosesInFlight c l) c → BufferAlive c.state) ∧
    ∀ c l c', k.Reachable c → ClosesInFlight c l → k.cls.program.step c l = some c' →
      ¬ BufferAlive c'.state := by
  constructor
  · intro c h
    have hkept := h.kept
    obtain ⟨s, hs, hr⟩ := h
    exact hkept.bufferAlive ((writesInPlace hk).run_dry hs.fresh hr)
  · intro c l c' h hl hs
    exact closesInFlight_dangles hk h hl hs

theorem buffers_alive_sending : ∃ c : Kind.serial.Config, c.state.writes ≠ [] ∧
    BufferAlive c.state := by
  obtain ⟨s, hs⟩ : ∃ s, SerialSession.create none {} {} = some s := ⟨_, rfl⟩
  have hr : Kind.serial.ReachableBy (fun c l => ¬ ClosesInFlight c l)
      ⟨SerialSession.hooks.enqueueWrite [1] s, []⟩ :=
    ⟨s, ⟨_, _, _, hs⟩, .step (l := .call (.send [1])) .refl id rfl⟩
  refine ⟨_, ?_, (buffers_alive (by decide)).1 _ hr⟩
  cases hs; decide +kernel

/-- `close()` while the write of a message is outstanding. -/
theorem close_drops_buffer :
    ¬ ∀ k : Kind, k ≠ .can → ∀ c, k.Reachable c → BufferAlive c.state := by
  intro h
  obtain ⟨c, hc, hp⟩ := exec_reachable (k := .serial) (SerialSession.create none {} {})
    [.call (.send [1]), .call .close] (fun c => !decide (BufferAlive c.state))
    (fun _ ht => ⟨_, _, _, ht⟩) (by decide +kernel)
  simp only [Bool.not_eq_true', decide_eq_false_iff_not] at hp
  exact hp (h .serial (by decide) c hc)

end Kind

end TransitSession
