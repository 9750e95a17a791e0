/-
  Two serial sessions in half duplex can wait for each other.

  In half duplex a session does not write while it reads, and nobody cancels the read
  that its messages wait for.  When both sides of a line read and nothing is in flight,
  no read completes: whatever the two sides are given to send, neither writes anything,
  and neither is told anything (`half_duplex_deadlock`), until a read fails, or a
  session is closed or its mode is changed.
-/
import TransitSession.Linked
import TransitSession.Core.Exchange
import TransitSession.Serial.HalfDuplex

namespace TransitSession.SerialSession
open Serial

/-- The steps that leave the mode of a session as it is, and neither close it nor let one
    of its reads fail or complete with nothing. -/
def Persists : Kind.serial.Label → Prop
  | .call .close => False
  | .call (.derived (.setReadBufferSize _)) => True
  | .call (.derived _) => False
  | .event (.read _ ec data) => ec = none ∧ data ≠ []
  | _ => True

/-- A session in half duplex reads, and nothing runs on its strand. -/
structure Waits (c : Kind.serial.Config) : Prop where
  idle : c.stack = []
  half : Half c.state
  isOpen : c.state.closed = false
  reading : c.state.readInProgress = true
  writes : c.state.writes = []

/-- All that has happened since is that messages were pushed. -/
def Pushes (s s' : SerialSession) : Prop :=
  ∃ qs : List (Queued (List UInt8)), s'.log = s.log ++ qs.map .pushed

namespace Pushes
variable {s s' s'' : SerialSession}

theorem refl (s : SerialSession) : Pushes s s := ⟨[], by simp⟩

theorem trans (h : Pushes s s') (h' : Pushes s' s'') : Pushes s s'' := by
  obtain ⟨qs, hqs⟩ := h
  obtain ⟨qs', hqs'⟩ := h'
  exact ⟨qs ++ qs', by rw [hqs', hqs, List.map_append, List.append_assoc]⟩

theorem startedWrites (h : Pushes s s') : s'.startedWrites = s.startedWrites := by
  obtain ⟨qs, hqs⟩ := h
  simp [Session.startedWrites, hqs, List.filterMap_map]

theorem written (h : Pushes s s') : s'.written = s.written := by
  obtain ⟨qs, hqs⟩ := h
  simp [Session.written, Session.writeOps, hqs, List.filterMap_map]

theorem told (h : Pushes s s') : s'.told = s.told := by
  obtain ⟨qs, hqs⟩ := h
  simp [Session.told, hqs, List.filterMap_map]

end Pushes

/-- **One step.**  A session that waits, and gets nothing, goes on waiting. -/
theorem Waits.step {c c' : Kind.serial.Config} {l : Kind.serial.Label} (h : Waits c)
    (hl : Persists l) (htakes : (SessionClass.takes l).flatten = [])
    (hs : Kind.serial.cls.program.step c l = some c') :
    Waits c' ∧ Pushes c.state c'.state := by
  obtain ⟨s, st⟩ := c
  obtain rfl : st = [] := h.idle
  cases l with
  | ret => cases hs
  | event e =>
    cases e with
    | read k ec data =>
      -- a read takes something, and there is nothing
      obtain ⟨rfl, hdata⟩ := hl
      exact absurd (by simpa [SessionClass.takes] using htakes) hdata
    | write k ec =>
      obtain ⟨-, r, hr, -⟩ := Strand.Program.step_event_iff.1 hs
      change cls.event (.write k ec) s = some r at hr
      simp [SessionClass.event, show s.writes = [] from h.writes] at hr
    | derived e => exact e.elim
  | call x =>
    obtain rfl := Option.some.inj hs
    cases x with
    | setReadHandler g => exact ⟨{ h with }, .refl s⟩
    | stopReading => exact ⟨{ h with }, .refl s⟩
    | startReading =>
      have he : (cls.call .startReading s).1 = { s with readEnabled := true } := by
        rcases hooks.startReading_eq s with ⟨hc, -⟩ | ⟨-, he⟩
        · rw [show s.closed = false from h.isOpen] at hc
          cases hc
        · exact he.trans (schedule_of_reading (s := { s with readEnabled := true })
            h.half h.reading)
      show Waits ⟨(cls.call .startReading s).1, []⟩ ∧ Pushes s (cls.call .startReading s).1
      rw [he]
      exact ⟨{ h with }, .refl s⟩
    | send m =>
      have he : (cls.call (.send m) s).1 = s.pushBack m := by
        rcases hooks.enqueueWrite_eq s m with ⟨hc, -⟩ | ⟨-, he⟩
        · rw [show s.closed = false from h.isOpen] at hc
          cases hc
        · exact he.trans (schedule_of_reading (s := s.pushBack m) h.half h.reading)
      show Waits ⟨(cls.call (.send m) s).1, []⟩ ∧ Pushes s (cls.call (.send m) s).1
      rw [he]
      exact ⟨{ h with }, [⟨s.pushed.length, m⟩], rfl⟩
    | close => exact hl.elim
    | derived x =>
      cases x with
      | setReadBufferSize n =>
        -- the buffer is in use
        have he : setReadBufferSize n s = s := by
          unfold setReadBufferSize
          rw [show s.readInProgress = true from h.reading, Bool.true_or, if_pos rfl]
        show Waits ⟨setReadBufferSize n s, []⟩ ∧ Pushes s (setReadBufferSize n s)
        rw [he]
        exact ⟨h, .refl s⟩
      | _ => exact hl.elim

/-- Both sides of a line wait, and nothing is in flight. -/
structure Deadlocked (n : Link.Net Kind.serial.Config Kind.serial.Config UInt8) : Prop where
  left : Waits n.left
  right : Waits n.right
  toRight : n.toRight = []
  toLeft : n.toLeft = []

/-- The steps of both sides that leave them as they are. -/
def BothPersist (_ : Link.Net Kind.serial.Config Kind.serial.Config UInt8) :
    Kind.serial.Label ⊕ Kind.serial.Label → Prop
  | .inl l => Persists l
  | .inr l => Persists l

theorem Deadlocked.step {n n' : Link.Net Kind.serial.Config Kind.serial.Config UInt8}
    {l : Kind.serial.Label ⊕ Kind.serial.Label} (h : Deadlocked n) (hl : BothPersist n l)
    (hs : Link.step Kind.serial.stream Kind.serial.stream n l = some n') :
    Deadlocked n' ∧ Pushes n.left.state n'.left.state ∧ Pushes n.right.state n'.right.state := by
  have hputs {c c' : Kind.serial.Config} (hp : Pushes c.state c'.state) :
      Kind.serial.stream.puts c c' = [] :=
    Kind.serial.stream.puts_eq_nil (congrArg List.flatten hp.written)
  cases l with
  | inl l =>
    obtain ⟨a, rest, ha, hr, rfl⟩ := Link.step_left hs
    obtain ⟨htakes, rfl⟩ := List.append_eq_nil_iff.1 (hr.symm.trans h.toLeft)
    obtain ⟨hw, hp⟩ := h.left.step hl htakes ha
    refine ⟨⟨hw, h.right, ?_, rfl⟩, hp, .refl _⟩
    show n.toRight ++ _ = []
    rw [h.toRight, hputs hp, List.append_nil]
  | inr l =>
    obtain ⟨b, rest, hb, hr, rfl⟩ := Link.step_right hs
    obtain ⟨htakes, rfl⟩ := List.append_eq_nil_iff.1 (hr.symm.trans h.toRight)
    obtain ⟨hw, hp⟩ := h.right.step hl htakes hb
    refine ⟨⟨h.left, hw, rfl, ?_⟩, .refl _, hp⟩
    show n.toLeft ++ _ = []
    rw [h.toLeft, hputs hp, List.append_nil]

/-- **Two half-duplex sessions that wait for each other wait for good.**  Whatever they
    are given to send, neither starts a write, and neither is told anything. -/
theorem half_duplex_deadlock {n n' : Link.Net Kind.serial.Config Kind.serial.Config UInt8}
    (h : Deadlocked n)
    (hr : Transition.Run (Link.step Kind.serial.stream Kind.serial.stream) BothPersist n n') :
    Deadlocked n' ∧
      n'.left.state.startedWrites = n.left.state.startedWrites ∧
      n'.right.state.startedWrites = n.right.state.startedWrites ∧
      n'.left.state.told = n.left.state.told ∧ n'.right.state.told = n.right.state.told := by
  have hall : Deadlocked n' ∧ Pushes n.left.state n'.left.state ∧
      Pushes n.right.state n'.right.state := by
    induction hr with
    | refl => exact ⟨h, .refl _, .refl _⟩
    | step _ hl hs ih =>
      obtain ⟨hd, hleft, hright⟩ := ih
      obtain ⟨hd', hleft', hright'⟩ := hd.step hl hs
      exact ⟨hd', hleft.trans hleft', hright.trans hright'⟩
  obtain ⟨hd, hleft, hright⟩ := hall
  exact ⟨hd, hleft.startedWrites, hright.startedWrites, hleft.told, hright.told⟩

/-- Both sides read, and then send. -/
theorem half_duplex_deadlock_sends :
    ∃ n : Link.Net Kind.serial.Config Kind.serial.Config UInt8, Kind.Wired n ∧ Deadlocked n ∧
      n.left.state.writeQueue = [⟨0, [1]⟩] ∧ n.left.state.startedWrites = [] ∧
      n.right.state.writeQueue = [⟨0, [2]⟩] ∧ n.right.state.startedWrites = [] := by
  obtain ⟨s, hs⟩ : ∃ s, create none {} { duplexMode := .halfDuplex } = some s := ⟨_, rfl⟩
  obtain ⟨n₀, n₁, n₂, hn, h₁, h₂, hd, hleft, hright, hqueued⟩ :
      ∃ n₀ n₁ n₂ : Link.Net Kind.serial.Config Kind.serial.Config UInt8, Kind.Wired n₀ ∧
        Link.step Kind.serial.stream Kind.serial.stream n₀ (.inl (.call (.send [1]))) = some n₁ ∧
        Link.step Kind.serial.stream Kind.serial.stream n₁ (.inr (.call (.send [2]))) = some n₂ ∧
        Deadlocked n₀ ∧ n₀.left.state.startedWrites = [] ∧ n₀.right.state.startedWrites = [] ∧
        n₂.left.state.writeQueue = [⟨0, [1]⟩] ∧ n₂.right.state.writeQueue = [⟨0, [2]⟩] := by
    have hn : Kind.Wired (k := .serial) (j := .serial) _ :=
      ⟨s, s, ⟨_, _, _, hs⟩, ⟨_, _, _, hs⟩,
        .step (l := .inr (.call .startReading)) (.step (l := .inl (.call .startReading)) .refl
          trivial (by cases hs; rfl)) trivial (by cases hs; rfl)⟩
    cases hs
    exact ⟨_, _, _, hn, rfl, rfl, ⟨⟨rfl, rfl, rfl, rfl, rfl⟩, ⟨rfl, rfl, rfl, rfl, rfl⟩, rfl, rfl⟩,
      rfl, rfl, rfl, rfl⟩
  obtain ⟨s₁, s₂, hs₁, hs₂, hrun⟩ := hn
  have hwired : Kind.Wired n₂ := ⟨s₁, s₂, hs₁, hs₂,
    .step (l := .inr (.call (.send [2])))
      (.step (l := .inl (.call (.send [1]))) hrun trivial h₁) trivial h₂⟩
  obtain ⟨hd', hleft', hright', -⟩ := half_duplex_deadlock hd
    (.step (l := .inr (.call (.send [2])))
      (.step (l := .inl (.call (.send [1]))) .refl trivial h₁) trivial h₂)
  exact ⟨n₂, hwired, hd', hqueued.1, hleft'.trans hleft, hqueued.2, hright'.trans hright⟩

end TransitSession.SerialSession
