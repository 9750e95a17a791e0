/-
  What `schedule_operations` leaves behind.

  A session is `Quiet` if it has nothing to start.  `schedule_operations` always
  ends there, although it evaluates each predicate only once
  (`schedule_quiet`), and a closed session is quiet (`quiet_of_closed`).  A
  closure that runs neither of them changes nothing that could be started, or
  stops in user code and schedules afterwards; so a session is quiet whenever
  its strand is idle (`SessionClass.idle_quiet`).
-/
import TransitSession.Core.Invariants

namespace TransitSession

variable {D R W C E F : Type}

namespace Hooks
variable (H : Hooks D R W F)

/-- No operation may be started. -/
def Quiet (s : Session D R W) : Prop := H.canStartWrite s = false ∧ H.canStartRead s = false

/-- The first half of `schedule_operations`. -/
def startWriting (s : Session D R W) : Session D R W := if H.canStartWrite s then H.doWrite s else s

theorem schedule_eq (s : Session D R W) : H.scheduleOperations s =
    if H.canStartRead (H.startWriting s) then H.doRead (H.startWriting s) else H.startWriting s :=
  rfl

/-- A quiet session stays as it is. -/
theorem schedule_of_quiet {s : Session D R W} (h : H.Quiet s) : H.scheduleOperations s = s := by
  unfold scheduleOperations
  simp [h.1, h.2]

variable {H} (hH : H.Lawful)
include hH

/-! ## Closed sessions -/

theorem canStartRead_closed {s : Session D R W} (h : s.closed = true) :
    H.canStartRead s = false := by
  refine Bool.eq_false_iff.2 fun hc => ?_
  have := (hH.canStartRead_core hc).2.2
  rw [h] at this; cases this

theorem canStartWrite_closed {s : Session D R W} (h : s.closed = true) :
    H.canStartWrite s = false := by
  refine Bool.eq_false_iff.2 fun hc => ?_
  have := (hH.canStartWrite_core hc).2.2
  rw [h] at this; cases this

theorem quiet_of_closed {s : Session D R W} (h : s.closed = true) : H.Quiet s :=
  ⟨canStartWrite_closed hH h, canStartRead_closed hH h⟩

/-- `close()` leaves a closed session and keeps the outstanding operations. -/
theorem closeHook_spec (s : Session D R W) : (s.close H.closeTransport).1.closed = true ∧
    (s.close H.closeTransport).1.reads = s.reads ∧
    (s.close H.closeTransport).1.writes = s.writes := by
  obtain ⟨d, hd⟩ := closeHook_eq s hH
  rw [hd]
  unfold Session.shutOnce
  split_ifs with h
  exacts [⟨h, rfl, rfl⟩, ⟨rfl, rfl, rfl⟩]

theorem close_closed (s : Session D R W) : (H.close s).1.closed = true := (closeHook_spec hH s).1

theorem close_reads (s : Session D R W) : (H.close s).1.reads = s.reads := (closeHook_spec hH s).2.1

theorem close_writes (s : Session D R W) : (H.close s).1.writes = s.writes :=
  (closeHook_spec hH s).2.2

/-! ## `schedule_operations` -/

theorem startWriting_acts (s : Session D R W) : Acts H s (H.startWriting s) := by
  unfold startWriting
  split_ifs with h
  exacts [doWrite_acts hH h, .refl]

/-- Once a write was started, none may be started. -/
theorem startWriting_stops (s : Session D R W) : H.canStartWrite (H.startWriting s) = false := by
  unfold startWriting
  split_ifs with h
  · rcases hH.doWrite_starts h with ⟨d, q, bytes, -, -, he⟩ | he
    · rw [he]
      refine Bool.eq_false_iff.2 fun hc => ?_
      have := (hH.canStartWrite_core hc).1
      simp [Session.asyncWrite, Session.markWriteStarted] at this
    · rw [he]
      exact canStartWrite_closed hH (closeHook_spec hH s).1
  · simpa using h

/-- **`schedule_operations` leaves nothing to start.** -/
theorem schedule_quiet (s : Session D R W) : H.Quiet (H.scheduleOperations s) := by
  have hw := startWriting_stops hH s
  rw [schedule_eq]
  split_ifs with h
  · refine ⟨hH.doRead_blocks h hw, ?_⟩
    obtain ⟨d, op, -, he⟩ := hH.doRead_starts h
    rw [he]
    refine Bool.eq_false_iff.2 fun hc => ?_
    have := (hH.canStartRead_core hc).2.1
    simp [Session.asyncRead, Session.markReadStarted] at this
  · exact ⟨hw, by simpa using h⟩

end Hooks

/-! ## Idle sessions -/

/-- A notification of the core owes the scheduling that follows it. -/
def Frame.owesSchedule : Frame F → Prop
  | .readError _ | .readValue _ => True
  | .derived _ => False

namespace SessionClass
variable [Inhabited R] {K : SessionClass D R W C E F}

/-- The closures of the derived class, in the runs of `ok`, keep the session
    quiet. -/
structure KeepsQuiet (K : SessionClass D R W C E F) (ok : K.Guard) : Prop where
  call : ∀ {c x}, ok c (.call (.derived x)) → K.Quiet c.state → K.Quiet (K.callDerived x c.state).1
  event : ∀ {e s r}, K.eventDerived e s = some r → K.Quiet s → K.Quiet r.1
  resume : ∀ {f s}, K.Quiet s → K.Quiet (K.resumeDerived f s).1

/-- If the predicates do not depend on the members of the derived class, its
    closures keep the session quiet. -/
theorem keepsQuiet_of_core (hK : K.Lawful)
    (hw : ∀ s d, K.canStartWrite { s with derived := d } = K.canStartWrite s)
    (hr : ∀ s d, K.canStartRead { s with derived := d } = K.canStartRead s) (ok : K.Guard) :
    K.KeepsQuiet ok := by
  have hm : ∀ {s : Session D R W} {r : Session D R W × Option (Frame F)},
      MembersOnly s r → K.Quiet s → K.Quiet r.1 := by
    rintro s r ⟨⟨d, hd⟩, -⟩ hq
    rw [hd]
    exact ⟨(hw s d).trans hq.1, (hr s d).trans hq.2⟩
  refine ⟨fun {c x} _ hq => ?_, fun h hq => hm (hK.eventDerived_members _ _ _ h) hq,
    fun hq => hm (hK.resumeDerived_members _ _) hq⟩
  rcases hK.callDerived_members x c.state with h | ⟨d, h⟩
  · exact hm h hq
  · rw [h]; exact Hooks.schedule_quiet hK.toLawful _

theorem failRead_leaves (hK : K.Lawful) (e : Errc) (s : Session D R W) :
    Strand.Program.Leaves Frame.owesSchedule K.Quiet (K.failRead e s) := by
  rcases K.failRead_eq s e with ⟨h, -, he⟩ | ⟨-, he⟩ <;> rw [he]
  · exact Or.inl ⟨_, rfl, trivial⟩
  · exact Or.inr (Hooks.quiet_of_closed hK.toLawful (Hooks.close_closed hK.toLawful s))

theorem deliverRead_leaves (hK : K.Lawful) (value : R) (s : Session D R W) :
    Strand.Program.Leaves Frame.owesSchedule K.Quiet (K.deliverRead value s) := by
  rcases K.deliverRead_eq s value with ⟨h, he⟩ | he <;> rw [he]
  · exact Or.inl ⟨_, rfl, trivial⟩
  · exact Or.inr (Hooks.schedule_quiet hK.toLawful s)

/-- The closure of a public call keeps the session quiet. -/
theorem call_quiet (hK : K.Lawful) {ok : K.Guard} (hq : K.KeepsQuiet ok)
    {c : Strand.Config (Session D R W) (Frame F)} {x : Call W C} (hok : ok c (.call x))
    (h : K.Quiet c.state) : K.Quiet (K.call x c.state).1 := by
  have hH := hK.toLawful
  cases x with
  | setReadHandler g =>
    exact ⟨(hH.canStartWrite_handler _ g).trans h.1, (hH.canStartRead_handler _ g).trans h.2⟩
  | startReading =>
    show K.Quiet (K.startReading c.state)
    rcases K.startReading_eq c.state with ⟨-, he⟩ | ⟨-, he⟩ <;> rw [he]
    exacts [h, Hooks.schedule_quiet hH _]
  | stopReading =>
    refine ⟨(hH.canStartWrite_enabled _ false).trans h.1, ?_⟩
    refine Bool.eq_false_iff.2 fun hc => ?_
    cases (hH.canStartRead_core hc).1
  | send m =>
    show K.Quiet (K.enqueueWrite m c.state)
    rcases K.enqueueWrite_eq c.state m with ⟨-, he⟩ | ⟨-, he⟩ <;> rw [he]
    exacts [h, Hooks.schedule_quiet hH _]
  | close => exact Hooks.quiet_of_closed hH (Hooks.close_closed hH c.state)
  | derived x => exact hq.call hok h

/-- The closure of a completion handler leaves the session quiet, or stops in
    the read handler. -/
theorem event_leaves (hK : K.Lawful) {ok : K.Guard} (hq : K.KeepsQuiet ok) {e : Completion E}
    {s : Session D R W} {r : Session D R W × Option (Frame F)} (hr : K.event e s = some r)
    (h : K.Quiet s) : Strand.Program.Leaves Frame.owesSchedule K.Quiet r := by
  have hH := hK.toLawful
  rcases event_cases hK hr with ⟨k, ec, data, op, d, -, -, hread⟩ | ⟨k, op, -, -, rfl⟩ |
    ⟨k, op, e', -, -, rfl⟩ | ⟨e', rfl, -⟩
  · cases hread with
    | resumed => exact Or.inr (Hooks.schedule_quiet hH _)
    | failed _ d e => exact failRead_leaves hK e _
    | delivered d value => exact deliverRead_leaves hK value _
  · exact Or.inr (Hooks.schedule_quiet hH _)
  · exact Or.inr (Hooks.quiet_of_closed hH (Hooks.close_closed hH _))
  · exact Or.inr (hq.event hr h)

/-- **Whenever the strand is idle, the session has nothing to start.** -/
theorem idle_quiet (hK : K.Lawful) {ok : K.Guard} (hq : K.KeepsQuiet ok) {s : Session D R W}
    (hs : s.Fresh) {c : Strand.Config (Session D R W) (Frame F)} (h : K.program.Run ok ⟨s, []⟩ c)
    (hst : c.stack = []) : K.Quiet c.state := by
  have hH := hK.toLawful
  have h₀ : K.Quiet s := by
    obtain ⟨d, rfl⟩ := hs
    constructor
    · refine Bool.eq_false_iff.2 fun hc => ?_
      exact (hH.canStartWrite_core hc).2.1 rfl
    · refine Bool.eq_false_iff.2 fun hc => ?_
      cases (hH.canStartRead_core hc).1
  suffices hs : Strand.Program.Settled Frame.owesSchedule K.Quiet c from hs.idle hst
  refine h.settled (I := fun _ => True) (Or.inr h₀) (fun _ _ => trivial) ?_ ?_ ?_
  · intro d x _ hok hd
    exact Or.inr (call_quiet hK hq hok hd)
  · intro d e r _ _ _ hr hd
    exact event_leaves hK hq hr hd
  · intro d f st _ _ ho
    cases f with
    | readError g => exact Or.inr (Hooks.quiet_of_closed hH (Hooks.close_closed hH _))
    | readValue g => exact Or.inr (Hooks.schedule_quiet hH _)
    | derived f => exact Or.inr (hq.resume (ho.resolve_left id))

end SessionClass

end TransitSession
