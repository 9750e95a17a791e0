/-
  When the read handler has been told all: after an error, and after
  `stop_reading`.

  The completion handler of a failed read clears `read_in_progress_`, calls the
  read handler and only then closes the session.  What the read handler calls in
  between may start another read (`RestartsRead`), whose completion is reported
  as well; without such a call an error is the last thing the read handler is
  told (`errors_end_reading`).  Once reading is disabled, only the read that is
  outstanding is still notified (`stop_reading_bounds`).
-/
import TransitSession.Core.Stopping
import TransitSession.Sessions

namespace TransitSession.Kind

/-- The state in which a call of the derived class runs `schedule_operations`,
    if it does. -/
def derivedSchedules : (k : Kind) → k.DerivedCall → Session k.Members k.Value k.Value →
    Option (Session k.Members k.Value k.Value)
  | .serial, .setDuplexMode mode, s => some { s with derived.duplexMode := mode }
  | _, _, _ => none

/-- The state in which a call runs `schedule_operations`, if it does. -/
def schedules (k : Kind) : Call k.Value k.DerivedCall → Session k.Members k.Value k.Value →
    Option (Session k.Members k.Value k.Value)
  | .startReading, s => if s.closed then none else some { s with readEnabled := true }
  | .send m, s => if s.closed then none else some (s.pushBack m)
  | .derived x, s => k.derivedSchedules x s
  | _, _ => none

/-- A call that starts a read while the read handler is told of an error. -/
def RestartsRead (k : Kind) (c : k.Config) : k.Label → Prop
  | .call x => ReportsError c.stack ∧ ∃ s, k.schedules x c.state = some s ∧
      k.cls.canStartRead (k.cls.startWriting s) = true
  | _ => False

variable {k : Kind} {c : k.Config}

theorem reads_of_members {D R W : Type} {s t : Session D R W}
    (h : ∃ d, t = { s with derived := d }) : t.reads = s.reads := by
  obtain ⟨d, rfl⟩ := h
  rfl

theorem callDerived_reads {x : k.DerivedCall} {s : Session k.Members k.Value k.Value}
    (h : ∀ t, k.derivedSchedules x s = some t →
      k.cls.canStartRead (k.cls.startWriting t) = false) :
    (k.cls.callDerived x s).1.reads = s.reads := by
  cases k with
  | serial =>
    cases x with
    | «open» openEc res config =>
      exact reads_of_members (SerialSession.open_members openEc res config s)
    | applyConfig res config =>
      exact reads_of_members (SerialSession.applyConfig_members res config s)
    | setDuplexMode mode => exact Hooks.schedule_reads SerialSession.hooks_lawful (h _ rfl)
    | setReadBufferSize n =>
      show (SerialSession.setReadBufferSize n s).reads = _
      unfold SerialSession.setReadBufferSize
      split_ifs <;> rfl
  | can =>
    cases x with
    | «open» res config =>
      exact reads_of_members (CanSession.open_members res config s)
  | webSocket =>
    cases x with
    | «open» res config =>
      exact reads_of_members (WebSocketSession.open_members res config s)
  | webSocketServer =>
    cases x with
    | start handler noDelayEc =>
      exact reads_of_members (WebSocketServerSession.start_members handler noDelayEc s).1
    | setCloseHandler => rfl

/-- A call starts no read unless `can_start_read` allows it where the call
    schedules. -/
theorem call_reads {x : Call k.Value k.DerivedCall} {s : Session k.Members k.Value k.Value}
    (h : ∀ t, k.schedules x s = some t → k.cls.canStartRead (k.cls.startWriting t) = false) :
    (k.cls.call x s).1.reads = s.reads := by
  have hH := k.lawful.toLawful
  cases x with
  | setReadHandler | stopReading => rfl
  | startReading =>
    show (k.cls.startReading s).reads = _
    rcases k.cls.startReading_eq s with ⟨-, he⟩ | ⟨hc, he⟩ <;> rw [he]
    exact Hooks.schedule_reads hH (h _ (if_neg (by simp [hc])))
  | send m =>
    show (k.cls.enqueueWrite m s).reads = _
    rcases k.cls.enqueueWrite_eq s m with ⟨-, he⟩ | ⟨hc, he⟩ <;> rw [he]
    exact Hooks.schedule_reads hH (h _ (if_neg (by simp [hc])))
  | close => exact Hooks.close_reads hH s
  | derived x => exact callDerived_reads h

/-- A closed session has nothing to start where a call schedules. -/
theorem schedules_closed {x : Call k.Value k.DerivedCall}
    {s t : Session k.Members k.Value k.Value} (h : k.schedules x s = some t)
    (hc : s.closed = true) : k.cls.canStartRead (k.cls.startWriting t) = false := by
  have hH := k.lawful.toLawful
  have ht : t.closed = true := by
    cases x with
    | startReading | send => simp [schedules, hc] at h
    | setReadHandler | stopReading | close => cases h
    | derived x =>
      cases k with
      | serial => cases x <;> cases h; exact hc
      | can | webSocket | webSocketServer => cases h
  unfold Hooks.startWriting
  rw [if_neg (by simp [Hooks.canStartWrite_closed hH ht])]
  exact Hooks.canStartRead_closed hH ht

/-- **A read error ends reading.**  In the runs in which no call starts a read
    while the read handler is told of an error, the read handler is told of
    values and then of at most one error. -/
theorem errors_end_reading (h : k.ReachableBy (fun c l => ¬ k.RestartsRead c l) c) :
    ReportsOnce c.state := by
  obtain ⟨s, hs, hr⟩ := h
  refine (SessionClass.run_readsEnd k.lawful hs.fresh hr fun c x hx hc => ?_).reportsOnce
  refine call_reads fun t ht => ?_
  rcases hc with hc | hc
  · exact schedules_closed ht hc
  · exact Bool.eq_false_iff.2 fun hr => hx ⟨hc, t, ht, hr⟩

theorem errors_end_reading_aborted : ∃ c : Kind.webSocketServer.Config,
    c.state.notifications = [some .operationAborted] ∧ ReportsOnce c.state := by
  have idle (s) (l : Kind.webSocketServer.Label) :
      ¬ Kind.webSocketServer.RestartsRead ⟨s, []⟩ l := by
    intro h
    cases l with
    | call x => obtain ⟨⟨g, hg⟩, -⟩ := h; cases hg
    | event | ret => exact h
  have hr : Kind.webSocketServer.Run (fun c l => ¬ Kind.webSocketServer.RestartsRead c l)
      ⟨WebSocketServerSession.create {}, []⟩ _ :=
    .step (l := .call (.setReadHandler (some 0))) .refl (idle _ _) rfl
  have hr := Transition.Run.step (l := .call .startReading) hr (idle _ _) rfl
  have hr := Transition.Run.step (l := .event (.read 0 (some .operationAborted) [])) hr id rfl
  exact ⟨_, rfl, errors_end_reading ⟨_, ⟨{}, rfl⟩, hr⟩⟩

/-- A message sent while the read handler is told of an error: the read that it
    starts is reported as well. -/
theorem send_in_error_handler :
    ¬ ∀ (k : Kind) (c : k.Config), k.Reachable c → ReportsOnce c.state := by
  intro h
  obtain ⟨c, hc, hp⟩ := exec_reachable (k := .webSocketServer)
    (some (WebSocketServerSession.create {}))
    [.call (.setReadHandler (some 0)), .call .startReading,
      .event (.read 0 (some (.system 104)) []), .call (.send [1]), .ret,
      .event (.read 0 (some .operationAborted) [])]
    (fun c => c.state.notifications = [some (.system 104), some .operationAborted])
    (fun _ ht => ⟨{}, (Option.some.inj ht).symm⟩) (by decide +kernel)
  obtain ⟨n, hn | ⟨e, hn⟩⟩ := h _ c hc <;> rw [of_decide_eq_true hp] at hn
  · cases n <;> cases hn
  · rcases n with _ | _ | n <;> cases hn

/-! ## After `stop_reading` -/

/-- **`stop_reading` bounds what is still delivered.**  Until a closure of
    `start_reading` runs, no read is initiated and the read handler is invoked at
    most once more. -/
theorem stop_reading_bounds {c₁ c₂ : k.Config} (h : k.Reachable c)
    (hs : k.cls.program.step c (.call .stopReading) = some c₁)
    (hr : k.Run (fun _ l => l ≠ .call .startReading) c₁ c₂) :
    c₂.state.readsStarted = c₁.state.readsStarted ∧
      c₂.state.notifications.length ≤ c₁.state.notifications.length + 1 := by
  have hkept : Kept c₁.state := (h.trans (.step .refl trivial hs)).kept
  have hen : c₁.state.readEnabled = false := by
    rw [Strand.Program.step_call] at hs
    obtain rfl := Option.some.inj hs
    rfl
  have hstop := SessionClass.run_stopped k.lawful hr hen
  -- one read was outstanding at most
  have hone : c₁.state.reads.length ≤ 1 := by
    rw [hkept.mirrored.reads]
    split_ifs <;> omega
  refine ⟨hstop.starts, ?_⟩
  have := hstop.notified
  omega

/-- The read that is outstanding when `stop_reading` runs is delivered. -/
theorem stop_reading_bounds_one : ∃ c₁ c₂ : Kind.webSocketServer.Config,
    c₁.state.notifications = [] ∧ c₂.state.notifications = [none] ∧
      c₂.state.notifications.length ≤ c₁.state.notifications.length + 1 := by
  let s : WebSocketServerSession := WebSocketServerSession.cls.startReading
    ((WebSocketServerSession.create {}).setReadHandler (some 0))
  have hr : Kind.webSocketServer.Reachable ⟨s, []⟩ :=
    ⟨_, ⟨{}, rfl⟩, .step (l := .call .startReading)
      (.step (l := .call (.setReadHandler (some 0))) .refl trivial rfl) trivial rfl⟩
  have hrun : Kind.webSocketServer.Run (fun _ l => l ≠ .call .startReading)
      ⟨s.stopReading, []⟩ _ :=
    .step (l := .event (.read 0 none [1, 2])) .refl (by intro h; cases h) rfl
  exact ⟨⟨s.stopReading, []⟩, _, rfl, rfl, (stop_reading_bounds hr rfl hrun).2⟩

end TransitSession.Kind
