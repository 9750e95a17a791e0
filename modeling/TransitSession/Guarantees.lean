/-
  What every session guarantees, in every run.

  * `sessions_fifo`: messages are written in order and once;
  * `sessions_mirrored`: at most one operation per direction is outstanding, and
    the flags tell which;
  * `sessions_stay_closed`: a closed session is closed for good, and `close()`
    closes the transport once;
  * `sessions_never_lose_a_wakeup`: an idle session has nothing to start.
-/
import TransitSession.Core.Fifo
import TransitSession.Core.Scheduling
import TransitSession.Sessions

namespace TransitSession

namespace Kind
variable {k : Kind} {c : k.Config}

/-! ## Writing -/

/-- **First in, first out, exactly once.** -/
theorem sessions_fifo (h : k.Reachable c) : Fifo c.state := h.kept.fifo

theorem sessions_fifo_two_sends :
    ∃ c : Kind.serial.Config, c.state.startedWrites.length = 2 ∧ Fifo c.state := by
  obtain ⟨c, hc, hp⟩ := exec_reachable (k := .serial) (SerialSession.create none {} {})
    [.call (.send [1]), .call (.send [2]), .event (.write 0 none)]
    (fun c => c.state.startedWrites.length = 2) (fun _ ht => ⟨_, _, _, ht⟩) (by decide +kernel)
  exact ⟨c, by simpa using hp, sessions_fifo hc⟩

/-! ## Outstanding operations -/

/-- **At most one operation per direction, mirrored by the flags.** -/
theorem sessions_mirrored (h : k.Reachable c) : Mirrored c.state := h.kept.mirrored

theorem sessions_mirrored_reading :
    ∃ c : Kind.can.Config, c.state.readInProgress = true ∧ Mirrored c.state := by
  obtain ⟨c, hc, hp⟩ := exec_reachable (k := .can)
    (CanSession.create ⟨.ok 3, fun _ => none, .ok 1, none, none⟩ {}) [.call .startReading]
    (fun c => c.state.readInProgress) (fun _ ht => ⟨_, _, ht⟩)
    (by decide +kernel)
  exact ⟨c, hp, sessions_mirrored hc⟩

/-! ## Closing -/

/-- **Closed is absorbing.**  A closed session reads and queues nothing, it
    stays closed, and nothing is initiated on it again; over the whole run
    `close()` calls `close_transport()` at most once, and once if it ever
    ran. -/
theorem sessions_stay_closed (h : k.Reachable c) :
    (c.state.closed = true → c.state.readEnabled = false ∧ c.state.writeQueue = []) ∧
    (c.state.closed = true → ∀ c', k.Run (fun _ _ => True) c c' → StaysClosed c.state c'.state) ∧
    c.state.closeTransportCount ≤ 1 ∧
    (c.state.CloseRan → c.state.closeTransportCount = 1) := by
  have hk := h.kept.closedOk
  refine ⟨fun hc => ⟨hk.enabled hc, hk.queue hc⟩, ?_, ?_, ?_⟩
  · intro hc c' hr
    exact StaysClosed.acts k.lawful.toLawful (SessionClass.run_acts k.lawful hr) hc
  · rw [hk.count]
    split_ifs <;> omega
  · intro hr
    rw [hk.count, if_pos (hk.ran.1 hr)]

theorem sessions_stay_closed_after_close : ∃ c : Kind.serial.Config, c.state.CloseRan ∧
    c.state.readEnabled = false ∧ c.state.writeQueue = [] ∧ c.state.closeTransportCount = 1 := by
  obtain ⟨c, hc, hp⟩ := exec_reachable (k := .serial) (SerialSession.create none {} {})
    [.call .startReading, .call .close, .call (.send [1]), .call .close, .event (.read 0 none [])]
    (fun c => c.state.closed) (fun _ ht => ⟨_, _, _, ht⟩) (by decide +kernel)
  obtain ⟨h1, -, -, h4⟩ := sessions_stay_closed hc
  have hr : c.state.CloseRan := hc.kept.closedOk.ran.2 hp
  exact ⟨c, hr, (h1 hp).1, (h1 hp).2, h4 hr⟩

/-! ## Scheduling -/

/-- The calls that run on the strand of the session: all but those that
    configure a serial port. -/
def OnStrand : (k : Kind) → k.Label → Prop
  | .serial, .call (.derived (.open ..)) | .serial, .call (.derived (.applyConfig ..)) => False
  | _, _ => True

theorem keepsQuiet : (k : Kind) → k.cls.KeepsQuiet fun _ l => k.OnStrand l
  | .serial => by
    refine ⟨fun {c x} hok hq => ?_, fun {e} => e.elim, fun {f} => f.elim⟩
    cases x with
    | «open» => exact hok.elim
    | applyConfig => exact hok.elim
    | setDuplexMode mode => exact Hooks.schedule_quiet SerialSession.hooks_lawful _
    | setReadBufferSize n =>
      show Kind.serial.cls.Quiet (SerialSession.setReadBufferSize n c.state)
      unfold SerialSession.setReadBufferSize
      split_ifs <;> exact hq
  | .can => SessionClass.keepsQuiet_of_core Kind.can.lawful (fun _ _ => rfl) (fun _ _ => rfl) _
  | .webSocket =>
    SessionClass.keepsQuiet_of_core Kind.webSocket.lawful (fun _ _ => rfl) (fun _ _ => rfl) _
  | .webSocketServer =>
    SessionClass.keepsQuiet_of_core Kind.webSocketServer.lawful (fun _ _ => rfl) (fun _ _ => rfl) _

/-- **No lost wake-up.**  Whenever no closure is running on the strand, nothing
    that may be started is left unstarted. -/
theorem sessions_never_lose_a_wakeup (h : k.ReachableBy (fun _ l => k.OnStrand l) c)
    (hst : c.stack = []) :
    k.cls.canStartWrite c.state = false ∧ k.cls.canStartRead c.state = false := by
  obtain ⟨s, hs, hr⟩ := h
  exact SessionClass.idle_quiet k.lawful k.keepsQuiet hs.fresh hr hst

theorem sessions_never_lose_a_wakeup_reading : ∃ c : Kind.serial.Config,
    c.state.readEnabled = true ∧ Kind.serial.cls.canStartWrite c.state = false ∧
      Kind.serial.cls.canStartRead c.state = false := by
  obtain ⟨s, hs⟩ : ∃ s, SerialSession.create none {} {} = some s := ⟨_, rfl⟩
  have hr : Kind.serial.ReachableBy (fun _ l => Kind.serial.OnStrand l)
      ⟨SerialSession.hooks.startReading s, []⟩ :=
    ⟨s, ⟨_, _, _, hs⟩, .step (l := .call .startReading) .refl trivial rfl⟩
  refine ⟨_, ?_, sessions_never_lose_a_wakeup hr rfl⟩
  cases hs; decide +kernel

end Kind

end TransitSession
