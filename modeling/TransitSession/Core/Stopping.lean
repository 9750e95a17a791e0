/-
  What `stop_reading` leaves to come.

  While reading is disabled no closure but that of `start_reading` starts a read,
  whatever runs `schedule_operations` (`Halted`).  So all that is still notified
  is the read that was outstanding, and there is one at most
  (`SessionClass.run_stopped`).
-/
import TransitSession.Core.Notifications

namespace TransitSession

variable {D R W C E F : Type}

/-- A read was initiated. -/
def Event.isReadStart : Event D R W → Bool
  | .readStarted .. => true
  | _ => false

/-- The number of reads initiated. -/
def Session.readsStarted (s : Session D R W) : ℕ := s.log.countP Event.isReadStart

/-- Reading stays disabled, and nothing happens to the reads. -/
structure Halted (s s' : Session D R W) : Prop where
  enabled : s'.readEnabled = false
  reads : s'.reads = s.reads
  silent : Silent s s'
  starts : s'.readsStarted = s.readsStarted

namespace Halted
variable {s s' s'' : Session D R W}

theorem of_log (hen : s'.readEnabled = false) (hr : s'.reads = s.reads) (hl : s'.log = s.log) :
    Halted s s' :=
  ⟨hen, hr, .of_log hl, by rw [Session.readsStarted, hl]; rfl⟩

theorem append (es : List (Event D R W)) (hen : s'.readEnabled = false)
    (hr : s'.reads = s.reads) (hl : s'.log = s.log ++ es)
    (hes : ∀ e ∈ es, e.reports = false ∧ e.isReadStart = false) : Halted s s' := by
  refine ⟨hen, hr, ⟨es, hl, fun e he => (hes e he).1⟩, ?_⟩
  have : es.countP Event.isReadStart = 0 := List.countP_eq_zero.2 fun e he => by simp [hes e he]
  rw [Session.readsStarted, hl, List.countP_append, this]
  rfl

theorem emit {e : Event D R W} (hen : s'.readEnabled = false) (hr : s'.reads = s.reads)
    (hl : s'.log = s.log ++ [e]) (he : e.reports = false) (he' : e.isReadStart = false) :
    Halted s s' :=
  append [e] hen hr hl (by simp [he, he'])

theorem trans (h : Halted s s') (h' : Halted s' s'') : Halted s s'' :=
  ⟨h'.enabled, h'.reads.trans h.reads, h.silent.trans h'.silent, h'.starts.trans h.starts⟩

end Halted

namespace Hooks
variable {H : Hooks D R W F} (hH : H.Lawful)
include hH

theorem closeHook_halted {s : Session D R W} (hen : s.readEnabled = false) :
    Halted s (s.close H.closeTransport).1 := by
  obtain ⟨d, hd⟩ := closeHook_eq s hH
  rw [hd]
  unfold Session.shutOnce
  split_ifs
  · exact .emit hen rfl rfl rfl rfl
  · exact .append [.closeRun, .closeTransport] rfl rfl rfl
      (by simp [Event.reports, Event.isReadStart])

theorem startWriting_halted {s : Session D R W} (hen : s.readEnabled = false) :
    Halted s (H.startWriting s) := by
  unfold startWriting
  split_ifs with h
  · rcases hH.doWrite_starts h with ⟨d, q, bytes, -, -, he⟩ | he
    · rw [he]
      exact .emit hen rfl rfl rfl rfl
    · rw [he]
      exact closeHook_halted hH hen
  · exact .of_log hen rfl rfl

/-- `schedule_operations` starts no read while reading is disabled. -/
theorem schedule_halted {s : Session D R W} (hen : s.readEnabled = false) :
    Halted s (H.scheduleOperations s) := by
  have hw := startWriting_halted hH hen
  have hr : H.canStartRead (H.startWriting s) = false := by
    refine Bool.eq_false_iff.2 fun hr => ?_
    have := (hH.canStartRead_core hr).1
    rw [hw.enabled] at this
    cases this
  rw [schedule_eq, if_neg (by simp [hr])]
  exact hw

end Hooks

/-- Nothing was read since `s₀`, and what was notified was outstanding there. -/
structure Stopped (s₀ s : Session D R W) : Prop where
  enabled : s.readEnabled = false
  starts : s.readsStarted = s₀.readsStarted
  notified : s.notifications.length + s.reads.length ≤ s₀.notifications.length + s₀.reads.length

theorem Stopped.halted {s₀ s s' : Session D R W} (h : Stopped s₀ s) (hs : Halted s s') :
    Stopped s₀ s' :=
  ⟨hs.enabled, hs.starts.trans h.starts, by
    rw [hs.silent.notifications, hs.reads]
    exact h.notified⟩

namespace SessionClass
variable [Inhabited R] {K : SessionClass D R W C E F} (hK : K.Lawful)
include hK

theorem call_halted {x : Call W C} {s : Session D R W} (hx : x ≠ .startReading)
    (hen : s.readEnabled = false) : Halted s (K.call x s).1 := by
  have hH := hK.toLawful
  cases x with
  | startReading => exact absurd rfl hx
  | setReadHandler => exact .of_log hen rfl rfl
  | stopReading => exact .of_log rfl rfl rfl
  | send m =>
    show Halted s (K.enqueueWrite m s)
    rcases K.enqueueWrite_eq s m with ⟨-, he⟩ | ⟨-, he⟩ <;> rw [he]
    · exact .of_log hen rfl rfl
    · have hpush : Halted s (s.pushBack m) := .emit hen rfl rfl rfl rfl
      exact hpush.trans (Hooks.schedule_halted hH hen)
  | close => exact Hooks.closeHook_halted hH hen
  | derived x =>
    show Halted s (K.callDerived x s).1
    rcases hK.callDerived_members x s with ⟨⟨d, hd⟩, -⟩ | ⟨d, hd⟩ <;> rw [hd]
    · exact .of_log hen rfl rfl
    · have hmembers : Halted s { s with derived := d } := .of_log hen rfl rfl
      exact hmembers.trans (Hooks.schedule_halted hH hen)

theorem resume_halted (f : Frame F) {s : Session D R W} (hen : s.readEnabled = false) :
    Halted s (K.resume f s).1 := by
  have hH := hK.toLawful
  cases f with
  | readError => exact Hooks.closeHook_halted hH hen
  | readValue => exact Hooks.schedule_halted hH hen
  | derived f =>
    obtain ⟨⟨d, hd⟩, -⟩ := hK.resumeDerived_members f s
    show Halted s (K.resumeDerived f s).1
    rw [hd]
    exact .of_log hen rfl rfl

/-- The completion handler of a read notifies at most once. -/
theorem readHandled_stopped {s₀ s : Session D R W} {ec : ErrorCode}
    {r : Session D R W × Option (Frame F)} (h : ReadHandled K.toHooks s ec r)
    (hen : s.readEnabled = false) (hst : s.readsStarted = s₀.readsStarted)
    (hn : s.notifications.length + s.reads.length + 1 ≤
      s₀.notifications.length + s₀.reads.length) : Stopped s₀ r.1 := by
  have hH := hK.toLawful
  have hs (d : D) : Stopped s₀ { s with derived := d } := ⟨hen, hst, Nat.le_of_succ_le hn⟩
  have hnotify (d : D) (ec : ErrorCode) (value : R) :
      Stopped s₀ (Session.emit { s with derived := d } (.notified ec value)) := by
    refine ⟨hen, ?_, ?_⟩
    · rw [← hst]
      simp [Session.readsStarted, Session.emit, Event.isReadStart]
    · simp only [Session.notifications, Session.emit, List.filterMap_append, List.length_append,
        List.filterMap_cons, List.filterMap_nil, List.length_cons, List.length_nil] at hn ⊢
      omega
  cases h with
  | resumed => exact (hs s.derived).halted (Hooks.schedule_halted hH hen)
  | failed _ d e =>
    rcases K.failRead_eq { s with derived := d } e with ⟨g, -, he⟩ | ⟨-, he⟩ <;> rw [he]
    · exact hnotify d _ _
    · exact (hs d).halted (Hooks.closeHook_halted hH hen)
  | delivered d value =>
    rcases K.deliverRead_eq { s with derived := d } value with ⟨g, he⟩ | he <;> rw [he]
    · exact hnotify d _ _
    · exact (hs d).halted (Hooks.schedule_halted hH hen)

theorem event_stopped {e : Completion E} {s₀ s : Session D R W}
    {r : Session D R W × Option (Frame F)} (h : Stopped s₀ s) (hr : K.event e s = some r) :
    Stopped s₀ r.1 := by
  have hH := hK.toLawful
  have hen := h.enabled
  rcases event_cases hK hr with ⟨k, ec, data, op, d, rfl, hop, hread⟩ | ⟨k, op, -, hop, rfl⟩ |
    ⟨k, op, e', -, hop, rfl⟩ | ⟨e', -, ⟨d, hd⟩, -⟩
  · obtain ⟨hlt, -⟩ := List.getElem?_eq_some_iff.1 hop
    refine readHandled_stopped hK hread hen ?_ ?_
    · rw [← h.starts]
      simp [Session.readsStarted, Session.readDone, Event.isReadStart]
    · have hn := h.notified
      simp only [Session.notifications, Session.readDone, List.filterMap_append,
        List.filterMap_cons, List.filterMap_nil, List.append_nil,
        List.length_eraseIdx_of_lt hlt] at hn ⊢
      omega
  · have hdone : Halted s (s.writeDone k op none).consumeWrite := by
      rw [Session.consumeWrite_eq]
      exact .emit hen rfl rfl rfl rfl
    exact h.halted (hdone.trans (Hooks.schedule_halted hH hdone.enabled))
  · have hdone : Halted s (s.writeDone k op (some e')) := .emit hen rfl rfl rfl rfl
    exact h.halted (hdone.trans (Hooks.closeHook_halted hH hen))
  · rw [hd]
    exact h.halted (.of_log hen rfl rfl)

/-- **Reading stays stopped** until a closure of `start_reading` runs. -/
theorem run_stopped {c c' : Strand.Config (Session D R W) (Frame F)}
    (h : K.program.Run (fun _ l => l ≠ .call .startReading) c c')
    (hen : c.state.readEnabled = false) : Stopped c.state c'.state := by
  refine h.inv (I := fun d => Stopped c.state d.state) ⟨hen, rfl, Nat.le_refl _⟩
    fun c₁ l c₂ ih hl hs => ?_
  rcases Strand.Program.step_cases hs with ⟨x, rfl, rfl⟩ | ⟨e, r, rfl, -, hr, rfl⟩ |
    ⟨f, st, rfl, -, rfl⟩
  · have hx : x ≠ .startReading := fun hx => hl (by rw [hx])
    exact ih.halted (call_halted hK hx ih.enabled)
  · exact event_stopped hK ih hr
  · exact ih.halted (resume_halted hK f ih.enabled)

end SessionClass

end TransitSession
