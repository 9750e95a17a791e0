/-
  What the read handler is told.

  A session tells its read handler about values and about errors
  (`Session.notifications`).  An error should be the last thing it is told: the
  handler of a read reports the error and then closes the session.  Between the
  two runs the read handler, so `ReadsEnd` holds along the runs in which no call
  starts another read there (`SessionClass.run_readsEnd`).
-/
import TransitSession.Core.Scheduling

namespace TransitSession

variable {D R W C E F : Type}

/-- The error codes that `read_handler_` was invoked with, in order. -/
def Session.notifications (s : Session D R W) : List ErrorCode :=
  s.log.filterMap fun | .notified ec _ => some ec | _ => none

/-- Zero or more successes, followed by at most one error. -/
def ReportsOnce (s : Session D R W) : Prop :=
  ∃ n, s.notifications = List.replicate n none ∨
    ∃ e, s.notifications = List.replicate n none ++ [some e]

/-! ## Closures that tell nothing -/

/-- Of reads, the event says that one has completed or was notified. -/
def Event.reports : Event D R W → Bool
  | .readCompleted .. | .notified .. => true
  | _ => false

/-- The history of `s'` goes on from that of `s` without a report of a read. -/
def Silent (s s' : Session D R W) : Prop :=
  ∃ es, s'.log = s.log ++ es ∧ ∀ e ∈ es, e.reports = false

namespace Silent
variable {s s' s'' : Session D R W}

theorem of_log (h : s'.log = s.log) : Silent s s' := ⟨[], by simpa using h, by simp⟩

theorem emit {e : Event D R W} (h : s'.log = s.log ++ [e]) (he : e.reports = false) :
    Silent s s' :=
  ⟨[e], h, by simpa using he⟩

theorem trans (h : Silent s s') (h' : Silent s' s'') : Silent s s'' := by
  obtain ⟨es, hl, hes⟩ := h
  obtain ⟨es', hl', hes'⟩ := h'
  refine ⟨es ++ es', by rw [hl', hl, List.append_assoc], ?_⟩
  intro e he
  rcases List.mem_append.1 he with he | he
  exacts [hes e he, hes' e he]

/-- What is read off the reports stays the same. -/
theorem filterMap {β : Type} {g : Event D R W → Option β} (h : Silent s s')
    (hg : ∀ e, e.reports = false → g e = none) : s'.log.filterMap g = s.log.filterMap g := by
  obtain ⟨es, hl, hes⟩ := h
  have : es.filterMap g = [] := List.filterMap_eq_nil_iff.2 fun e he => hg e (hes e he)
  rw [hl, List.filterMap_append, this, List.append_nil]

theorem notifications (h : Silent s s') : s'.notifications = s.notifications :=
  h.filterMap fun e he => by cases e <;> first | rfl | cases he

end Silent

namespace Hooks
variable {H : Hooks D R W F} (hH : H.Lawful)
include hH

theorem closeHook_silent (s : Session D R W) : Silent s (s.close H.closeTransport).1 := by
  obtain ⟨d, hd⟩ := closeHook_eq s hH
  rw [hd]
  unfold Session.shutOnce
  split_ifs
  · exact .emit rfl rfl
  · exact ⟨[.closeRun, .closeTransport], rfl, by simp [Event.reports]⟩

theorem startWriting_silent (s : Session D R W) :
    Silent s (H.startWriting s) ∧ (H.startWriting s).reads = s.reads := by
  unfold startWriting
  split_ifs with h
  · rcases hH.doWrite_starts h with ⟨d, q, bytes, -, -, he⟩ | he
    · rw [he]
      exact ⟨.emit rfl rfl, rfl⟩
    · rw [he]
      exact ⟨closeHook_silent hH s, (closeHook_spec hH s).2.1⟩
  · exact ⟨.of_log rfl, rfl⟩

theorem schedule_silent (s : Session D R W) : Silent s (H.scheduleOperations s) := by
  rw [schedule_eq]
  refine (startWriting_silent hH s).1.trans ?_
  split_ifs with h
  · obtain ⟨d, op, -, he⟩ := hH.doRead_starts h
    rw [he]
    exact .emit rfl rfl
  · exact .of_log rfl

/-- `schedule_operations` starts no read unless `can_start_read` allows it. -/
theorem schedule_reads {s : Session D R W} (h : H.canStartRead (H.startWriting s) = false) :
    (H.scheduleOperations s).reads = s.reads := by
  rw [schedule_eq, if_neg (by simp [h]), (startWriting_silent hH s).2]

end Hooks

namespace SessionClass
variable [Inhabited R] {K : SessionClass D R W C E F} (hK : K.Lawful)
include hK

theorem call_silent (x : Call W C) (s : Session D R W) : Silent s (K.call x s).1 := by
  have hH := hK.toLawful
  cases x with
  | setReadHandler | stopReading => exact .of_log rfl
  | startReading =>
    show Silent s (K.startReading s)
    rcases K.startReading_eq s with ⟨-, he⟩ | ⟨-, he⟩ <;> rw [he]
    · exact .of_log rfl
    · exact Hooks.schedule_silent hH { s with readEnabled := true }
  | send m =>
    show Silent s (K.enqueueWrite m s)
    rcases K.enqueueWrite_eq s m with ⟨-, he⟩ | ⟨-, he⟩ <;> rw [he]
    · exact .of_log rfl
    · have hpush : Silent s (s.pushBack m) := .emit rfl rfl
      exact hpush.trans (Hooks.schedule_silent hH _)
  | close => exact Hooks.closeHook_silent hH s
  | derived x =>
    show Silent s (K.callDerived x s).1
    rcases hK.callDerived_members x s with ⟨⟨d, hd⟩, -⟩ | ⟨d, hd⟩ <;> rw [hd]
    · exact .of_log rfl
    · exact Hooks.schedule_silent hH { s with derived := d }

theorem call_notifications (x : Call W C) (s : Session D R W) :
    (K.call x s).1.notifications = s.notifications :=
  (call_silent hK x s).notifications

/-- Only completion handlers call the read handler. -/
theorem call_frames {x : Call W C} {s : Session D R W} {f : Frame F}
    (h : (K.call x s).2 = some f) : ∃ f', f = .derived f' := by
  cases x with
  | close =>
    obtain ⟨f', -, rfl⟩ := Option.map_eq_some_iff.1 h
    exact ⟨f', rfl⟩
  | derived x =>
    change (K.callDerived x s).2 = some f at h
    rcases hK.callDerived_members x s with ⟨-, hm⟩ | ⟨d, hd⟩
    · exact hm f h
    · rw [hd] at h; cases h
  | _ => cases h

theorem resume_frames {f g : Frame F} {s : Session D R W} (h : (K.resume f s).2 = some g) :
    ∃ g', g = .derived g' := by
  cases f with
  | readError =>
    obtain ⟨g', -, rfl⟩ := Option.map_eq_some_iff.1 h
    exact ⟨g', rfl⟩
  | readValue => cases h
  | derived f => exact (hK.resumeDerived_members f s).2 g h

end SessionClass

/-- The frame is a call of the read handler. -/
def Frame.ofReadHandler : Frame F → Bool
  | .readError _ | .readValue _ => true
  | .derived _ => false

/-- **The read handler is not entered again before it returns.**  Its calls are
    completion handlers, which wait until the strand is idle. -/
theorem SessionClass.run_readHandler [Inhabited R] {K : SessionClass D R W C E F} (hK : K.Lawful)
    {ok : Strand.Program.Guard (Session D R W) (Call W C) (Completion E) (Frame F)}
    {s : Session D R W} {c : Strand.Config (Session D R W) (Frame F)}
    (h : K.program.Run ok ⟨s, []⟩ c) : c.stack.countP Frame.ofReadHandler ≤ 1 := by
  have hinner : ∀ f ∈ c.stack.dropLast, f.ofReadHandler = false := by
    refine h.inner _ (fun f hf => by cases hf) ?_ ?_
    · intro x s f hf
      obtain ⟨f', rfl⟩ := call_frames hK hf
      rfl
    · intro g s f hf
      obtain ⟨f', rfl⟩ := resume_frames hK hf
      rfl
  rcases List.eq_nil_or_concat c.stack with hnil | ⟨st, f, hst⟩
  · simp [hnil]
  · rw [hst, List.concat_eq_append, List.dropLast_concat] at hinner
    have hzero : st.countP Frame.ofReadHandler = 0 :=
      List.countP_eq_zero.2 fun f hf => by simp [hinner f hf]
    rw [hst, List.concat_eq_append, List.countP_append, hzero, Nat.zero_add]
    exact List.countP_le_length

/-! ## The end of reading -/

/-- The read handler is being told of an error. -/
def ReportsError (st : List (Frame F)) : Prop := ∃ h, Frame.readError h ∈ st

/-- What the read handler was told; after an error nothing is to come, for no
    read is outstanding and none can start. -/
def ReadsEnd (c : Strand.Config (Session D R W) (Frame F)) : Prop :=
  (∃ n, c.state.notifications = List.replicate n none) ∨
  (∃ n e, c.state.notifications = List.replicate n none ++ [some e]) ∧ c.state.reads = [] ∧
    (c.state.closed = true ∨ ReportsError c.stack)

namespace ReadsEnd
variable {s s' : Session D R W} {st st' : List (Frame F)}

theorem reportsOnce {c : Strand.Config (Session D R W) (Frame F)} (h : ReadsEnd c) :
    ReportsOnce c.state := by
  rcases h with ⟨n, hn⟩ | ⟨⟨n, e, hn⟩, -⟩
  exacts [⟨n, Or.inl hn⟩, ⟨n, Or.inr ⟨e, hn⟩⟩]

/-- A closure that tells nothing, and starts no read after an error. -/
theorem silent (h : ReadsEnd ⟨s, st⟩) (hn : s'.notifications = s.notifications)
    (hs : s.reads = [] → s.closed = true ∨ ReportsError st →
      s'.reads = [] ∧ (s'.closed = true ∨ ReportsError st')) : ReadsEnd ⟨s', st'⟩ := by
  rcases h with ⟨n, hl⟩ | ⟨⟨n, e, hl⟩, hr, hc⟩
  · exact Or.inl ⟨n, hn.trans hl⟩
  · exact Or.inr ⟨⟨n, e, hn.trans hl⟩, hs hr hc⟩

/-- While a read is outstanding, no error was reported. -/
theorem of_reading (h : ReadsEnd ⟨s, st⟩) (hr : s.reads ≠ []) :
    ∃ n, s.notifications = List.replicate n none := by
  rcases h with h | ⟨-, hr', -⟩
  exacts [h, absurd hr' hr]

end ReadsEnd

theorem ReportsError.push {st : List (Frame F)} (h : ReportsError st) (fs : List (Frame F)) :
    ReportsError (fs ++ st) := by
  obtain ⟨g, hg⟩ := h
  exact ⟨g, List.mem_append_right _ hg⟩

namespace SessionClass
variable [Inhabited R] {K : SessionClass D R W C E F} (hK : K.Lawful)
include hK

/-- The completion handler of a read tells about the value or the error. -/
theorem readHandled_readsEnd {s : Session D R W} {ec : ErrorCode}
    {r : Session D R W × Option (Frame F)} (h : ReadHandled K.toHooks s ec r)
    (hr : s.reads = []) {n : ℕ} (hn : s.notifications = List.replicate n none) :
    ReadsEnd ⟨r.1, r.2.toList⟩ := by
  have hH := hK.toLawful
  cases h with
  | resumed => exact Or.inl ⟨n, (Hooks.schedule_silent hH s).notifications.trans hn⟩
  | failed _ d e =>
    rcases K.failRead_eq { s with derived := d } e with ⟨g, -, he⟩ | ⟨-, he⟩ <;> rw [he]
    · refine Or.inr ⟨⟨n, e, ?_⟩, hr, Or.inr ⟨g, by simp⟩⟩
      simp only [Session.notifications, Session.emit, List.filterMap_append] at hn ⊢
      rw [hn]; rfl
    · exact Or.inl ⟨n, (Hooks.closeHook_silent hH { s with derived := d }).notifications.trans hn⟩
  | delivered d value =>
    rcases K.deliverRead_eq { s with derived := d } value with ⟨g, he⟩ | he <;> rw [he]
    · refine Or.inl ⟨n + 1, ?_⟩
      simp only [Session.notifications, Session.emit, List.filterMap_append] at hn ⊢
      rw [hn, List.replicate_succ']; rfl
    · exact Or.inl ⟨n, (Hooks.schedule_silent hH { s with derived := d }).notifications.trans hn⟩

theorem event_readsEnd {e : Completion E} {s : Session D R W}
    {r : Session D R W × Option (Frame F)} (hm : Mirrored s)
    (h : ReadsEnd ⟨s, ([] : List (Frame F))⟩) (hr : K.event e s = some r) :
    ReadsEnd ⟨r.1, r.2.toList⟩ := by
  have hH := hK.toLawful
  -- on the idle strand, a session that reported an error is closed
  have idle : s.closed = true ∨ ReportsError ([] : List (Frame F)) → s.closed = true := by
    rintro (hc | ⟨g, hg⟩)
    · exact hc
    · cases hg
  rcases event_cases hK hr with ⟨k, ec, data, op, d, rfl, hop, hread⟩ | ⟨k, op, -, hop, rfl⟩ |
    ⟨k, op, e', -, hop, rfl⟩ | ⟨e', -, ⟨d, hd⟩, -⟩
  · obtain ⟨hreads, hnil, -⟩ := hm.reads_eq hop
    obtain ⟨n, hn⟩ := h.of_reading (by simp [hreads])
    refine readHandled_readsEnd hK hread hnil (n := n) ?_
    simpa [Session.notifications, Session.readDone] using hn
  · show ReadsEnd ⟨K.scheduleOperations (s.writeDone k op none).consumeWrite, []⟩
    refine h.silent ?_ ?_
    · rw [(Hooks.schedule_silent hH _).notifications, Session.consumeWrite_eq]
      simp [Session.notifications, Session.writeDone]
    · intro hreads hc
      have ht : (s.writeDone k op none).consumeWrite.closed = true := by
        rw [Session.consumeWrite_eq]; exact idle hc
      rw [Hooks.schedule_of_quiet _ (Hooks.quiet_of_closed hH ht)]
      exact ⟨by rw [Session.consumeWrite_eq]; exact hreads, Or.inl ht⟩
  · refine h.silent ?_ fun hreads _ => ?_
    · refine (Hooks.closeHook_silent hH _).notifications.trans ?_
      simp [Session.notifications, Session.writeDone]
    · exact ⟨(Hooks.close_reads hH _).trans hreads, Or.inl (Hooks.close_closed hH _)⟩
  · refine h.silent (by rw [hd]; rfl) fun hreads hc => ?_
    rw [hd]
    exact ⟨hreads, Or.inl (idle hc)⟩

theorem resume_readsEnd {f : Frame F} {s : Session D R W} {st : List (Frame F)}
    (hin : ∀ g ∈ (f :: st).dropLast, ∃ g', g = .derived g') (h : ReadsEnd ⟨s, f :: st⟩) :
    ReadsEnd ⟨(K.resume f s).1, (K.resume f s).2.toList ++ st⟩ := by
  have hH := hK.toLawful
  cases f with
  | readError g =>
    refine h.silent (Hooks.closeHook_silent hH s).notifications fun hreads _ => ?_
    exact ⟨(Hooks.close_reads hH s).trans hreads, Or.inl (Hooks.close_closed hH s)⟩
  | readValue g =>
    -- the read handler was called from the bottom of the stack
    obtain rfl : st = [] := by
      cases st with
      | nil => rfl
      | cons g' st =>
        obtain ⟨_, hg⟩ := hin (.readValue g) (by simp)
        cases hg
    refine h.silent (Hooks.schedule_silent hH s).notifications fun hreads hc => ?_
    have hclosed : s.closed = true := by
      rcases hc with hc | ⟨g', hg⟩
      · exact hc
      · rcases List.mem_singleton.1 hg with hg
        cases hg
    show (K.scheduleOperations s).reads = [] ∧ ((K.scheduleOperations s).closed = true ∨ _)
    rw [Hooks.schedule_of_quiet _ (Hooks.quiet_of_closed hH hclosed)]
    exact ⟨hreads, Or.inl hclosed⟩
  | derived f =>
    obtain ⟨⟨d, hd⟩, -⟩ := hK.resumeDerived_members f s
    have hd' : (K.resume (.derived f) s).1 = { s with derived := d } := hd
    rw [hd']
    refine h.silent rfl fun hreads hc => ⟨hreads, hc.imp id ?_⟩
    rintro ⟨g, hg⟩
    refine ReportsError.push ⟨g, ?_⟩ _
    rcases List.mem_cons.1 hg with hg | hg
    · cases hg
    · exact hg

/-- **The end of reading**, in the runs in which a call starts no read while an
    error is reported. -/
theorem run_readsEnd {ok : K.Guard} {s : Session D R W}
    {c : Strand.Config (Session D R W) (Frame F)} (hs : s.Fresh) (h : K.program.Run ok ⟨s, []⟩ c)
    (hok : ∀ c x, ok c (.call x) → c.state.closed = true ∨ ReportsError c.stack →
      (K.call x c.state).1.reads = c.state.reads) : ReadsEnd c := by
  induction h with
  | refl =>
    obtain ⟨d, rfl⟩ := hs
    exact Or.inl ⟨0, rfl⟩
  | @step c₁ c₂ l hr hl hstep ih =>
    have hin := Strand.Program.Run.inner hr (fun f => ∃ f', f = .derived f') (by simp)
      (fun _ _ _ => call_frames hK) fun _ _ _ => resume_frames hK
    have hm : Mirrored c₁.state := (run_kept hK hs hr).mirrored
    obtain ⟨s₁, st₁⟩ := c₁
    rcases Strand.Program.step_cases hstep with ⟨x, rfl, rfl⟩ | ⟨e, r, rfl, hst, he, rfl⟩ |
      ⟨f, st, rfl, hst, rfl⟩
    · refine ih.silent (call_notifications hK x s₁) fun hreads hc => ⟨?_, ?_⟩
      · exact (hok _ x hl hc).trans hreads
      · refine hc.imp (fun hc => ?_) fun hc => hc.push _
        exact (StaysClosed.acts hK.toLawful (call_acts hK x s₁) hc).1
    · obtain rfl : st₁ = [] := hst
      exact event_readsEnd hK hm ih he
    · obtain rfl : st₁ = f :: st := hst
      exact resume_readsEnd hK hin ih

end SessionClass

end TransitSession
