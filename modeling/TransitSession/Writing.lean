/-
  What the sessions hand to their transports, and take from them.

  A write hands on the message of its element: a byte string as it is, a CAN frame as
  `encode_frame` makes it (`run_encoded`).  The history only grows, and of the steps
  only the completion handler of a read takes anything (`step_received`).
-/
import TransitSession.Can.Rejection
import TransitSession.Delivery

namespace TransitSession

variable {D R W C E F : Type}

namespace Session

/-- The bytes handed to the transport, write by write. -/
def written (s : Session D R W) : List (List UInt8) := s.writeOps.map WriteOp.bytes

end Session

/-! ## The history grows -/

theorem Act.log_extends {H : Hooks D R W F} {s s' : Session D R W} (h : Act H s s') :
    s.log <+: s'.log := by
  have hshut (t : Session D R W) : t.log <+: t.shutOnce.log := by
    unfold Session.shutOnce
    split_ifs
    exacts [⟨[.closeRun], rfl⟩, ⟨[.closeRun, .closeTransport], rfl⟩]
  cases h with
  | members | setHandler | enable | disable => exact List.prefix_rfl
  | push | startRead | startWrite | notify | readDone => exact ⟨_, rfl⟩
  | close => exact hshut s
  | writeDone k op =>
    rw [Session.consumeWrite_eq]
    exact ⟨_, rfl⟩
  | writeFailed k op e =>
    have hdone : s.log <+: (s.writeDone k op (some e)).log := ⟨_, rfl⟩
    exact hdone.trans (hshut _)

theorem Acts.log_extends {H : Hooks D R W F} {s s' : Session D R W} (h : Acts H s s') :
    s.log <+: s'.log := by
  induction h with
  | refl => exact List.prefix_rfl
  | tail _ ha ih => exact ih.trans ha.log_extends

namespace SessionClass
variable [Inhabited R] {K : SessionClass D R W C E F}
  {c c' : Strand.Config (Session D R W) (Frame F)}
  {l : Strand.Label (Call W C) (Completion E)}

theorem step_log (hK : K.Lawful) (hs : K.program.step c l = some c') :
    c.state.log <+: c'.state.log := by
  have hr : K.program.Run (fun _ _ => True) c c' := .step .refl trivial hs
  exact (run_acts hK hr).log_extends

theorem step_written (hK : K.Lawful) (hs : K.program.step c l = some c') :
    c.state.written <+: c'.state.written :=
  ((step_log hK hs).filterMap _).map _

/-! ## What is taken -/

/-- What a step takes from the transport: the data of a read that completes. -/
def takes : Strand.Label (Call W C) (Completion E) → List (List UInt8)
  | .event (.read _ none data) => [data]
  | _ => []

omit [Inhabited R] in
theorem received_of_silent {s s' : Session D R W} (h : Silent s s') :
    s'.received = s.received :=
  h.filterMap fun e he => by cases e <;> first | rfl | cases he

omit [Inhabited R] in
theorem received_emit (s : Session D R W) (ec : ErrorCode) (value : R) :
    (s.emit (.notified ec value)).received = s.received := by
  simp [Session.received, Session.emit, Event.received?]

/-- The completion handler of a read reports it, but takes nothing more. -/
theorem received_readHandled {H : Hooks D R W F} (hH : H.Lawful) {s : Session D R W}
    {ec : ErrorCode} {r : Session D R W × Option (Frame F)} (h : ReadHandled H s ec r) :
    r.1.received = s.received := by
  cases h with
  | resumed => exact received_of_silent (Hooks.schedule_silent hH s)
  | failed _ d e =>
    rcases H.failRead_eq { s with derived := d } e with ⟨g, -, he⟩ | ⟨-, he⟩ <;> rw [he]
    · exact received_emit { s with derived := d } _ _
    · exact received_of_silent (Hooks.closeHook_silent hH { s with derived := d })
  | delivered d value =>
    rcases H.deliverRead_eq { s with derived := d } value with ⟨g, he⟩ | he <;> rw [he]
    · exact received_emit { s with derived := d } _ _
    · exact received_of_silent (Hooks.schedule_silent hH { s with derived := d })

theorem event_received (hK : K.Lawful) {e : Completion E} {s : Session D R W}
    {r : Session D R W × Option (Frame F)} (h : K.event e s = some r) :
    r.1.received = s.received ++ takes (W := W) (C := C) (.event e) := by
  have hH := hK.toLawful
  rcases event_cases hK h with ⟨k, ec, data, op, d, rfl, -, hr⟩ | ⟨k, op, rfl, -, rfl⟩ |
    ⟨k, op, e', rfl, -, rfl⟩ | ⟨e', rfl, hm⟩
  · rw [received_readHandled hH hr]
    cases ec <;> simp [Session.received, Session.readDone, Event.received?, takes]
  · show (K.scheduleOperations _).received = _
    rw [received_of_silent (Hooks.schedule_silent hH _), Session.consumeWrite_eq]
    simp [Session.received, Session.writeDone, Event.received?, takes]
  · show (Session.close _ _).1.received = _
    rw [received_of_silent (Hooks.closeHook_silent hH _)]
    simp [Session.received, Session.writeDone, Event.received?, takes]
  · obtain ⟨⟨d, hd⟩, -⟩ := hm
    rw [hd]
    simp [Session.received, takes]

/-- **Only the completion handler of a read takes anything.** -/
theorem step_received (hK : K.Lawful) (hs : K.program.step c l = some c') :
    c'.state.received = c.state.received ++ takes l := by
  have hH := hK.toLawful
  rcases Strand.Program.step_cases hs with ⟨x, rfl, rfl⟩ | ⟨e, r, rfl, -, hr, rfl⟩ |
    ⟨f, st, rfl, -, rfl⟩
  · refine Eq.trans ?_ (List.append_nil _).symm
    exact received_of_silent (call_silent hK x c.state)
  · exact event_received hK hr
  · refine Eq.trans ?_ (List.append_nil _).symm
    show (K.resume f c.state).1.received = _
    cases f with
    | readError => exact received_of_silent (Hooks.closeHook_silent hH c.state)
    | readValue => exact received_of_silent (Hooks.schedule_silent hH c.state)
    | derived f =>
      obtain ⟨⟨d, hd⟩, -⟩ := hK.resumeDerived_members f c.state
      show (K.resumeDerived f c.state).1.received = _
      rw [hd]
      rfl

end SessionClass

/-! ## What is handed over -/

/-- The writes of `s'` that `s` had not initiated meet `P`. -/
def Writes (P : WriteOp W → Prop) (s s' : Session D R W) : Prop :=
  ∀ op ∈ s'.writeOps, op ∈ s.writeOps ∨ P op

namespace Writes
variable {P : WriteOp W → Prop} {s s' s'' : Session D R W}

theorem of_log (h : s'.log = s.log) : Writes P s s' := by
  intro op hop
  unfold Session.writeOps at hop ⊢
  rw [h] at hop
  exact Or.inl hop

theorem refl (s : Session D R W) : Writes P s s := of_log rfl

theorem trans (h : Writes P s s') (h' : Writes P s' s'') : Writes P s s'' := by
  intro op hop
  rcases h' op hop with hop | hp
  exacts [h op hop, Or.inr hp]

/-- Events that are no writes. -/
theorem append (es : List (Event D R W)) (h : s'.log = s.log ++ es)
    (hes : ∀ op d reads, .writeStarted op d reads ∉ es) : Writes P s s' := by
  intro op hop
  obtain ⟨e, he, heq⟩ := List.mem_filterMap.1 hop
  rw [h] at he
  rcases List.mem_append.1 he with he | he
  · exact Or.inl (List.mem_filterMap.2 ⟨e, he, heq⟩)
  · cases e with
    | writeStarted op' d reads => exact absurd he (hes op' d reads)
    | _ => cases heq

end Writes

namespace Hooks
variable {H : Hooks D R W F} {P : WriteOp W → Prop} (hH : H.Lawful)
include hH

theorem closeHook_writes (s : Session D R W) : Writes P s (s.close H.closeTransport).1 := by
  obtain ⟨d, hd⟩ := closeHook_eq s hH
  rw [hd]
  unfold Session.shutOnce
  split_ifs
  · exact .append [.closeRun] rfl (by simp)
  · exact .append [.closeRun, .closeTransport] rfl (by simp)

variable (hdo : ∀ {s}, H.canStartWrite s = true → Writes P s (H.doWrite s))
include hdo

theorem schedule_writes (s : Session D R W) : Writes P s (H.scheduleOperations s) := by
  have hw : Writes P s (H.startWriting s) := by
    unfold startWriting
    split_ifs with h
    exacts [hdo h, .refl s]
  rw [schedule_eq]
  split_ifs with hr
  · obtain ⟨d, op, -, he⟩ := hH.doRead_starts hr
    rw [he]
    exact hw.trans (.append [.readStarted _ _ _] rfl (by simp))
  · exact hw

theorem readHandled_writes [Inhabited R] {s : Session D R W} {ec : ErrorCode}
    {r : Session D R W × Option (Frame F)} (h : ReadHandled H s ec r) : Writes P s r.1 := by
  cases h with
  | resumed => exact schedule_writes hH hdo s
  | failed _ d e =>
    rcases H.failRead_eq { s with derived := d } e with ⟨g, -, he⟩ | ⟨-, he⟩ <;> rw [he]
    · exact .append [.notified _ _] rfl (by simp)
    · exact Writes.trans (.of_log rfl) (closeHook_writes hH { s with derived := d })
  | delivered d value =>
    rcases H.deliverRead_eq { s with derived := d } value with ⟨g, he⟩ | he <;> rw [he]
    · exact .append [.notified _ _] rfl (by simp)
    · exact Writes.trans (.of_log rfl) (schedule_writes hH hdo { s with derived := d })

end Hooks

theorem MembersOnly.writes {P : WriteOp W → Prop} {s : Session D R W}
    {r : Session D R W × Option (Frame F)} (h : MembersOnly s r) : Writes P s r.1 := by
  obtain ⟨⟨d, hd⟩, -⟩ := h
  rw [hd]
  exact .of_log rfl

namespace SessionClass
variable [Inhabited R] {K : SessionClass D R W C E F} {P : WriteOp W → Prop} (hK : K.Lawful)
  (hdo : ∀ {s}, K.canStartWrite s = true → Writes P s (K.doWrite s))
include hK hdo

theorem call_writes (x : Call W C) (s : Session D R W) : Writes P s (K.call x s).1 := by
  have hH := hK.toLawful
  cases x with
  | setReadHandler | stopReading => exact .of_log rfl
  | startReading =>
    show Writes P s (K.startReading s)
    rcases K.startReading_eq s with ⟨-, he⟩ | ⟨-, he⟩ <;> rw [he]
    · exact .refl s
    · exact Writes.trans (.of_log rfl) (Hooks.schedule_writes hH hdo { s with readEnabled := true })
  | send m =>
    show Writes P s (K.enqueueWrite m s)
    rcases K.enqueueWrite_eq s m with ⟨-, he⟩ | ⟨-, he⟩ <;> rw [he]
    · exact .refl s
    · refine Writes.trans ?_ (Hooks.schedule_writes hH hdo (s.pushBack m))
      exact .append [.pushed _] rfl (by simp)
  | close => exact Hooks.closeHook_writes hH s
  | derived x =>
    rcases hK.callDerived_members x s with hm | ⟨d, he⟩
    · exact hm.writes
    · show Writes P s (K.callDerived x s).1
      rw [he]
      exact Writes.trans (.of_log rfl) (Hooks.schedule_writes hH hdo { s with derived := d })

theorem event_writes {e : Completion E} {s : Session D R W}
    {r : Session D R W × Option (Frame F)} (h : K.event e s = some r) : Writes P s r.1 := by
  have hH := hK.toLawful
  have hdone (k : ℕ) (op : WriteOp W) (ec : ErrorCode) : Writes P s (s.writeDone k op ec) :=
    .append [.writeCompleted op ec] rfl (by simp)
  rcases event_cases hK h with ⟨k, ec, data, op, d, -, -, hr⟩ | ⟨k, op, -, -, rfl⟩ |
    ⟨k, op, e', -, -, rfl⟩ | ⟨-, -, hm⟩
  · refine Writes.trans ?_ (Hooks.readHandled_writes hH hdo hr)
    exact .append [.readCompleted ec data] rfl (by simp)
  · refine (hdone k op none).trans (Writes.trans ?_ (Hooks.schedule_writes hH hdo _))
    rw [Session.consumeWrite_eq]
    exact .of_log rfl
  · exact (hdone k op (some e')).trans (Hooks.closeHook_writes hH _)
  · exact hm.writes

theorem resume_writes (f : Frame F) (s : Session D R W) : Writes P s (K.resume f s).1 := by
  cases f with
  | readError => exact Hooks.closeHook_writes hK.toLawful s
  | readValue => exact Hooks.schedule_writes hK.toLawful hdo s
  | derived f => exact (hK.resumeDerived_members f s).writes

/-- **Every write is one that `do_write` makes.** -/
theorem run_writes {ok : K.Guard} {c c' : Strand.Config (Session D R W) (Frame F)}
    (h : K.program.Run ok c c') : Writes P c.state c'.state :=
  h.rel .refl .trans (call_writes hK hdo) (fun _ _ _ hr => event_writes hK hdo hr)
    (resume_writes hK hdo)

end SessionClass

/-! ## The concrete classes -/

namespace Kind

/-- The bytes that a write hands on for its element. -/
def encode (enableCanFd : Bool) : (k : Kind) → k.Value → Option (List UInt8)
  | .can => Can.encodeFrame enableCanFd
  | .serial | .webSocket | .webSocketServer => some

theorem doWrite_bytes {M : Type} (s : WebSocket.StreamSession M) :
    Writes (fun op => some op.element.message = some op.bytes) s
      (WebSocket.StreamSession.doWrite s) := by
  unfold WebSocket.StreamSession.doWrite
  split
  · exact .refl s
  · next q _ =>
    intro op hop
    simp only [Session.writeOps, Session.asyncWrite, Session.markWriteStarted,
      List.filterMap_append, List.mem_append] at hop
    refine hop.imp id fun hop => ?_
    obtain rfl := by simpa using hop
    rfl

theorem doWrite_serial_bytes (s : SerialSession) :
    Writes (fun op => some op.element.message = some op.bytes) s (SerialSession.doWrite s) := by
  unfold SerialSession.doWrite
  split
  · exact .refl s
  · next q _ =>
    split_ifs
    · exact .of_log rfl
    · intro op hop
      simp only [Session.writeOps, Session.asyncWrite, Session.markWriteStarted,
        List.filterMap_append, List.mem_append] at hop
      refine hop.imp id fun hop => ?_
      obtain rfl := by simpa using hop
      rfl

/-- **What is handed over are the encoded messages.** -/
theorem run_encoded {k : Kind} {ok : k.Config → k.Label → Prop} {c : k.Config}
    (h : k.ReachableBy ok c) :
    ∃ enableCanFd, ∀ op ∈ c.state.writeOps,
      k.encode enableCanFd op.element.message = some op.bytes := by
  obtain ⟨s, hs, hr⟩ := h
  have hempty : s.writeOps = [] := by
    obtain ⟨d, rfl⟩ := hs.fresh
    rfl
  have hnew {P : WriteOp k.Value → Prop} (hw : Writes P s c.state) :
      ∀ op ∈ c.state.writeOps, P op := by
    intro op hop
    refine (hw op hop).resolve_left ?_
    rw [hempty]
    exact List.not_mem_nil
  cases k with
  | serial =>
    exact ⟨false, hnew (SessionClass.run_writes Kind.serial.lawful
      (fun _ => doWrite_serial_bytes _) hr)⟩
  | webSocket =>
    exact ⟨false, hnew (SessionClass.run_writes Kind.webSocket.lawful
      (fun _ => doWrite_bytes _) hr)⟩
  | webSocketServer =>
    exact ⟨false, hnew (SessionClass.run_writes Kind.webSocketServer.lawful
      (fun _ => doWrite_bytes _) hr)⟩
  | can =>
    exact ⟨_, (CanSession.run_encodes hs (hr.mono fun _ _ _ => trivial)).writes⟩

end Kind

end TransitSession
