/-
  The actions of a session: what any closure of any session class is made of.

  `Act` lists the changes a session can undergo in one go, with the conditions
  under which the core makes them; `Acts` is a sequence of actions.  A session
  class is `Lawful` if its hooks and handlers are built from the functions of
  the core; then every closure is a sequence of actions (`call_acts`,
  `event_acts`, `resume_acts`), and so is every run (`run_acts`).  Properties of
  all sessions are proved once, for one action.
-/
import TransitSession.Core.Session
import Mathlib.Logic.Relation

namespace TransitSession

variable {D R W C E F : Type}

namespace Session

/-- The completion of the `k`-th outstanding read, up to `mark_read_finished`. -/
def readDone (s : Session D R W) (k : ℕ) (ec : ErrorCode) (data : List UInt8) : Session D R W :=
  { s with
    reads := s.reads.eraseIdx k
    readInProgress := false
    log := s.log ++ [.readCompleted ec data] }

/-- The completion of the `k`-th outstanding write, up to `mark_write_finished`. -/
def writeDone (s : Session D R W) (k : ℕ) (op : WriteOp W) (ec : ErrorCode) : Session D R W :=
  { s with
    writes := s.writes.eraseIdx k
    writeInProgress := false
    log := s.log ++ [.writeCompleted op ec] }

/-- The effect of `close()` on the members of the core. -/
def shutOnce (s : Session D R W) : Session D R W :=
  if s.closed then s.emit .closeRun else s.shut

end Session

/-- One action of a session. -/
inductive Act (H : Hooks D R W F) : Session D R W → Session D R W → Prop where
  /-- the members of the derived class change -/
  | members (s) (d : D) : Act H s { s with derived := d }
  | setHandler (s) (h : Option Handler) : Act H s (s.setReadHandler h)
  | enable (s) : s.closed = false → Act H s { s with readEnabled := true }
  | disable (s) : Act H s s.stopReading
  | push (s) (m : W) : s.closed = false → Act H s (s.pushBack m)
  | startRead (s) (op : ReadOp) : H.canStartRead s = true →
      Act H s (s.markReadStarted.asyncRead op)
  | startWrite (s) (q : Queued W) (bytes : List UInt8) : H.canStartWrite s = true →
      s.currentWrite = some q → Act H s (s.markWriteStarted.asyncWrite ⟨q, bytes⟩)
  | close (s) : Act H s s.shutOnce
  | notify (s) (ec : ErrorCode) (value : R) : Act H s (s.emit (.notified ec value))
  | readDone (s) (k : ℕ) (op : ReadOp) (ec : ErrorCode) (data : List UInt8) :
      s.reads[k]? = some op → Act H s (s.readDone k ec data)
  /-- a write finishes and leaves the queue -/
  | writeDone (s) (k : ℕ) (op : WriteOp W) : s.writes[k]? = some op →
      Act H s (s.writeDone k op none).consumeWrite
  /-- a write fails, which closes the session -/
  | writeFailed (s) (k : ℕ) (op : WriteOp W) (e : Errc) : s.writes[k]? = some op →
      Act H s (s.writeDone k op (some e)).shutOnce

/-- A sequence of actions. -/
abbrev Acts (H : Hooks D R W F) : Session D R W → Session D R W → Prop :=
  Relation.ReflTransGen (Act H)

/-! ## Lawful session classes -/

/-- The hooks start operations only when the core allows it, and change nothing
    else but the members of the derived class. -/
structure Hooks.Lawful (H : Hooks D R W F) : Prop where
  canStartRead_core : ∀ {s}, H.canStartRead s = true →
    s.readEnabled = true ∧ s.readInProgress = false ∧ s.closed = false
  canStartWrite_core : ∀ {s}, H.canStartWrite s = true →
    s.writeInProgress = false ∧ s.writeQueue ≠ [] ∧ s.closed = false
  closeTransport_members : ∀ s, ∃ d, (H.closeTransport s).1 = { s with derived := d }
  doRead_starts : ∀ {s}, H.canStartRead s = true →
    ∃ d op, H.canStartRead { s with derived := d } = true ∧
      H.doRead s = Session.asyncRead (Session.markReadStarted { s with derived := d }) op
  /-- `do_write` starts the write of the front element, or closes the session -/
  doWrite_starts : ∀ {s}, H.canStartWrite s = true →
    (∃ d q bytes, H.canStartWrite { s with derived := d } = true ∧ s.currentWrite = some q ∧
      H.doWrite s = Session.asyncWrite (Session.markWriteStarted { s with derived := d })
        ⟨q, bytes⟩) ∨
    H.doWrite s = (s.close H.closeTransport).1
  /-- starting a read does not allow a write that was not allowed before -/
  doRead_blocks : ∀ {s}, H.canStartRead s = true → H.canStartWrite s = false →
    H.canStartWrite (H.doRead s) = false
  canStartRead_handler : ∀ s h, H.canStartRead (s.setReadHandler h) = H.canStartRead s
  canStartWrite_handler : ∀ s h, H.canStartWrite (s.setReadHandler h) = H.canStartWrite s
  canStartWrite_enabled : ∀ s b, H.canStartWrite { s with readEnabled := b } = H.canStartWrite s

/-- The closure changes the members of the derived class, and ends at most in
    user code of the derived class. -/
def MembersOnly (s : Session D R W) (r : Session D R W × Option (Frame F)) : Prop :=
  (∃ d, r.1 = { s with derived := d }) ∧ ∀ f, r.2 = some f → ∃ f', f = .derived f'

/-- The completion handler of a read: a cancelled read is taken up again, an
    error is reported, a value is delivered. -/
inductive ReadHandled (H : Hooks D R W F) [Inhabited R] (s : Session D R W) :
    ErrorCode → Session D R W × Option (Frame F) → Prop where
  | resumed (ec) : ReadHandled H s ec (H.scheduleOperations s, none)
  | failed (ec) (d : D) (e : Errc) : ReadHandled H s ec (H.failRead e { s with derived := d })
  | delivered (d : D) (value : R) :
      ReadHandled H s none (H.deliverRead value { s with derived := d })

structure SessionClass.Lawful [Inhabited R] (K : SessionClass D R W C E F) : Prop extends
    K.toHooks.Lawful where
  onRead_handled : ∀ ec n s, ReadHandled K.toHooks s.markReadFinished ec (K.onRead ec n s)
  callDerived_members : ∀ c s, MembersOnly s (K.callDerived c s) ∨
    ∃ d, K.callDerived c s = (K.scheduleOperations { s with derived := d }, none)
  eventDerived_members : ∀ e s r, K.eventDerived e s = some r → MembersOnly s r
  resumeDerived_members : ∀ f s, MembersOnly s (K.resumeDerived f s)

/-! ## The functions of the core, by cases -/

namespace Hooks
variable (H : Hooks D R W F) (s : Session D R W)

/-- `start_reading` does nothing, or it enables reading and schedules. -/
theorem startReading_eq : s.closed = true ∧ H.startReading s = s ∨
    s.closed = false ∧
      H.startReading s = H.scheduleOperations { s with readEnabled := true } := by
  unfold startReading
  split_ifs with h
  exacts [Or.inl ⟨h, rfl⟩, Or.inr ⟨by simpa using h, rfl⟩]

/-- `enqueue_write` does nothing, or it pushes the message and schedules. -/
theorem enqueueWrite_eq (m : W) : s.closed = true ∧ H.enqueueWrite m s = s ∨
    s.closed = false ∧ H.enqueueWrite m s = H.scheduleOperations (s.pushBack m) := by
  unfold enqueueWrite
  split_ifs with h
  exacts [Or.inl ⟨h, rfl⟩, Or.inr ⟨by simpa using h, rfl⟩]

/-- An error is notified, or the session is closed at once. -/
theorem failRead_eq [Inhabited R] (e : Errc) :
    (∃ h, s.readHandler = some h ∧
      H.failRead e s = (s.emit (.notified (some e) default), some (.readError h))) ∨
    s.readHandler = none ∧ H.failRead e s = H.close s := by
  unfold failRead
  cases s.readHandler with
  | some h => exact Or.inl ⟨h, rfl, rfl⟩
  | none => exact Or.inr ⟨rfl, rfl⟩

/-- A value is notified, or the session schedules at once. -/
theorem deliverRead_eq (value : R) :
    (∃ h, H.deliverRead value s = (s.emit (.notified none value), some (.readValue h))) ∨
    H.deliverRead value s = (H.scheduleOperations s, none) := by
  unfold deliverRead
  split
  · exact Or.inl ⟨_, rfl⟩
  · exact Or.inr rfl

variable {H} in
/-- `close()` shuts the session once. -/
theorem closeHook_eq (hH : H.Lawful) :
    ∃ d, (s.close H.closeTransport).1 = { s.shutOnce with derived := d } := by
  unfold Session.close Session.shutOnce
  split_ifs
  · exact ⟨s.derived, rfl⟩
  · exact hH.closeTransport_members s.shut

end Hooks

/-! ## Closures are sequences of actions -/

namespace Hooks
variable {H : Hooks D R W F} (hH : H.Lawful)
include hH

theorem closeHook_acts (s : Session D R W) : Acts H s (s.close H.closeTransport).1 := by
  obtain ⟨d, hd⟩ := closeHook_eq s hH
  rw [hd]
  exact (Relation.ReflTransGen.single (.close s)).tail (.members _ d)

theorem close_acts (s : Session D R W) : Acts H s (H.close s).1 := closeHook_acts hH s

theorem doRead_acts {s : Session D R W} (h : H.canStartRead s = true) : Acts H s (H.doRead s) := by
  obtain ⟨d, op, hd, he⟩ := hH.doRead_starts h
  rw [he]
  exact (Relation.ReflTransGen.single (.members s d)).tail (.startRead _ op hd)

theorem doWrite_acts {s : Session D R W} (h : H.canStartWrite s = true) :
    Acts H s (H.doWrite s) := by
  rcases hH.doWrite_starts h with ⟨d, q, bytes, hd, hq, he⟩ | he
  · rw [he]
    exact (Relation.ReflTransGen.single (.members s d)).tail (.startWrite _ q bytes hd hq)
  · rw [he]; exact closeHook_acts hH s

theorem schedule_acts (s : Session D R W) : Acts H s (H.scheduleOperations s) := by
  unfold scheduleOperations
  have hw : Acts H s (if H.canStartWrite s then H.doWrite s else s) := by
    split_ifs with h
    exacts [doWrite_acts hH h, .refl]
  refine hw.trans ?_
  dsimp only
  split_ifs with _ h h
  exacts [doRead_acts hH h, .refl, doRead_acts hH h, .refl]

theorem startReading_acts (s : Session D R W) : Acts H s (H.startReading s) := by
  rcases startReading_eq H s with ⟨-, he⟩ | ⟨hc, he⟩ <;> rw [he]
  exact (schedule_acts hH _).head (.enable s hc)

theorem enqueueWrite_acts (m : W) (s : Session D R W) : Acts H s (H.enqueueWrite m s) := by
  rcases enqueueWrite_eq H s m with ⟨-, he⟩ | ⟨hc, he⟩ <;> rw [he]
  exact (schedule_acts hH _).head (.push s m hc)

theorem failRead_acts [Inhabited R] (e : Errc) (s : Session D R W) :
    Acts H s (H.failRead e s).1 := by
  rcases failRead_eq H s e with ⟨h, -, he⟩ | ⟨-, he⟩ <;> rw [he]
  · exact .single (.notify s _ _)
  · exact close_acts hH s

theorem deliverRead_acts (value : R) (s : Session D R W) :
    Acts H s (H.deliverRead value s).1 := by
  rcases deliverRead_eq H s value with ⟨h, he⟩ | he <;> rw [he]
  · exact .single (.notify s _ _)
  · exact schedule_acts hH s

theorem readHandled_acts [Inhabited R] {s : Session D R W} {ec : ErrorCode}
    {r : Session D R W × Option (Frame F)} (h : ReadHandled H s ec r) : Acts H s r.1 := by
  cases h with
  | resumed => exact schedule_acts hH s
  | failed _ d e => exact (failRead_acts hH e _).head (.members s d)
  | delivered d value => exact (deliverRead_acts hH value _).head (.members s d)

/-- The error handler of a write. -/
theorem writeFailed_acts {s : Session D R W} {k : ℕ} {op : WriteOp W} (e : Errc)
    (hk : s.writes[k]? = some op) : Acts H s (H.close (s.writeDone k op (some e))).1 := by
  obtain ⟨d, hd⟩ := closeHook_eq (s.writeDone k op (some e)) hH
  show Acts H s (Session.close H.closeTransport (s.writeDone k op (some e))).1
  rw [hd]
  exact (Relation.ReflTransGen.single (.writeFailed s k op e hk)).tail (.members _ d)

end Hooks

theorem MembersOnly.acts {H : Hooks D R W F} {s : Session D R W}
    {r : Session D R W × Option (Frame F)} (h : MembersOnly s r) : Acts H s r.1 := by
  obtain ⟨⟨d, hd⟩, -⟩ := h
  rw [hd]; exact .single (.members s d)

namespace SessionClass
variable [Inhabited R] {K : SessionClass D R W C E F} (hK : K.Lawful)
include hK

theorem call_acts (x : Call W C) (s : Session D R W) : Acts K.toHooks s (K.call x s).1 := by
  have hH := hK.toLawful
  cases x with
  | setReadHandler h => exact .single (.setHandler s h)
  | startReading => exact Hooks.startReading_acts hH s
  | stopReading => exact .single (.disable s)
  | send m => exact Hooks.enqueueWrite_acts hH m s
  | close => exact Hooks.close_acts hH s
  | derived c =>
    rcases hK.callDerived_members c s with h | ⟨d, h⟩
    · exact h.acts
    · rw [call, h]; exact (Hooks.schedule_acts hH _).head (.members s d)

omit [Inhabited R] hK in
/-- The completion handler of a read runs after the transport has stored the
    data. -/
theorem event_read_eq {k : ℕ} {ec : ErrorCode} {data : List UInt8} {s : Session D R W}
    {r : Session D R W × Option (Frame F)} (h : K.event (.read k ec data) s = some r) :
    ∃ op d, s.reads[k]? = some op ∧ K.fill op data s.derived = some d ∧
      r = K.onRead ec data.length
        { s with
          derived := d
          reads := s.reads.eraseIdx k
          log := s.log ++ [.readCompleted ec data] } := by
  unfold event at h
  cases hop : s.reads[k]? with
  | none => simp [hop] at h
  | some op =>
    simp only [hop, Option.map_eq_some_iff] at h
    obtain ⟨d, hd, rfl⟩ := h
    exact ⟨op, d, rfl, hd, rfl⟩

/-- What the closure of a completion handler does. -/
theorem event_cases {e : Completion E} {s : Session D R W}
    {r : Session D R W × Option (Frame F)} (h : K.event e s = some r) :
    (∃ k ec data op d, e = .read k ec data ∧ s.reads[k]? = some op ∧
      ReadHandled K.toHooks { s.readDone k ec data with derived := d } ec r) ∨
    (∃ k op, e = .write k none ∧ s.writes[k]? = some op ∧
      r = (K.scheduleOperations (s.writeDone k op none).consumeWrite, none)) ∨
    (∃ k op e', e = .write k (some e') ∧ s.writes[k]? = some op ∧
      r = K.close (s.writeDone k op (some e'))) ∨
    (∃ e', e = .derived e' ∧ MembersOnly s r) := by
  cases e with
  | read k ec data =>
    obtain ⟨op, d, hop, -, rfl⟩ := event_read_eq h
    exact Or.inl ⟨k, ec, data, op, d, rfl, hop, hK.onRead_handled ec data.length
      { s with
        derived := d
        reads := s.reads.eraseIdx k
        log := s.log ++ [.readCompleted ec data] }⟩
  | write k ec =>
    unfold event at h
    cases hop : s.writes[k]? with
    | none => simp [hop] at h
    | some op =>
      simp only [hop, Option.some.injEq] at h
      subst h
      cases ec with
      | none => exact Or.inr (Or.inl ⟨k, op, rfl, hop, rfl⟩)
      | some e' => exact Or.inr (Or.inr (Or.inl ⟨k, op, e', rfl, hop, rfl⟩))
  | derived e => exact Or.inr (Or.inr (Or.inr ⟨e, rfl, hK.eventDerived_members e s r h⟩))

theorem event_acts {e : Completion E} {s : Session D R W} {r : Session D R W × Option (Frame F)}
    (h : K.event e s = some r) : Acts K.toHooks s r.1 := by
  have hH := hK.toLawful
  rcases event_cases hK h with ⟨k, ec, data, op, d, -, hop, hr⟩ | ⟨k, op, -, hop, rfl⟩ |
    ⟨k, op, e', -, hop, rfl⟩ | ⟨-, -, hm⟩
  · exact ((Hooks.readHandled_acts hH hr).head (.members (s.readDone k ec data) d)).head
      (.readDone s k op ec data hop)
  · exact (Hooks.schedule_acts hH _).head (.writeDone s k op hop)
  · exact Hooks.writeFailed_acts hH e' hop
  · exact hm.acts

theorem resume_acts (f : Frame F) (s : Session D R W) : Acts K.toHooks s (K.resume f s).1 := by
  have hH := hK.toLawful
  cases f with
  | readError => exact Hooks.close_acts hH s
  | readValue => exact Hooks.schedule_acts hH s
  | derived f => exact (hK.resumeDerived_members f s).acts

/-- **Every run is a sequence of actions.** -/
theorem run_acts {ok : Strand.Program.Guard (Session D R W) (Call W C) (Completion E) (Frame F)}
    {c c' : Strand.Config (Session D R W) (Frame F)} (h : K.program.Run ok c c') :
    Acts K.toHooks c.state c'.state :=
  h.rel (fun _ => .refl) .trans (call_acts hK) (fun _ _ _ => event_acts hK) (resume_acts hK)

end SessionClass

end TransitSession
