/-
  What the closures of a server session do to the members of
  `WebSocketServerSession`, and what user code they call.

  The closures of the core do nothing to these members unless they call
  `close_transport`; those of `start` initiate and complete handshakes.
  `Turn` lists the cases, and `part_turn` says that there are no others.
-/
import TransitSession.WebSocket.SessionSteps

namespace TransitSession

/-- The user code of the derived class. -/
def Frame.derived? {F : Type} : Frame F → Option F
  | .derived f => some f
  | _ => none

namespace WebSocket

open WebSocketServerSession (DerivedCall Handshake)

namespace ServerMembers

/-- `close_transport` has run. -/
def notified (m : ServerMembers) : ServerMembers := { m with closeNotified := true }

/-- The close handler that `close_transport` calls. -/
def calls (m : ServerMembers) : Option Callback :=
  if m.closeNotified then none else m.closeHandler

/-- What `close_transport(); if (handler) handler(ec);` calls first. -/
def fails (m : ServerMembers) (handler : Option Callback) (e : Errc) : Option ServerFrame :=
  (m.calls.map fun h => .startClosing h handler e).or
    (handler.map fun h => .startHandler h (some e))

end ServerMembers

/-- A part of a closure of the core. -/
def Part.OfCore : Part → Prop
  | .call (.derived _) | .event (.derived _) | .resume (.derived _) => False
  | _ => True

/-- What a part of a closure does to the members, and what user code of the
    derived class it calls. -/
inductive Turn (m : ServerMembers) : Part → ServerMembers → Option ServerFrame → Prop where
  | keeps (p : Part) : p.OfCore → Turn m p m none
  | closes (p : Part) : p.OfCore → Turn m p m.notified (m.calls.map .closeHandler)
  | setCloseHandler (h) :
      Turn m (.call (.derived (.setCloseHandler h))) (m.setCloseHandler h) none
  | start (handler nd) : Turn m (.call (.derived (.start handler nd)))
      { m with handshakes := m.handshakes ++ [handler] } none
  | startFails (handler nd e) :
      Turn m (.call (.derived (.start handler nd))) m.notified (m.fails handler e)
  | shakes (k handler) : m.handshakes[k]? = some handler →
      Turn m (.event (.derived ⟨k, none⟩)) { m with handshakes := m.handshakes.eraseIdx k }
        (handler.map fun h => .startHandler h none)
  | shakeFails (k handler e) : m.handshakes[k]? = some handler →
      Turn m (.event (.derived ⟨k, some e⟩))
        { m with closeNotified := true, handshakes := m.handshakes.eraseIdx k }
        (m.fails handler e)
  /-- the handshake is not outstanding -/
  | stray (e : Handshake) : m.handshakes[e.k]? = none → Turn m (.event (.derived e)) m none
  | failed (h handler e) : Turn m (.resume (.derived (.startClosing h handler e))) m
      (handler.map fun h => .startHandler h (some e))
  | returns (f : ServerFrame) : (∀ h handler e, f ≠ .startClosing h handler e) →
      Turn m (.resume (.derived f)) m none

end WebSocket

namespace WebSocketServerSession
open WebSocket

/-! ## The functions of the session -/

theorem closeTransportCalls_own (X : WebSocketServerSession) :
    (closeTransportCalls X).1.derived.own = X.derived.own.notified ∧
      (closeTransportCalls X).2 = X.derived.own.calls := by
  unfold closeTransportCalls ServerMembers.calls ServerMembers.notified
  split_ifs with h
  · refine ⟨?_, rfl⟩
    rw [← h]
  · exact ⟨rfl, rfl⟩

theorem schedule_own (X : WebSocketServerSession) :
    (hooks.scheduleOperations X).derived.own = X.derived.own := by
  have hwrite (X : WebSocketServerSession) : (doWrite X).derived.own = X.derived.own := by
    show (StreamSession.doWrite X).derived.own = _
    unfold StreamSession.doWrite
    split <;> rfl
  have hread (X : WebSocketServerSession) : (doRead X).derived.own = X.derived.own := rfl
  show (if canStartRead (if canStartWrite X then doWrite X else X) then
    doRead (if canStartWrite X then doWrite X else X)
    else if canStartWrite X then doWrite X else X).derived.own = _
  split_ifs
  · rw [hread, hwrite]
  · exact hwrite X
  · exact hread X
  · rfl

variable {p : Part}

theorem close_turn (hp : p.OfCore) (X : WebSocketServerSession) : Turn X.derived.own p
    (cls.close X).1.derived.own ((cls.close X).2.bind Frame.derived?) := by
  obtain ⟨hown, hcalls⟩ := closeTransportCalls_own X.shut
  show Turn _ p (X.close closeTransport).1.derived.own
    (((X.close closeTransport).2.map Frame.derived).bind Frame.derived?)
  unfold Session.close
  split_ifs
  · exact .keeps p hp
  · show Turn _ p (closeTransportCalls X.shut).1.derived.own
      ((((closeTransportCalls X.shut).2.map ServerFrame.closeHandler).map Frame.derived).bind
        Frame.derived?)
    rw [hown, hcalls]
    have hframe : (((X.shut.derived.own.calls.map ServerFrame.closeHandler).map
        Frame.derived).bind Frame.derived?) = X.derived.own.calls.map .closeHandler := by
      show ((X.derived.own.calls.map _).map _).bind _ = _
      cases X.derived.own.calls <;> rfl
    rw [hframe]
    exact .closes p hp

theorem failRead_turn (hp : p.OfCore) (e : Errc) (X : WebSocketServerSession) :
    Turn X.derived.own p (cls.failRead e X).1.derived.own
      ((cls.failRead e X).2.bind Frame.derived?) := by
  rcases cls.failRead_eq X e with ⟨h, -, he⟩ | ⟨-, he⟩ <;> rw [he]
  · exact .keeps p hp
  · exact close_turn hp X

theorem schedule_turn (hp : p.OfCore) {X Y : WebSocketServerSession}
    (hY : Y.derived.own = X.derived.own) :
    Turn X.derived.own p (cls.scheduleOperations Y).derived.own none := by
  have hs : (cls.scheduleOperations Y).derived.own = X.derived.own := (schedule_own Y).trans hY
  rw [hs]
  exact .keeps p hp

theorem deliverRead_turn (hp : p.OfCore) (value : List UInt8) (X : WebSocketServerSession) :
    Turn X.derived.own p (cls.deliverRead value X).1.derived.own
      ((cls.deliverRead value X).2.bind Frame.derived?) := by
  rcases cls.deliverRead_eq X value with ⟨h, he⟩ | he <;> rw [he]
  · exact .keeps p hp
  · exact schedule_turn hp rfl

theorem onRead_turn (hp : p.OfCore) (ec : ErrorCode) (n : ℕ) (X : WebSocketServerSession) :
    Turn X.derived.own p (cls.onRead ec n X).1.derived.own
      ((cls.onRead ec n X).2.bind Frame.derived?) := by
  cases ec with
  | some e => exact failRead_turn hp e X.markReadFinished
  | none =>
    exact deliverRead_turn hp (StreamSession.copyMessage n X.markReadFinished)
      { X.markReadFinished with derived.readBuffer := X.derived.readBuffer.drop n }

theorem failStart_own (handler : Option Callback) (e : Errc) (X : WebSocketServerSession) :
    (failStart handler e X).1.derived.own = X.derived.own.notified ∧
      (failStart handler e X).2.bind Frame.derived? = X.derived.own.fails handler e := by
  obtain ⟨hown, hcalls⟩ := closeTransportCalls_own X
  constructor
  · unfold failStart
    rcases hr : closeTransportCalls X with ⟨Y, _ | h⟩ <;> rw [hr] at hown <;> exact hown
  · rw [failStart_calls, hcalls, ServerMembers.fails]
    cases X.derived.own.calls <;> cases handler <;> rfl

/-! ## Parts of closures -/

theorem call_turn (x : Call (List UInt8) DerivedCall) (X : WebSocketServerSession) :
    Turn X.derived.own (.call x) (cls.call x X).1.derived.own
      ((cls.call x X).2.bind Frame.derived?) := by
  cases x with
  | setReadHandler | stopReading => exact .keeps _ trivial
  | startReading =>
    rcases cls.startReading_eq X with ⟨-, he⟩ | ⟨-, he⟩
    · show Turn _ _ (cls.startReading X).derived.own none
      rw [he]
      exact .keeps _ trivial
    · show Turn _ _ (cls.startReading X).derived.own none
      rw [he]
      exact schedule_turn (p := .call .startReading) trivial rfl
  | send m =>
    rcases cls.enqueueWrite_eq X m with ⟨-, he⟩ | ⟨-, he⟩
    · show Turn _ _ (cls.enqueueWrite m X).derived.own none
      rw [he]
      exact .keeps _ trivial
    · show Turn _ _ (cls.enqueueWrite m X).derived.own none
      rw [he]
      exact schedule_turn (p := .call (.send m)) trivial rfl
  | close => exact close_turn (p := .call .close) trivial X
  | derived c =>
    cases c with
    | setCloseHandler h => exact .setCloseHandler h
    | start handler nd =>
      show Turn _ _ (start handler nd X).1.derived.own ((start handler nd X).2.bind _)
      unfold start
      dsimp only
      split
      · next e _ =>
        obtain ⟨hown, hcalls⟩ := failStart_own handler e X
        rw [hown, hcalls]
        exact .startFails handler nd e
      · split_ifs <;> exact .start handler nd

theorem read_turn {k : ℕ} {ec : ErrorCode} {data : List UInt8} {X : WebSocketServerSession}
    {r : WebSocketServerSession × Option (Frame ServerFrame)}
    (hr : cls.event (.read k ec data) X = some r) :
    Turn X.derived.own (.event (.read k ec data)) r.1.derived.own (r.2.bind Frame.derived?) := by
  obtain ⟨op, d, -, hfill, rfl⟩ := SessionClass.event_read_eq hr
  obtain rfl := Option.some.inj hfill
  exact onRead_turn (p := .event (.read k ec data)) trivial ec data.length
    { X with
      derived.readBuffer := X.derived.readBuffer ++ data
      reads := X.reads.eraseIdx k
      log := X.log ++ [.readCompleted ec data] }

theorem write_turn {k : ℕ} {ec : ErrorCode} {X : WebSocketServerSession}
    {r : WebSocketServerSession × Option (Frame ServerFrame)}
    (hr : cls.event (.write k ec) X = some r) :
    Turn X.derived.own (.event (.write k ec)) r.1.derived.own (r.2.bind Frame.derived?) := by
  unfold SessionClass.event at hr
  dsimp only at hr
  split at hr
  · cases hr
  next op _ =>
  obtain rfl := Option.some.inj hr
  cases ec with
  | some e =>
    exact close_turn (p := .event (.write k (some e))) trivial (X.writeDone k op (some e))
  | none =>
    refine schedule_turn (p := .event (.write k none)) trivial
      (Y := (X.writeDone k op none).consumeWrite) ?_
    unfold Session.consumeWrite
    split_ifs <;> rfl

/-- The handshake completes. -/
theorem handshake_turn {k : ℕ} {ec : ErrorCode} {X : WebSocketServerSession}
    {r : WebSocketServerSession × Option (Frame ServerFrame)}
    (hr : eventDerived ⟨k, ec⟩ X = some r) :
    Turn X.derived.own (.event (.derived ⟨k, ec⟩)) r.1.derived.own
      (r.2.bind Frame.derived?) := by
  unfold eventDerived at hr
  split at hr
  · cases hr
  next handler hk =>
  obtain rfl := Option.some.inj hr
  cases ec with
  | none =>
    have hs := Turn.shakes k handler hk
    cases handler <;> exact hs
  | some e =>
    obtain ⟨hown, hcalls⟩ := failStart_own handler e { X with
      derived.own.handshakes := X.derived.own.handshakes.eraseIdx k }
    show Turn _ _ (failStart handler e _).1.derived.own ((failStart handler e _).2.bind _)
    rw [hown, hcalls]
    exact .shakeFails k handler e hk

theorem event_turn (e : Completion Handshake) (X : WebSocketServerSession) :
    Turn X.derived.own (.event e) ((Part.event e).run X).1.derived.own
      (((Part.event e).run X).2.bind Frame.derived?) := by
  show Turn _ _ ((cls.event e X).getD (X, none)).1.derived.own
    (((cls.event e X).getD (X, none)).2.bind _)
  cases hr : cls.event e X with
  | none =>
    cases e with
    | read | write => exact .keeps _ trivial
    | derived e =>
      refine .stray e ?_
      change eventDerived e X = none at hr
      unfold eventDerived at hr
      split at hr
      · next hn => exact hn
      · cases hr
  | some r =>
    cases e with
    | read k ec data => exact read_turn hr
    | write k ec => exact write_turn hr
    | derived e => exact handshake_turn hr

theorem resume_turn (f : Frame ServerFrame) (X : WebSocketServerSession) :
    Turn X.derived.own (.resume f) (cls.resume f X).1.derived.own
      ((cls.resume f X).2.bind Frame.derived?) := by
  cases f with
  | readError h => exact close_turn (p := .resume (.readError h)) trivial X
  | readValue h => exact schedule_turn (p := .resume (.readValue h)) trivial rfl
  | derived f =>
    cases f with
    | closeHandler | startHandler => exact .returns _ (by simp)
    | startClosing h handler e =>
      have hf := Turn.failed (m := X.derived.own) h handler e
      cases handler <;> exact hf

/-- **Every part of a closure of a server session is one of the turns.** -/
theorem part_turn (p : Part) (X : WebSocketServerSession) :
    Turn X.derived.own p (p.run X).1.derived.own ((p.run X).2.bind Frame.derived?) := by
  cases p with
  | call x => exact call_turn x X
  | event e => exact event_turn e X
  | resume f => exact resume_turn f X

end WebSocketServerSession

namespace WebSocket

/-! ## What the turns change -/

/-- The handshakes that `do_accept` has started and that are outstanding. -/
def ServerMembers.shaking (m : ServerMembers) : ℕ := m.handshakes.count (some .server)

/-- The call of `start` by `do_accept`. -/
def Part.starts : Part → ℕ
  | .call (.derived (.start (some .server) _)) => 1
  | _ => 0

/-- The call of the start handler of `do_accept`, after a handshake that succeeded. -/
def ServerFrame.hands : Option ServerFrame → ℕ
  | some (.startHandler .server none) => 1
  | _ => 0

/-- The call of the close handler of `do_accept`. -/
def ServerFrame.erases : Option ServerFrame → ℕ
  | some (.closeHandler .server) | some (.startClosing .server _ _) => 1
  | _ => 0

/-- A part of what `do_accept` makes the session do. -/
def Part.Inner : Part → Prop
  | .call (.derived (.setCloseHandler (some .server))) => True
  | .call (.derived (.start (some .server) _)) => True
  | .event (.derived _) => True
  | .resume (.derived (.startClosing _ _ _)) | .resume (.derived (.startHandler _ _)) => True
  | _ => False

theorem Part.Inner.not_core {p : Part} (h : p.Inner) : ¬ p.OfCore := by
  intro hc
  cases p with
  | call x | event x | resume x =>
    cases x with
    | derived => exact hc
    | _ => exact h

namespace ServerMembers
variable (m : ServerMembers)

theorem hands_fails (handler : Option Callback) (e : Errc) :
    ServerFrame.hands (m.fails handler e) = 0 := by
  unfold fails
  cases m.calls with
  | some h => rfl
  | none => rcases handler with _ | _ | _ <;> rfl

/-- `close_transport` calls the close handler of `do_accept` if that is the one
    stored, and only then. -/
theorem erases_calls : ServerFrame.erases (m.calls.map .closeHandler) =
    if m.closeNotified = false ∧ m.closeHandler = some .server then 1 else 0 := by
  unfold calls
  cases m.closeNotified <;> rcases m.closeHandler with _ | _ | _ <;> simp [ServerFrame.erases]

theorem erases_fails (handler : Option Callback) (e : Errc) :
    ServerFrame.erases (m.fails handler e) = ServerFrame.erases (m.calls.map .closeHandler) := by
  unfold fails
  rcases m.calls with _ | _ | _
  · rcases handler with _ | _ | _ <;> rfl
  · rfl
  · rfl

theorem count_eraseIdx {hs : List (Option Callback)} {k : ℕ} {handler : Option Callback}
    (hk : hs[k]? = some handler) : (hs.eraseIdx k).count (some .server) +
      (if handler = some .server then 1 else 0) = hs.count (some .server) := by
  obtain ⟨hlt, hget⟩ := List.getElem?_eq_some_iff.1 hk
  have hperm := (List.getElem_cons_eraseIdx_perm hlt).count_eq (some .server)
  rw [hget, List.count_cons] at hperm
  simpa using hperm

end ServerMembers

theorem Part.starts_core {p : Part} (h : p.OfCore) : p.starts = 0 := by
  cases p with
  | call x =>
    cases x with
    | derived => exact h.elim
    | _ => rfl
  | event | resume => rfl

theorem Part.starts_start (handler : Option Callback) (nd : ErrorCode) :
    (Part.call (.derived (.start handler nd))).starts =
      if handler = some .server then 1 else 0 := by
  rcases handler with _ | _ | _ <;> rfl

namespace Turn
variable {m m' : ServerMembers} {p : Part} {fr : Option ServerFrame}

/-- **A handshake of `do_accept`** is initiated by its call of `start`, and ends in
    a call of its start handler or in `close_transport`. -/
theorem shaking (h : Turn m p m' fr) : ∃ d ≤ 1,
    m'.shaking + ServerFrame.hands fr + d = m.shaking + p.starts ∧
      (d = 1 → m'.closeNotified = true) := by
  have hle (handler : Option Callback) : (if handler = some .server then 1 else 0) ≤ 1 := by
    split_ifs <;> omega
  cases h with
  | keeps p hp =>
    refine ⟨0, Nat.zero_le _, ?_, nofun⟩
    rw [Part.starts_core hp]
    rfl
  | closes p hp =>
    refine ⟨0, Nat.zero_le _, ?_, nofun⟩
    rw [Part.starts_core hp]
    cases m.calls <;> rfl
  | setCloseHandler | stray | returns => exact ⟨0, Nat.zero_le _, rfl, nofun⟩
  | start handler nd =>
    refine ⟨0, Nat.zero_le _, ?_, nofun⟩
    rw [Part.starts_start]
    simp [ServerMembers.shaking, ServerFrame.hands, List.count_singleton]
  | startFails handler nd e =>
    refine ⟨_, hle handler, ?_, fun _ => rfl⟩
    rw [Part.starts_start, m.hands_fails]
    rfl
  | shakes k handler hk =>
    refine ⟨0, Nat.zero_le _, ?_, nofun⟩
    have hcount := ServerMembers.count_eraseIdx hk
    have hhands : ServerFrame.hands (handler.map fun h => .startHandler h none) =
        if handler = some .server then 1 else 0 := by
      rcases handler with _ | _ | _ <;> rfl
    rw [hhands]
    exact hcount
  | shakeFails k handler e hk =>
    refine ⟨_, hle handler, ?_, fun _ => rfl⟩
    rw [m.hands_fails]
    exact ServerMembers.count_eraseIdx hk
  | failed h handler e =>
    refine ⟨0, Nat.zero_le _, ?_, nofun⟩
    rcases handler with _ | _ | _ <;> rfl

/-- What `do_accept` makes the session do keeps the handshakes those of `do_accept`;
    it ends in `close_transport` only if `start` or a handshake fails. -/
theorem inner (h : Turn m p m' fr) (hp : p.Inner) (hm : ∀ h ∈ m.handshakes, h = some .server) :
    (∀ h ∈ m'.handshakes, h = some .server) ∧
    (m.closeNotified = false → m'.closeNotified = true →
      m'.shaking + ServerFrame.hands fr + 1 = m.shaking + p.starts) := by
  have hflag {b : Bool} {P : Prop} (h : b = false) (h' : b = true) : P := by
    rw [h] at h'
    cases h'
  have herase {k : ℕ} : ∀ h ∈ m.handshakes.eraseIdx k, h = some .server :=
    fun h hh => hm h (List.mem_of_mem_eraseIdx hh)
  cases h with
  | keeps p hc | closes p hc => exact absurd hc hp.not_core
  | setCloseHandler | stray | failed | returns => exact ⟨hm, hflag⟩
  | start handler nd =>
    refine ⟨?_, hflag⟩
    intro h hh
    rcases List.mem_append.1 hh with hh | hh
    · exact hm h hh
    · rw [List.mem_singleton.1 hh]
      rcases handler with _ | _ | _
      · exact hp.elim
      · rfl
      · exact hp.elim
  | startFails handler nd e =>
    refine ⟨hm, fun _ _ => ?_⟩
    rw [m.hands_fails]
    rcases handler with _ | _ | _
    · exact hp.elim
    · rfl
    · exact hp.elim
  | shakes k handler hk => exact ⟨herase, hflag⟩
  | shakeFails k handler e hk =>
    refine ⟨herase, fun _ _ => ?_⟩
    have hcount := ServerMembers.count_eraseIdx hk
    rw [if_pos (hm handler (List.mem_of_getElem? hk))] at hcount
    rw [m.hands_fails]
    exact hcount

/-- The start handler of `do_accept` is called with success when a handshake
    succeeds. -/
theorem hands (h : Turn m p m' fr) (hf : ServerFrame.hands fr ≠ 0) : ∃ k handler,
    p = .event (.derived ⟨k, none⟩) ∧ m.handshakes[k]? = some handler := by
  cases h with
  | keeps | setCloseHandler | start | stray | returns => exact absurd rfl hf
  | closes =>
    revert hf
    cases m.calls <;> exact fun h => absurd rfl h
  | startFails | shakeFails => exact absurd (m.hands_fails _ _) hf
  | shakes k handler hk => exact ⟨k, handler, rfl, hk⟩
  | failed h handler e =>
    revert hf
    rcases handler with _ | _ | _ <;> exact fun h => absurd rfl h

theorem shakes_hands {k : ℕ} (h : Turn m (.event (.derived ⟨k, none⟩)) m' fr)
    (hk : m.handshakes[k]? = some (some .server)) : ServerFrame.hands fr = 1 := by
  cases h with
  | keeps _ hc | closes _ hc => exact hc.elim
  | shakes _ handler hk' =>
    rw [hk] at hk'
    cases hk'
    rfl
  | stray _ he =>
    rw [hk] at he
    cases he

/-- `close_notified_` stays set. -/
theorem closeNotified (h : Turn m p m' fr) (hm : m.closeNotified = true) :
    m'.closeNotified = true := by
  cases h with
  | closes | startFails | shakeFails => rfl
  | _ => exact hm

/-- Only `set_close_handler` writes the close handler. -/
theorem closeHandler (h : Turn m p m' fr)
    (hp : ∀ g, p ≠ .call (.derived (.setCloseHandler g))) : m'.closeHandler = m.closeHandler := by
  cases h with
  | setCloseHandler g => exact absurd rfl (hp g)
  | _ => rfl

/-- **The close handler of `do_accept`** is called when `close_transport` runs for the
    first time, if it is the one stored. -/
theorem erases (h : Turn m p m' fr) : ServerFrame.erases fr =
    if m.closeNotified = false ∧ m'.closeNotified = true ∧ m.closeHandler = some .server
    then 1 else 0 := by
  have hstart (handler : Option Callback) (ec : ErrorCode) :
      ServerFrame.erases (handler.map fun h => .startHandler h ec) = 0 := by
    rcases handler with _ | _ | _ <;> rfl
  have hnotified : ServerFrame.erases (m.calls.map .closeHandler) =
      if m.closeNotified = false ∧ true = true ∧ m.closeHandler = some .server
      then 1 else 0 := by
    rw [m.erases_calls]
    simp
  have hopen {b : Bool} {P : Prop} : ¬ (b = false ∧ b = true ∧ P) := by
    rintro ⟨h, h', -⟩
    rw [h] at h'
    cases h'
  cases h with
  | keeps | setCloseHandler | start | stray | returns => exact (if_neg hopen).symm
  | shakes | failed => exact (hstart _ _).trans (if_neg hopen).symm
  | closes => exact hnotified
  | startFails | shakeFails =>
    rw [m.erases_fails]
    exact hnotified

/-- What `do_accept` makes the session do calls no user code but its own handlers. -/
theorem inner_frame (h : Turn m p m' fr) (hp : p.Inner) {f : ServerFrame} (hf : fr = some f) :
    (Part.resume (.derived f)).Inner := by
  have hfails {handler : Option Callback} {e : Errc} (hf : m.fails handler e = some f) :
      (Part.resume (.derived f)).Inner := by
    rcases Option.or_eq_some_iff.1 hf with hf | ⟨-, hf⟩ <;>
      obtain ⟨g, -, rfl⟩ := Option.map_eq_some_iff.1 hf <;> exact trivial
  cases h with
  | keeps p hc | closes p hc => exact absurd hc hp.not_core
  | setCloseHandler | start | stray | returns => cases hf
  | startFails | shakeFails => exact hfails hf
  | shakes | failed =>
    obtain ⟨g, -, rfl⟩ := Option.map_eq_some_iff.1 hf
    exact trivial

end Turn

theorem Part.Inner.members {p : Part} (h : p.Inner) (X : WebSocketServerSession) :
    MembersOnly X (p.run X) := by
  have hidle : MembersOnly X (X, (none : Option (Frame ServerFrame))) := ⟨⟨X.derived, rfl⟩, nofun⟩
  cases p with
  | call x =>
    cases x with
    | derived x =>
      cases x with
      | start handler nd => exact WebSocketServerSession.start_members handler nd X
      | setCloseHandler handler => exact ⟨⟨_, rfl⟩, nofun⟩
    | _ => exact h.elim
  | event e =>
    cases e with
    | derived e =>
      show MembersOnly X ((WebSocketServerSession.cls.event (.derived e) X).getD (X, none))
      cases hr : WebSocketServerSession.cls.event (.derived e) X with
      | none => exact hidle
      | some r => exact WebSocketServerSession.lawful.eventDerived_members e X r hr
    | _ => exact h.elim
  | resume f =>
    cases f with
    | derived f => exact WebSocketServerSession.lawful.resumeDerived_members f X
    | _ => exact h.elim

/-- What is left of it then is of this kind, too. -/
theorem Part.Inner.frame {p : Part} (h : p.Inner) {X : WebSocketServerSession}
    {f : Frame ServerFrame} (hf : (p.run X).2 = some f) : (Part.resume f).Inner := by
  obtain ⟨g, rfl⟩ := (h.members X).2 f hf
  refine (WebSocketServerSession.part_turn p X).inner_frame h ?_
  rw [hf]
  rfl

end WebSocket

end TransitSession
