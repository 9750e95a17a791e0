/-
  `WebSocketServerSession` (transport/websocket/websocket_server_session.hpp,
  websocket_server_config.hpp): the server side of one connection.

  `close_transport` calls the stored close handler, and `start` the handler it
  was given once the handshake has finished; both are user code for the
  session.  `Callback` tells the closures of `WebSocketServer` from others.
-/
import TransitSession.WebSocket.Stream

namespace TransitSession

namespace WebSocket

structure ServerConfig where
  bindAddress : String := "127.0.0.1"
  port : BitVec 16 := 9002
  binaryMode : Bool := true
  tcpNoDelay : Bool := true
  maxMessageSize : ℕ := 1024 * 1024
  backlog : ℤ := 16
deriving DecidableEq

/-- A close handler or start handler: the closure that the server passes, which
    captures the session, or one of the user's, which may. -/
inductive Callback where
  | server
  | user (id : Handler) (capturesSession : Bool := false)
deriving DecidableEq

/-- The closure holds a `shared_ptr` to the session that it is given to. -/
def Callback.holdsSession : Callback → Bool
  | server => true
  | user _ capturesSession => capturesSession

/-- The members of `WebSocketServerSession`; `handshakes` are the handlers of
    the `socket_.async_accept` calls whose completion handlers have not run. -/
structure ServerMembers where
  config : ServerConfig := {}
  closeHandler : Option Callback := none
  /-- the assignments of `closeHandler` so far -/
  closeHandlerVersion : ℕ := 0
  closeNotified : Bool := false
  handshakes : List (Option Callback) := []
deriving DecidableEq

/-- `close_handler_ = std::move(handler);`. -/
def ServerMembers.setCloseHandler (h : Option Callback) (m : ServerMembers) : ServerMembers :=
  { m with closeHandler := h, closeHandlerVersion := m.closeHandlerVersion + 1 }

/-- User code called by a closure of a server session. -/
inductive ServerFrame where
  /-- the close handler, called by `close` -/
  | closeHandler (h : Callback)
  /-- the close handler, called by `start`; afterwards `start` calls its own
      handler with `ec` -/
  | startClosing (h : Callback) (handler : Option Callback) (ec : Errc)
  /-- the handler of `start` -/
  | startHandler (h : Callback) (ec : ErrorCode)
deriving DecidableEq

end WebSocket

abbrev WebSocketServerSession := WebSocket.StreamSession WebSocket.ServerMembers

namespace WebSocketServerSession
open WebSocket

/-- `create`, around an accepted socket. -/
def create (config : ServerConfig) : WebSocketServerSession :=
  { derived :=
      { socket := { isOpen := true }
        binaryMode := config.binaryMode
        own := { config := config } } }

def isOpen (s : WebSocketServerSession) : Bool := s.derived.socket.isOpen

/-- `close_transport`, with the close handler it calls. -/
def closeTransportCalls (s : WebSocketServerSession) :
    WebSocketServerSession × Option Callback :=
  if s.derived.own.closeNotified then (s, none) else
  let s := { s with derived.own.closeNotified := true }
  let s := StreamSession.closeSocket s
  (s, s.derived.own.closeHandler)

def closeTransport (s : WebSocketServerSession) : WebSocketServerSession × Option ServerFrame :=
  let r := closeTransportCalls s
  (r.1, r.2.map .closeHandler)

/-- `if (handler) handler(ec);` -/
def callStartHandler (handler : Option Callback) (ec : ErrorCode) (s : WebSocketServerSession) :
    WebSocketServerSession × Option (Frame ServerFrame) :=
  (s, handler.map fun h => .derived (.startHandler h ec))

/-- `close_transport(); if (handler) handler(ec);` of `start`. -/
def failStart (handler : Option Callback) (e : Errc) (s : WebSocketServerSession) :
    WebSocketServerSession × Option (Frame ServerFrame) :=
  match closeTransportCalls s with
  | (s, some h) => (s, some (.derived (.startClosing h handler e)))
  | (s, none) => callStartHandler handler (some e) s

/-- `start`; `noDelayEc` is the outcome of `set_option(no_delay)`. -/
def start (handler : Option Callback) (noDelayEc : ErrorCode) (s : WebSocketServerSession) :
    WebSocketServerSession × Option (Frame ServerFrame) :=
  let config := s.derived.own.config
  match (if config.tcpNoDelay then noDelayEc else none) with
  | some e => failStart handler e s
  | none =>
    let s := if config.tcpNoDelay then { s with derived.socket.noDelay := true } else s
    ({ s with
        derived.socket.readMessageMax := config.maxMessageSize
        derived.socket.binary := config.binaryMode
        derived.own.handshakes := s.derived.own.handshakes ++ [handler] }, none)

/-- The completion handler of the handshake. -/
def onHandshake (handler : Option Callback) (acceptEc : ErrorCode) (s : WebSocketServerSession) :
    WebSocketServerSession × Option (Frame ServerFrame) :=
  match acceptEc with
  | some e => failStart handler e s
  | none => callStartHandler handler none s

def setCloseHandler (handler : Option Callback) (s : WebSocketServerSession) :
    WebSocketServerSession :=
  { s with derived.own := s.derived.own.setCloseHandler handler }

def canStartRead (s : WebSocketServerSession) : Bool := StreamSession.canStartRead s

def canStartWrite (s : WebSocketServerSession) : Bool := StreamSession.canStartWrite s

def doRead (s : WebSocketServerSession) : WebSocketServerSession := StreamSession.doRead s

def doWrite (s : WebSocketServerSession) : WebSocketServerSession := StreamSession.doWrite s

def hooks : Hooks (State ServerMembers) (List UInt8) (List UInt8) ServerFrame where
  canStartRead := canStartRead
  canStartWrite := canStartWrite
  doRead := doRead
  doWrite := doWrite
  closeTransport := closeTransport

/-- The further calls of `WebSocketServerSession`. -/
inductive DerivedCall where
  | start (handler : Option Callback) (noDelayEc : ErrorCode)
  | setCloseHandler (handler : Option Callback)
deriving DecidableEq

def callDerived : DerivedCall → WebSocketServerSession →
    WebSocketServerSession × Option (Frame ServerFrame)
  | .start handler noDelayEc, s => start handler noDelayEc s
  | .setCloseHandler handler, s => (setCloseHandler handler s, none)

/-- The completion of the `k`-th outstanding handshake. -/
structure Handshake where
  k : ℕ
  ec : ErrorCode
deriving DecidableEq

def eventDerived (e : Handshake) (s : WebSocketServerSession) :
    Option (WebSocketServerSession × Option (Frame ServerFrame)) :=
  match s.derived.own.handshakes[e.k]? with
  | none => none
  | some handler => some (onHandshake handler e.ec
      { s with derived.own.handshakes := s.derived.own.handshakes.eraseIdx e.k })

def resumeDerived : ServerFrame → WebSocketServerSession →
    WebSocketServerSession × Option (Frame ServerFrame)
  | .closeHandler _, s => (s, none)
  | .startClosing _ handler e, s => callStartHandler handler (some e) s
  | .startHandler _ _, s => (s, none)

def cls : SessionClass (State ServerMembers) (List UInt8) (List UInt8) DerivedCall Handshake
    ServerFrame where
  toHooks := hooks
  fill := StreamSession.fill
  onRead := StreamSession.onRead hooks
  callDerived := callDerived
  eventDerived := eventDerived
  resumeDerived := resumeDerived

/-! ## The class is lawful -/

theorem closeTransportCalls_members (s : WebSocketServerSession) :
    ∃ d, (closeTransportCalls s).1 = { s with derived := d } := by
  unfold closeTransportCalls
  split_ifs <;> exact ⟨_, rfl⟩

theorem callStartHandler_members (handler : Option Callback) (ec : ErrorCode)
    (s : WebSocketServerSession) (d : State ServerMembers) :
    MembersOnly s (callStartHandler handler ec { s with derived := d }) := by
  refine ⟨⟨d, rfl⟩, ?_⟩
  cases handler <;> simp [callStartHandler]

theorem failStart_members (handler : Option Callback) (e : Errc) (s : WebSocketServerSession)
    (d : State ServerMembers) : MembersOnly s (failStart handler e { s with derived := d }) := by
  unfold failStart
  obtain ⟨d', hd⟩ := closeTransportCalls_members { s with derived := d }
  rcases hr : closeTransportCalls { s with derived := d } with ⟨s', _ | h⟩ <;> rw [hr] at hd
  · cases hd; exact callStartHandler_members handler _ s d'
  · cases hd; exact ⟨⟨d', rfl⟩, by simp⟩

theorem start_members (handler : Option Callback) (noDelayEc : ErrorCode)
    (s : WebSocketServerSession) : MembersOnly s (start handler noDelayEc s) := by
  unfold start
  dsimp only
  split
  · exact failStart_members handler _ s s.derived
  · split_ifs <;> exact ⟨⟨_, rfl⟩, by simp⟩

theorem onHandshake_members (handler : Option Callback) (ec : ErrorCode)
    (s : WebSocketServerSession) (d : State ServerMembers) :
    MembersOnly s (onHandshake handler ec { s with derived := d }) := by
  cases ec with
  | some e => exact failStart_members handler e s d
  | none => exact callStartHandler_members handler none s d

theorem lawful : cls.Lawful where
  toLawful := StreamSession.hooks_lawful fun s => closeTransportCalls_members s
  onRead_handled := StreamSession.onRead_handled hooks
  callDerived_members c s := by
    cases c with
    | start handler noDelayEc => exact Or.inl (start_members handler noDelayEc s)
    | setCloseHandler handler => exact Or.inl ⟨⟨_, rfl⟩, by simp [cls, callDerived]⟩
  eventDerived_members e s r h := by
    change eventDerived e s = some r at h
    unfold eventDerived at h
    split at h
    · cases h
    · cases h; exact onHandshake_members _ _ s _
  resumeDerived_members f s := by
    cases f with
    | closeHandler => exact ⟨⟨s.derived, rfl⟩, by simp [cls, resumeDerived]⟩
    | startClosing _ handler e => exact callStartHandler_members handler _ s s.derived
    | startHandler => exact ⟨⟨s.derived, rfl⟩, by simp [cls, resumeDerived]⟩

/-! ## What the calls call -/

/-- The call closes the session: `close()` on an open session, or a `start` whose
    `set_option` fails. -/
def closing (x : Call (List UInt8) DerivedCall) (X : WebSocketServerSession) : Bool :=
  match x with
  | .close => !X.closed
  | .derived (.start _ noDelayEc) => X.derived.own.config.tcpNoDelay && noDelayEc.isSome
  | _ => false

variable {X : WebSocketServerSession} {x : Call (List UInt8) DerivedCall}
  {f : Frame ServerFrame} {h : Callback}

theorem closeTransport_calls (X : WebSocketServerSession) : (closeTransportCalls X).2 =
    if X.derived.own.closeNotified then none else X.derived.own.closeHandler := by
  unfold closeTransportCalls
  split_ifs <;> rfl

/-- `close()` on a session that is open calls its close handler. -/
theorem close_calls (X : WebSocketServerSession) : (cls.call .close X).2 =
    if X.closed then none else
      (closeTransportCalls X).2.map fun h => .derived (.closeHandler h) := by
  show ((X.close closeTransport).2.map _ : Option (Frame ServerFrame)) = _
  unfold Session.close
  split_ifs
  · rfl
  · show Option.map _ (Option.map _ (closeTransportCalls X.shut).2) = _
    rw [Option.map_map, closeTransport_calls, closeTransport_calls]
    rfl

theorem failStart_calls (handler : Option Callback) (e : Errc) (X : WebSocketServerSession) :
    (failStart handler e X).2 =
      ((closeTransportCalls X).2.map fun h => .derived (.startClosing h handler e)).or
        (handler.map fun h => .derived (.startHandler h (some e))) := by
  unfold failStart
  rcases closeTransportCalls X with ⟨X', _ | h⟩ <;> rfl

/-- `start` fails if `set_option` does. -/
theorem start_calls (handler : Option Callback) (noDelayEc : ErrorCode)
    (X : WebSocketServerSession) : (start handler noDelayEc X).2 =
      if X.derived.own.config.tcpNoDelay then
        noDelayEc.bind fun e => (failStart handler e X).2
      else none := by
  unfold start
  dsimp only
  cases noDelayEc <;> split_ifs <;> rfl

/-- The user code that a call on a session calls: the close handler, if the call
    closes the session, or else the handler of a failed `start`. -/
theorem call_frame (hf : (cls.call x X).2 = some f) :
    (closing x X = true ∧ ∃ h, (closeTransportCalls X).2 = some h ∧
      (f = .derived (.closeHandler h) ∨ ∃ handler e, f = .derived (.startClosing h handler e))) ∨
    ∃ h e, f = .derived (.startHandler h (some e)) := by
  cases x with
  | setReadHandler | startReading | stopReading | send => cases hf
  | close =>
    rw [close_calls] at hf
    split_ifs at hf with hcl
    obtain ⟨h, hh, rfl⟩ := Option.map_eq_some_iff.1 hf
    exact Or.inl ⟨by simpa [closing] using hcl, h, hh, Or.inl rfl⟩
  | derived c =>
    cases c with
    | setCloseHandler => cases hf
    | start handler noDelayEc =>
      replace hf : (start handler noDelayEc X).2 = some f := hf
      rw [start_calls] at hf
      split_ifs at hf with hnd
      obtain ⟨e, rfl, hfail⟩ := Option.bind_eq_some_iff.1 hf
      rw [failStart_calls] at hfail
      rcases Option.or_eq_some_iff.1 hfail with hf | ⟨-, hf⟩
      · obtain ⟨h, hh, rfl⟩ := Option.map_eq_some_iff.1 hf
        exact Or.inl ⟨by simpa [closing] using hnd, h, hh, Or.inr ⟨handler, e, rfl⟩⟩
      · obtain ⟨h, -, rfl⟩ := Option.map_eq_some_iff.1 hf
        exact Or.inr ⟨h, e, rfl⟩

/-- A call that closes the session calls its close handler. -/
theorem call_closes (hc : closing x X = true) (hh : (closeTransportCalls X).2 = some h) :
    ∃ f, (cls.call x X).2 = some f ∧
      (f = .derived (.closeHandler h) ∨ ∃ handler e, f = .derived (.startClosing h handler e)) := by
  cases x with
  | setReadHandler | startReading | stopReading | send => cases hc
  | close =>
    refine ⟨_, ?_, Or.inl rfl⟩
    rw [close_calls, hh, if_neg (by simpa [closing] using hc)]
    rfl
  | derived c =>
    cases c with
    | setCloseHandler => cases hc
    | start handler noDelayEc =>
      simp only [closing, Bool.and_eq_true, Option.isSome_iff_exists] at hc
      obtain ⟨hnd, e, rfl⟩ := hc
      refine ⟨_, ?_, Or.inr ⟨handler, e, rfl⟩⟩
      show (start handler (some e) X).2 = _
      rw [start_calls, if_pos hnd, Option.bind_some, failStart_calls, hh]
      rfl

end WebSocketServerSession

end TransitSession
