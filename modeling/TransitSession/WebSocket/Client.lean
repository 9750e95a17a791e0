/-
  `WebSocketSession` (transport/websocket/websocket_session.hpp,
  websocket_config.hpp): the client.

  The outcomes of the calls of `open` are arguments (`OpenResults`).  `connect`
  opens the socket for each endpoint that it tries, and when it fails it leaves
  the last one as it is.
-/
import TransitSession.WebSocket.Stream

namespace TransitSession

namespace WebSocket

structure Config where
  host : String := "127.0.0.1"
  port : String := "9002"
  target : String := "/"
  binaryMode : Bool := true
  tcpNoDelay : Bool := true
  maxMessageSize : ℕ := 1024 * 1024
deriving DecidableEq

/-- The outcome of `connect`; one that fails leaves the socket open if the socket
    could be opened for the last endpoint. -/
inductive ConnectOutcome where
  | connected
  | failed (e : Errc) (leftOpen : Bool)
deriving DecidableEq

namespace ConnectOutcome

def ec : ConnectOutcome → ErrorCode
  | connected => none
  | failed e _ => some e

/-- The socket is open afterwards. -/
def leavesOpen : ConnectOutcome → Bool
  | connected => true
  | failed _ leftOpen => leftOpen

end ConnectOutcome

/-- The outcomes of `resolve`, `connect`, `set_option(no_delay)` and
    `handshake`; the last is given the host header and the target. -/
structure OpenResults where
  resolve : ErrorCode := none
  connect : ConnectOutcome := .connected
  noDelay : ErrorCode := none
  handshake : String → String → ErrorCode := fun _ _ => none

/-- The configuration that `open` stores, less the mode, which is in `State`. -/
structure ClientMembers where
  config : Config := {}
deriving DecidableEq

end WebSocket

abbrev WebSocketSession := WebSocket.StreamSession WebSocket.ClientMembers

namespace WebSocketSession
open WebSocket

/-- The session that the private constructor builds. -/
def construct : WebSocketSession := { derived := { own := {} } }

def isOpen (s : WebSocketSession) : Bool := s.derived.socket.isOpen

def hostHeader (config : Config) : String :=
  if config.port.isEmpty then config.host else config.host ++ ":" ++ config.port

def «open» (res : OpenResults) (config : Config) (s : WebSocketSession) :
    WebSocketSession × ErrorCode :=
  if s.isOpen then (s, some .deviceOrResourceBusy) else
  if res.resolve.isSome then (s, res.resolve) else
  let s := { s with derived.socket.isOpen := res.connect.leavesOpen }
  if res.connect.ec.isSome then (s, res.connect.ec) else
  if config.tcpNoDelay && res.noDelay.isSome then (StreamSession.closeSocket s, res.noDelay) else
  let s := if config.tcpNoDelay then { s with derived.socket.noDelay := true } else s
  let s := { s with
    derived.socket.readMessageMax := config.maxMessageSize
    derived.socket.binary := config.binaryMode }
  match res.handshake (hostHeader config) config.target with
  | some e => (StreamSession.closeSocket s, some e)
  | none =>
    ({ s with
        derived.own.config := config
        derived.binaryMode := config.binaryMode }, none)

/-- `create`: a session, if it could be opened. -/
def create (res : OpenResults) (config : Config) : Option WebSocketSession :=
  let r := construct.open res config
  if r.2.isSome then none else some r.1

def canStartRead (s : WebSocketSession) : Bool := StreamSession.canStartRead s

def canStartWrite (s : WebSocketSession) : Bool := StreamSession.canStartWrite s

def doRead (s : WebSocketSession) : WebSocketSession := StreamSession.doRead s

def doWrite (s : WebSocketSession) : WebSocketSession := StreamSession.doWrite s

def closeTransport (s : WebSocketSession) : WebSocketSession × Option Empty :=
  (StreamSession.closeSocket s, none)

def hooks : Hooks (State ClientMembers) (List UInt8) (List UInt8) Empty where
  canStartRead := canStartRead
  canStartWrite := canStartWrite
  doRead := doRead
  doWrite := doWrite
  closeTransport := closeTransport

/-- The further calls of `WebSocketSession`. -/
inductive DerivedCall where
  | open (res : OpenResults) (config : Config)

def callDerived : DerivedCall → WebSocketSession → WebSocketSession × Option (Frame Empty)
  | .open res config, s => ((s.open res config).1, none)

def cls : SessionClass (State ClientMembers) (List UInt8) (List UInt8) DerivedCall Empty Empty where
  toHooks := hooks
  fill := StreamSession.fill
  onRead := StreamSession.onRead hooks
  callDerived := callDerived
  eventDerived e _ := e.elim
  resumeDerived f _ := f.elim

/-! ## The class is lawful -/

theorem open_members (res : OpenResults) (config : Config) (s : WebSocketSession) :
    ∃ d, (s.open res config).1 = { s with derived := d } := by
  unfold WebSocketSession.open
  dsimp only
  split_ifs
  all_goals first
    | exact ⟨_, rfl⟩
    | (dsimp only; split <;> exact ⟨_, rfl⟩)

theorem create_derived {res : OpenResults} {config : Config} {s : WebSocketSession}
    (h : create res config = some s) : ∃ d, s = { derived := d } := by
  unfold create at h
  obtain ⟨d, hd⟩ := open_members res config construct
  dsimp only at h
  split_ifs at h
  exact ⟨d, by rw [← Option.some.inj h, hd]; rfl⟩

theorem lawful : cls.Lawful where
  toLawful := StreamSession.hooks_lawful fun _ => ⟨_, rfl⟩
  onRead_handled := StreamSession.onRead_handled hooks
  callDerived_members c s := by
    cases c with
    | «open» res config => exact Or.inl ⟨open_members res config s, by simp [cls, callDerived]⟩
  eventDerived_members e := e.elim
  resumeDerived_members f := f.elim

end WebSocketSession

end TransitSession
