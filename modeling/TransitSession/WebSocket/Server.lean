/-
  `WebSocketServer` (transport/websocket/websocket_server.hpp): the acceptor, the
  set of active sessions, and the sessions themselves, as one machine on a pool
  of threads.

  The strands are that of the server and one for each session.  The closures of
  a session are those of `WebSocketServerSession`; where such a closure calls a
  closure that the server stored in the session (`Callback.server`), it
  dispatches back to the strand of the server.

  An operation that completes has its completion handler queued on the strand
  that it is bound to; a queued handler whose operation is no longer outstanding
  does nothing.
-/
import TransitSession.Lib.Executor
import TransitSession.WebSocket.ServerSession

namespace TransitSession

namespace WebSocket

/-- The history of a server. -/
inductive ServerEvent where
  /-- a closure of `start()` set `started_` -/
  | started
  /-- a closure of `stop()` began -/
  | stopping
  /-- the loop of `stop()` over the set `entry` ended; it called `close()` on
      `visited`, in this order -/
  | stopped (entry visited : List ℕ)
  /-- `async_accept` was initiated while the acceptor was open, or was not -/
  | accepting (acceptorOpen : Bool)
  | inserted (i : ℕ)
  | erased (i : ℕ)
  /-- `session_handler_` was invoked -/
  | handed (ec : ErrorCode) (session : Option ℕ)
deriving DecidableEq

/-- The members of `WebSocketServer`; `sessions` are all sessions created so
    far, which are named by their index. -/
structure Server where
  config : ServerConfig := {}
  acceptorOpen : Bool := true
  started : Bool := false
  sessionHandler : Option Handler := none
  /-- the assignments of `sessionHandler` so far -/
  sessionHandlerVersion : ℕ := 0
  activeSessions : List ℕ := []
  /-- the accepts initiated and not completed -/
  accepts : ℕ := 0
  sessions : List WebSocketServerSession := []
  log : List ServerEvent := []

/-- The strand of the server, and those of the sessions. -/
inductive StrandId where
  | server
  | session (i : ℕ)
deriving DecidableEq

/-- The closures of a server and its sessions. -/
inductive Closure where
  | setSessionHandler (h : Option Handler)
  | start
  | stop
  /-- the completion handler of `async_accept`; `noDelayEc` will be the outcome
      of `set_option(no_delay)` on the socket -/
  | accepted (ec : ErrorCode) (noDelayEc : ErrorCode)
  /-- dispatched by the close handler of a session -/
  | erase (i : ℕ)
  /-- dispatched by the start handler of a session -/
  | handOver (i : ℕ) (startEc : ErrorCode)
  /-- a public call on a session -/
  | call (i : ℕ) (x : Call (List UInt8) WebSocketServerSession.DerivedCall)
  /-- a completion handler of a session -/
  | event (i : ℕ) (e : Completion WebSocketServerSession.Handshake)

/-- What is left of a closure. -/
inductive ServerRest where
  /-- the loop of `stop()` over the set `entry`, with the sessions it has called
      `close()` on and those it has not -/
  | stopLoop (entry visited rest : List ℕ)
  /-- of `do_accept`, after `set_close_handler` -/
  | acceptStart (i : ℕ) (noDelayEc : ErrorCode)
  /-- of `do_accept`, after `start` -/
  | acceptNext
  /-- of `do_accept`, after an error was handed over -/
  | acceptFailed (e : Errc)
  | handOverEnd
  | session (i : ℕ) (f : Frame ServerFrame)
deriving DecidableEq

/-- An operation that completes. -/
inductive Completed where
  | accept (ec : ErrorCode) (noDelayEc : ErrorCode)
  | session (i : ℕ) (e : Completion WebSocketServerSession.Handshake)

/-- The order in which an `unordered_set` is iterated. -/
structure Iteration where
  order : List ℕ → List ℕ
  perm : ∀ l, (order l).Perm l

namespace Server

/-- A set that is iterated in the order of its insertions. -/
def inOrder : Iteration := ⟨id, fun _ => .refl _⟩

abbrev Tail := Executor.Tail Closure ServerRest

def emit (s : Server) (e : ServerEvent) : Server := { s with log := s.log ++ [e] }

def setSessionHandler (h : Option Handler) (s : Server) : Server :=
  { s with sessionHandler := h, sessionHandlerVersion := s.sessionHandlerVersion + 1 }

/-- `do_accept`: another `async_accept`. -/
def doAccept (s : Server) : Server :=
  { s with accepts := s.accepts + 1, log := s.log ++ [.accepting s.acceptorOpen] }

def start (s : Server) : Server :=
  if s.started then s else doAccept (emit { s with started := true } .started)

/-- The loop of `stop()`. -/
def stopLoop (entry visited : List ℕ) (s : Server) : List ℕ → Server × Tail
  | [] => (s.emit (.stopped entry visited), .done)
  | i :: rest => (s, .dispatch (.call i .close) (.stopLoop entry (visited ++ [i]) rest))

def stop (I : Iteration) (s : Server) : Server × Tail :=
  let s := { s with started := false, acceptorOpen := false }
  stopLoop s.activeSessions [] (s.emit .stopping) (I.order s.activeSessions)

/-- `active_sessions_.insert(session)`. -/
def insert (i : ℕ) (s : Server) : Server :=
  if i ∈ s.activeSessions then s
  else { s with activeSessions := s.activeSessions ++ [i], log := s.log ++ [.inserted i] }

/-- `active_sessions_.erase(session)`. -/
def erase (i : ℕ) (s : Server) : Server :=
  { s with activeSessions := s.activeSessions.erase i, log := s.log ++ [.erased i] }

/-- `if (session_handler_) session_handler_(ec, session);` and then `rest`. -/
def notifySession (ec : ErrorCode) (session : Option ℕ) (s : Server) (rest : ServerRest)
    (next : Server → Server) : Server × Tail :=
  if s.sessionHandler.isSome then (s.emit (.handed ec session), .user rest) else (next s, .done)

/-- What follows an accept that failed. -/
def acceptAgain (e : Errc) (s : Server) : Server :=
  if e ≠ .operationAborted then s.doAccept else s

/-- The completion handler of `do_accept`. -/
def onAccept (ec noDelayEc : ErrorCode) (s : Server) : Server × Tail :=
  if !s.started then (s, .done) else
  match ec with
  | some e => notifySession ec none s (.acceptFailed e) (acceptAgain e)
  | none =>
    let i := s.sessions.length
    ({ s with sessions := s.sessions ++ [WebSocketServerSession.create s.config] },
      .dispatch (.call i (.derived (.setCloseHandler (some .server)))) (.acceptStart i noDelayEc))

def handOver (i : ℕ) (startEc : ErrorCode) (s : Server) : Server × Tail :=
  let s := if startEc.isSome then s else s.insert i
  notifySession startEc (if startEc.isSome then none else some i) s .handOverEnd id

/-- How a closure of session `i` goes on that ends in a call: the server's own
    closures dispatch to its strand. -/
def sessionTail (i : ℕ) : Option (Frame ServerFrame) → Tail
  | none => .done
  | some f =>
    match f with
    | .derived (.closeHandler .server) | .derived (.startClosing .server _ _) =>
      .dispatch (.erase i) (.session i f)
    | .derived (.startHandler .server ec) => .dispatch (.handOver i ec) (.session i f)
    | _ => .user (.session i f)

/-- A part of a closure of session `i`. -/
def onSession (i : ℕ)
    (part : WebSocketServerSession → WebSocketServerSession × Option (Frame ServerFrame))
    (s : Server) : Server × Tail :=
  match s.sessions[i]? with
  | none => (s, .done)
  | some x =>
    let r := part x
    ({ s with sessions := s.sessions.set i r.1 }, sessionTail i r.2)

/-- The sessions that the user was handed. -/
def HandedTo (s : Server) (i : ℕ) : Prop := .handed none (some i) ∈ s.log

instance (s : Server) (i : ℕ) : Decidable (s.HandedTo i) :=
  inferInstanceAs (Decidable (_ ∈ s.log))

/-- The public calls that user code may make: on the server, and on the sessions
    that it was handed, with handlers of its own. -/
def callable : Closure → Server → Bool
  | .setSessionHandler _, _ | .start, _ | .stop, _ => true
  | .call _ (.derived (.start (some .server) _)), _ => false
  | .call _ (.derived (.setCloseHandler (some .server))), _ => false
  | .call i _, s => decide (s.HandedTo i)
  | _, _ => false

/-- The server and its sessions. -/
def machine (I : Iteration) : Executor.Machine Server StrandId Closure ServerRest Completed where
  strand
    | .call i _ | .event i _ => .session i
    | _ => .server
  home
    | .session i _ => .session i
    | _ => .server
  run
    | .setSessionHandler h, s => (s.setSessionHandler h, .done)
    | .start, s => (s.start, .done)
    | .stop, s => s.stop I
    | .accepted ec noDelayEc, s => s.onAccept ec noDelayEc
    | .erase i, s => (s.erase i, .done)
    | .handOver i ec, s => s.handOver i ec
    | .call i x, s => s.onSession i (WebSocketServerSession.cls.call x)
    | .event i e, s => s.onSession i fun x => (WebSocketServerSession.cls.event e x).getD (x, none)
  resume
    | .stopLoop entry visited rest, s => s.stopLoop entry visited rest
    | .acceptStart i noDelayEc, s =>
      (s, .dispatch (.call i (.derived (.start (some .server) noDelayEc))) .acceptNext)
    | .acceptNext, s => (s.doAccept, .done)
    | .acceptFailed e, s => (s.acceptAgain e, .done)
    | .handOverEnd, s => (s, .done)
    | .session i f, s => s.onSession i (WebSocketServerSession.cls.resume f)
  complete
    | .accept ec noDelayEc, s =>
      if s.accepts = 0 then none
      else some ({ s with accepts := s.accepts - 1 }, .accepted ec noDelayEc)
    | .session i e, s =>
      match s.sessions[i]? with
      | none => none
      | some x => (WebSocketServerSession.cls.event e x).map fun _ => (s, .event i e)
  callable := callable

end Server
end WebSocket
end TransitSession
