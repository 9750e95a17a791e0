/-
  What the two WebSocket sessions share (websocket_session.hpp,
  websocket_server_session.hpp): the stream, and the text of `do_read`,
  `do_write` and their predicates, which is the same in both classes.

  `M` are the members of the class around the stream, its read buffer and the
  configured mode.
-/
import TransitSession.Core.Actions

namespace TransitSession.WebSocket

/-- `websocket::stream` over a TCP socket: whether the socket is open, and the
    settings of the stream. -/
structure Stream where
  isOpen : Bool := false
  noDelay : Bool := false
  binary : Bool := false
  readMessageMax : ℕ := 16 * 1024 * 1024
deriving DecidableEq

/-- The members of a WebSocket session; `own` are those of its class. -/
structure State (M : Type) where
  socket : Stream := {}
  readBuffer : List UInt8 := []
  binaryMode : Bool := true
  own : M
deriving DecidableEq

/-- A WebSocket session: messages are byte strings. -/
abbrev StreamSession (M : Type) := Session (State M) (List UInt8) (List UInt8)

namespace StreamSession
variable {M F : Type}

def canStartRead (s : StreamSession M) : Bool :=
  s.readEnabled && !s.readInProgress && !s.closed

def canStartWrite (s : StreamSession M) : Bool :=
  !s.writeInProgress && s.hasPendingWrites && !s.closed

/-- The read buffer is dynamic, so the read has no size of its own. -/
def doRead (s : StreamSession M) : StreamSession M :=
  let s := s.markReadStarted
  let s := { s with derived.readBuffer := s.derived.readBuffer.drop s.derived.readBuffer.length }
  s.asyncRead ⟨0, 0, false⟩

def doWrite (s : StreamSession M) : StreamSession M :=
  match s.currentWrite with
  | none => s
  | some buffer =>
    let s := s.markWriteStarted
    let s := { s with derived.socket.binary := s.derived.binaryMode }
    s.asyncWrite ⟨buffer, buffer.message⟩

/-- The message that the completion handler of a read copies: `n` bytes of the
    buffer. -/
def copyMessage (n : ℕ) (s : StreamSession M) : List UInt8 :=
  s.derived.readBuffer.take n ++ List.replicate (n - s.derived.readBuffer.length) 0

/-- The completion handler of `do_read`. -/
def onRead (hooks : Hooks (State M) (List UInt8) (List UInt8) F) (ec : ErrorCode)
    (bytesTransferred : ℕ) (s : StreamSession M) : StreamSession M × Option (Frame F) :=
  let s := s.markReadFinished
  match ec with
  | some e => hooks.failRead e s
  | none =>
    let message := copyMessage bytesTransferred s
    hooks.deliverRead message
      { s with derived.readBuffer := s.derived.readBuffer.drop bytesTransferred }

/-- A message is appended to the dynamic buffer. -/
def fill (_ : ReadOp) (data : List UInt8) (d : State M) : Option (State M) :=
  some { d with readBuffer := d.readBuffer ++ data }

/-- `shutdown` and `close` of the TCP socket. -/
def closeSocket (s : StreamSession M) : StreamSession M := { s with derived.socket.isOpen := false }

/-! ## The class is lawful -/

theorem canStartRead_eq_true {s : StreamSession M} : canStartRead s = true ↔
    s.readEnabled = true ∧ s.readInProgress = false ∧ s.closed = false := by
  simp [canStartRead, and_assoc]

theorem canStartWrite_eq_true {s : StreamSession M} : canStartWrite s = true ↔
    s.writeInProgress = false ∧ s.writeQueue ≠ [] ∧ s.closed = false := by
  simp [canStartWrite, Session.hasPendingWrites, and_assoc]

/-- The hooks of a WebSocket session are lawful, for any `close_transport` that
    changes members only. -/
theorem hooks_lawful {close : StreamSession M → StreamSession M × Option F}
    (hc : ∀ s, ∃ d, (close s).1 = { s with derived := d }) :
    (⟨canStartRead, canStartWrite, doRead, doWrite, close⟩ :
      Hooks (State M) (List UInt8) (List UInt8) F).Lawful where
  canStartRead_core h := canStartRead_eq_true.1 h
  canStartWrite_core h := canStartWrite_eq_true.1 h
  closeTransport_members := hc
  doRead_starts {s} h :=
    ⟨{ s.derived with readBuffer := s.derived.readBuffer.drop s.derived.readBuffer.length },
      ⟨0, 0, false⟩, h, rfl⟩
  doWrite_starts {s} h := by
    obtain ⟨-, hq, -⟩ := canStartWrite_eq_true.1 h
    obtain ⟨q, rest, hq⟩ := List.exists_cons_of_ne_nil hq
    have hf : s.currentWrite = some q := by simp [Session.currentWrite, hq]
    refine Or.inl
      ⟨{ s.derived with socket.binary := s.derived.binaryMode }, q, q.message, h, hf, ?_⟩
    simp only [doWrite, hf]; rfl
  doRead_blocks _ hw := hw
  canStartRead_handler _ _ := rfl
  canStartWrite_handler _ _ := rfl
  canStartWrite_enabled _ _ := rfl

theorem onRead_handled (hooks : Hooks (State M) (List UInt8) (List UInt8) F) (ec : ErrorCode)
    (n : ℕ) (s : StreamSession M) :
    ReadHandled hooks s.markReadFinished ec (onRead hooks ec n s) := by
  unfold onRead
  cases ec with
  | some e => exact .failed _ s.derived e
  | none => exact .delivered _ _

end StreamSession

end TransitSession.WebSocket
