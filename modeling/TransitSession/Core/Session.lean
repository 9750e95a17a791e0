/-
  `AsyncTransportSession` (core/async_transport_session.hpp): the state of a
  session and the functions of the communication core.

  The model follows the class template: `D` stands for the members that the
  derived class adds, `R` and `W` for `ReadValue` and `WriteValue`, and `Hooks`
  for what the core calls on `Derived` (`can_start_read`, `do_write`, ...).
  Around the members, a session carries what the code leaves to the transport:
  the operations it has initiated and whose completion handlers have not run
  (`reads`, `writes`), and the history of what happened (`log`).

  A function that ends in a call of user code returns the `Frame` of that call;
  what the function does after the call is `Hooks.resume`.
-/
import TransitSession.Lib.Strand
import Mathlib.Data.List.Basic
import Mathlib.Data.Int.Notation

namespace TransitSession

/-- The error values the code distinguishes; any other error is `system`. -/
inductive Errc where
  | operationAborted
  | protocolError
  | invalidArgument
  | deviceOrResourceBusy
  | alreadyOpen
  | system (value : ℤ)
deriving DecidableEq

/-- `boost::system::error_code`; `none` is success. -/
abbrev ErrorCode := Option Errc

/-- The name of a handler; several function objects may have it. -/
abbrev Handler := ℕ

/-- An element of `write_queue_`, with the number of messages pushed before it. -/
structure Queued (W : Type) where
  pos : ℕ
  message : W
deriving DecidableEq

/-- A read that was initiated: the size of the buffer it was given, the number
    of resizes of that buffer up to then, and whether `cancel` was called on
    the transport since. -/
structure ReadOp where
  size : ℕ
  version : ℕ := 0
  cancelRequested : Bool := false
deriving DecidableEq

/-- A write that was initiated: the element returned by `current_write()` and
    the bytes handed to the transport. -/
structure WriteOp (W : Type) where
  element : Queued W
  bytes : List UInt8
deriving DecidableEq

/-- The history of a session. -/
inductive Event (D R W : Type) where
  /-- `enqueue_write` pushed an element -/
  | pushed (q : Queued W)
  /-- a read was initiated, with the members of the derived class, the writes
      outstanding and the queue at that moment -/
  | readStarted (members : D) (writes : List (WriteOp W)) (queue : List (Queued W))
  /-- a write was initiated, with the members of the derived class and the
      reads outstanding at that moment -/
  | writeStarted (op : WriteOp W) (members : D) (reads : List ReadOp)
  /-- the completion handler of a read ran; the transport had stored `data` -/
  | readCompleted (ec : ErrorCode) (data : List UInt8)
  /-- the completion handler of a write ran -/
  | writeCompleted (op : WriteOp W) (ec : ErrorCode)
  /-- `read_handler_` was invoked -/
  | notified (ec : ErrorCode) (value : R)
  /-- a closure of `close()` ran -/
  | closeRun
  /-- `close()` invoked `close_transport()` -/
  | closeTransport

/-- A session; `derived` are the members of the derived class. -/
structure Session (D R W : Type) where
  derived : D
  readHandler : Option Handler := none
  /-- the assignments of `readHandler` so far; each stores a function object of its
      own, and destroys the one before -/
  readHandlerVersion : ℕ := 0
  writeQueue : List (Queued W) := []
  readEnabled : Bool := false
  readInProgress : Bool := false
  writeInProgress : Bool := false
  closed : Bool := false
  /-- the reads initiated and not completed -/
  reads : List ReadOp := []
  /-- the writes initiated and not completed -/
  writes : List (WriteOp W) := []
  log : List (Event D R W) := []

/-- User code that was called by a closure of the session: the read handler
    with an error or with a value, or a handler of the derived class. -/
inductive Frame (F : Type) where
  /-- `notify_read(ec, {})`, followed by `close()` -/
  | readError (h : Handler)
  /-- `notify_read({}, value)`, followed by `schedule_operations()` -/
  | readValue (h : Handler)
  | derived (f : F)
deriving DecidableEq

namespace Session
variable {D R W F : Type}

def emit (s : Session D R W) (e : Event D R W) : Session D R W := { s with log := s.log ++ [e] }

/-- `read_handler_ = std::move(handler);`. -/
def setReadHandler (h : Option Handler) (s : Session D R W) : Session D R W :=
  { s with readHandler := h, readHandlerVersion := s.readHandlerVersion + 1 }

def hasPendingWrites (s : Session D R W) : Bool := !s.writeQueue.isEmpty

/-- `current_write`: the element at the front of the queue. -/
def currentWrite (s : Session D R W) : Option (Queued W) := s.writeQueue.head?

def consumeWrite (s : Session D R W) : Session D R W :=
  if s.writeQueue.isEmpty then s else { s with writeQueue := s.writeQueue.tail }

def markReadStarted (s : Session D R W) : Session D R W := { s with readInProgress := true }

def markReadFinished (s : Session D R W) : Session D R W := { s with readInProgress := false }

def markWriteStarted (s : Session D R W) : Session D R W := { s with writeInProgress := true }

def markWriteFinished (s : Session D R W) : Session D R W := { s with writeInProgress := false }

/-- Hand a read to the transport (`async_read_some`, `async_read`). -/
def asyncRead (s : Session D R W) (op : ReadOp) : Session D R W :=
  { s with
    reads := s.reads ++ [op]
    log := s.log ++ [.readStarted s.derived s.writes s.writeQueue] }

/-- Hand a write to the transport (`async_write`). -/
def asyncWrite (s : Session D R W) (op : WriteOp W) : Session D R W :=
  { s with
    writes := s.writes ++ [op]
    log := s.log ++ [.writeStarted op s.derived s.reads] }

/-- `socket_.cancel(ec)`: the outstanding reads are asked to abort. -/
def cancel (s : Session D R W) : Session D R W :=
  { s with reads := s.reads.map fun op => { op with cancelRequested := true } }

/-- The elements pushed so far. -/
def pushed (s : Session D R W) : List (Queued W) :=
  s.log.filterMap fun | .pushed q => some q | _ => none

/-- `write_queue_.push_back(std::move(message))`. -/
def pushBack (s : Session D R W) (m : W) : Session D R W :=
  { s with
    writeQueue := s.writeQueue ++ [⟨s.pushed.length, m⟩]
    log := s.log ++ [.pushed ⟨s.pushed.length, m⟩] }

/-- What `close()` does before it calls `close_transport()`. -/
def shut (s : Session D R W) : Session D R W :=
  { s with
    readEnabled := false
    writeQueue := []
    closed := true
    log := s.log ++ [.closeRun, .closeTransport] }

/-- `close`, for the given `close_transport`. -/
def close (closeTransport : Session D R W → Session D R W × Option F) (s : Session D R W) :
    Session D R W × Option F :=
  if s.closed then (s.emit .closeRun, none) else closeTransport s.shut

def stopReading (s : Session D R W) : Session D R W := { s with readEnabled := false }

end Session

/-- What the core calls on the derived class.  `F` are the frames of the user
    code that `close_transport` may call. -/
structure Hooks (D R W F : Type) where
  canStartRead : Session D R W → Bool
  canStartWrite : Session D R W → Bool
  doRead : Session D R W → Session D R W
  doWrite : Session D R W → Session D R W
  closeTransport : Session D R W → Session D R W × Option F

namespace Hooks
variable {D R W F : Type} (H : Hooks D R W F)

def scheduleOperations (s : Session D R W) : Session D R W :=
  let s := if H.canStartWrite s then H.doWrite s else s
  if H.canStartRead s then H.doRead s else s

def startReading (s : Session D R W) : Session D R W :=
  if s.closed then s else H.scheduleOperations { s with readEnabled := true }

def enqueueWrite (m : W) (s : Session D R W) : Session D R W :=
  if s.closed then s else H.scheduleOperations (s.pushBack m)

def close (s : Session D R W) : Session D R W × Option (Frame F) :=
  let r := s.close H.closeTransport
  (r.1, r.2.map .derived)

/-- `notify_read(ec, {}); close();` of the completion handlers of reads. -/
def failRead [Inhabited R] (e : Errc) (s : Session D R W) : Session D R W × Option (Frame F) :=
  match s.readHandler with
  | some h => (s.emit (.notified (some e) default), some (.readError h))
  | none => H.close s

/-- `notify_read({}, value); schedule_operations();` of the completion handlers
    of reads. -/
def deliverRead (value : R) (s : Session D R W) : Session D R W × Option (Frame F) :=
  match s.readHandler with
  | some h => (s.emit (.notified none value), some (.readValue h))
  | none => (H.scheduleOperations s, none)

/-- The completion handler of a write, the same in every derived class. -/
def onWrite (ec : ErrorCode) (s : Session D R W) : Session D R W × Option (Frame F) :=
  let s := s.markWriteFinished
  match ec with
  | some _ => H.close s
  | none => (H.scheduleOperations s.consumeWrite, none)

end Hooks

/-- The public calls on a session; `C` are those of the derived class. -/
inductive Call (W C : Type) where
  | setReadHandler (h : Option Handler)
  | startReading
  | stopReading
  | send (m : W)
  | close
  | derived (c : C)

/-- The completions of a session: of its `k`-th outstanding read, for which the
    transport stored `data`, of its `k`-th outstanding write, or of another
    operation of the derived class. -/
inductive Completion (E : Type) where
  | read (k : ℕ) (ec : ErrorCode) (data : List UInt8)
  | write (k : ℕ) (ec : ErrorCode)
  | derived (e : E)

/-- A session class: the hooks, the completion handler of its reads, and its
    further calls, operations and user code. -/
structure SessionClass (D R W C E F : Type) extends Hooks D R W F where
  /-- the transport stores `data` in the buffer of a read, if it fits -/
  fill : ReadOp → List UInt8 → D → Option D
  /-- the completion handler of a read, given `ec` and `bytes_transferred` -/
  onRead : ErrorCode → ℕ → Session D R W → Session D R W × Option (Frame F)
  callDerived : C → Session D R W → Session D R W × Option (Frame F)
  eventDerived : E → Session D R W → Option (Session D R W × Option (Frame F))
  resumeDerived : F → Session D R W → Session D R W × Option (Frame F)

namespace SessionClass
variable {D R W C E F : Type} (K : SessionClass D R W C E F)

/-- The closure of a public call. -/
def call : Call W C → Session D R W → Session D R W × Option (Frame F)
  | .setReadHandler h, s => (s.setReadHandler h, none)
  | .startReading, s => (K.startReading s, none)
  | .stopReading, s => (s.stopReading, none)
  | .send m, s => (K.enqueueWrite m s, none)
  | .close, s => K.close s
  | .derived c, s => K.callDerived c s

/-- The closure of a completion handler, if the operation is outstanding. -/
def event : Completion E → Session D R W → Option (Session D R W × Option (Frame F))
  | .read k ec data, s =>
    match s.reads[k]? with
    | none => none
    | some op => (K.fill op data s.derived).map fun d =>
        K.onRead ec data.length
          { s with
            derived := d
            reads := s.reads.eraseIdx k
            log := s.log ++ [.readCompleted ec data] }
  | .write k ec, s =>
    match s.writes[k]? with
    | none => none
    | some op => some (K.onWrite ec
        { s with
          writes := s.writes.eraseIdx k
          log := s.log ++ [.writeCompleted op ec] })
  | .derived e, s => K.eventDerived e s

/-- What is left of a closure when the user code it called returns. -/
def resume : Frame F → Session D R W → Session D R W × Option (Frame F)
  | .readError _, s => K.close s
  | .readValue _, s => (K.scheduleOperations s, none)
  | .derived f, s => K.resumeDerived f s

/-- The strand of a session. -/
def program : Strand.Program (Session D R W) (Call W C) (Completion E) (Frame F) where
  call := K.call
  event := K.event
  resume := K.resume

end SessionClass

end TransitSession
