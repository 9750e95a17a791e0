/-
  `CanSession` (transport/can/can_session.hpp, can_config.hpp).

  The answers of the system calls of `open` are arguments (`OpenResults`); the
  descriptors they open and close are recorded in `descriptors`.
-/
import TransitSession.Can.Codec
import TransitSession.Core.Actions

namespace TransitSession

namespace Can

structure CanFilter where
  id : BitVec 32 := 0
  mask : BitVec 32 := 0
  extendedId : Bool := false
  remoteFrame : Bool := false
deriving DecidableEq

structure CanConfig where
  interfaceName : String := "can0"
  enableCanFd : Bool := true
  loopback : Bool := true
  receiveOwnMessages : Bool := false
  filters : List CanFilter := []
deriving DecidableEq

/-- `struct can_filter`. -/
structure RawFilter where
  canId : BitVec 32
  canMask : BitVec 32
deriving DecidableEq

/-- The loop body of `configure_socket` over `config.filters`. -/
def rawFilter (filter : CanFilter) : RawFilter :=
  let raw : RawFilter := ⟨filter.id, filter.mask⟩
  let raw := if filter.extendedId then
    ⟨raw.canId ||| canEffFlag, raw.canMask ||| canEffFlag⟩ else raw
  if filter.remoteFrame then ⟨raw.canId ||| canRtrFlag, raw.canMask ||| canRtrFlag⟩ else raw

/-- The socket options that `configure_socket` sets. -/
inductive SockOpt where
  | fdFrames
  | loopback (on : Bool)
  | recvOwnMsgs (on : Bool)
  | filter (filters : List RawFilter)
deriving DecidableEq

def sockOpts (config : CanConfig) : List SockOpt :=
  (if config.enableCanFd then [.fdFrames] else []) ++
    [.loopback config.loopback, .recvOwnMsgs config.receiveOwnMessages] ++
    (if config.filters.isEmpty then [] else [.filter (config.filters.map rawFilter)])

/-- What the system calls of `open` return: the descriptor of `socket`, the
    outcome of each `setsockopt`, the index of `if_nametoindex`, and the
    outcomes of `bind` and `assign`. -/
structure OpenResults where
  socket : Except Errc ℕ
  setsockopt : SockOpt → ErrorCode := fun _ => none
  ifNametoindex : Except Errc ℕ := .ok 1
  bind : ErrorCode := none
  assign : ErrorCode := none

/-- `configure_socket`: the first `setsockopt` that fails ends it. -/
def configureSocket (res : OpenResults) (config : CanConfig) : ErrorCode :=
  (sockOpts config).findSome? res.setsockopt

/-- What happened to the descriptors of the process. -/
inductive Descriptor where
  | opened (fd : ℕ)
  | closed (fd : ℕ)
deriving DecidableEq

/-- The members of `CanSession`; `fd` is the descriptor that `socket_` owns. -/
structure State where
  fd : Option ℕ := none
  config : CanConfig := {}
  readBuffer : Vector UInt8 72 := Vector.replicate 72 0
  lastReadFrame : CanFrame := {}
  descriptors : List Descriptor := []
deriving DecidableEq

end Can

/-- A CAN session: messages are frames. -/
abbrev CanSession := Session Can.State Can.CanFrame Can.CanFrame

namespace CanSession
open Can

/-- The session that the private constructor builds. -/
def construct : CanSession := { derived := {} }

def isOpen (s : CanSession) : Bool := s.derived.fd.isSome

/-! ## Opening -/

def logFd (s : CanSession) (e : Descriptor) : CanSession :=
  { s with derived.descriptors := s.derived.descriptors ++ [e] }

def «open» (res : OpenResults) (config : CanConfig) (s : CanSession) : CanSession × ErrorCode :=
  if s.isOpen then (s, some .deviceOrResourceBusy) else
  match res.socket with
  | .error e => (s, some e)
  | .ok fd =>
    let s := s.logFd (.opened fd)
    let closeFd := s.logFd (.closed fd)
    match configureSocket res config with
    | some e => (closeFd, some e)
    | none =>
      match res.ifNametoindex with
      | .error e => (closeFd, some e)
      | .ok _ =>
        match res.bind with
        | some e => (closeFd, some e)
        | none =>
          match res.assign with
          | some e => (closeFd, some e)
          | none =>
            ({ s with
                derived.fd := some fd
                derived.config := config
                derived.readBuffer := Vector.replicate 72 0 }, none)

/-- `create`: a session, if it could be opened. -/
def create (res : OpenResults) (config : CanConfig) : Option CanSession :=
  let r := construct.open res config
  if r.2.isSome then none else some r.1

/-! ## Reading and writing -/

def canStartRead (s : CanSession) : Bool :=
  s.readEnabled && !s.readInProgress && !s.closed

def canStartWrite (s : CanSession) : Bool :=
  s.writeInProgress == false && s.hasPendingWrites && !s.closed

def closeTransport (s : CanSession) : CanSession × Option Empty :=
  match s.derived.fd with
  | none => (s, none)
  | some fd => ({ s.logFd (.closed fd) with derived.fd := none }, none)

def doRead (s : CanSession) : CanSession :=
  s.markReadStarted.asyncRead ⟨s.derived.readBuffer.size, 0, false⟩

def doWrite (s : CanSession) : CanSession :=
  match s.currentWrite with
  | none => s
  | some frame =>
    match encodeFrame s.derived.config.enableCanFd frame.message with
    | none => (s.close closeTransport).1
    | some encoded => s.markWriteStarted.asyncWrite ⟨frame, encoded⟩

def hooks : Hooks State CanFrame CanFrame Empty where
  canStartRead := canStartRead
  canStartWrite := canStartWrite
  doRead := doRead
  doWrite := doWrite
  closeTransport := closeTransport

/-- The completion handler of `do_read`. -/
def onRead (ec : ErrorCode) (bytesTransferred : ℕ) (s : CanSession) :
    CanSession × Option (Frame Empty) :=
  let s := s.markReadFinished
  match ec with
  | some e => hooks.failRead e s
  | none =>
    match decodeFrame bytesTransferred s.derived.readBuffer with
    | .error e => hooks.failRead e s
    | .ok frame => hooks.deliverRead frame { s with derived.lastReadFrame := frame }

/-- The bytes of a read go to the start of `read_buffer_`. -/
def fill (op : ReadOp) (data : List UInt8) (d : State) : Option State :=
  if data.length ≤ op.size then
    some { d with readBuffer := Vector.ofFn fun i => data[i.val]?.getD d.readBuffer[i.val] }
  else none

/-- The further calls of `CanSession`. -/
inductive DerivedCall where
  | open (res : OpenResults) (config : CanConfig)

def callDerived : DerivedCall → CanSession → CanSession × Option (Frame Empty)
  | .open res config, s => ((s.open res config).1, none)

def cls : SessionClass State CanFrame CanFrame DerivedCall Empty Empty where
  toHooks := hooks
  fill := fill
  onRead := onRead
  callDerived := callDerived
  eventDerived e _ := e.elim
  resumeDerived f _ := f.elim

/-! ## The class is lawful -/

theorem canStartRead_eq_true {s : CanSession} : canStartRead s = true ↔
    s.readEnabled = true ∧ s.readInProgress = false ∧ s.closed = false := by
  simp [canStartRead, and_assoc]

theorem canStartWrite_eq_true {s : CanSession} : canStartWrite s = true ↔
    s.writeInProgress = false ∧ s.writeQueue ≠ [] ∧ s.closed = false := by
  simp [canStartWrite, Session.hasPendingWrites, and_assoc]

theorem hooks_lawful : hooks.Lawful where
  canStartRead_core h := canStartRead_eq_true.1 h
  canStartWrite_core h := canStartWrite_eq_true.1 h
  closeTransport_members s := by
    show ∃ d, (closeTransport s).1 = _
    unfold closeTransport
    split <;> exact ⟨_, rfl⟩
  doRead_starts {s} h := ⟨s.derived, _, h, rfl⟩
  doWrite_starts {s} h := by
    obtain ⟨-, hq, -⟩ := canStartWrite_eq_true.1 h
    obtain ⟨q, rest, hq⟩ := List.exists_cons_of_ne_nil hq
    have hf : s.currentWrite = some q := by simp [Session.currentWrite, hq]
    cases he : encodeFrame s.derived.config.enableCanFd q.message with
    | none => exact Or.inr (by simp only [hooks, doWrite, hf, he])
    | some bytes =>
      exact Or.inl ⟨s.derived, q, bytes, h, hf, by simp only [hooks, doWrite, hf, he]⟩
  doRead_blocks _ hw := hw
  canStartRead_handler _ _ := rfl
  canStartWrite_handler _ _ := rfl
  canStartWrite_enabled _ _ := rfl

theorem open_members (res : OpenResults) (config : CanConfig) (s : CanSession) :
    ∃ d, (s.open res config).1 = { s with derived := d } := by
  unfold CanSession.open
  split_ifs
  · exact ⟨_, rfl⟩
  · dsimp only
    split
    · exact ⟨_, rfl⟩
    · split
      · exact ⟨_, rfl⟩
      split
      · exact ⟨_, rfl⟩
      split
      · exact ⟨_, rfl⟩
      split <;> exact ⟨_, rfl⟩

theorem create_derived {res : OpenResults} {config : CanConfig} {s : CanSession}
    (h : create res config = some s) : ∃ d, s = { derived := d } := by
  unfold create at h
  obtain ⟨d, hd⟩ := open_members res config construct
  dsimp only at h
  split_ifs at h
  exact ⟨d, by rw [← Option.some.inj h, hd]; rfl⟩

theorem lawful : cls.Lawful where
  toLawful := hooks_lawful
  onRead_handled ec n s := by
    show ReadHandled hooks s.markReadFinished ec (onRead ec n s)
    unfold onRead
    cases ec with
    | some e => exact .failed _ s.derived e
    | none =>
      dsimp only
      split
      · exact .failed _ s.derived _
      · exact .delivered _ _
  callDerived_members c s := by
    cases c with
    | «open» res config => exact Or.inl ⟨open_members res config s, by simp [cls, callDerived]⟩
  eventDerived_members e := e.elim
  resumeDerived_members f := f.elim

end CanSession

end TransitSession
