/-
  `SerialSession` (transport/serial/serial_session.hpp, serial_config.hpp).

  The operating system's answers are arguments: `OptionResults` for the five
  `set_option` calls of `apply_config`, an `ErrorCode` for `socket_.open`.  A
  port option keeps its value when `set_option` fails.
-/
import TransitSession.Core.Actions

namespace TransitSession

namespace Serial

inductive DuplexMode where
  | fullDuplex
  | halfDuplex
deriving DecidableEq

def defaultReadBufferSize : ℕ := 1024

inductive Parity where
  | none
  | odd
  | even
deriving DecidableEq

inductive StopBits where
  | one
  | onepointfive
  | two
deriving DecidableEq

inductive FlowControl where
  | none
  | software
  | hardware
deriving DecidableEq

structure SerialPortConfig where
  devicePath : String := "/dev/ttyACM0"
  baudRate : ℕ := 115200
  characterSize : ℕ := 8
  parity : Parity := .none
  stopBits : StopBits := .one
  flowControl : FlowControl := .none
  duplexMode : DuplexMode := .fullDuplex
  readBufferSize : ℕ := defaultReadBufferSize
deriving DecidableEq

/-- The options of an open port. -/
structure Port where
  baudRate : ℕ
  characterSize : ℕ
  parity : Parity
  stopBits : StopBits
  flowControl : FlowControl
deriving DecidableEq

/-- The outcomes of the `set_option` calls of `apply_config`. -/
structure OptionResults where
  baudRate : ErrorCode := none
  characterSize : ErrorCode := none
  parity : ErrorCode := none
  stopBits : ErrorCode := none
  flowControl : ErrorCode := none
deriving DecidableEq

/-- The members of `SerialSession`; `bufferVersion` counts the resizes of
    `read_buffer_`. -/
structure State where
  isOpen : Bool := false
  port : Port := ⟨0, 0, .none, .one, .none⟩
  duplexMode : DuplexMode := .fullDuplex
  readBuffer : List UInt8 := List.replicate defaultReadBufferSize 0
  bufferVersion : ℕ := 0
  readPauseForWrite : Bool := false
deriving DecidableEq

/-- `read_buffer_.resize(n)`. -/
def State.resize (d : State) (n : ℕ) : State :=
  { d with
    readBuffer := d.readBuffer.take n ++ List.replicate (n - d.readBuffer.length) 0
    bufferVersion := d.bufferVersion + 1 }

end Serial

/-- A serial session: messages are byte strings. -/
abbrev SerialSession := Session Serial.State (List UInt8) (List UInt8)

namespace SerialSession
open Serial

/-- The session that the private constructor builds. -/
def construct : SerialSession := { derived := {} }

/-! ## Configuration -/

def applyConfig (res : OptionResults) (config : SerialPortConfig) (s : SerialSession) :
    SerialSession × ErrorCode :=
  let d := s.derived
  if res.baudRate.isSome then (s, res.baudRate) else
  let d := { d with port.baudRate := config.baudRate }
  if res.characterSize.isSome then ({ s with derived := d }, res.characterSize) else
  let d := { d with port.characterSize := config.characterSize }
  if res.parity.isSome then ({ s with derived := d }, res.parity) else
  let d := { d with port.parity := config.parity }
  if res.stopBits.isSome then ({ s with derived := d }, res.stopBits) else
  let d := { d with port.stopBits := config.stopBits }
  if res.flowControl.isSome then ({ s with derived := d }, res.flowControl) else
  let d := { d with port.flowControl := config.flowControl }
  if config.readBufferSize = 0 then ({ s with derived := d }, some .invalidArgument) else
  let d := { d with duplexMode := config.duplexMode }
  ({ s with derived := d.resize config.readBufferSize }, none)

/-- `open`; `openEc` is the outcome of `socket_.open`, which refuses a port
    that is open. -/
def «open» (openEc : ErrorCode) (res : OptionResults) (config : SerialPortConfig)
    (s : SerialSession) : SerialSession × ErrorCode :=
  if s.derived.isOpen then (s, some .alreadyOpen) else
  if openEc.isSome then (s, openEc) else
  let s := { s with derived.isOpen := true }
  let r := applyConfig res config s
  if r.2.isSome then ({ r.1 with derived.isOpen := false }, r.2) else r

/-- `create`: a session, if it could be opened. -/
def create (openEc : ErrorCode) (res : OptionResults) (config : SerialPortConfig) :
    Option SerialSession :=
  let r := construct.open openEc res config
  if r.2.isSome then none else some r.1

def setReadBufferSize (n : ℕ) (s : SerialSession) : SerialSession :=
  if s.readInProgress || n == 0 then s else { s with derived := s.derived.resize n }

/-! ## Reading and writing -/

def canStartRead (s : SerialSession) : Bool :=
  if !s.readEnabled || s.readInProgress || s.closed then false
  else if s.derived.duplexMode = .halfDuplex then !s.writeInProgress && !s.hasPendingWrites
  else true

def canStartWrite (s : SerialSession) : Bool :=
  if s.writeInProgress || !s.hasPendingWrites || s.closed then false
  else if s.derived.duplexMode = .halfDuplex then
    !s.readInProgress && !s.derived.readPauseForWrite
  else true

def doRead (s : SerialSession) : SerialSession :=
  let s := s.markReadStarted
  let s := { s with derived.readPauseForWrite := false }
  s.asyncRead ⟨s.derived.readBuffer.length, s.derived.bufferVersion, false⟩

def doWrite (s : SerialSession) : SerialSession :=
  match s.currentWrite with
  | none => s
  | some buffer =>
    if s.derived.duplexMode = .halfDuplex ∧ s.readInProgress = true then
      Session.cancel { s with derived.readPauseForWrite := true }
    else
      s.markWriteStarted.asyncWrite ⟨buffer, buffer.message⟩

def closeTransport (s : SerialSession) : SerialSession × Option Empty :=
  ({ s with derived.isOpen := false }, none)

def hooks : Hooks State (List UInt8) (List UInt8) Empty where
  canStartRead := canStartRead
  canStartWrite := canStartWrite
  doRead := doRead
  doWrite := doWrite
  closeTransport := closeTransport

/-- The completion handler of `do_read`. -/
def onRead (ec : ErrorCode) (bytesTransferred : ℕ) (s : SerialSession) :
    SerialSession × Option (Frame Empty) :=
  let s := s.markReadFinished
  if s.derived.readPauseForWrite = true ∧ ec = some .operationAborted then
    (hooks.scheduleOperations s, none)
  else match ec with
    | some e => hooks.failRead e s
    | none => hooks.deliverRead (s.derived.readBuffer.take bytesTransferred) s

/-- The bytes of a read go to the start of `read_buffer_`. -/
def fill (op : ReadOp) (data : List UInt8) (d : State) : Option State :=
  if data.length ≤ op.size then
    some { d with
      readBuffer := (data ++ d.readBuffer.drop data.length).take d.readBuffer.length }
  else none

/-- The further calls of `SerialSession`. -/
inductive DerivedCall where
  | open (openEc : ErrorCode) (res : OptionResults) (config : SerialPortConfig)
  | applyConfig (res : OptionResults) (config : SerialPortConfig)
  | setDuplexMode (mode : DuplexMode)
  | setReadBufferSize (n : ℕ)
deriving DecidableEq

def setDuplexMode (mode : DuplexMode) (s : SerialSession) : SerialSession :=
  hooks.scheduleOperations { s with derived.duplexMode := mode }

def callDerived : DerivedCall → SerialSession → SerialSession × Option (Frame Empty)
  | .open openEc res config, s => ((s.open openEc res config).1, none)
  | .applyConfig res config, s => ((s.applyConfig res config).1, none)
  | .setDuplexMode mode, s => (s.setDuplexMode mode, none)
  | .setReadBufferSize n, s => (s.setReadBufferSize n, none)

def cls : SessionClass State (List UInt8) (List UInt8) DerivedCall Empty Empty where
  toHooks := hooks
  fill := fill
  onRead := onRead
  callDerived := callDerived
  eventDerived e _ := e.elim
  resumeDerived f _ := f.elim

/-! ## The class is lawful -/

theorem canStartRead_eq_true {s : SerialSession} : canStartRead s = true ↔
    s.readEnabled = true ∧ s.readInProgress = false ∧ s.closed = false ∧
      (s.derived.duplexMode = .halfDuplex → s.writeInProgress = false ∧ s.writeQueue = []) := by
  unfold canStartRead Session.hasPendingWrites
  cases s.readEnabled <;> cases s.readInProgress <;> cases s.closed <;> simp
  exact imp_iff_not_or.symm

theorem canStartWrite_eq_true {s : SerialSession} : canStartWrite s = true ↔
    s.writeInProgress = false ∧ s.writeQueue ≠ [] ∧ s.closed = false ∧
      (s.derived.duplexMode = .halfDuplex →
        s.readInProgress = false ∧ s.derived.readPauseForWrite = false) := by
  unfold canStartWrite Session.hasPendingWrites
  cases s.writeInProgress <;> cases s.closed <;> by_cases hq : s.writeQueue = [] <;> simp [hq]
  exact imp_iff_not_or.symm

/-- Outside its cancel branch, `do_write` starts the write of the front
    element. -/
theorem doWrite_eq {s : SerialSession} {q : Queued (List UInt8)} (hq : s.currentWrite = some q)
    (h : s.derived.duplexMode = .halfDuplex → s.readInProgress = false) :
    doWrite s = s.markWriteStarted.asyncWrite ⟨q, q.message⟩ := by
  unfold doWrite
  simp only [hq]
  rw [if_neg]
  rintro ⟨hd, hr⟩
  rw [h hd] at hr; cases hr

theorem hooks_lawful : hooks.Lawful where
  canStartRead_core h := by
    obtain ⟨h1, h2, h3, -⟩ := canStartRead_eq_true.1 h
    exact ⟨h1, h2, h3⟩
  canStartWrite_core h := by
    obtain ⟨h1, h2, h3, -⟩ := canStartWrite_eq_true.1 h
    exact ⟨h1, h2, h3⟩
  closeTransport_members s := ⟨_, rfl⟩
  doRead_starts {s} h := by
    refine ⟨{ s.derived with readPauseForWrite := false }, _, ?_, rfl⟩
    exact canStartRead_eq_true.2 (canStartRead_eq_true.1 h)
  doWrite_starts {s} h := by
    obtain ⟨-, hq, -, hr⟩ := canStartWrite_eq_true.1 h
    obtain ⟨q, rest, hq⟩ := List.exists_cons_of_ne_nil hq
    have hf : s.currentWrite = some q := by simp [Session.currentWrite, hq]
    exact Or.inl ⟨s.derived, q, q.message, h, hf, doWrite_eq hf fun hd => (hr hd).1⟩
  doRead_blocks {s} h hw := by
    -- in half duplex the new read blocks writes, in full duplex it does not matter
    by_contra hc
    obtain ⟨h1, h2, h3, h4⟩ := canStartWrite_eq_true.1 (Bool.not_eq_false _ ▸ hc)
    have hd : s.derived.duplexMode ≠ .halfDuplex := fun hd => by cases (h4 hd).1
    have : canStartWrite s = true :=
      canStartWrite_eq_true.2 ⟨h1, h2, h3, fun hd' => absurd hd' hd⟩
    exact absurd (this.symm.trans hw) (by simp)
  canStartRead_handler _ _ := rfl
  canStartWrite_handler _ _ := rfl
  canStartWrite_enabled _ _ := rfl

theorem applyConfig_members (res : OptionResults) (config : SerialPortConfig) (s : SerialSession) :
    ∃ d, (applyConfig res config s).1 = { s with derived := d } := by
  unfold applyConfig
  dsimp only
  split_ifs <;> exact ⟨_, rfl⟩

theorem open_members (openEc : ErrorCode) (res : OptionResults) (config : SerialPortConfig)
    (s : SerialSession) : ∃ d, (s.open openEc res config).1 = { s with derived := d } := by
  unfold SerialSession.open
  obtain ⟨d, hd⟩ := applyConfig_members res config { s with derived.isOpen := true }
  dsimp only
  split_ifs
  · exact ⟨_, rfl⟩
  · exact ⟨_, rfl⟩
  · rw [hd]; exact ⟨_, rfl⟩
  · exact ⟨d, hd⟩

theorem create_derived {openEc : ErrorCode} {res : OptionResults} {config : SerialPortConfig}
    {s : SerialSession} (h : create openEc res config = some s) : ∃ d, s = { derived := d } := by
  unfold create at h
  obtain ⟨d, hd⟩ := open_members openEc res config construct
  dsimp only at h
  split_ifs at h
  exact ⟨d, by rw [← Option.some.inj h, hd]; rfl⟩

theorem lawful : cls.Lawful where
  toLawful := hooks_lawful
  onRead_handled ec n s := by
    show ReadHandled hooks s.markReadFinished ec (onRead ec n s)
    unfold onRead
    dsimp only
    split_ifs with h
    · exact .resumed ec
    · cases ec with
      | some e => exact .failed _ s.derived e
      | none => exact .delivered s.derived _
  callDerived_members c s := by
    cases c with
    | «open» openEc res config =>
      exact Or.inl ⟨open_members openEc res config s, by simp [cls, callDerived]⟩
    | applyConfig res config =>
      exact Or.inl ⟨applyConfig_members res config s, by simp [cls, callDerived]⟩
    | setDuplexMode mode => exact Or.inr ⟨_, rfl⟩
    | setReadBufferSize n =>
      refine Or.inl ⟨?_, by simp [cls, callDerived]⟩
      show ∃ d, setReadBufferSize n s = _
      unfold setReadBufferSize
      split_ifs <;> exact ⟨_, rfl⟩
  eventDerived_members e := e.elim
  resumeDerived_members f := f.elim

end SerialSession

end TransitSession
