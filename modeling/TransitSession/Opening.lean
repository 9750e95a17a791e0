/-
  What an `open` that fails leaves behind.

  The four `open` functions once more, with the descriptors that the transports
  own (`IoObject`).  The I/O objects behave as Boost.Asio documents them: a call of
  `open` or `assign` that fails takes no descriptor, and `connect` opens the
  socket for each endpoint that it tries and leaves the last one open when it
  fails.

  | function                 | fails at                                  | closes what it opened   |
  |--------------------------|-------------------------------------------|-------------------------|
  | `SerialSession::open`    | `open`, `apply_config`                    | yes                     |
  | `CanSession::open`       | `socket`, `configure_socket`, ..., assign | yes                     |
  | `WebSocketServer::open`  | `make_address`, `open`, ..., `listen`     | yes                     |
  | `WebSocketSession::open` | `resolve`, `connect`, ..., `handshake`    | unless `connect` failed |
-/
import TransitSession.Reopening
import TransitSession.WebSocket.Server

namespace TransitSession

open Can (Descriptor)

/-! ## Descriptors -/

/-- A port, socket or acceptor: the descriptor that it owns, and what happened to
    the descriptors of the process. -/
structure IoObject where
  fd : Option ℕ := none
  descriptors : List Descriptor := []
deriving DecidableEq

/-- What `connect` did: the descriptors of the endpoints it gave up, and that of
    the last endpoint, if the socket could be opened for it. -/
inductive ConnectResult where
  | connected (tried : List ℕ) (fd : ℕ)
  | failed (tried : List ℕ) (last : Option ℕ) (e : Errc)

namespace ConnectResult

def ec : ConnectResult → ErrorCode
  | connected _ _ => none
  | failed _ _ e => some e

/-- The descriptors of the endpoints it gave up. -/
def tried : ConnectResult → List ℕ
  | connected tried _ | failed tried _ _ => tried

/-- The descriptor of the last endpoint. -/
def last : ConnectResult → Option ℕ
  | connected _ fd => some fd
  | failed _ last _ => last

/-- What `WebSocketSession::open` sees of it. -/
def outcome : ConnectResult → WebSocket.ConnectOutcome
  | connected _ _ => .connected
  | failed _ last e => .failed e last.isSome

@[simp] theorem outcome_ec (res : ConnectResult) : res.outcome.ec = res.ec := by
  cases res <;> rfl

@[simp] theorem outcome_leavesOpen (res : ConnectResult) :
    res.outcome.leavesOpen = res.last.isSome := by
  cases res <;> rfl

end ConnectResult

namespace IoObject

def isOpen (o : IoObject) : Bool := o.fd.isSome

/-- A new descriptor is owned by the object. -/
def own (fd : ℕ) (o : IoObject) : IoObject := ⟨some fd, o.descriptors ++ [.opened fd]⟩

def close (o : IoObject) : IoObject :=
  match o.fd with
  | none => o
  | some fd => ⟨none, o.descriptors ++ [.closed fd]⟩

def «open» (res : Except Errc ℕ) (o : IoObject) : IoObject × ErrorCode :=
  if o.isOpen then (o, some .alreadyOpen) else
  match res with
  | .error e => (o, some e)
  | .ok fd => (o.own fd, none)

/-- `boost::asio::connect`: the socket is closed before each endpoint. -/
def connect (res : ConnectResult) (o : IoObject) : IoObject × ErrorCode :=
  let o := res.tried.foldl (fun o fd => o.close.own fd) o
  let o := o.close
  (res.last.elim o o.own, res.ec)

/-- What was opened since `before` has been closed once, in the same order, but
    for the descriptor that the object owns. -/
def Accounts (before : List Descriptor) (o : IoObject) : Prop :=
  ∃ fds : List ℕ, o.descriptors =
    before ++ fds.flatMap (fun fd => [.opened fd, .closed fd]) ++ o.fd.toList.map .opened

variable {before : List Descriptor} {o : IoObject}

theorem accounts_refl (h : o.isOpen = false) : o.Accounts o.descriptors := by
  refine ⟨[], ?_⟩
  rw [isOpen, Option.isSome_eq_false_iff, Option.isNone_iff_eq_none] at h
  simp [h]

@[simp] theorem isOpen_close : o.close.isOpen = false := by
  unfold close
  split
  · next h => simp [isOpen, h]
  · rfl

@[simp] theorem isOpen_own (fd : ℕ) : (o.own fd).isOpen = true := rfl

theorem Accounts.close (h : o.Accounts before) : o.close.Accounts before := by
  obtain ⟨fds, hd⟩ := h
  unfold IoObject.close
  split
  · exact ⟨fds, hd⟩
  · next fd hfd =>
    refine ⟨fds ++ [fd], ?_⟩
    rw [hd, hfd]
    simp

theorem Accounts.own (fd : ℕ) (h : o.Accounts before) (ho : o.isOpen = false) :
    (o.own fd).Accounts before := by
  obtain ⟨fds, hd⟩ := h
  rw [isOpen, Option.isSome_eq_false_iff, Option.isNone_iff_eq_none] at ho
  refine ⟨fds, ?_⟩
  simp [IoObject.own, hd, ho]

theorem Accounts.open (res : Except Errc ℕ) (h : o.Accounts before) :
    (o.open res).1.Accounts before := by
  unfold IoObject.open
  split_ifs with ho
  · exact h
  · cases res with
    | error e => exact h
    | ok fd => exact h.own fd (by simpa using ho)

theorem Accounts.connect (res : ConnectResult) (h : o.Accounts before) :
    (o.connect res).1.Accounts before := by
  have htried (fds : List ℕ) : ∀ o : IoObject, o.Accounts before →
      (fds.foldl (fun o fd => o.close.own fd) o).Accounts before := by
    induction fds with
    | nil => exact fun o h => h
    | cons fd fds ih => exact fun o h => ih _ (h.close.own fd isOpen_close)
  have hlast := (htried res.tried o h).close
  unfold IoObject.connect
  dsimp only
  cases res.last with
  | none => exact hlast
  | some fd => exact hlast.own fd isOpen_close

@[simp] theorem connect_ec (res : ConnectResult) : (o.connect res).2 = res.ec := rfl

@[simp] theorem isOpen_connect (res : ConnectResult) :
    (o.connect res).1.isOpen = res.last.isSome := by
  unfold connect
  cases res.last <;> simp

end IoObject

/-- An object of a class with the descriptor of its transport; `isOpen` is what the
    class keeps of the descriptor. -/
structure Owner (S : Type) (isOpen : S → Bool) where
  members : S
  io : IoObject
  agrees : isOpen members = io.isOpen

/-! ## The four functions -/

/-- The outcome of a call that returns a descriptor. -/
def resultEc (res : Except Errc ℕ) : ErrorCode :=
  match res with
  | .error e => some e
  | .ok _ => none

namespace SerialSession
open Serial

/-- `open`, on the descriptor of `socket_`. -/
def openPort (openRes : Except Errc ℕ) (res : OptionResults) (config : SerialPortConfig)
    (s : SerialSession) (o : IoObject) : IoObject × ErrorCode :=
  let r := o.open openRes
  if r.2.isSome then r else
  let ec := (applyConfig res config s).2
  if ec.isSome then (r.1.close, ec) else (r.1, ec)

/-- Whether `apply_config` fails does not depend on the session. -/
theorem applyConfig_ec (res : OptionResults) (config : SerialPortConfig) (s t : SerialSession) :
    (applyConfig res config s).2 = (applyConfig res config t).2 := by
  unfold applyConfig
  dsimp only
  split_ifs <;> rfl

theorem openPort_refines (openRes : Except Errc ℕ) (res : OptionResults)
    (config : SerialPortConfig) {s : SerialSession} {o : IoObject}
    (h : s.derived.isOpen = o.isOpen) :
    (s.openPort openRes res config o).2 = (s.open (resultEc openRes) res config).2 ∧
      (s.open (resultEc openRes) res config).1.derived.isOpen =
        (s.openPort openRes res config o).1.isOpen := by
  have hec := applyConfig_ec res config s { s with derived.isOpen := true }
  have ho := applyConfig_open res config { s with derived.isOpen := true }
  unfold openPort SerialSession.open IoObject.open
  rw [h, hec]
  cases hi : o.isOpen with
  | true => simp [h, hi]
  | false =>
    cases openRes with
    | error e => simp [resultEc, h, hi]
    | ok fd =>
      cases hr : (applyConfig res config { s with derived.isOpen := true }).2 with
      | some e => simp [resultEc, hr]
      | none => simp [resultEc, hr, ho]

end SerialSession

namespace CanSession

/-- The descriptor that `socket_` owns, and the history of the descriptors. -/
def io (s : CanSession) : IoObject := ⟨s.derived.fd, s.derived.descriptors⟩

end CanSession

namespace WebSocketSession
open WebSocket

/-- `open`, on the descriptor of `socket_.next_layer()`; `conn` is what `connect`
    does. -/
def openSocket (res : OpenResults) (conn : ConnectResult) (config : Config) (o : IoObject) :
    IoObject × ErrorCode :=
  if o.isOpen then (o, some .deviceOrResourceBusy) else
  if res.resolve.isSome then (o, res.resolve) else
  let r := o.connect conn
  if r.2.isSome then r else
  if config.tcpNoDelay && res.noDelay.isSome then (r.1.close, res.noDelay) else
  match res.handshake (hostHeader config) config.target with
  | some e => (r.1.close, some e)
  | none => (r.1, none)

theorem openSocket_ec (res : OpenResults) (conn : ConnectResult) (config : Config)
    {s : WebSocketSession} {o : IoObject} (h : s.isOpen = o.isOpen) :
    (openSocket res conn config o).2 = (s.open { res with connect := conn.outcome } config).2 := by
  unfold openSocket WebSocketSession.open
  rw [h]
  cases o.isOpen with
  | true => simp
  | false =>
    cases hr : res.resolve with
    | some e => simp
    | none =>
      cases hc : conn.ec with
      | some e => simp [hc]
      | none =>
        cases hd : (config.tcpNoDelay && res.noDelay.isSome) with
        | true => simp [hc]
        | false => cases res.handshake (hostHeader config) config.target <;> simp [hc]

/-- The two models of `open` leave the same open. -/
theorem openSocket_refines (res : OpenResults) (conn : ConnectResult) (config : Config)
    {s : WebSocketSession} {o : IoObject} (h : s.isOpen = o.isOpen) :
    (s.open { res with connect := conn.outcome } config).1.isOpen =
      (openSocket res conn config o).1.isOpen := by
  unfold openSocket WebSocketSession.open
  rw [h]
  cases hi : o.isOpen with
  | true => simp [h, hi]
  | false =>
    cases hr : res.resolve with
    | some e => simp [h, hi]
    | none =>
      cases hc : conn.ec with
      | some e => simp [hc, isOpen]
      | none =>
        cases hd : (config.tcpNoDelay && res.noDelay.isSome) with
        | true => simp [hc, isOpen, StreamSession.closeSocket]
        | false =>
          cases res.handshake (hostHeader config) config.target with
          | some e => simp [hc, isOpen, StreamSession.closeSocket]
          | none =>
            cases config.tcpNoDelay <;> simp [hc, isOpen]

end WebSocketSession

namespace WebSocket

/-- The outcomes of the calls of `WebSocketServer::open`. -/
structure ListenResults where
  makeAddress : ErrorCode := none
  openRes : Except Errc ℕ
  reuseAddress : ErrorCode := none
  bind : ErrorCode := none
  listen : ErrorCode := none

namespace Server

/-- `open`, on the descriptor of `acceptor_`. -/
def openAcceptor (res : ListenResults) (o : IoObject) : IoObject × ErrorCode :=
  if res.makeAddress.isSome then (o, res.makeAddress) else
  let r := o.open res.openRes
  if r.2.isSome then r else
  if res.reuseAddress.isSome then (r.1.close, res.reuseAddress) else
  if res.bind.isSome then (r.1.close, res.bind) else
  if res.listen.isSome then (r.1.close, res.listen) else
  (r.1, none)

/-- The server that the private constructor builds. -/
def construct (config : ServerConfig) : Server := { config := config, acceptorOpen := false }

/-- `create`: a server, if its acceptor listens. -/
def create (res : ListenResults) (config : ServerConfig) : Option Server :=
  let r := openAcceptor res {}
  if r.2.isSome then none else some { construct config with acceptorOpen := r.1.isOpen }

theorem openAcceptor_listens {res : ListenResults} (h : (openAcceptor res {}).2 = none) :
    (openAcceptor res {}).1.isOpen = true := by
  have hno {ec : ErrorCode} (hec : ec.isSome = true) (h : ec = none) : False := by
    rw [h] at hec
    cases hec
  unfold openAcceptor at h ⊢
  dsimp only at h ⊢
  split_ifs at h ⊢ with haddress hopen hreuse hbind hlisten
  · exact (hno haddress h).elim
  · exact (hno hopen h).elim
  · exact (hno hreuse h).elim
  · exact (hno hbind h).elim
  · exact (hno hlisten h).elim
  · cases hres : res.openRes with
    | error e =>
      rw [hres] at hopen
      exact absurd rfl hopen
    | ok fd => rfl

/-- The server that `create` returns is the one that the runs of the machine start
    from. -/
theorem create_idle {res : ListenResults} {config : ServerConfig} {s : Server}
    (h : create res config = some s) : s = { config := config } := by
  unfold create at h
  dsimp only at h
  split_ifs at h with hec
  rw [Option.not_isSome_iff_eq_none] at hec
  rw [openAcceptor_listens hec] at h
  exact (Option.some.inj h).symm

end Server
end WebSocket

namespace Owner

def openSerial (openRes : Except Errc ℕ) (res : Serial.OptionResults)
    (config : Serial.SerialPortConfig) (x : Owner SerialSession (·.derived.isOpen)) :
    Owner SerialSession (·.derived.isOpen) where
  members := (x.members.open (resultEc openRes) res config).1
  io := (x.members.openPort openRes res config x.io).1
  agrees := (SerialSession.openPort_refines openRes res config x.agrees).2

def openWebSocket (res : WebSocket.OpenResults) (conn : ConnectResult) (config : WebSocket.Config)
    (x : Owner WebSocketSession WebSocketSession.isOpen) :
    Owner WebSocketSession WebSocketSession.isOpen where
  members := (x.members.open { res with connect := conn.outcome } config).1
  io := (WebSocketSession.openSocket res conn config x.io).1
  agrees := WebSocketSession.openSocket_refines res conn config x.agrees

def openServer (res : WebSocket.ListenResults) (x : Owner WebSocket.Server (·.acceptorOpen)) :
    Owner WebSocket.Server (·.acceptorOpen) :=
  let io := (WebSocket.Server.openAcceptor res x.io).1
  { members := { x.members with acceptorOpen := io.isOpen }, io, agrees := rfl }

end Owner

/-! ## An opening -/

/-- A call of one of the `open` functions, on an object and with what the calls
    that it makes return. -/
inductive Opening where
  | serial (x : Owner SerialSession (·.derived.isOpen)) (openRes : Except Errc ℕ)
      (res : Serial.OptionResults) (config : Serial.SerialPortConfig)
  | can (s : CanSession) (res : Can.OpenResults) (config : Can.CanConfig)
  | webSocket (x : Owner WebSocketSession WebSocketSession.isOpen) (res : WebSocket.OpenResults)
      (conn : ConnectResult) (config : WebSocket.Config)
  | server (x : Owner WebSocket.Server (·.acceptorOpen)) (res : WebSocket.ListenResults)

namespace Opening

/-- The transport before the call. -/
def entry : Opening → IoObject
  | serial x _ _ _ => x.io
  | can s _ _ => s.io
  | webSocket x _ _ _ => x.io
  | server x _ => x.io

/-- The transport after the call. -/
def exit : Opening → IoObject
  | serial x openRes res config => (x.openSerial openRes res config).io
  | can s res config => (s.open res config).1.io
  | webSocket x res conn config => (x.openWebSocket res conn config).io
  | server x res => (x.openServer res).io

/-- What the call returns. -/
def ec : Opening → ErrorCode
  | serial x openRes res config => (x.members.openPort openRes res config x.io).2
  | can s res config => (s.open res config).2
  | webSocket x res conn config => (WebSocketSession.openSocket res conn config x.io).2
  | server x res => (WebSocket.Server.openAcceptor res x.io).2

/-- The stored configuration, the duplex mode and the read buffer are as before. -/
def Kept : Opening → Prop
  | serial x openRes res config =>
    let d := (x.openSerial openRes res config).members.derived
    d.duplexMode = x.members.derived.duplexMode ∧ d.readBuffer = x.members.derived.readBuffer ∧
      d.bufferVersion = x.members.derived.bufferVersion
  | can s res config =>
    let d := (s.open res config).1.derived
    d.config = s.derived.config ∧ d.readBuffer = s.derived.readBuffer
  | webSocket x res conn config =>
    let d := (x.openWebSocket res conn config).members.derived
    d.own = x.members.derived.own ∧ d.binaryMode = x.members.derived.binaryMode ∧
      d.readBuffer = x.members.derived.readBuffer
  | server x res => (x.openServer res).members.config = x.members.config

/-- The object is opened once more, and no call fails. -/
def again : Opening → Opening
  | serial x openRes res config => .serial (x.openSerial openRes res config) (.ok 0) {} {}
  | can s res config => .can (s.open res config).1 ⟨.ok 0, fun _ => none, .ok 1, none, none⟩ {}
  | webSocket x res conn config =>
    .webSocket (x.openWebSocket res conn config) {} (.connected [] 0) {}
  | server x res => .server (x.openServer res) ⟨none, .ok 0, none, none, none⟩

/-- `connect` fails and leaves the socket open. -/
def ConnectFails : Opening → Prop
  | webSocket _ res (.failed _ last _) _ => res.resolve = none ∧ last.isSome = true
  | _ => False

/-- Nothing is left open: the transport is closed, each descriptor that was opened
    has been closed once, the members are as before, and a later call is not
    refused. -/
structure LeavesNothing (x : Opening) : Prop where
  closed : x.exit.isOpen = false
  returned : ∃ fds : List ℕ, x.exit.descriptors =
    x.entry.descriptors ++ fds.flatMap fun fd => [.opened fd, .closed fd]
  kept : x.Kept
  reopens : x.again.ec = none

/-! ## Every descriptor is accounted for -/

theorem serial_accounts {before : List Descriptor} (openRes : Except Errc ℕ)
    (res : Serial.OptionResults) (config : Serial.SerialPortConfig) (s : SerialSession)
    {o : IoObject} (h : o.Accounts before) :
    (s.openPort openRes res config o).1.Accounts before := by
  have hopen := h.open openRes
  unfold SerialSession.openPort
  dsimp only
  split_ifs
  · exact hopen
  · exact hopen.close
  · exact hopen

theorem can_accounts {before : List Descriptor} (res : Can.OpenResults) (config : Can.CanConfig)
    {s : CanSession} (h : s.io.Accounts before) : (s.open res config).1.io.Accounts before := by
  unfold CanSession.open
  split_ifs with ho
  · exact h
  · -- the descriptor is closed as if the socket had owned it
    have ho' : s.io.isOpen = false := Bool.eq_false_iff.2 ho
    cases res.socket with
    | error e => exact h
    | ok fd =>
      have hown := h.own fd ho'
      have hclose : ((s.logFd (.opened fd)).logFd (.closed fd)).io.Accounts before := by
        obtain ⟨fds, hd⟩ := hown.close
        refine ⟨fds, ?_⟩
        have hfd : s.derived.fd = none := by simpa [CanSession.isOpen] using ho
        simpa [CanSession.io, CanSession.logFd, IoObject.own, IoObject.close, hfd] using hd
      dsimp only
      cases Can.configureSocket res config with
      | some e => exact hclose
      | none =>
        cases res.ifNametoindex with
        | error e => exact hclose
        | ok n =>
          cases res.bind with
          | some e => exact hclose
          | none =>
            cases res.assign with
            | some e => exact hclose
            | none => exact hown

theorem webSocket_accounts {before : List Descriptor} (res : WebSocket.OpenResults)
    (conn : ConnectResult) (config : WebSocket.Config) {o : IoObject} (h : o.Accounts before) :
    (WebSocketSession.openSocket res conn config o).1.Accounts before := by
  have hconn := h.connect conn
  unfold WebSocketSession.openSocket
  dsimp only
  split_ifs
  · exact h
  · exact h
  · exact hconn
  · exact hconn.close
  · split
    · exact hconn.close
    · exact hconn

theorem server_accounts {before : List Descriptor} (res : WebSocket.ListenResults) {o : IoObject}
    (h : o.Accounts before) : (WebSocket.Server.openAcceptor res o).1.Accounts before := by
  have hopen := h.open res.openRes
  unfold WebSocket.Server.openAcceptor
  dsimp only
  split_ifs
  · exact h
  · exact hopen
  · exact hopen.close
  · exact hopen.close
  · exact hopen.close
  · exact hopen

/-- Whether or not the call fails, it has closed what it opened, but for what the
    transport owns. -/
theorem exit_accounts (x : Opening) (h : x.entry.isOpen = false) :
    x.exit.Accounts x.entry.descriptors := by
  have hentry := IoObject.accounts_refl h
  cases x with
  | serial x openRes res config => exact serial_accounts openRes res config x.members hentry
  | can s res config => exact can_accounts res config hentry
  | webSocket x res conn config => exact webSocket_accounts res conn config hentry
  | server x res => exact server_accounts res hentry

/-! ## What a call that fails changes -/

/-- `apply_config` stores the duplex mode and resizes the buffer after its last
    check. -/
theorem applyConfig_failed {res : Serial.OptionResults} {config : Serial.SerialPortConfig}
    {s : SerialSession} (h : (s.applyConfig res config).2 ≠ none) :
    ∃ port, (s.applyConfig res config).1 = { s with derived.port := port } := by
  unfold SerialSession.applyConfig at h ⊢
  dsimp only at h ⊢
  split_ifs at h ⊢
  all_goals first
    | exact ⟨_, rfl⟩
    | exact absurd rfl h

theorem serial_failed {openEc : ErrorCode} {res : Serial.OptionResults}
    {config : Serial.SerialPortConfig} {s : SerialSession}
    (h : (s.open openEc res config).2 ≠ none) :
    ∃ port isOpen, (s.open openEc res config).1 =
      { s with derived.port := port, derived.isOpen := isOpen } := by
  unfold SerialSession.open at h ⊢
  dsimp only at h ⊢
  split_ifs at h ⊢ with ho hopen hr
  · exact ⟨_, _, rfl⟩
  · exact ⟨_, _, rfl⟩
  · obtain ⟨port, hp⟩ := applyConfig_failed (Option.isSome_iff_ne_none.1 hr)
    exact ⟨port, false, by rw [hp]⟩
  · exact absurd (Option.not_isSome_iff_eq_none.1 hr) h

theorem can_failed {res : Can.OpenResults} {config : Can.CanConfig} {s : CanSession}
    (h : (s.open res config).2 ≠ none) :
    ∃ descriptors, (s.open res config).1 = { s with derived.descriptors := descriptors } := by
  unfold CanSession.open at h ⊢
  split_ifs at h ⊢
  · exact ⟨_, rfl⟩
  · cases hso : res.socket with
    | error e => exact ⟨_, rfl⟩
    | ok fd =>
      cases hco : Can.configureSocket res config with
      | some e => exact ⟨_, rfl⟩
      | none =>
        cases hin : res.ifNametoindex with
        | error e => exact ⟨_, rfl⟩
        | ok n =>
          cases hb : res.bind with
          | some e => exact ⟨_, rfl⟩
          | none =>
            cases ha : res.assign with
            | some e => exact ⟨_, rfl⟩
            | none => simp [hso, hco, hin, hb, ha] at h

theorem webSocket_failed {res : WebSocket.OpenResults} {config : WebSocket.Config}
    {s : WebSocketSession} (h : (s.open res config).2 ≠ none) :
    ∃ socket, (s.open res config).1 = { s with derived.socket := socket } := by
  unfold WebSocketSession.open at h ⊢
  dsimp only at h ⊢
  split_ifs at h ⊢
  · exact ⟨_, rfl⟩
  · exact ⟨_, rfl⟩
  · exact ⟨_, rfl⟩
  · exact ⟨_, rfl⟩
  all_goals
    cases hh : res.handshake (WebSocketSession.hostHeader config) config.target with
    | some e => exact ⟨_, rfl⟩
    | none => simp [hh] at h

/-! ## Which openings leave the transport open -/

theorem serial_exit {openRes : Except Errc ℕ} {res : Serial.OptionResults}
    {config : Serial.SerialPortConfig} {s : SerialSession} {o : IoObject} (h : o.isOpen = false)
    (hec : (s.openPort openRes res config o).2 ≠ none) :
    (s.openPort openRes res config o).1.isOpen = false := by
  unfold SerialSession.openPort IoObject.open at hec ⊢
  rw [h] at hec ⊢
  cases openRes with
  | error e => simpa using h
  | ok fd =>
    cases hr : (SerialSession.applyConfig res config s).2 with
    | some e => simp
    | none => simp [hr] at hec

theorem can_exit {res : Can.OpenResults} {config : Can.CanConfig} {s : CanSession}
    (h : s.io.isOpen = false) (hec : (s.open res config).2 ≠ none) :
    (s.open res config).1.io.isOpen = false := by
  obtain ⟨descriptors, hd⟩ := can_failed hec
  rw [hd]
  exact h

theorem webSocket_exit {res : WebSocket.OpenResults} {conn : ConnectResult}
    {config : WebSocket.Config} {o : IoObject} (h : o.isOpen = false)
    (hec : (WebSocketSession.openSocket res conn config o).2 ≠ none) :
    (WebSocketSession.openSocket res conn config o).1.isOpen = true ↔
      res.resolve = none ∧ conn.ec ≠ none ∧ conn.last.isSome = true := by
  unfold WebSocketSession.openSocket at hec ⊢
  rw [h] at hec ⊢
  cases hr : res.resolve with
  | some e => simp [h]
  | none =>
    cases hc : conn.ec with
    | some e => simp [hc]
    | none =>
      cases hd : (config.tcpNoDelay && res.noDelay.isSome) with
      | true => simp [hc]
      | false =>
        cases hh : res.handshake (WebSocketSession.hostHeader config) config.target with
        | some e => simp [hc]
        | none => simp [hr, hc, hd, hh] at hec

theorem server_exit {res : WebSocket.ListenResults} {o : IoObject} (h : o.isOpen = false)
    (hec : (WebSocket.Server.openAcceptor res o).2 ≠ none) :
    (WebSocket.Server.openAcceptor res o).1.isOpen = false := by
  unfold WebSocket.Server.openAcceptor IoObject.open at hec ⊢
  rw [h] at hec ⊢
  cases hopen : res.openRes with
  | error e => split_ifs <;> simpa using h
  | ok fd =>
    simp only [hopen] at hec ⊢
    split_ifs at hec ⊢ <;> simp_all

theorem exit_open {x : Opening} (h : x.entry.isOpen = false) (hec : x.ec ≠ none) :
    x.exit.isOpen = true ↔ x.ConnectFails := by
  cases x with
  | serial x openRes res config =>
    exact iff_of_false (Bool.eq_false_iff.1 (serial_exit h hec)) id
  | can s res config => exact iff_of_false (Bool.eq_false_iff.1 (can_exit h hec)) id
  | webSocket x res conn config =>
    refine (webSocket_exit h hec).trans ?_
    cases conn with
    | connected tried fd => simp [ConnectFails, ConnectResult.ec]
    | failed tried last e => simp [ConnectFails, ConnectResult.ec, ConnectResult.last]
  | server x res => exact iff_of_false (Bool.eq_false_iff.1 (server_exit h hec)) id

/-- The members are as before, even where the transport is left open. -/
theorem failed_keeps {x : Opening} (hec : x.ec ≠ none) : x.Kept := by
  cases x with
  | serial x openRes res config =>
    have hec' : (x.members.open (resultEc openRes) res config).2 ≠ none := by
      rw [← (SerialSession.openPort_refines openRes res config x.agrees).1]
      exact hec
    obtain ⟨port, isOpen, hs⟩ := serial_failed hec'
    simp [Kept, Owner.openSerial, hs]
  | can s res config =>
    obtain ⟨descriptors, hs⟩ := can_failed hec
    simp [Kept, hs]
  | webSocket x res conn config =>
    have hec' : (x.members.open { res with connect := conn.outcome } config).2 ≠ none := by
      rw [← WebSocketSession.openSocket_ec res conn config x.agrees]
      exact hec
    obtain ⟨socket, hs⟩ := webSocket_failed hec'
    simp [Kept, Owner.openWebSocket, hs]
  | server x res => rfl

/-- A transport that was left closed can be opened. -/
theorem again_ec {x : Opening} (h : x.exit.isOpen = false) : x.again.ec = none := by
  cases x with
  | serial x openRes res config =>
    have hok := (SerialSession.applyConfig_ok {} {} (x.openSerial openRes res config).members).2
      ⟨rfl, Nat.succ_ne_zero _⟩
    have hi : (x.openSerial openRes res config).io.isOpen = false := h
    simp [again, ec, SerialSession.openPort, IoObject.open, hi, hok]
  | can s res config =>
    have hi : (s.open res config).1.isOpen = false := h
    have hconf : Can.configureSocket ⟨.ok 0, fun _ => none, .ok 1, none, none⟩ {} = none := rfl
    simp only [again, ec]
    generalize (s.open res config).1 = t at hi ⊢
    simp [CanSession.open, hi, hconf]
  | webSocket x res conn config =>
    have hi : (x.openWebSocket res conn config).io.isOpen = false := h
    simp [again, ec, WebSocketSession.openSocket, hi, ConnectResult.ec]
  | server x res =>
    have hi : (x.openServer res).io.isOpen = false := h
    simp [again, ec, WebSocket.Server.openAcceptor, IoObject.open, hi]

/-- **A failed open leaves nothing open**, unless it is the `connect` of a WebSocket
    client that failed. -/
theorem failed_open_leaves_nothing (x : Opening) (h : x.entry.isOpen = false)
    (hec : x.ec ≠ none) : x.LeavesNothing ↔ ¬ x.ConnectFails := by
  have hopen := exit_open h hec
  constructor
  · intro hx hc
    rw [← hopen, hx.closed] at hc
    cases hc
  · intro hc
    have hclosed : x.exit.isOpen = false := by
      rw [← hopen, Bool.not_eq_true] at hc
      exact hc
    obtain ⟨fds, hd⟩ := exit_accounts x h
    have hfd : x.exit.fd = none := by simpa [IoObject.isOpen] using hclosed
    refine ⟨hclosed, ⟨fds, ?_⟩, failed_keeps hec, again_ec hclosed⟩
    rw [hd, hfd]
    simp

/-- `bind` fails, and the descriptor is closed. -/
theorem failed_open_leaves_nothing_can :
    ∃ x : Opening, x.ec = some (.system 19) ∧ x.exit.descriptors = [.opened 3, .closed 3] ∧
      x.LeavesNothing := by
  refine ⟨.can CanSession.construct ⟨.ok 3, fun _ => none, .ok 1, some (.system 19), none⟩ {},
    rfl, rfl, ?_⟩
  exact (failed_open_leaves_nothing _ rfl (by intro h; cases h)).2 id

/-- The server refuses the connection, and the client stays busy. -/
theorem failed_connect_leaves_open : ¬ ∀ x : Opening, x.entry.isOpen = false → x.ec ≠ none →
    x.exit.isOpen = false := by
  intro h
  have := h (.webSocket ⟨WebSocketSession.construct, {}, rfl⟩ {}
    (.failed [] (some 3) (.system 111)) {}) rfl (by intro h; cases h)
  cases this

end Opening

end TransitSession
