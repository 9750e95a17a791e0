/-
  Transports that are open, and sessions that are closed.

  `close()` closes the transport with the session, and nothing but `open()` opens
  a transport; but `open()` leaves `closed_` as it is.  So a session accepts work
  whenever its transport is open, unless a closed session is opened again
  (`Reopens`): its transport is open from then on, and `send` and `start_reading`
  are ignored.
-/
import TransitSession.Core.Members
import TransitSession.Sessions

namespace TransitSession

variable {D R W C E F : Type}

/-- Nothing has happened to the transport of a closed session, or the session was
    closed and the transport with it. -/
def Shuts (isOpen : D → Bool) (s s' : Session D R W) : Prop :=
  s'.closed = s.closed ∧ (s.closed = true → isOpen s'.derived = isOpen s.derived) ∨
    s'.closed = true ∧ isOpen s'.derived = false

namespace Shuts
variable {isOpen : D → Bool} {s s' s'' : Session D R W}

theorem of_eq (hc : s'.closed = s.closed) (ho : isOpen s'.derived = isOpen s.derived) :
    Shuts isOpen s s' := Or.inl ⟨hc, fun _ => ho⟩

theorem trans (h : Shuts isOpen s s') (h' : Shuts isOpen s' s'') : Shuts isOpen s s'' := by
  rcases h' with ⟨hc', ho'⟩ | h'
  · rcases h with ⟨hc, ho⟩ | ⟨hc, ho⟩
    · exact Or.inl ⟨hc'.trans hc, fun hs => (ho' (hc.trans hs)).trans (ho hs)⟩
    · exact Or.inr ⟨hc'.trans hc, (ho' hc).trans ho⟩
  · exact Or.inr h'

/-- A closed session whose transport is closed stays so. -/
theorem closed (h : Shuts isOpen s s') (hs : s.closed = true → isOpen s.derived = false) :
    s'.closed = true → isOpen s'.derived = false := by
  intro hc'
  rcases h with ⟨hc, ho⟩ | ⟨-, ho⟩
  · have hcs := hc.symm.trans hc'
    exact (ho hcs).trans (hs hcs)
  · exact ho

end Shuts

/-- The hooks of a class whose `close_transport`, and nothing else, closes the
    transport. -/
theorem Hooks.shuts_of {H : Hooks D R W F} {isOpen : D → Bool} (hH : H.Lawful)
    (hread : ∀ s, isOpen (H.doRead s).derived = isOpen s.derived)
    (hwrite : ∀ {s}, H.canStartWrite s = true →
      isOpen (H.doWrite s).derived = isOpen s.derived ∨ H.doWrite s = (s.close H.closeTransport).1)
    (hclose : ∀ s, isOpen (H.closeTransport s).1.derived = false) :
    H.Respects (Shuts isOpen) where
  trans h h' := h.trans h'
  core hc _ hd := .of_eq hc (by rw [hd])
  doRead {s} h := by
    refine .of_eq ?_ (hread s)
    obtain ⟨d, op, -, he⟩ := hH.doRead_starts h
    rw [he]
    rfl
  doWrite {s} h := by
    rcases hwrite h with ho | he
    · rcases hH.doWrite_starts h with ⟨d, q, bytes, -, -, he⟩ | he
      · refine Or.inl (.of_eq ?_ ho)
        rw [he]
        rfl
      · exact Or.inr he
    · exact Or.inr he
  closeTransport {s} _ := by
    obtain ⟨d, hd⟩ := hH.closeTransport_members s.shut
    refine Or.inr ⟨?_, hclose s.shut⟩
    rw [hd]
    rfl

/-! ## What `open()` needs to leave the transport open -/

namespace SerialSession
open Serial

/-- The outcomes with which `open` opens the port. -/
def Opens (openEc : ErrorCode) (res : OptionResults) (config : SerialPortConfig) : Prop :=
  openEc = none ∧ res = {} ∧ config.readBufferSize ≠ 0

theorem applyConfig_open (res : OptionResults) (config : SerialPortConfig) (s : SerialSession) :
    (applyConfig res config s).1.derived.isOpen = s.derived.isOpen := by
  unfold applyConfig
  dsimp only
  split_ifs <;> rfl

theorem applyConfig_ok (res : OptionResults) (config : SerialPortConfig) (s : SerialSession) :
    (applyConfig res config s).2 = none ↔ res = {} ∧ config.readBufferSize ≠ 0 := by
  obtain ⟨baudRate, characterSize, parity, stopBits, flowControl⟩ := res
  simp only [applyConfig, OptionResults.mk.injEq]
  cases baudRate <;> cases characterSize <;> cases parity <;> cases stopBits <;>
    cases flowControl <;> by_cases hn : config.readBufferSize = 0 <;> simp [hn]

/-- `open` leaves the port open iff it was open, or succeeds. -/
theorem open_open (openEc : ErrorCode) (res : OptionResults) (config : SerialPortConfig)
    (s : SerialSession) : (s.open openEc res config).1.derived.isOpen = true ↔
      s.derived.isOpen = true ∨ Opens openEc res config := by
  have hap := applyConfig_open res config { s with derived.isOpen := true }
  have hok := applyConfig_ok res config { s with derived.isOpen := true }
  unfold SerialSession.open Opens
  dsimp only at hap hok ⊢
  rw [← hok]
  by_cases ho : s.derived.isOpen = true
  · simp [ho]
  · rw [if_neg ho]
    cases openEc with
    | some e => simp [ho]
    | none =>
      cases hr : (applyConfig res config { s with derived.isOpen := true }).2 with
      | some e => simp [ho]
      | none => simp [hap]

end SerialSession

namespace CanSession
open Can

/-- The outcomes with which `open` opens the socket. -/
def Opens (res : OpenResults) (config : CanConfig) : Prop :=
  res.socket.isOk = true ∧ configureSocket res config = none ∧ res.ifNametoindex.isOk = true ∧
    res.bind = none ∧ res.assign = none

/-- `open` leaves the socket open iff it was open, or succeeds. -/
theorem open_open (res : OpenResults) (config : CanConfig) (s : CanSession) :
    (s.open res config).1.isOpen = true ↔ s.isOpen = true ∨ Opens res config := by
  unfold CanSession.open Opens
  by_cases ho : s.isOpen = true
  · simp [ho]
  · rw [if_neg ho]
    have ho' : s.derived.fd.isSome ≠ true := ho
    cases res.socket with
    | error e => simp [ho, Except.isOk, Except.toBool]
    | ok fd =>
      cases configureSocket res config with
      | some e => simp [isOpen, logFd, ho', Except.isOk, Except.toBool]
      | none =>
        cases res.ifNametoindex with
        | error e => simp [isOpen, logFd, ho', Except.isOk, Except.toBool]
        | ok n =>
          cases res.bind <;> cases res.assign <;>
            simp [isOpen, logFd, ho', Except.isOk, Except.toBool]

/-- `open` succeeds only with these outcomes. -/
theorem open_ok {res : OpenResults} {config : CanConfig} {s : CanSession}
    (h : (s.open res config).2 = none) : Opens res config := by
  unfold CanSession.open at h
  unfold Opens
  split_ifs at h
  cases hso : res.socket with
  | error e => simp [hso] at h
  | ok fd =>
    cases hco : configureSocket res config with
    | some e => simp [hso, hco] at h
    | none =>
      cases hin : res.ifNametoindex with
      | error e => simp [hso, hco, hin] at h
      | ok n =>
        cases hb : res.bind with
        | some e => simp [hso, hco, hin, hb] at h
        | none =>
          cases ha : res.assign with
          | some e => simp [hso, hco, hin, hb, ha] at h
          | none => exact ⟨rfl, rfl, rfl, rfl, rfl⟩

end CanSession

namespace WebSocketSession
open WebSocket

/-- The outcomes with which `open` leaves the socket open: a `connect` that fails
    and leaves it so, or success. -/
def Opens (res : OpenResults) (config : Config) : Prop :=
  res.resolve = none ∧ res.connect.leavesOpen = true ∧
    (res.connect.ec ≠ none ∨ (config.tcpNoDelay = true → res.noDelay = none) ∧
      res.handshake (hostHeader config) config.target = none)

/-- `open` leaves the socket open iff it was open, or with these outcomes. -/
theorem open_open (res : OpenResults) (config : Config) (s : WebSocketSession) :
    (s.open res config).1.isOpen = true ↔ s.isOpen = true ∨ Opens res config := by
  unfold WebSocketSession.open Opens
  by_cases ho : s.isOpen = true
  · simp [ho]
  · rw [if_neg ho]
    have ho' : s.derived.socket.isOpen ≠ true := ho
    cases res.resolve with
    | some e => simp [ho]
    | none =>
      cases res.connect with
      | failed e leftOpen => simp [isOpen, ho', ConnectOutcome.ec, ConnectOutcome.leavesOpen]
      | connected =>
        cases hd : config.tcpNoDelay <;> cases res.noDelay <;>
          cases res.handshake (hostHeader config) config.target <;>
          simp [isOpen, ho', StreamSession.closeSocket, ConnectOutcome.ec,
            ConnectOutcome.leavesOpen]

end WebSocketSession

/-! ## All classes -/

namespace Kind

/-- `is_open`. -/
def isOpen : (k : Kind) → k.Members → Bool
  | .serial, d => d.isOpen
  | .can, d => d.fd.isSome
  | .webSocket, d | .webSocketServer, d => d.socket.isOpen

/-- The call is an `open` that leaves the transport open. -/
def Opens : (k : Kind) → k.DerivedCall → Prop
  | .serial, .open openEc res config => SerialSession.Opens openEc res config
  | .can, .open res config => CanSession.Opens res config
  | .webSocket, .open res config => WebSocketSession.Opens res config
  | _, _ => False

/-- A closed session is opened again. -/
def Reopens (k : Kind) (c : k.Config) : k.Label → Prop
  | .call (.derived x) => c.state.closed = true ∧ k.Opens x
  | _ => False

/-- A session whose transport is open is not closed: `send` enqueues its message
    and `start_reading` enables reading. -/
def AcceptsWork (k : Kind) (s : Session k.Members k.Value k.Value) : Prop :=
  k.isOpen s.derived = true → s.closed = false ∧
    (∀ m, k.cls.enqueueWrite m s = k.cls.scheduleOperations (s.pushBack m)) ∧
    k.cls.startReading s = k.cls.scheduleOperations { s with readEnabled := true }

variable {k : Kind} {c c' : k.Config} {l : k.Label}

theorem acceptsWork_iff (s : Session k.Members k.Value k.Value) :
    k.AcceptsWork s ↔ (s.closed = true → k.isOpen s.derived = false) := by
  constructor
  · intro h hc
    by_contra ho
    have := (h (by simpa using ho)).1
    rw [hc] at this
    cases this
  · intro h ho
    have hc : s.closed = false := by
      by_contra hc
      rw [h (by simpa using hc)] at ho
      cases ho
    refine ⟨hc, fun m => ?_, ?_⟩
    · rw [Hooks.enqueueWrite, hc, if_neg (by simp)]
    · rw [Hooks.startReading, hc, if_neg (by simp)]

theorem hooks_shuts (hk : k ≠ .webSocketServer) :
    k.cls.toHooks.Respects (Shuts k.isOpen) := by
  cases k with
  | serial =>
    refine Hooks.shuts_of SerialSession.hooks_lawful (fun s => rfl) (fun {s} _ => Or.inl ?_)
      fun s => rfl
    show (SerialSession.doWrite s).derived.isOpen = s.derived.isOpen
    unfold SerialSession.doWrite
    split
    · rfl
    · split_ifs <;> rfl
  | can =>
    refine Hooks.shuts_of CanSession.hooks_lawful (fun s => rfl) (fun {s} _ => ?_) fun s => ?_
    · show (CanSession.doWrite s).derived.fd.isSome = s.derived.fd.isSome ∨
        CanSession.doWrite s = (s.close CanSession.closeTransport).1
      unfold CanSession.doWrite
      split
      · exact Or.inl rfl
      · split
        · exact Or.inr rfl
        · exact Or.inl rfl
    · show (CanSession.closeTransport s).1.derived.fd.isSome = false
      unfold CanSession.closeTransport
      split
      · next h => rw [h]; rfl
      · rfl
  | webSocket =>
    refine Hooks.shuts_of WebSocketSession.lawful.toLawful (fun s => rfl)
      (fun {s} _ => Or.inl ?_) fun s => rfl
    show (WebSocket.StreamSession.doWrite s).derived.socket.isOpen = s.derived.socket.isOpen
    unfold WebSocket.StreamSession.doWrite
    split <;> rfl
  | webSocketServer => exact absurd rfl hk

/-- An `open` opens the transport, or nothing happens to it. -/
theorem open_shuts {s s' : Session k.Members k.Value k.Value} {P : Prop}
    (hd : ∃ d, s' = { s with derived := d })
    (ho : k.isOpen s'.derived = true ↔ k.isOpen s.derived = true ∨ P) :
    (P → s'.closed = s.closed ∧ k.isOpen s'.derived = true) ∧ (¬ P → Shuts k.isOpen s s') := by
  obtain ⟨d, rfl⟩ := hd
  refine ⟨fun hp => ⟨rfl, ho.2 (Or.inr hp)⟩, fun hp => .of_eq rfl ?_⟩
  rw [Bool.eq_iff_iff, ho]
  simp [hp]

theorem callDerived_shuts (hk : k ≠ .webSocketServer) (x : k.DerivedCall)
    (s : Session k.Members k.Value k.Value) :
    (k.Opens x → (k.cls.callDerived x s).1.closed = s.closed ∧
      k.isOpen (k.cls.callDerived x s).1.derived = true) ∧
    (¬ k.Opens x → Shuts k.isOpen s (k.cls.callDerived x s).1) := by
  cases k with
  | serial =>
    cases x with
    | «open» openEc res config =>
      exact open_shuts (SerialSession.open_members openEc res config s)
        (SerialSession.open_open openEc res config s)
    | applyConfig res config =>
      refine ⟨fun h => h.elim, fun _ => ?_⟩
      obtain ⟨d, hd⟩ := SerialSession.applyConfig_members res config s
      refine .of_eq ?_ (SerialSession.applyConfig_open res config s)
      show (SerialSession.applyConfig res config s).1.closed = s.closed
      rw [hd]
    | setDuplexMode mode =>
      refine ⟨fun h => h.elim, fun _ => ?_⟩
      have hmode : Shuts (isOpen .serial) s { s with derived.duplexMode := mode } :=
        .of_eq rfl rfl
      exact hmode.trans ((hooks_shuts hk).schedule _)
    | setReadBufferSize n =>
      refine ⟨fun h => h.elim, fun _ => ?_⟩
      show Shuts _ s (SerialSession.setReadBufferSize n s)
      unfold SerialSession.setReadBufferSize
      split_ifs <;> exact .of_eq rfl rfl
  | can =>
    cases x with
    | «open» res config =>
      exact open_shuts (CanSession.open_members res config s) (CanSession.open_open res config s)
  | webSocket =>
    cases x with
    | «open» res config =>
      exact open_shuts (WebSocketSession.open_members res config s)
        (WebSocketSession.open_open res config s)
  | webSocketServer => exact absurd rfl hk

theorem onRead_shuts (hk : k ≠ .webSocketServer) (ec : ErrorCode) (n : ℕ)
    (s : Session k.Members k.Value k.Value) : Shuts k.isOpen s (k.cls.onRead ec n s).1 := by
  have hH := hooks_shuts hk
  have hfin : Shuts k.isOpen s s.markReadFinished := .of_eq rfl rfl
  refine hfin.trans ?_
  cases k with
  | serial =>
    show Shuts _ _ (SerialSession.onRead ec n s).1
    unfold SerialSession.onRead
    dsimp only
    split_ifs
    · exact hH.schedule _
    · cases ec with
      | some e => exact hH.failRead e _
      | none => exact hH.deliverRead _ _
  | can =>
    show Shuts _ _ (CanSession.onRead ec n s).1
    unfold CanSession.onRead
    cases ec with
    | some e => exact hH.failRead e _
    | none =>
      dsimp only
      split
      · exact hH.failRead _ _
      · exact Shuts.trans (.of_eq rfl rfl) (hH.deliverRead _
          { s.markReadFinished with derived.lastReadFrame := _ })
  | webSocket =>
    cases ec with
    | some e => exact hH.failRead e _
    | none => exact Shuts.trans (.of_eq rfl rfl) (hH.deliverRead _
        { s.markReadFinished with derived.readBuffer := s.derived.readBuffer.drop n })
  | webSocketServer => exact absurd rfl hk

theorem fill_open (hk : k ≠ .webSocketServer) {op : ReadOp} {data : List UInt8}
    {d d' : k.Members} (h : k.cls.fill op data d = some d') : k.isOpen d' = k.isOpen d := by
  cases k with
  | serial =>
    change SerialSession.fill op data d = some d' at h
    simp only [SerialSession.fill, Option.ite_none_right_eq_some, Option.some.injEq] at h
    obtain ⟨-, rfl⟩ := h
    exact Eq.refl d.isOpen
  | can =>
    change CanSession.fill op data d = some d' at h
    simp only [CanSession.fill, Option.ite_none_right_eq_some, Option.some.injEq] at h
    obtain ⟨-, rfl⟩ := h
    exact Eq.refl d.fd.isSome
  | webSocket =>
    obtain rfl := Option.some.inj h
    rfl
  | webSocketServer => exact absurd rfl hk

theorem shuts (hk : k ≠ .webSocketServer) :
    k.cls.Respects (Shuts k.isOpen) fun c l => ¬ k.Reopens c l where
  toRespects := hooks_shuts hk
  setReadHandler _ := .of_eq rfl rfl
  fill h := .of_eq rfl (fill_open hk h)
  onRead := onRead_shuts hk
  callDerived {c x} hok := by
    obtain ⟨hopens, hshuts⟩ := callDerived_shuts hk x c.state
    by_cases hx : k.Opens x
    · -- a session that is not closed is opened
      have hc : c.state.closed = false := by
        by_contra hc
        exact hok ⟨by simpa using hc, hx⟩
      refine Or.inl ⟨(hopens hx).1, fun h => ?_⟩
      rw [hc] at h
      cases h
    · exact hshuts hx
  eventDerived {e} := by
    cases k with
    | serial | can | webSocket => exact e.elim
    | webSocketServer => exact absurd rfl hk
  resumeDerived f := by
    cases k with
    | serial | can | webSocket => exact f.elim
    | webSocketServer => exact absurd rfl hk

/-- **An open transport accepts work**, unless a closed session was opened again;
    and from then on it does not. -/
theorem open_accepts_work (hk : k ≠ .webSocketServer)
    (h : k.ReachableBy (fun c l => ¬ k.Reopens c l) c) :
    k.AcceptsWork c.state ∧
      ∀ l c', k.cls.program.step c l = some c' → (k.AcceptsWork c'.state ↔ ¬ k.Reopens c l) := by
  have hS := shuts hk
  have hc : c.state.closed = true → k.isOpen c.state.derived = false := by
    obtain ⟨s, hs, hr⟩ := h
    refine hr.inv (I := fun d => d.state.closed = true → k.isOpen d.state.derived = false) ?_
      fun c₁ l c₂ h₁ hl hs => (SessionClass.step_respects hS hl hs).closed h₁
    obtain ⟨d, rfl⟩ := hs.fresh
    exact nofun
  refine ⟨(acceptsWork_iff _).2 hc, fun l c' hs => ?_⟩
  rw [acceptsWork_iff]
  constructor
  · intro hc' hre
    cases l with
    | call x =>
      cases x with
      | derived x =>
        obtain ⟨hclosed, hx⟩ := hre
        obtain ⟨hcl, hop⟩ := (callDerived_shuts hk x c.state).1 hx
        rw [Strand.Program.step_call] at hs
        obtain rfl := Option.some.inj hs
        have := (hc' (hcl.trans hclosed)).symm.trans hop
        cases this
      | _ => exact hre
    | event | ret => exact hre
  · intro hl
    exact (SessionClass.step_respects hS hl hs).closed hc

/-- The user opens a session that is open, which is refused, closes it and opens it
    in vain: no socket can be opened for the server's address.  One more open with a
    server that answers would leave the socket open. -/
theorem open_accepts_work_created : ∃ c c' c'' : Kind.webSocket.Config,
    (isOpen .webSocket c.state.derived = true ∧ Kind.webSocket.AcceptsWork c.state) ∧
    (c'.state.closed = true ∧ Kind.webSocket.AcceptsWork c'.state) ∧
    Kind.webSocket.cls.program.step c' (.call (.derived (.open {} {}))) = some c'' ∧
      ¬ Kind.webSocket.AcceptsWork c''.state := by
  have hbusy : Kind.webSocket.ReachableBy (fun c l => ¬ Kind.webSocket.Reopens c l) _ :=
    ⟨_, ⟨{}, {}, rfl⟩,
      .step (l := .call (.derived (.open {} {}))) .refl (fun h => by cases h.1) rfl⟩
  have hfailed : Kind.webSocket.ReachableBy (fun c l => ¬ Kind.webSocket.Reopens c l) _ :=
    hbusy.trans (.step (l := .call (.derived (.open { connect := .failed (.system 22) false } {})))
      (.step (l := .call .close) .refl id rfl) (fun h => by cases h.2.2.1) rfl)
  have hwork := open_accepts_work (by decide) hbusy
  have hwork' := open_accepts_work (by decide) hfailed
  refine ⟨_, _, _, ⟨rfl, hwork.1⟩, ⟨rfl, hwork'.1⟩, rfl, fun h => ?_⟩
  exact (hwork'.2 (.call (.derived (.open {} {}))) _ rfl).1 h
    ⟨rfl, rfl, rfl, Or.inr ⟨fun _ => rfl, rfl⟩⟩

/-- A CAN session is closed and opened again. -/
theorem open_ignores_work : ¬ ∀ (k : Kind) (c : k.Config), k ≠ .webSocketServer →
    k.Reachable c → c.stack = [] → k.AcceptsWork c.state := by
  intro h
  obtain ⟨c, hc, hp⟩ := Kind.exec_reachable (k := .can)
    (CanSession.create ⟨.ok 3, fun _ => none, .ok 1, none, none⟩ {})
    [.call .close, .call (.derived (.open ⟨.ok 4, fun _ => none, .ok 1, none, none⟩ {}))]
    (fun c => c.stack.isEmpty && Kind.can.isOpen c.state.derived && c.state.closed)
    (fun _ ht => ⟨_, _, ht⟩) (by decide +kernel)
  simp only [Bool.and_eq_true, List.isEmpty_iff] at hp
  obtain ⟨⟨hst, ho⟩, hcl⟩ := hp
  have := (h .can c (by decide) hc hst ho).1
  rw [hcl] at this
  cases this

end Kind

end TransitSession
