/-
  Read delivery of the concrete session classes.

  What makes a buffer fit the outstanding read differs: a serial buffer must not
  shrink under it, a WebSocket buffer must be empty when it starts, and a CAN
  frame is decoded from the bytes of its own read only.
-/
import TransitSession.Core.Delivery
import TransitSession.Sessions

namespace TransitSession

/-! ## Serial -/

namespace SerialSession
open Serial

/-- The buffer has the room that the read was given. -/
def Fit (op : ReadOp) (d : State) : Prop := op.size ≤ d.readBuffer.length

theorem take_filled {data buf : List UInt8} (h : data.length ≤ buf.length) :
    ((data ++ buf.drop data.length).take buf.length).take data.length = data := by
  rw [List.take_take, Nat.min_eq_left h, List.take_left]

/-- `set_read_buffer_size` leaves the buffer of an outstanding read alone. -/
theorem setReadBufferSize_fits {n : ℕ} {s : SerialSession} (hk : Kept s) (h : Fits Fit s) :
    Fits Fit (setReadBufferSize n s) := by
  unfold setReadBufferSize
  split_ifs with hn
  · exact h
  · have hr : s.readInProgress = false := by
      by_contra hr
      exact hn (by simp [hr])
    intro op hop
    rw [show ({ s with derived := s.derived.resize n } : SerialSession).reads = [] from
      hk.mirrored.reads_nil.2 hr] at hop
    cases hop

theorem doWrite_fit {s : SerialSession} {op : ReadOp} (h : Fit op s.derived) :
    Fit op (doWrite s).derived := by
  unfold doWrite
  split
  · exact h
  · split_ifs <;> exact h

theorem onRead_payload {op : ReadOp} {data : List UInt8} {d : State} {s : SerialSession}
    (hf : Fit op d) (hfill : fill op data d = some s.derived) :
    onRead none data.length s = hooks.deliverRead data s.markReadFinished := by
  simp only [fill, Option.ite_none_right_eq_some, Option.some.injEq] at hfill
  obtain ⟨hlen, hd⟩ := hfill
  have hbuf : s.derived.readBuffer.take data.length = data := by
    rw [← hd]
    exact take_filled (hlen.trans hf)
  simp [onRead, Session.markReadFinished, hbuf]

end SerialSession

/-! ## WebSocket -/

namespace WebSocket.StreamSession
variable {M F : Type}

/-- The buffer was empty when the read started, and nothing else fills it. -/
def Fit (_ : ReadOp) (d : State M) : Prop := d.readBuffer = []

theorem doRead_fit (s : StreamSession M) : ∃ d op, Fit op d ∧
    doRead s = Session.asyncRead (Session.markReadStarted { s with derived := d }) op :=
  ⟨{ s.derived with readBuffer := s.derived.readBuffer.drop s.derived.readBuffer.length },
    ⟨0, 0, false⟩, List.drop_length, rfl⟩

theorem doWrite_fit {s : StreamSession M} (op : ReadOp) (h : Fit op s.derived) :
    Fit op (doWrite s).derived := by
  unfold doWrite
  split <;> exact h

theorem onRead_payload {hooks : Hooks (State M) (List UInt8) (List UInt8) F} (op : ReadOp)
    {data : List UInt8} {d : State M} {s : StreamSession M} (hf : Fit op d)
    (hfill : fill op data d = some s.derived) :
    ∃ d', onRead hooks none data.length s =
      hooks.deliverRead data { s.markReadFinished with derived := d' } := by
  have hbuf : s.derived.readBuffer = data := by
    rw [← Option.some.inj hfill, show d.readBuffer = [] from hf, List.nil_append]
  have hcopy : copyMessage data.length s.markReadFinished = data := by
    simp [copyMessage, Session.markReadFinished, hbuf]
  refine ⟨{ s.derived with readBuffer := s.derived.readBuffer.drop data.length }, ?_⟩
  show hooks.deliverRead (copyMessage data.length s.markReadFinished) _ = _
  rw [hcopy]
  rfl

end WebSocket.StreamSession

namespace WebSocketServerSession
open WebSocket

theorem closeTransportCalls_buffer (s : WebSocketServerSession) :
    (closeTransportCalls s).1.derived.readBuffer = s.derived.readBuffer := by
  unfold closeTransportCalls
  split_ifs <;> rfl

theorem failStart_buffer (handler : Option Callback) (e : Errc) (s : WebSocketServerSession) :
    (failStart handler e s).1.derived.readBuffer = s.derived.readBuffer := by
  have h := closeTransportCalls_buffer s
  unfold failStart
  rcases hr : closeTransportCalls s with ⟨s', _ | g⟩ <;> rw [hr] at h <;> exact h

theorem start_buffer (handler : Option Callback) (noDelayEc : ErrorCode)
    (s : WebSocketServerSession) :
    (start handler noDelayEc s).1.derived.readBuffer = s.derived.readBuffer := by
  unfold start
  dsimp only
  split
  · exact failStart_buffer handler _ s
  · split_ifs <;> rfl

theorem callDerived_buffer (x : DerivedCall) (s : WebSocketServerSession) :
    (callDerived x s).1.derived.readBuffer = s.derived.readBuffer := by
  cases x with
  | start handler noDelayEc => exact start_buffer handler noDelayEc s
  | setCloseHandler => rfl

theorem callDerived_fits (x : DerivedCall) {s : WebSocketServerSession}
    (h : Fits StreamSession.Fit s) : Fits StreamSession.Fit (callDerived x s).1 := by
  have hreads : (callDerived x s).1.reads = s.reads := by
    cases x with
    | start handler noDelayEc =>
      obtain ⟨⟨d, hd⟩, -⟩ := start_members handler noDelayEc s
      show (start handler noDelayEc s).1.reads = s.reads
      rw [hd]
    | setCloseHandler => rfl
  intro op hop
  rw [hreads] at hop
  exact (callDerived_buffer x s).trans (h op hop)

theorem eventDerived_buffer {e : Handshake} {s : WebSocketServerSession}
    {r : WebSocketServerSession × Option (Frame ServerFrame)} (h : eventDerived e s = some r) :
    r.1.derived.readBuffer = s.derived.readBuffer := by
  unfold eventDerived at h
  split at h
  · cases h
  · obtain rfl := Option.some.inj h
    cases e.ec with
    | some ec => exact failStart_buffer _ ec _
    | none => rfl

theorem resumeDerived_buffer (f : ServerFrame) (s : WebSocketServerSession) :
    (resumeDerived f s).1.derived.readBuffer = s.derived.readBuffer := by
  cases f <;> rfl

end WebSocketServerSession

/-! ## CAN -/

namespace Can

/-- The frame that is decoded from the bytes of one read. -/
def payload (data : List UInt8) : Option CanFrame :=
  (decodeFrame data.length (Vector.ofFn fun i => data[i.val]?.getD 0)).toOption

/-- Only the bytes of the read are decoded. -/
theorem decodeFrame_congr {n : ℕ} {buf buf' : Vector UInt8 72}
    (h : ∀ i, (hi : i < 72) → i < n → buf[i] = buf'[i]) :
    decodeFrame n buf = decodeFrame n buf' := by
  unfold decodeFrame
  split_ifs with h₁ h₂
  · have hb : ∀ i, (hi : i < 16) → buf[i] = buf'[i] := by
      intro i hi
      exact h i (by omega) (by rw [h₁]; exact hi)
    have : RawFrame.ofBuffer buf = RawFrame.ofBuffer buf' := by
      simp only [RawFrame.ofBuffer, idOfBuffer, hb 0 (by omega), hb 1 (by omega), hb 2 (by omega),
        hb 3 (by omega), hb 4 (by omega), RawFrame.mk.injEq, true_and]
      ext i hi
      simp [hb (8 + i) (by omega)]
    rw [this]
  · have : buf = buf' := by
      ext i hi
      rw [h i hi (by rw [h₂]; exact hi)]
    rw [this]
  · rfl

end Can

namespace CanSession
open Can

theorem onRead_payload {op : ReadOp} {data : List UInt8} {d : State} {s : CanSession}
    (hfill : fill op data d = some s.derived) :
    ∃ d', (∃ value, payload data = some value ∧
        onRead none data.length s =
          hooks.deliverRead value { s.markReadFinished with derived := d' }) ∨
      (∃ e, payload data = none ∧
        onRead none data.length s =
          hooks.failRead e { s.markReadFinished with derived := d' }) := by
  simp only [fill, Option.ite_none_right_eq_some, Option.some.injEq] at hfill
  obtain ⟨-, hd⟩ := hfill
  have hbuf : decodeFrame data.length s.derived.readBuffer =
      decodeFrame data.length (Vector.ofFn fun i => data[i.val]?.getD 0) := by
    refine decodeFrame_congr fun i hi hn => ?_
    simp [← hd, hn]
  have hpay : payload data = (decodeFrame data.length s.derived.readBuffer).toOption := by
    rw [payload, hbuf]
  cases hdec : decodeFrame data.length s.derived.readBuffer with
  | error e =>
    refine ⟨s.derived, Or.inr ⟨e, by rw [hpay, hdec]; rfl, ?_⟩⟩
    simp only [onRead, Session.markReadFinished, hdec]
  | ok frame =>
    refine ⟨{ s.derived with lastReadFrame := frame }, Or.inl ⟨frame, by rw [hpay, hdec]; rfl, ?_⟩⟩
    simp only [onRead, Session.markReadFinished, hdec]

end CanSession

/-! ## All classes -/

namespace Kind

/-- The value of a read that stored `data`. -/
def payload : (k : Kind) → List UInt8 → Option k.Value
  | .can => Can.payload
  | .serial | .webSocket | .webSocketServer => some

/-- The calls of a derived class that run on its strand: all but `open` and
    `apply_config`. -/
def Dispatched : (k : Kind) → k.DerivedCall → Prop
  | .serial, .setDuplexMode _ | .serial, .setReadBufferSize _ => True
  | .webSocketServer, _ => True
  | _, _ => False

/-- The steps of a session that is used on its strand, and has a read handler
    whenever a read completes. -/
def Receiving (k : Kind) (c : k.Config) : k.Label → Prop
  | .call (.derived x) => k.Dispatched x
  | .event (.read ..) => c.state.readHandler ≠ none
  | _ => True

/-- The members fit the outstanding read. -/
def Fit : (k : Kind) → ReadOp → k.Members → Prop
  | .serial => SerialSession.Fit
  | .can => fun _ _ => True
  | .webSocket => WebSocket.StreamSession.Fit
  | .webSocketServer => WebSocket.StreamSession.Fit

theorem receives : (k : Kind) → k.cls.Receives k.payload k.Fit k.Receiving
  | .serial =>
    { doRead_fit := fun {s} _ =>
        ⟨{ s.derived with readPauseForWrite := false }, _, Nat.le_refl _, rfl⟩
      doWrite_fit := fun _ h => SerialSession.doWrite_fit h
      closeTransport_fit := fun h => h
      callDerived_fits := fun {c x} hok hk h => by
        cases x with
        | «open» | applyConfig => cases hok
        | setDuplexMode mode =>
          exact Or.inr ⟨{ c.state.derived with duplexMode := mode }, fun _ h => h, rfl⟩
        | setReadBufferSize n => exact Or.inl (SerialSession.setReadBufferSize_fits hk h)
      eventDerived_fit := fun {e} => e.elim
      resumeDerived_fit := fun {f} => f.elim
      onRead_payload := fun {op data d s} hf hfill =>
        ⟨s.derived, Or.inl ⟨data, rfl, SerialSession.onRead_payload hf hfill⟩⟩ }
  | .can =>
    { doRead_fit := fun {s} _ => ⟨s.derived, _, trivial, rfl⟩
      doWrite_fit := fun _ _ => trivial
      closeTransport_fit := fun _ => trivial
      callDerived_fits := fun _ _ _ => Or.inl fun _ _ => trivial
      eventDerived_fit := fun {e} => e.elim
      resumeDerived_fit := fun {f} => f.elim
      onRead_payload := fun _ hfill => CanSession.onRead_payload hfill }
  | .webSocket =>
    { doRead_fit := fun {s} _ => WebSocket.StreamSession.doRead_fit s
      doWrite_fit := fun {_ op} _ h => WebSocket.StreamSession.doWrite_fit op h
      closeTransport_fit := fun h => h
      callDerived_fits := fun hok => hok.elim
      eventDerived_fit := fun {e} => e.elim
      resumeDerived_fit := fun {f} => f.elim
      onRead_payload := fun {op _ _ _} hf hfill => by
        obtain ⟨d', he⟩ := WebSocket.StreamSession.onRead_payload op hf hfill
        exact ⟨d', Or.inl ⟨_, rfl, he⟩⟩ }
  | .webSocketServer =>
    { doRead_fit := fun {s} _ => WebSocket.StreamSession.doRead_fit s
      doWrite_fit := fun {_ op} _ h => WebSocket.StreamSession.doWrite_fit op h
      closeTransport_fit := fun {s op} h =>
        (WebSocketServerSession.closeTransportCalls_buffer s).trans h
      callDerived_fits := fun {_ x} _ _ h => Or.inl (WebSocketServerSession.callDerived_fits x h)
      eventDerived_fit := fun he h => (WebSocketServerSession.eventDerived_buffer he).trans h
      resumeDerived_fit := fun {f s op} h =>
        (WebSocketServerSession.resumeDerived_buffer f s).trans h
      onRead_payload := fun {op _ _ _} hf hfill => by
        obtain ⟨d', he⟩ := WebSocket.StreamSession.onRead_payload op hf hfill
        exact ⟨d', Or.inl ⟨_, rfl, he⟩⟩ }

/-- **Read delivery is exact**: the read handler is given the payloads of the
    reads that completed, in order. -/
theorem reads_delivered {k : Kind} {c : k.Config} (h : k.ReachableBy k.Receiving c) :
    c.state.delivered = c.state.received.filterMap k.payload := by
  obtain ⟨s, hs, hr⟩ := h
  exact SessionClass.run_delivers k.lawful k.receives hs.fresh hr fun _ _ _ _ h => h

/-- Two messages; the read handler starts the second read itself. -/
theorem reads_delivered_webSocket : ∃ c : Kind.webSocket.Config,
    c.state.received = [[1, 2], [3]] ∧ c.state.delivered = c.state.received.filterMap some := by
  have hnew : Kind.webSocket.ReachableBy Kind.webSocket.Receiving _ :=
    Created.reachable ⟨{}, {}, rfl⟩
  have hreading := (hnew.step (.call (.setReadHandler (some 0))) trivial rfl).step
    (.call .startReading) trivial rfl
  have htold := hreading.step (.event (.read 0 none [1, 2])) nofun rfl
  have hagain := (htold.step (.call .startReading) trivial rfl).step .ret trivial rfl
  have hdone := hagain.step (.event (.read 0 none [3])) nofun rfl
  exact ⟨_, by decide +kernel, reads_delivered hdone⟩

end Kind

end TransitSession
