/-
  Two sessions and what goes between them.

  The transports of the sessions are joined by a reliable channel in each direction
  (Lib/Link): messages for WebSocket connections, frames for a CAN bus with two nodes,
  bytes for a serial line.  What one side has been told is then the beginning of what
  the other side has sent, and all of it once both have come to rest: the queue, the
  single outstanding write, the codec, the read buffer and the notification lose,
  duplicate and reorder nothing between them.  A value that is read while no read handler
  is set is lost, so both sides have one whenever a read completes; and neither is opened
  again or configured (`BothReceiving`).
-/
import TransitSession.Can.RoundTrip
import TransitSession.Lib.Link
import TransitSession.Serial.HalfDuplex
import TransitSession.Writing

namespace TransitSession

variable {D R W C E F : Type}

namespace SessionClass
variable [Inhabited R] {K : SessionClass D R W C E F} (hK : K.Lawful)

/-- A session between two channels of messages. -/
def party : Link.Party (Strand.Config (Session D R W) (Frame F))
    (Strand.Label (Call W C) (Completion E)) (List UInt8) where
  next := K.program.step
  takes := takes
  taken c := c.state.received
  sent c := c.state.written
  taken_next := step_received hK
  sent_next := step_written hK

/-- A session between two channels of bytes: a read takes any number of them. -/
def stream : Link.Party (Strand.Config (Session D R W) (Frame F))
    (Strand.Label (Call W C) (Completion E)) UInt8 where
  next := K.program.step
  takes l := (takes l).flatten
  taken c := c.state.received.flatten
  sent c := c.state.written.flatten
  taken_next hs := by rw [step_received hK hs, List.flatten_append]
  sent_next hs := by
    obtain ⟨ws, hw⟩ := step_written hK hs
    exact ⟨ws.flatten, by rw [← hw, List.flatten_append]⟩

end SessionClass

namespace Kind
variable {k j : Kind}

abbrev party (k : Kind) : Link.Party k.Config k.Label (List UInt8) := k.cls.party k.lawful

abbrev stream (k : Kind) : Link.Party k.Config k.Label UInt8 := k.cls.stream k.lawful

/-- The steps of two sessions that are used on their strands, and have a read handler
    whenever a read completes. -/
def BothReceiving {M : Type} (n : Link.Net k.Config j.Config M) : k.Label ⊕ j.Label → Prop
  | .inl l => k.Receiving n.left l
  | .inr l => j.Receiving n.right l

/-- The states of the runs of two sessions that were just created, joined by channels
    of messages, with steps that `BothReceiving` allows. -/
def Linked (n : Link.Net k.Config j.Config (List UInt8)) : Prop :=
  ∃ s₁ s₂, k.Created s₁ ∧ j.Created s₂ ∧
    Transition.Run (Link.step k.party j.party) BothReceiving (.start ⟨s₁, []⟩ ⟨s₂, []⟩) n

/-- The same with channels of bytes. -/
def Wired (n : Link.Net k.Config j.Config UInt8) : Prop :=
  ∃ s₁ s₂, k.Created s₁ ∧ j.Created s₂ ∧
    Transition.Run (Link.step k.stream j.stream) BothReceiving (.start ⟨s₁, []⟩ ⟨s₂, []⟩) n

/-! ## A sender -/

section
variable {c : k.Config}

/-- The mode in which a port does not write while it reads. -/
def halfDuplex : (k : Kind) → k.Members → Bool
  | .serial, d => d.duplexMode = .halfDuplex
  | _, _ => false

/-- Nothing runs on the strand of an open session, which writes nothing; and no read
    keeps it from writing what it has queued. -/
structure Rests (c : k.Config) : Prop where
  idle : c.stack = []
  isOpen : c.state.closed = false
  notWriting : c.state.writeInProgress = false
  notBlocked : c.state.writeQueue ≠ [] →
    k.halfDuplex c.state.derived = true → c.state.readInProgress = false

theorem Receiving.onStrand {l : k.Label} (h : k.Receiving c l) : k.OnStrand l := by
  cases k with
  | serial =>
    cases l with
    | call x =>
      cases x with
      | derived x =>
        cases x with
        | «open» | applyConfig => exact h
        | _ => trivial
      | _ => trivial
    | _ => trivial
  | _ => trivial

theorem ReachableBy.onStrand (h : k.ReachableBy k.Receiving c) :
    k.ReachableBy (fun _ l => k.OnStrand l) c := by
  obtain ⟨s, hs, hrun⟩ := h
  exact ⟨s, hs, hrun.mono fun _ _ hl => Receiving.onStrand hl⟩

/-- An open session, with the members of a reachable one, that may write what it has
    queued. -/
theorem canStartWrite_of_queue (h : k.Reachable c) {t : Session k.Members k.Value k.Value}
    (hd : t.derived = c.state.derived) (ho : t.closed = false) (hw : t.writeInProgress = false)
    (hb : k.halfDuplex t.derived = true → t.readInProgress = false) (hq : t.writeQueue ≠ []) :
    k.cls.canStartWrite t = true := by
  cases k with
  | serial =>
    refine SerialSession.canStartWrite_eq_true.2 ⟨hw, hq, ho, fun hm => ⟨?_, ?_⟩⟩
    · exact hb (by simpa [halfDuplex] using hm)
    · rw [hd]
      exact (SerialSession.never_paused h).pause
  | can => exact CanSession.canStartWrite_eq_true.2 ⟨hw, hq, ho⟩
  | webSocket | webSocketServer =>
    exact WebSocket.StreamSession.canStartWrite_eq_true.2 ⟨hw, hq, ho⟩

/-- **A session at rest has written everything.** -/
theorem Rests.all_started (h : k.ReachableBy (fun _ l => k.OnStrand l) c) (hr : Rests c) :
    c.state.startedWrites = c.state.pushed := by
  obtain ⟨s, hs, hrun⟩ := id h
  have hquiet := SessionClass.idle_quiet k.lawful k.keepsQuiet hs.fresh hrun hr.idle
  have hqueue : c.state.writeQueue = [] := by
    by_contra hq
    have := canStartWrite_of_queue h.reachable rfl hr.isOpen hr.notWriting
      (hr.notBlocked hq) hq
    rw [hquiet.1] at this
    cases this
  obtain ⟨b, hb⟩ := h.kept.refines
  have hwaiting := hb.waiting_entries hr.isOpen
  rw [hqueue] at hwaiting
  have hle := List.drop_eq_nil_iff.1 hwaiting.symm
  rw [hb.started_entries]
  exact List.take_of_length_le (hle.trans b.finished_le)

end

/-! ## What arrives -/

section
variable {ok : k.Config → k.Label → Prop} {c₁ : k.Config} {c₂ : j.Config}

/-- The messages that the session has handed over. -/
abbrev sent (c : k.Config) : List k.Value := c.state.startedWrites.map Queued.message

/-- The data that the sender hands over are the payloads of its messages. -/
theorem written_payloads (h₁ : k.ReachableBy ok c₁) {g : k.Value → j.Value}
    (hg : ∀ enableCanFd m bytes, k.encode enableCanFd m = some bytes →
      j.payload bytes = some (g m)) :
    c₁.state.written.filterMap j.payload = (sent c₁).map g := by
  obtain ⟨fd, henc⟩ := run_encoded h₁
  have hop : ∀ op ∈ c₁.state.writeOps,
      (j.payload ∘ WriteOp.bytes) op = some (g op.element.message) :=
    fun op hop => hg fd _ _ (henc op hop)
  rw [Session.written, List.filterMap_map, List.filterMap_congr hop, sent,
    ← Session.map_writeOps, List.map_map, List.map_map]
  exact congrFun List.filterMap_eq_map _

/-- The values delivered are the payloads of what was received. -/
theorem delivered_payloads (h₂ : j.ReachableBy j.Receiving c₂) :
    c₂.state.delivered = c₂.state.received.filterMap j.payload := by
  obtain ⟨s, hs, hr⟩ := h₂
  exact SessionClass.run_delivers j.lawful j.receives hs.fresh hr fun _ _ _ _ h => h

/-- **What the receiver is told is the beginning of what the sender sent**, and all of
    what it handed over if nothing is in flight. -/
theorem arrives (h₁ : k.ReachableBy ok c₁) (h₂ : j.ReachableBy j.Receiving c₂)
    {inFlight : List (List UInt8)} (hc : c₁.state.written = c₂.state.received ++ inFlight)
    {g : k.Value → j.Value} (hg : ∀ enableCanFd m bytes,
      k.encode enableCanFd m = some bytes → j.payload bytes = some (g m)) :
    (sent c₁).map g = c₂.state.delivered ++ inFlight.filterMap j.payload := by
  rw [delivered_payloads h₂, ← List.filterMap_append, ← hc, written_payloads h₁ hg]

/-- What the receiver has been told, as values of `g`: the beginning of what was sent,
    and all of it once the sender rests and nothing is in flight. -/
structure Told (g : k.Value → j.Value) (c₁ : k.Config) (c₂ : j.Config)
    (inFlight : List (List UInt8)) : Prop where
  initial : c₂.state.delivered <+: (c₁.state.pushed.map Queued.message).map g
  complete : Rests c₁ → inFlight = [] →
    c₂.state.delivered = (c₁.state.pushed.map Queued.message).map g

theorem told (h₁ : k.ReachableBy (fun _ l => k.OnStrand l) c₁) (h₂ : j.ReachableBy j.Receiving c₂)
    {inFlight : List (List UInt8)} (hc : c₁.state.written = c₂.state.received ++ inFlight)
    {g : k.Value → j.Value} (hg : ∀ enableCanFd m bytes,
      k.encode enableCanFd m = some bytes → j.payload bytes = some (g m)) :
    Told g c₁ c₂ inFlight := by
  have harrives := arrives h₁ h₂ hc hg
  constructor
  · have hsent : sent c₁ <+: c₁.state.pushed.map Queued.message :=
      h₁.kept.fifo.starts_prefix.map _
    refine List.IsPrefix.trans ?_ (hsent.map g)
    rw [harrives]
    exact List.prefix_append _ _
  · intro hr hnil
    rw [hnil, List.filterMap_nil, List.append_nil, sent, hr.all_started h₁] at harrives
    exact harrives.symm

end

/-! ## Two sessions -/

section
variable {n : Link.Net k.Config j.Config (List UInt8)}

/-- Both are sessions on their own, and between them nothing is lost. -/
theorem Linked.parts (h : Linked n) :
    k.ReachableBy k.Receiving n.left ∧ j.ReachableBy j.Receiving n.right ∧
      Link.Conserved k.party j.party n := by
  obtain ⟨s₁, s₂, hs₁, hs₂, hr⟩ := h
  refine ⟨⟨s₁, hs₁, Link.run_left (fun _ _ hl => hl) hr⟩,
    ⟨s₂, hs₂, Link.run_right (fun _ _ hl => hl) hr⟩, Link.conserved hr ?_⟩
  obtain ⟨d₁, rfl⟩ := hs₁.fresh
  obtain ⟨d₂, rfl⟩ := hs₂.fresh
  exact ⟨rfl, rfl⟩

theorem Wired.parts {n : Link.Net k.Config j.Config UInt8} (h : Wired n) :
    k.ReachableBy k.Receiving n.left ∧ j.ReachableBy j.Receiving n.right ∧
      Link.Conserved k.stream j.stream n := by
  obtain ⟨s₁, s₂, hs₁, hs₂, hr⟩ := h
  refine ⟨⟨s₁, hs₁, Link.run_left (fun _ _ hl => hl) hr⟩,
    ⟨s₂, hs₂, Link.run_right (fun _ _ hl => hl) hr⟩, Link.conserved hr ?_⟩
  obtain ⟨d₁, rfl⟩ := hs₁.fresh
  obtain ⟨d₂, rfl⟩ := hs₂.fresh
  exact ⟨rfl, rfl⟩

end

/-- The bytes of an encoded frame fit the read buffer, and are decoded to what `received`
    says. -/
theorem decode_encodeFrame {enableCanFd : Bool} {f : Can.CanFrame} {bytes : List UInt8}
    (h : Can.encodeFrame enableCanFd f = some bytes) : bytes.length ≤ 72 ∧
      ∀ buf, Can.Carries buf bytes → Can.decodeFrame bytes.length buf = .ok (Can.received f) := by
  have hfits : Can.Fits enableCanFd f := by
    by_contra hn
    rw [Can.encodeFrame_eq, if_neg hn] at h
    cases h
  obtain ⟨bytes', hb, hl, hdec⟩ := Can.encodeFrame_crosses hfits
  obtain rfl : bytes' = bytes := Option.some.inj (hb.symm.trans h)
  exact ⟨hl ▸ Can.wireSize_le f, hdec⟩

theorem payload_encodeFrame {enableCanFd : Bool} {f : Can.CanFrame} {bytes : List UInt8}
    (h : Can.encodeFrame enableCanFd f = some bytes) :
    Can.payload bytes = some (Can.received f) := by
  obtain ⟨hlen, hdec⟩ := decode_encodeFrame h
  rw [Can.payload, hdec _ ?_]
  · rfl
  · unfold Can.Carries
    refine List.ext_getElem (by simp [Nat.min_eq_left hlen]) fun i hi hi' => ?_
    simp [hi']

/-- A serial session writes the bytes it was given. -/
theorem written_sent {c : Kind.serial.Config} {ok : Kind.serial.Config → Kind.serial.Label → Prop}
    (h : Kind.serial.ReachableBy ok c) : c.state.written = sent c := by
  have hwritten := written_payloads (j := .serial) (g := id) h fun _ _ _ he => he.symm
  rwa [show Kind.serial.payload = some from rfl, List.filterMap_some, List.map_id] at hwritten

/-- It tells the bytes it reads. -/
theorem delivered_received {c : Kind.serial.Config}
    (h : Kind.serial.ReachableBy Kind.serial.Receiving c) :
    c.state.delivered = c.state.received := by
  have hdelivered := delivered_payloads h
  rwa [show Kind.serial.payload = some from rfl, List.filterMap_some] at hdelivered

/-- What the receiver has been told of a stream of bytes. -/
structure ToldBytes (c₁ c₂ : Kind.serial.Config) (inFlight : List UInt8) : Prop where
  initial : c₂.state.delivered.flatten <+: (c₁.state.pushed.map Queued.message).flatten
  complete : Rests c₁ → inFlight = [] →
    c₂.state.delivered.flatten = (c₁.state.pushed.map Queued.message).flatten

theorem toldBytes {c₁ c₂ : Kind.serial.Config}
    (h₁ : Kind.serial.ReachableBy (fun _ l => Kind.serial.OnStrand l) c₁)
    (h₂ : Kind.serial.ReachableBy Kind.serial.Receiving c₂) {inFlight : List UInt8}
    (hc : c₁.state.written.flatten = c₂.state.received.flatten ++ inFlight) :
    ToldBytes c₁ c₂ inFlight := by
  rw [written_sent h₁, ← delivered_received h₂] at hc
  constructor
  · have htold : c₂.state.delivered.flatten <+: (sent c₁).flatten := by
      rw [hc]
      exact List.prefix_append _ _
    have hstarts : c₁.state.startedWrites <+: c₁.state.pushed := h₁.kept.fifo.starts_prefix
    exact htold.trans (hstarts.map Queued.message).flatten
  · intro hr hnil
    rw [hnil, List.append_nil, sent, hr.all_started h₁] at hc
    exact hc.symm

end Kind

end TransitSession
