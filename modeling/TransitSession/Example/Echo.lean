/-
  The echo server (example/websocket_server.cpp, example/websocket_benchmark.cpp).

  `attach_echo_behavior` gives a session a read handler that sends back what it is
  given, and closes the session on an error.  A session with this handler has been given
  to send what the handler was told (`Echoing`); so a peer gets back the beginning of what
  it sent, in order, and all of it once everything has come to rest (`echo_returns`).
-/
import TransitSession.Applications

namespace TransitSession

variable {D R C E F U : Type}

/-! ## Applications that echo -/

/-- The read handler answers a value with that value, and sends nothing else. -/
structure Echoes (B : Strand.UserCode (Session D R R) (Call R C) (Frame F) U) : Prop where
  readsOnly : ReadsOnly B
  value : ∀ g s u v, s.told.getLast? = some (none, v) →
    (B.body (.readValue g) s u).1.filterMap Call.message? = [v]
  error : ∀ g s u, (B.body (.readError g) s u).1.filterMap Call.message? = []

/-- The session has been given to send what its read handler was told. -/
def Echoing (c : Strand.UserCode.Config (Session D R R) (Call R C) (Frame F) U) : Prop :=
  Sends c.state.delivered c.state c.stack

/-- **Every step keeps the echo**, if nothing is sent from outside. -/
theorem Echoing.step [Inhabited R] {K : SessionClass D R R C E F} (hK : K.Lawful)
    {B : Strand.UserCode (Session D R R) (Call R C) (Frame F) U} (hB : Echoes B)
    {c c' : Strand.UserCode.Config (Session D R R) (Call R C) (Frame F) U}
    {l : Strand.UserCode.Label (Call R C) (Completion E)} (h : Echoing c)
    (hl : ∀ x, l = .call x → x.message? = none) (hs : B.step K.program c l = some c') :
    Echoing c' := by
  rcases Sends.exchange hB.readsOnly hl (step_exchange hK hs) h with
    ⟨hsends, htold, -⟩ | ⟨g, s, ec, value, hsends, htold, rfl⟩
  · unfold Echoing
    rw [Session.delivered_of_told htold]
    exact hsends
  · have hdelivered : (s.emit (.notified ec value)).delivered =
        c.state.delivered ++ if ec.isNone then [value] else [] := by
      rw [← Session.delivered_of_told htold, Session.delivered_emit]
    unfold Echoing
    rw [Strand.UserCode.enter_some, hdelivered]
    refine hsends.told ?_
    cases ec with
    | none => exact hB.value g _ c.own value (by simp)
    | some e => exact hB.error g _ c.own

/-! ## The echo server -/

namespace Echo

abbrev Config := App.Config .webSocketServer Unit

/-- The handler that `attach_echo_behavior` installs, which sends the data that it is
    given, and closes the session if it is given an error.  The other handlers of the
    session do not call it. -/
def body : Frame WebSocket.ServerFrame → WebSocketServerSession → Unit →
    List (Call (List UInt8) WebSocketServerSession.DerivedCall) × Unit
  | .readError _, _, _ => ([.close], ())
  | .readValue _, s, _ => ([.send ((s.told.getLast?.map Prod.snd).getD [])], ())
  | .derived _, _, _ => ([], ())

def application : App .webSocketServer Unit := ⟨body⟩

/-- `attach_echo_behavior`: the closures that it dispatches. -/
def attachEchoBehavior : List (App.Label .webSocketServer) :=
  [.call (.setReadHandler (some 0)), .call .startReading]

/-- The calls of others: the server attaches the handler before it starts reading, and
    nobody else sends. -/
def Outside (c : Config) (x : Call (List UInt8) WebSocketServerSession.DerivedCall) : Prop :=
  Kind.webSocketServer.Attaching c.program (.call x) ∧ x.message? = none

theorem echoes : Echoes (D := WebSocket.State WebSocket.ServerMembers) application where
  readsOnly _ _ _ := rfl
  value g s u v h := by simp [application, body, h, Call.message?]
  error _ _ _ := rfl

theorem body_replies (f : Frame WebSocket.ServerFrame) (s : WebSocketServerSession) (u : Unit) :
    ∀ x ∈ (body f s u).1, x.isReply := by
  intro x hx
  cases f with
  | readError | readValue =>
    rw [List.mem_singleton.1 hx]
    trivial
  | derived => cases hx

/-- `attach_echo_behavior` may be called on any session. -/
theorem attach_runs (s : WebSocketServerSession) : ∃ c,
    Transition.exec (application.step WebSocketServerSession.cls.program) ⟨s, [], ()⟩
      attachEchoBehavior = some c ∧
    application.Run WebSocketServerSession.cls.program (App.Outside Outside) ⟨s, [], ()⟩ c :=
  ⟨_, rfl, .step (l := .call .startReading)
    (.step (l := .call (.setReadHandler (some 0))) .refl ⟨nofun, rfl⟩ rfl) ⟨nofun, rfl⟩ rfl⟩

variable {c : Config}

theorem receiving (h : application.ReachableBy () Outside c) :
    Kind.webSocketServer.ReachableBy Kind.webSocketServer.Receiving c.program :=
  h.receiving body_replies fun _ _ hx => hx.1

/-- **A session of the echo server has been given to send what it was told.** -/
theorem echoing (h : application.ReachableBy () Outside c) : Echoing c := by
  obtain ⟨s, hs, hr⟩ := h
  refine hr.inv (I := Echoing) ?_ fun c₁ l c₂ h₁ hl hstep => ?_
  · obtain ⟨d, rfl⟩ := hs.fresh
    exact ⟨List.prefix_rfl, fun _ => rfl⟩
  · refine Echoing.step Kind.webSocketServer.lawful echoes h₁ (fun x hx => ?_) hstep
    subst hx
    exact hl.2

/-! ## Its clients -/

/-- What a client that sent `c₁.state.messages` is told: the beginning of them, and all of
    them once both sides rest and nothing is in flight. -/
structure Returned (c₁ : Kind.webSocket.Config) (c₂ : Config)
    (toRight toLeft : List (List UInt8)) : Prop where
  initial : c₁.state.delivered <+: c₁.state.messages
  complete : Kind.Rests c₁ → Kind.Rests (k := .webSocketServer) c₂.program → toRight = [] →
    toLeft = [] → c₁.state.delivered = c₁.state.messages

theorem returned {c₁ : Kind.webSocket.Config} {toRight toLeft : List (List UInt8)}
    (h₁ : Kind.webSocket.ReachableBy Kind.webSocket.Receiving c₁)
    (h₂ : application.ReachableBy () Outside c)
    (hr : c₁.state.written = c.state.received ++ toRight)
    (hl : c.state.written = c₁.state.received ++ toLeft) : Returned c₁ c toRight toLeft := by
  have hecho := echoing h₂
  have there : Kind.Told (k := .webSocket) (j := .webSocketServer) id c₁ c.program toRight :=
    Kind.told h₁.onStrand (receiving h₂) hr fun _ _ _ he => he.symm
  have back : Kind.Told (k := .webSocketServer) (j := .webSocket) id c.program c₁ toLeft :=
    Kind.told (receiving h₂).onStrand h₁ hl fun _ _ _ he => he.symm
  have hthere := there.initial
  have hback := back.initial
  rw [List.map_id] at hthere hback
  refine ⟨(hback.trans hecho.initial).trans hthere, fun hrest₁ hrest₂ hnil hnil' => ?_⟩
  have hstack : c.stack = [] := List.map_eq_nil_iff.1 hrest₂.idle
  have howes : c.state.messages ++ owed c.stack = c.state.delivered := hecho.owes hrest₂.isOpen
  have hgot := there.complete hrest₁ hnil
  have htold := back.complete hrest₂ hnil'
  rw [List.map_id] at hgot htold
  rw [hstack] at howes
  calc c₁.state.delivered
      = c.state.messages := htold
    _ = c.state.messages ++ owed ([] : List (Frame WebSocket.ServerFrame ×
          List (Call (List UInt8) WebSocketServerSession.DerivedCall))) :=
        (List.append_nil _).symm
    _ = c.state.delivered := howes
    _ = c₁.state.messages := hgot

/-- The steps of a client, which has a read handler whenever a read completes and is not
    opened again, and a session of the echo server. -/
def Steps (n : Link.Net Kind.webSocket.Config Config (List UInt8)) :
    Kind.webSocket.Label ⊕ App.Label .webSocketServer → Prop
  | .inl l => Kind.webSocket.Receiving n.left l
  | .inr l => App.Outside Outside n.right l

/-- The states of the runs of a client and a session of the echo server. -/
def Connected (n : Link.Net Kind.webSocket.Config Config (List UInt8)) : Prop :=
  ∃ s₁ s₂, Kind.webSocket.Created s₁ ∧ Kind.webSocketServer.Created s₂ ∧
    Transition.Run (Link.step Kind.webSocket.party application.party) Steps
      (.start ⟨s₁, []⟩ ⟨s₂, [], ()⟩) n

end Echo

end TransitSession
