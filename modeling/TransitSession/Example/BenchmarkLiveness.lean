/-
  The benchmarks complete.

  A benchmark sends its next message when the last one has come back.  If again and again
  what was sent comes back, the replies are counted until all have come (`not_forever`):
  the WebSocket benchmark completes on the echo server, the CAN benchmark on a bus that
  loops its frames back, and the serial benchmark on a line that echoes its bytes.
  Fairness is asked for until then, as a benchmark closes its session in the end; and until
  then `run()` has something to do (`Program.works`).  When it has completed, the time was
  over, a read failed, or it was told all its replies.
-/
import TransitSession.Can.Filters
import TransitSession.Example.Liveness
import TransitSession.Example.Timeout

namespace TransitSession

/-! ## Benchmarks -/

namespace Benchmark

section
variable {D M C E F : Type} {P : Plan M}

/-- How the read handler completes a benchmark: a read failed, or all replies came. -/
def Outcome (replied : Prop) (u : Progress) : Prop :=
  (∃ ec, .readError ec ∈ u.complaints) ∨ u.failed = false ∧ replied

theorem Punctual.ends {u : Progress} (h : Punctual P u) (hc : u.completed = true) :
    Outcome (u.receivedCount = P.samples ∧ u.sentCount = P.samples) u := by
  cases hfail : u.failed with
  | true =>
    obtain ⟨x, hx⟩ := List.exists_mem_of_ne_nil _ (h.blamed hfail)
    obtain ⟨ec, rfl⟩ := h.complaints x hx
    exact Or.inl ⟨ec, hx⟩
  | false =>
    have hall : u.receivedCount = P.samples := (h.outcome hc).resolve_left (by simp [hfail])
    have hwindow := h.window
    exact Or.inr ⟨hfail, hall, by omega⟩

/-- **A benchmark does not go on for ever**, if again and again what it sent comes back. -/
theorem not_forever
    {tr : ℕ → Strand.UserCode.Config (Session D M M) (Call M C) (Frame F) Progress}
    (htimely : ∀ t, Timely P (tr t))
    (hcounts : ∀ t, (tr t).own.receivedCount = (tr t).state.delivered.length)
    (hgrows : ∀ t t', t ≤ t' → (tr t).state.delivered <+: (tr t').state.delivered)
    (hpauses : ∀ t, ∃ t' ≥ t, (tr t').stack = [] ∧ (tr t').state.closed = false)
    (hreturns : ∀ t, ∃ t' ≥ t,
      (tr t).state.messages.length ≤ (tr t').state.delivered.length) :
    ∃ t, (tr t).own.completed = true := by
  by_contra hnever
  have hon (t : ℕ) : (tr t).own.completed = false := by
    cases hc : (tr t).own.completed with
    | false => rfl
    | true => exact absurd ⟨t, hc⟩ hnever
  obtain ⟨t, -, hall⟩ : ∃ t ≥ 0, P.samples ≤ (tr t).own.receivedCount := by
    refine Transition.rises fun t _ hlt => ?_
    obtain ⟨t₁, ht₁, hst, hopen⟩ := hpauses t
    obtain ⟨t₂, ht₂, hback⟩ := hreturns t₁
    refine ⟨t₂, ht₁.trans ht₂, ?_⟩
    -- the message that follows the last reply was sent, and comes back
    have hsent : (tr t₁).state.messages.length = (tr t₁).own.sentCount := by
      have howes : (tr t₁).state.messages ++ owed (tr t₁).stack =
          P.messages (tr t₁).own.sentCount := (htimely t₁).sends.owes hopen
      rw [hst] at howes
      have hlen := congrArg List.length howes
      rw [List.length_append] at hlen
      simpa [owed, Plan.messages] using hlen
    have hwindow := (htimely t₁).punctual.window
    have hle := (hgrows t t₁ ht₁).length_le
    have hcount := hcounts t
    have hcount₁ := hcounts t₁
    have hcount₂ := hcounts t₂
    have hlt₁ := (htimely t₁).punctual.goesOn (hon t₁)
    omega
  exact absurd ((htimely t).punctual.goesOn (hon t)) (Nat.not_lt.2 hall)

end

section
variable {k : Kind} {P : Plan k.Value} {g : k.Value → k.Value}

theorem Timely.outcome {c : Config k} (h : Timely P c) (hc : c.own.completed = true)
    (hreply : c.state.delivered <+: c.state.messages.map g) :
    Outcome (c.state.delivered = (P.messages P.samples).map g) c.own := by
  refine (h.punctual.ends hc).imp_right fun ⟨hfail, hall, hsent⟩ => ⟨hfail, ?_⟩
  have htold : c.state.delivered <+: (P.messages P.samples).map g := by
    rw [← hsent]
    exact h.replies hreply
  refine htold.eq_of_length_le ?_
  rw [List.length_map, Plan.messages, List.length_map, List.length_range, ← hall, h.received]
  exact List.countP_le_length

/-! ### Executions -/

variable {C₂ L₂ : Type} {E : Link.Party C₂ L₂ (List UInt8)} {b : C₂} {right : C₂ → L₂ → Prop}
  {n : Link.Net (Config k) C₂ (List UInt8)}

section
variable {U M' : Type} [Variables U] [DecidableEq M']
  {A : Link.Party (App.Config k U) (App.Label k) M'} {E : Link.Party C₂ L₂ M'}
  {m : Option k.Value} {u : U} {p : Program k U C₂ M'}

/-- How a benchmark completes: the time was over, a read failed, or all replies came. -/
def Program.Outcome (replied : Prop) (p : Program k U C₂ M') : Prop :=
  (∃ n, p.complaint = some (.timeout n)) ∨ (∃ ec, .readError ec ∈ p.progress.complaints) ∨
    p.failed = false ∧ replied

theorem Program.Running.outcome (h : Program.Running A E m u b right p)
    (hr : p.returned = false) (hc : p.completed = true) {replied : Prop}
    (ho : p.progress.completed = true → Benchmark.Outcome replied p.progress) :
    p.Outcome replied := by
  refine (h.ends hr hc).imp_right fun ⟨hdone, hfail⟩ => ?_
  rw [hfail]
  exact ho hdone

omit [DecidableEq M'] in
theorem Program.completed_of_progress (h : p.progress.completed = true) : p.completed = true := by
  rw [Program.completed, h, Bool.true_or, Bool.true_or]

omit [DecidableEq M'] in
/-- A session that goes on reading leaves `run()` something to do. -/
theorem Program.works {tr : ℕ → Program k U C₂ M'}
    (h : k.Lives fun t => (tr t).net.left.program)
    (hf : Kind.FairUntil (fun t => (tr t).completed = true) fun t => (tr t).net.left.program)
    (henabled : ∀ t, (tr t).completed = true ∨ (tr t).net.left.state.readEnabled = true)
    (hfull : ∀ t, k.halfDuplex (tr t).net.left.state.derived = false) (t : ℕ)
    (hc : (tr t).completed = false) : (tr t).outOfWork = false := by
  have hD : ¬ (tr t).completed = true := by simp [hc]
  by_contra hout
  simp only [Program.outOfWork, Bool.not_eq_false, Bool.and_eq_true, List.isEmpty_iff] at hout
  obtain ⟨⟨hst, hreads⟩, -⟩ := hout
  obtain ⟨op, hop⟩ := Kind.reading_of_enabled (h.reaches t) (List.map_eq_nil_iff.2 hst)
    ((hf.isOpen t).resolve_left hD) ((henabled t).resolve_left hD) fun hm =>
      Bool.noConfusion ((hfull t).symm.trans hm)
  have hnone : (tr t).net.left.program.state.reads = [] := hreads
  rw [hop] at hnone
  cases hnone

end

/-- The states of an execution of the benchmark `P`, without its `timeout_thread`. -/
abbrev Executes (P : Plan k.Value) (E : Link.Party C₂ L₂ (List UInt8)) (b : C₂)
    (right : C₂ → L₂ → Prop) (tr : ℕ → Link.Net (Config k) C₂ (List UInt8)) : Prop :=
  Executing (app P).party E (sendNext P {}).1 (sendNext P {}).2 b right tr

/-- The states of an execution of the benchmark `P`. -/
abbrev Program.Executes (P : Plan k.Value) (E : Link.Party C₂ L₂ (List UInt8)) (b : C₂)
    (right : C₂ → L₂ → Prop) (tr : ℕ → Program k Progress C₂ (List UInt8)) : Prop :=
  Program.Executing (app P).party E (sendNext P {}).1 (sendNext P {}).2 b right tr

namespace Executes
variable {tr : ℕ → Link.Net (Config k) C₂ (List UInt8)} (h : Executes P E b right tr)
include h

theorem runs_at (t : ℕ) : Runs P E b right (tr t) := Executing.runs_at h t

theorem attends (t : ℕ) : ∃ s, k.Created s ∧ Transition.Run (Link.step (app P).party E)
    (Attending right) (.start ⟨s, [], { sentCount := 1 }⟩ b) (tr t) := by
  have hruns := Executing.runs_at h t
  rw [sendNext_first] at hruns
  exact hruns.attends rfl fun _ _ _ => rfl

end Executes

theorem receives {u : Progress} {s : Session k.Members k.Value k.Value} (hs : k.Created s)
    (hn : Transition.Run (Link.step (app P).party E) (Attending right) (.start ⟨s, [], u⟩ b) n)
    {l : App.Label k} (hl : Attending right n (.inl l)) {c : Config k}
    (hc : (app P).step k.cls.program n.left l = some c) :
    k.Receiving n.left.program (Strand.UserCode.move n.left l) :=
  App.ReachableBy.receives (B := app P) body_replies (fun _ _ hx => hx)
    ⟨s, hs, Link.run_left (fun _ _ hl => hl) hn⟩ hl hc

end

/-! ### The WebSocket benchmark -/

/-- The two sessions, without what the applications have in mind. -/
abbrev sessions (n : Link.Net (Config .webSocket) Echo.Config (List UInt8)) :
    Link.Net Kind.webSocket.Config Kind.webSocketServer.Config (List UInt8) :=
  n.map Strand.UserCode.Config.program Strand.UserCode.Config.program

section
variable {o : Options} {s₂ : WebSocketServerSession} (hs₂ : Kind.webSocketServer.Created s₂)
  {tr : ℕ → Link.Net (Config .webSocket) Echo.Config (List UInt8)}
  (h : Executes (webSocketPlan o) Echo.application.party ⟨s₂, [], ()⟩ (App.Outside Echo.Outside) tr)
include hs₂ h

theorem Executes.echoing (t : ℕ) : Echoing (tr t).right := by
  obtain ⟨s, -, hr⟩ := h.attends t
  exact Echo.echoing ⟨s₂, hs₂, Link.run_right (fun _ _ hl => hl) hr⟩

theorem Executes.connects : Kind.Connects fun t => sessions (tr t) := by
  obtain ⟨s, hs, hr⟩ := h.attends 0
  refine .of_map (App.party_runsAs _) (App.party_runsAs _) hs hs₂ rfl rfl
    (fun n l n' hn hl hstep => ?_) hr (h.steps.mono fun _ _ => Steps.attending)
  cases l with
  | inl l =>
    obtain ⟨a, rest, ha, -, -⟩ := Link.step_left hstep
    exact receives hs hn hl ha
  | inr l =>
    obtain ⟨b, rest, hb, -, -⟩ := Link.step_right hstep
    exact Echo.receives ⟨s₂, hs₂, Link.run_right (fun _ _ hl => hl) hn⟩ hl hb

end

/-- **The WebSocket benchmark completes.**  In an execution that is fair until then, the
    benchmark completes; and when it has, the time was over, a read failed, or it has not
    failed and was told its own messages, all of them and in order. -/
theorem webSocket_completes {o : Options} {s₂ : WebSocketServerSession}
    (hs₂ : Kind.webSocketServer.Created s₂)
    {tr : ℕ → Program .webSocket Progress Echo.Config (List UInt8)}
    (h : Program.Executes (webSocketPlan o) Echo.application.party ⟨s₂, [], ()⟩
      (App.Outside Echo.Outside) tr)
    (hl : Kind.FairUntil (k := .webSocket) (fun t => (tr t).completed = true)
      fun t => (tr t).net.left.program)
    (hr : Kind.FairUntil (k := .webSocketServer) (fun t => (tr t).completed = true)
      fun t => (tr t).net.right.program)
    (hr' : Kind.ListensUntil (fun t => (tr t).completed = true) fun t => sessions (tr t).net)
    (hl' : Kind.ListensUntil (fun t => (tr t).completed = true)
      fun t => (sessions (tr t).net).swap) :
    (∃ t, (tr t).completed = true) ∧ ∀ t, (tr t).completed = true →
      (tr t).Outcome
        ((tr t).net.left.state.delivered = (webSocketPlan o).messages o.samples) := by
  have hnet : Executes (webSocketPlan o) Echo.application.party ⟨s₂, [], ()⟩
    (App.Outside Echo.Outside) fun t => (tr t).net := h.net
  have htimely (t : ℕ) := (hnet.runs_at t).webSocket hs₂
  have hreply (t : ℕ) : (tr t).net.left.state.delivered <+:
      (tr t).net.left.state.messages.map id := by
    rw [List.map_id]
    exact (htimely t).2
  have hconnects := hnet.connects hs₂
  have hinRun := h.inRun (Program.works hconnects.left hl hl'.enabled fun _ => rfl)
  refine ⟨?_, fun t ht => (h.runs_at t).outcome (hinRun t) ht fun hdone => ?_⟩
  · by_contra hnever
    have hD (t : ℕ) : ¬ (tr t).completed = true := fun ht => hnever ⟨t, ht⟩
    have hleft := hl.fair hD
    have hright := hr.fair hD
    obtain ⟨t, ht⟩ : ∃ t, (tr t).net.left.own.completed = true := by
      refine not_forever (fun t => (htimely t).1)
        (fun t => (htimely t).1.received_all (hreply t) fun i => webSocketPlan_counts o _)
        (fun _ _ htt' => hconnects.left.delivered htt') (fun t => ?_) fun t => ?_
      · obtain ⟨t', ht', hst, -⟩ := hleft.pauses t
        exact ⟨t', ht', List.map_eq_nil_iff.1 hst, hleft.isOpen t'⟩
      · obtain ⟨t', ht', hback⟩ := hconnects.returns hleft hright (hr'.listens hD)
          (hl'.listens hD) (fun t hst => Echo.answered (hnet.echoing hs₂ t)
            (List.map_eq_nil_iff.1 hst) (hright.isOpen t)) t
        exact ⟨t', ht', hback.length_le⟩
    exact hD t (Program.completed_of_progress ht)
  · have houtcome := (htimely t).1.outcome hdone (hreply t)
    rwa [List.map_id] at houtcome

/-- A benchmark of one sample, whose message comes back. -/
theorem webSocket_completes_one :
    ∃ tr, Program.Executes (webSocketPlan { payloadSize := 4, samples := 1 })
        Echo.application.party ⟨WebSocketServerSession.create {}, [], ()⟩
        (App.Outside Echo.Outside) tr ∧
      (tr 0).completed = false ∧ ∃ t, (tr t).completed = true ∧
        (tr t).Outcome ((tr t).net.left.state.delivered = [[0, 0, 0, 0]]) := by
  obtain ⟨s, hs⟩ : ∃ s, WebSocketSession.create {} {} = some s := ⟨_, rfl⟩
  obtain ⟨n₀, n₁, n₂, n₃, n₄, n₅, n₆, hn, hin, h₀, h₁, h₂, h₃, h₄, h₅, hstart, hall, hend⟩ :
      ∃ n₀ n₁ n₂ n₃ n₄ n₅ n₆ : Program .webSocket Progress Echo.Config (List UInt8),
        Program.Running (app (webSocketPlan { payloadSize := 4, samples := 1 })).party
          Echo.application.party
          (sendNext (webSocketPlan { payloadSize := 4, samples := 1 }) {}).1
          (sendNext (webSocketPlan { payloadSize := 4, samples := 1 }) {}).2
          ⟨WebSocketServerSession.create {}, [], ()⟩ (App.Outside Echo.Outside) n₀ ∧
        n₀.returned = false ∧
        Program.step (app (webSocketPlan { payloadSize := 4, samples := 1 })).party
          Echo.application.party n₀ (.net (.inl (.event (.write 0 none)))) = some n₁ ∧
        Program.step (app (webSocketPlan { payloadSize := 4, samples := 1 })).party
          Echo.application.party n₁ (.net (.inr (.event (.read 0 none [0, 0, 0, 0])))) =
            some n₂ ∧
        Program.step (app (webSocketPlan { payloadSize := 4, samples := 1 })).party
          Echo.application.party n₂ (.net (.inr .proceed)) = some n₃ ∧
        Program.step (app (webSocketPlan { payloadSize := 4, samples := 1 })).party
          Echo.application.party n₃ (.net (.inr .proceed)) = some n₄ ∧
        Program.step (app (webSocketPlan { payloadSize := 4, samples := 1 })).party
          Echo.application.party n₄ (.net (.inr (.event (.write 0 none)))) = some n₅ ∧
        Program.step (app (webSocketPlan { payloadSize := 4, samples := 1 })).party
          Echo.application.party n₅ (.net (.inl (.event (.read 0 none [0, 0, 0, 0])))) =
            some n₆ ∧
        n₀.completed = false ∧
        (∀ p ∈ [n₀, n₁, n₂, n₃, n₄, n₅, n₆], p.net.left.state.closed = false ∧
          p.net.right.state.closed = false ∧ p.net.left.state.readEnabled = true ∧
          p.net.right.state.readEnabled = true) ∧ n₆.completed = true := by
    have hn : Program.Running (app (webSocketPlan { payloadSize := 4, samples := 1 })).party
        Echo.application.party
        (sendNext (webSocketPlan { payloadSize := 4, samples := 1 }) {}).1
        (sendNext (webSocketPlan { payloadSize := 4, samples := 1 }) {}).2
        ⟨WebSocketServerSession.create {}, [], ()⟩ (App.Outside Echo.Outside) _ :=
      ⟨s, _, ⟨_, _, hs⟩, by cases hs; rfl,
        .step (l := .net (.inr (.call .startReading)))
        (.step (l := .net (.inr (.call (.setReadHandler (some 0))))) .refl
          (by exact ⟨nofun, rfl⟩) (by rfl)) (by exact ⟨nofun, rfl⟩) (by rfl)⟩
    refine ⟨_, _, _, _, _, _, _, hn, rfl, rfl, rfl, rfl, rfl, rfl, rfl, rfl, ?_, rfl⟩
    simp only [List.forall_mem_cons, List.not_mem_nil, false_imp_iff, implies_true, and_true]
    trivial
  have hexec : Program.Executes (webSocketPlan { payloadSize := 4, samples := 1 })
      Echo.application.party ⟨WebSocketServerSession.create {}, [], ()⟩ (App.Outside Echo.Outside)
      (Transition.settled [n₀, n₁, n₂, n₃, n₄, n₅] n₆) := by
    refine ⟨hn, hin, Transition.behaviour_settled ?_⟩
    simp only [List.cons_append, List.nil_append, List.isChain_cons_cons, List.isChain_singleton,
      and_true]
    exact ⟨⟨_, by trivial, h₀⟩, ⟨_, by trivial, h₁⟩, ⟨_, by trivial, h₂⟩, ⟨_, by trivial, h₃⟩,
      ⟨_, by trivial, h₄⟩, ⟨_, by trivial, h₅⟩⟩
  have hall' (t : ℕ) := hall (Transition.settled [n₀, n₁, n₂, n₃, n₄, n₅] n₆ t)
    (Transition.settled_mem (Nat.zero_le t))
  have hlater {p : ℕ → Prop} (t : ℕ) : ∃ t' ≥ t,
      (Transition.settled [n₀, n₁, n₂, n₃, n₄, n₅] n₆ t').completed = true ∨ p t' :=
    ⟨t + 6, by omega, Or.inl hend⟩
  obtain ⟨⟨t, ht⟩, hout⟩ := webSocket_completes ⟨_, rfl⟩ hexec
    ⟨fun t => Or.inr (hall' t).1, fun t => hlater t, fun t _ => hlater t⟩
    ⟨fun t => Or.inr (hall' t).2.1, fun t => hlater t, fun t _ => hlater t⟩
    ⟨fun t => Or.inr (hall' t).2.2.2, fun t _ _ => hlater t⟩
    ⟨fun t => Or.inr (hall' t).2.2.1, fun t _ _ => hlater t⟩
  exact ⟨_, hexec, hstart, t, ht, hout t ht⟩

/-! ### The CAN benchmark -/

/-- The configuration of its session. -/
def canConfig (o : CanOptions) : Can.CanConfig where
  enableCanFd := o.fdFrame
  loopback := true
  receiveOwnMessages := true
  filters := [{ id := o.canId, mask := 0x1FFFFFFF#32 }]

/-- The session encodes every frame of the benchmark, and its socket receives what was
    encoded, whatever bits the identifier has. -/
theorem canConfig_returns (o : CanOptions) (sequence : BitVec 32) :
    Can.Fits (canConfig o).enableCanFd (makeFrame o.canId o.fdFrame sequence) ∧
      Can.Accepted (Can.sockOpts (canConfig o))
        (Can.encodeId (makeFrame o.canId o.fdFrame sequence)) := by
  have hmask : (0x1FFFFFFF#32 : BitVec 32) ≤ Can.canEffMask := by decide
  constructor
  · show if o.fdFrame then o.fdFrame = true ∧ (if o.fdFrame then 16 else 8) ≤ 64
      else (if o.fdFrame then 16 else 8) ≤ 8
    split_ifs with hfd
    · exact ⟨hfd, by decide⟩
    · exact Nat.le_refl 8
  · have hne : (canConfig o).filters ≠ [] := List.cons_ne_nil _ _
    refine ⟨Can.rawFilter { id := o.canId, mask := 0x1FFFFFFF#32 }, ?_, ?_⟩
    · rw [Can.installedFilters_sockOpts hne]
      exact List.mem_singleton_self _
    · rw [Can.rawFilter_accepts hmask]
      exact ⟨Can.encodeId_and_mask _, Bool.noConfusion, Bool.noConfusion⟩

theorem Executes.loops {o : CanOptions}
    {tr : ℕ → Link.Net (Config .can) (List (List UInt8)) (List UInt8)}
    (h : Executes (canPlan o) (Link.wire (List UInt8)) [] (fun _ _ => True) tr) :
    Kind.Loops Kind.can.party fun t => (tr t).map Strand.UserCode.Config.program id := by
  obtain ⟨s, hs, hr⟩ := h.attends 0
  exact .of_map (App.party_runsAs _) hs rfl (fun n l c hn hl hc => receives hs hn hl hc) hr
    (h.steps.mono fun _ _ => Steps.attending)

/-- **The CAN benchmark completes if its identifier has 29 bits.**  On a bus that loops its
    frames back, in an execution that is fair until then, the benchmark completes; and when
    it has, the time was over, a read failed, or it was told its frames.  Frames with
    another identifier do not come back as they were sent: the benchmark ignores them all,
    and has not completed before the time was over or a read failed. -/
theorem can_completes {o : CanOptions}
    {tr : ℕ → Program .can Progress (List (List UInt8)) (List UInt8)}
    (h : Program.Executes (canPlan o) (Link.wire (List UInt8)) [] (fun _ _ => True) tr)
    (hl : Kind.FairUntil (k := .can) (fun t => (tr t).completed = true)
      fun t => (tr t).net.left.program)
    (hr : Kind.ResoundsUntil (fun t => (tr t).completed = true) Kind.can.party
      fun t => (tr t).net.map Strand.UserCode.Config.program id) :
    (o.canId ≤ Can.canEffMask → (∃ t, (tr t).completed = true) ∧ ∀ t, (tr t).completed = true →
      (tr t).Outcome ((tr t).net.left.state.delivered =
        ((canPlan o).messages o.samples).map Can.received)) ∧
    (¬ o.canId ≤ Can.canEffMask → ∀ t, (tr t).progress.receivedCount = 0 ∧
      ((tr t).completed = true → (∃ n, (tr t).complaint = some (.timeout n)) ∨
        ∃ ec, .readError ec ∈ (tr t).progress.complaints)) := by
  have hnet : Executes (canPlan o) (Link.wire (List UInt8)) [] (fun _ _ => True)
    fun t => (tr t).net := h.net
  have htimely (t : ℕ) := (hnet.runs_at t).can
  have hlives : Kind.can.Lives fun t => (tr t).net.left.program := hnet.loops.left rfl
  have hinRun := h.inRun (Program.works hlives hl hr.enabled fun _ => rfl)
  have hout (t : ℕ) (ht : (tr t).completed = true) :
      (tr t).Outcome ((tr t).net.left.state.delivered =
        ((canPlan o).messages o.samples).map Can.received) :=
    (h.runs_at t).outcome (hinRun t) ht fun hdone => (htimely t).1.outcome hdone (htimely t).2
  refine ⟨fun hid => ⟨?_, hout⟩, fun hid t => ?_⟩
  · by_contra hnever
    have hD (t : ℕ) : ¬ (tr t).completed = true := fun ht => hnever ⟨t, ht⟩
    have hfair := hl.fair hD
    obtain ⟨t, ht⟩ : ∃ t, (tr t).net.left.own.completed = true := by
      refine not_forever (fun t => (htimely t).1)
        (fun t => (htimely t).1.received_all (htimely t).2 fun i =>
          (canPlan_counts o i).trans (decide_eq_true hid))
        (fun _ _ htt' => hlives.delivered htt') (fun t => ?_) fun t => ?_
      · obtain ⟨t', ht', hst, -⟩ := hfair.pauses t
        exact ⟨t', ht', List.map_eq_nil_iff.1 hst, hfair.isOpen t'⟩
      · obtain ⟨t', ht', hback⟩ := Kind.messages_resound hnet.loops hfair (hr.resounds hD)
          (fun _ => rfl) (fun _ _ _ he => Kind.payload_encodeFrame he) t
        have hlen := hback.length_le
        rw [List.length_map] at hlen
        exact ⟨t', ht', hlen⟩
    exact hD t (Program.completed_of_progress ht)
  · have hnone : (tr t).net.left.own.receivedCount = 0 :=
      (htimely t).1.received_none (htimely t).2 fun i =>
        (canPlan_counts o i).trans (decide_eq_false hid)
    refine ⟨hnone, fun ht => ((h.runs_at t).ends (hinRun t) ht).imp_right fun ⟨hdone, _⟩ => ?_⟩
    rcases (htimely t).1.punctual.ends hdone with herror | ⟨-, hall, -⟩
    · exact herror
    · have hpos := (canPlan o).positive
      omega

/-- A benchmark of one sample, whose frame comes back. -/
theorem can_completes_one :
    ∃ tr, Program.Executes (canPlan { samples := 1 }) (Link.wire (List UInt8)) []
        (fun _ _ => True) tr ∧
      (tr 0).completed = false ∧ ∃ t, (tr t).completed = true ∧
        (tr t).Outcome ((tr t).net.left.state.delivered =
          [Can.received (makeFrame 0x123#32 false 0#32)]) := by
  obtain ⟨s, hs⟩ : ∃ s, CanSession.create { socket := .ok 3 } {} = some s := ⟨_, rfl⟩
  obtain ⟨n₀, n₁, n₂, hn, hin, h₀, h₁, hstart, hall, hend⟩ :
      ∃ n₀ n₁ n₂ : Program .can Progress (List (List UInt8)) (List UInt8),
        Program.Running (app (canPlan { samples := 1 })).party (Link.wire (List UInt8))
          (sendNext (canPlan { samples := 1 }) {}).1 (sendNext (canPlan { samples := 1 }) {}).2
          [] (fun _ _ => True) n₀ ∧
        n₀.returned = false ∧
        Program.step (app (canPlan { samples := 1 })).party (Link.wire (List UInt8)) n₀
          (.net (.inr [0x23, 1, 0, 0, 8, 0, 0, 0, 0, 0, 0, 0, 4, 5, 6, 7])) = some n₁ ∧
        Program.step (app (canPlan { samples := 1 })).party (Link.wire (List UInt8)) n₁
          (.net (.inl (.event (.read 0 none
            [0x23, 1, 0, 0, 8, 0, 0, 0, 0, 0, 0, 0, 4, 5, 6, 7])))) = some n₂ ∧
        n₀.completed = false ∧
        (∀ p ∈ [n₀, n₁, n₂],
          p.net.left.state.closed = false ∧ p.net.left.state.readEnabled = true) ∧
        n₂.completed = true := by
    have hn : Program.Running (app (canPlan { samples := 1 })).party (Link.wire (List UInt8))
        (sendNext (canPlan { samples := 1 }) {}).1 (sendNext (canPlan { samples := 1 }) {}).2
        [] (fun _ _ => True) _ :=
      ⟨s, _, ⟨_, _, hs⟩, by cases hs; rfl, .refl⟩
    refine ⟨_, _, _, hn, rfl, rfl, rfl, rfl, ?_, rfl⟩
    simp only [List.forall_mem_cons, List.not_mem_nil, false_imp_iff, implies_true, and_true]
    trivial
  have hexec : Program.Executes (canPlan { samples := 1 }) (Link.wire (List UInt8)) []
      (fun _ _ => True) (Transition.settled [n₀, n₁] n₂) := by
    refine ⟨hn, hin, Transition.behaviour_settled ?_⟩
    simp only [List.cons_append, List.nil_append, List.isChain_cons_cons, List.isChain_singleton,
      and_true]
    exact ⟨⟨_, by trivial, h₀⟩, ⟨_, by trivial, h₁⟩⟩
  have hall' (t : ℕ) := hall (Transition.settled [n₀, n₁] n₂ t)
    (Transition.settled_mem (Nat.zero_le t))
  have hlater {p : ℕ → Prop} (t : ℕ) : ∃ t' ≥ t,
      (Transition.settled [n₀, n₁] n₂ t').completed = true ∨ p t' :=
    ⟨t + 2, by omega, Or.inl hend⟩
  obtain ⟨⟨t, ht⟩, hout⟩ := (can_completes hexec
    ⟨fun t => Or.inr (hall' t).1, fun t => hlater t, fun t _ => hlater t⟩
    ⟨fun t => Or.inr (hall' t).2, fun t _ _ => hlater t, fun t _ => hlater t⟩).1 (by decide)
  exact ⟨_, hexec, hstart, t, ht, hout t ht⟩

/-! ### The serial benchmark -/

/-- The states of an execution of the serial benchmark, which opens its port in full
    duplex, on a line that echoes what it gets, without its `timeout_thread`. -/
structure SerialExecutes (o : Options)
    (tr : ℕ → Link.Net (App.Config .serial SerialProgress) (List UInt8) UInt8) : Prop where
  executing : Executing (serialApp o).stream (Link.wire UInt8) (sendNext (serialPlan o) {}).1
    ⟨(sendNext (serialPlan o) {}).2, []⟩ [] (fun _ _ => True) tr
  fullDuplex : (tr 0).left.state.derived.duplexMode = .fullDuplex

namespace SerialExecutes
variable {o : Options} {tr : ℕ → Link.Net (App.Config .serial SerialProgress) (List UInt8) UInt8}
  (h : SerialExecutes o tr)
include h

theorem runs_at (t : ℕ) : SerialRuns o (tr t) := h.executing.runs_at t

theorem attends (t : ℕ) : ∃ s, Kind.serial.Created s ∧
    Transition.Run (Link.step (serialApp o).stream (Link.wire UInt8)) (Attending fun _ _ => True)
      (.start ⟨s, [], ⟨{ sentCount := 1 }, []⟩⟩ []) (tr t) :=
  (h.runs_at t).running.attends rfl fun _ _ _ => rfl

theorem loops : Kind.Loops Kind.serial.stream
    fun t => (tr t).map Strand.UserCode.Config.program id := by
  obtain ⟨s, hs, hr⟩ := h.attends 0
  refine .of_map (App.stream_runsAs _) hs rfl (fun n l c hn hl hc => ?_) hr
    (h.executing.steps.mono fun _ _ => Steps.attending)
  exact App.ReachableBy.receives (B := serialApp o) serialBody_replies (fun _ _ hx => hx)
    ⟨s, hs, Link.run_left (fun _ _ hl => hl) hn⟩ hl hc

/-- The mode is the one that the port was opened in. -/
theorem mode (t : ℕ) : (tr t).left.state.derived.duplexMode = .fullDuplex := by
  induction t with
  | zero => exact h.fullDuplex
  | succ t ih =>
    rcases h.executing.steps t with he | ⟨l, hl, hs⟩
    · rw [he]
      exact ih
    · cases l with
      | inr m =>
        obtain ⟨b, rest, -, -, he⟩ := Link.step_right hs
        rw [he]
        exact ih
      | inl l =>
        obtain ⟨a, rest, ha, -, he⟩ := Link.step_left hs
        obtain ⟨s, hcreated, hr⟩ := h.attends t
        have hreach : (serialApp o).ReachableBy ⟨{ sentCount := 1 }, []⟩
            (fun c x => Kind.serial.Attaching c.program (.call x)) (tr t).left :=
          ⟨s, hcreated, Link.run_left (fun _ _ hl => hl) hr⟩
        rw [he]
        refine (SerialSession.step_mode (Strand.UserCode.step_program ha) fun x hx => ?_).trans ih
        rcases hreach.calls serialBody_replies ha hx with rfl | hreply
        · cases (show Outside (.derived x) from hl)
        · exact hreply

end SerialExecutes

/-- The same, with the `timeout_thread`. -/
structure Program.SerialExecutes (o : Options)
    (tr : ℕ → Program .serial SerialProgress (List UInt8) UInt8) : Prop where
  executing : Program.Executing (serialApp o).stream (Link.wire UInt8)
    (sendNext (serialPlan o) {}).1 ⟨(sendNext (serialPlan o) {}).2, []⟩ [] (fun _ _ => True) tr
  fullDuplex : (tr 0).net.left.state.derived.duplexMode = .fullDuplex

theorem Program.SerialExecutes.net {o : Options}
    {tr : ℕ → Program .serial SerialProgress (List UInt8) UInt8}
    (h : Program.SerialExecutes o tr) : Benchmark.SerialExecutes o fun t => (tr t).net :=
  ⟨h.executing.net, h.fullDuplex⟩

section
variable {o : Options} {c : App.Config .serial SerialProgress}

theorem messages_flatten_length (o : Options) (n : ℕ) :
    ((serialPlan o).messages n).flatten.length = n * o.payloadSize := by
  induction n with
  | zero => simp [Plan.messages]
  | succ n ih =>
    rw [InStep.messages_flatten_succ, List.length_append, ih, makePayload_length, Nat.succ_mul]

/-- As many replies have been received as the bytes make up. -/
theorem InStep.received (h : InStep o c) :
    c.own.progress.receivedCount = c.state.delivered.flatten.length / o.payloadSize := by
  have hpos : 0 < o.payloadSize := Nat.zero_lt_of_lt h.short
  rw [h.stream, List.length_append, messages_flatten_length, Nat.add_comm,
    Nat.add_mul_div_right _ _ hpos, Nat.div_eq_of_lt h.short, Nat.zero_add]

/-- When all replies have been received, nothing is left over. -/
theorem InStep.outcome (h : InStep o c) (hc : c.own.progress.completed = true)
    (hreply : c.state.delivered.flatten <+: c.state.messages.flatten) :
    Outcome (c.state.delivered.flatten = ((serialPlan o).messages o.samples).flatten)
      c.own.progress := by
  refine (h.punctual.ends hc).imp_right fun ⟨hfail, hall, hsent⟩ => ⟨hfail, ?_⟩
  have htold : c.state.delivered.flatten <+:
      ((serialPlan o).messages c.own.progress.sentCount).flatten :=
    hreply.trans h.sends.initial.flatten
  have hstream := h.stream
  rw [hsent] at htold
  rw [hall] at hstream
  refine htold.eq_of_length_le ?_
  rw [hstream, List.length_append]
  exact Nat.le_add_right _ _

end

/-- **The serial benchmark does not go on for ever**, if again and again what it sent comes
    back. -/
theorem serial_not_forever {o : Options} {tr : ℕ → App.Config .serial SerialProgress}
    (hstep : ∀ t, InStep o (tr t))
    (hgrows : ∀ t t', t ≤ t' → (tr t).state.delivered <+: (tr t').state.delivered)
    (hpauses : ∀ t, ∃ t' ≥ t, (tr t').stack = [] ∧ (tr t').state.closed = false)
    (hreturns : ∀ t, ∃ t' ≥ t,
      (tr t).state.messages.flatten.length ≤ (tr t').state.delivered.flatten.length) :
    ∃ t, (tr t).own.progress.completed = true := by
  by_contra hnever
  have hwaits (t : ℕ) : (tr t).own.progress.receivedCount < o.samples := by
    refine (hstep t).punctual.goesOn ?_
    cases hc : (tr t).own.progress.completed with
    | false => rfl
    | true => exact absurd ⟨t, hc⟩ hnever
  have hrises {t t' : ℕ} (htt' : t ≤ t') :
      (tr t).own.progress.receivedCount ≤ (tr t').own.progress.receivedCount := by
    rw [(hstep t).received, (hstep t').received]
    exact Nat.div_le_div_right (hgrows t t' htt').flatten.length_le
  obtain ⟨t, -, hall⟩ : ∃ t ≥ 0, o.samples ≤ (tr t).own.progress.receivedCount := by
    refine Transition.rises fun t _ _ => ?_
    obtain ⟨t₁, ht₁, hst, hopen⟩ := hpauses t
    obtain ⟨t₂, ht₂, hback⟩ := hreturns t₁
    -- the message that follows the last reply was sent, and comes back
    have hsent : ((tr t₁).state.messages).flatten.length =
        ((tr t₁).own.progress.receivedCount + 1) * o.payloadSize := by
      have howes : (tr t₁).state.messages ++ owed (tr t₁).stack =
          (serialPlan o).messages (tr t₁).own.progress.sentCount := (hstep t₁).sends.owes hopen
      have hwindow : (tr t₁).own.progress.sentCount =
          min ((tr t₁).own.progress.receivedCount + 1) o.samples := (hstep t₁).punctual.window
      have hnone : owed (tr t₁).stack = [] := by
        rw [hst]
        rfl
      rw [hnone, List.append_nil] at howes
      rw [howes, messages_flatten_length, hwindow, Nat.min_eq_left (hwaits t₁)]
    have hpos : 0 < o.payloadSize := Nat.zero_lt_of_lt (hstep t).short
    refine ⟨t₂, ht₁.trans ht₂, Nat.lt_of_lt_of_le (Nat.lt_succ_of_le (hrises ht₁)) ?_⟩
    rw [(hstep t₂).received, Nat.le_div_iff_mul_le hpos, Nat.succ_eq_add_one, ← hsent]
    exact hback
  exact absurd (hwaits t) (Nat.not_lt.2 hall)

/-- **The serial benchmark completes.**  In an execution that is fair until then, whatever
    the pieces that the bytes arrive in, the benchmark completes; and when it has, the time
    was over, a read failed, or it has not failed and was told the bytes that it sent. -/
theorem serial_completes {o : Options}
    {tr : ℕ → Program .serial SerialProgress (List UInt8) UInt8}
    (h : Program.SerialExecutes o tr)
    (hl : Kind.FairUntil (k := .serial) (fun t => (tr t).completed = true)
      fun t => (tr t).net.left.program)
    (hr : Kind.ResoundsUntil (fun t => (tr t).completed = true) Kind.serial.stream
      fun t => (tr t).net.map Strand.UserCode.Config.program id) :
    (∃ t, (tr t).completed = true) ∧ ∀ t, (tr t).completed = true →
      (tr t).Outcome ((tr t).net.left.state.delivered.flatten =
        ((serialPlan o).messages o.samples).flatten) := by
  have hnet := h.net
  have hstep (t : ℕ) : InStep o (tr t).net.left := (hnet.runs_at t).inStep
  have hlives : Kind.serial.Lives fun t => (tr t).net.left.program := hnet.loops.left rfl
  have hfull (t : ℕ) : Kind.serial.halfDuplex (tr t).net.left.state.derived = false := by
    have hmode : (tr t).net.left.state.derived.duplexMode = .fullDuplex := hnet.mode t
    simp [Kind.halfDuplex, hmode]
  have hinRun := h.executing.inRun (Program.works hlives hl hr.enabled hfull)
  refine ⟨?_, fun t ht => (h.executing.runs_at t).outcome (hinRun t) ht fun hdone => ?_⟩
  · by_contra hnever
    have hD (t : ℕ) : ¬ (tr t).completed = true := fun ht => hnever ⟨t, ht⟩
    have hfair := hl.fair hD
    obtain ⟨t, ht⟩ : ∃ t, (tr t).net.left.own.progress.completed = true := by
      refine serial_not_forever hstep (fun _ _ htt' => hlives.delivered htt') (fun t => ?_)
        fun t => ?_
      · obtain ⟨t', ht', hst, -⟩ := hfair.pauses t
        exact ⟨t', ht', List.map_eq_nil_iff.1 hst, hfair.isOpen t'⟩
      · obtain ⟨t', ht', hback⟩ := Kind.bytes_resound hnet.loops hfair (hr.resounds hD)
          hfull t
        exact ⟨t', ht', hback.length_le⟩
    exact hD t (Program.completed_of_progress ht)
  · obtain ⟨s, hs, hrun⟩ := hnet.attends t
    exact (hstep t).outcome hdone (serial_replies hs hrun)

set_option maxRecDepth 8000 in
/-- A benchmark of one sample, whose reply comes back in two pieces. -/
theorem serial_completes_one :
    ∃ tr, Program.SerialExecutes { payloadSize := 4, samples := 1 } tr ∧
      (tr 0).completed = false ∧ ∃ t, (tr t).completed = true ∧
        (tr t).Outcome ((tr t).net.left.state.delivered.flatten = [0, 0, 0, 0]) := by
  obtain ⟨s, hs⟩ : ∃ s, SerialSession.create none {} { readBufferSize := 4 } = some s := ⟨_, rfl⟩
  obtain ⟨n₀, n₁, n₂, n₃, hn, hin, hmode, h₀, h₁, h₂, hstart, hall, hend⟩ :
      ∃ n₀ n₁ n₂ n₃ : Program .serial SerialProgress (List UInt8) UInt8,
        Program.Running (serialApp { payloadSize := 4, samples := 1 }).stream (Link.wire UInt8)
          (sendNext (serialPlan { payloadSize := 4, samples := 1 }) {}).1
          ⟨(sendNext (serialPlan { payloadSize := 4, samples := 1 }) {}).2, []⟩ []
          (fun _ _ => True) n₀ ∧
        n₀.returned = false ∧
        n₀.net.left.state.derived.duplexMode = .fullDuplex ∧
        Program.step (serialApp { payloadSize := 4, samples := 1 }).stream (Link.wire UInt8) n₀
          (.net (.inl (.event (.read 0 none [0, 0, 0])))) = some n₁ ∧
        Program.step (serialApp { payloadSize := 4, samples := 1 }).stream (Link.wire UInt8) n₁
          (.net (.inl .proceed)) = some n₂ ∧
        Program.step (serialApp { payloadSize := 4, samples := 1 }).stream (Link.wire UInt8) n₂
          (.net (.inl (.event (.read 0 none [0])))) = some n₃ ∧
        n₀.completed = false ∧
        (∀ p ∈ [n₀, n₁, n₂, n₃],
          p.net.left.state.closed = false ∧ p.net.left.state.readEnabled = true) ∧
        n₃.completed = true := by
    have hn : Program.Running (serialApp { payloadSize := 4, samples := 1 }).stream
        (Link.wire UInt8) (sendNext (serialPlan { payloadSize := 4, samples := 1 }) {}).1
        ⟨(sendNext (serialPlan { payloadSize := 4, samples := 1 }) {}).2, []⟩ []
        (fun _ _ => True) _ :=
      ⟨s, _, ⟨_, _, _, hs⟩, by cases hs; rfl,
        .step (l := .net (.inr 0)) (.step (l := .net (.inr 0)) (.step (l := .net (.inr 0))
          (.step (l := .net (.inr 0)) .refl
          trivial (by rfl)) trivial (by rfl)) trivial (by rfl)) trivial (by rfl)⟩
    refine ⟨_, _, _, _, hn, rfl, rfl, rfl, rfl, rfl, rfl, ?_, rfl⟩
    simp only [List.forall_mem_cons, List.not_mem_nil, false_imp_iff, implies_true, and_true]
    trivial
  have hexec : Program.SerialExecutes { payloadSize := 4, samples := 1 }
      (Transition.settled [n₀, n₁, n₂] n₃) := by
    refine ⟨⟨hn, hin, Transition.behaviour_settled ?_⟩, hmode⟩
    simp only [List.cons_append, List.nil_append, List.isChain_cons_cons, List.isChain_singleton,
      and_true]
    exact ⟨⟨_, by trivial, h₀⟩, ⟨_, by trivial, h₁⟩, ⟨_, by trivial, h₂⟩⟩
  have hall' (t : ℕ) := hall (Transition.settled [n₀, n₁, n₂] n₃ t)
    (Transition.settled_mem (Nat.zero_le t))
  have hlater {p : ℕ → Prop} (t : ℕ) : ∃ t' ≥ t,
      (Transition.settled [n₀, n₁, n₂] n₃ t').completed = true ∨ p t' :=
    ⟨t + 3, by omega, Or.inl hend⟩
  obtain ⟨⟨t, ht⟩, hout⟩ := serial_completes hexec
    ⟨fun t => Or.inr (hall' t).1, fun t => hlater t, fun t _ => hlater t⟩
    ⟨fun t => Or.inr (hall' t).2, fun t _ _ => hlater t, fun t _ => hlater t⟩
  exact ⟨_, hexec, hstart, t, ht, hout t ht⟩

end Benchmark

end TransitSession
