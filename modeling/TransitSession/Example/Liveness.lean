/-
  The echo server returns everything.

  An execution of applications is one of their sessions (`Connects.of_map`,
  `Loops.of_map`).  In a fair one a session of the echo server is told every message some
  time later, and has given it to its session to send when its read handler has returned;
  so the client is told what it sent (`echo_returns_all`).  What fairness asks for may be
  asked for until something happens (`FairUntil`).
-/
import TransitSession.Example.Echo
import TransitSession.Liveness

namespace TransitSession

/-! ## Connections of applications -/

namespace Kind
variable {k j : Kind}

section
variable {C₁ C₂ L₁ L₂ : Type} {A : Link.Party C₁ L₁ (List UInt8)}
  {B : Link.Party C₂ L₂ (List UInt8)} {f₁ : C₁ → k.Config} {f₂ : C₂ → j.Config}
  {g₁ : C₁ → L₁ → k.Label} {g₂ : C₂ → L₂ → j.Label} {a : C₁} {b : C₂}
  {ok : Link.Net C₁ C₂ (List UInt8) → L₁ ⊕ L₂ → Prop} {tr : ℕ → Link.Net C₁ C₂ (List UInt8)}

/-- An execution of two parties that run as sessions do is one of sessions. -/
theorem Connects.of_map (hA : A.RunsAs k.party f₁ g₁) (hB : B.RunsAs j.party f₂ g₂)
    {s₁ : Session k.Members k.Value k.Value} {s₂ : Session j.Members j.Value j.Value}
    (hs₁ : k.Created s₁) (hs₂ : j.Created s₂) (ha : f₁ a = ⟨s₁, []⟩) (hb : f₂ b = ⟨s₂, []⟩)
    (hok : ∀ n l n', Transition.Run (Link.step A B) ok (.start a b) n → ok n l →
      Link.step A B n l = some n' → BothReceiving (n.map f₁ f₂) (Link.relabel g₁ g₂ n l))
    (hr : Transition.Run (Link.step A B) ok (.start a b) (tr 0))
    (ht : Transition.Behaviour (Link.step A B) ok tr) : Connects fun t => (tr t).map f₁ f₂ := by
  refine ⟨⟨s₁, s₂, hs₁, hs₂, ?_⟩, ?_⟩
  · have hrun : Transition.Run (Link.step k.party j.party) BothReceiving
        ((Link.Net.start a b).map f₁ f₂) ((tr 0).map f₁ f₂) := Link.run_map hA hB hok hr
    rwa [Link.Net.start, Link.Net.map, ha, hb] at hrun
  · exact Link.behaviour_map hA hB
      (fun t l n' hl hs => hok _ l n' (hr.trans (ht.run (Nat.zero_le t))) hl hs) ht

end

section
variable {C L M : Type} [DecidableEq M] {A : Link.Party C L M}
  {A' : Link.Party k.Config k.Label M} {f : C → k.Config} {g : C → L → k.Label} {a : C}
  {ok : Link.Net C (List M) M → L ⊕ M → Prop} {tr : ℕ → Link.Net C (List M) M}

/-- An execution on a wire of a party that runs as a session does. -/
theorem Loops.of_map (hA : A.RunsAs A' f g) {s : Session k.Members k.Value k.Value}
    (hs : k.Created s) (ha : f a = ⟨s, []⟩)
    (hok : ∀ n l c, Transition.Run (Link.step A (Link.wire M)) ok (.start a []) n →
      ok n (.inl l) → A.next n.left l = some c → k.Receiving (f n.left) (g n.left l))
    (hr : Transition.Run (Link.step A (Link.wire M)) ok (.start a []) (tr 0))
    (ht : Transition.Behaviour (Link.step A (Link.wire M)) ok tr) :
    Loops A' fun t => (tr t).map f id := by
  have hguard (n : Link.Net C (List M) M) (l : L ⊕ M) (n' : Link.Net C (List M) M)
      (hn : Transition.Run (Link.step A (Link.wire M)) ok (.start a []) n) (hl : ok n l)
      (hs : Link.step A (Link.wire M) n l = some n') :
      LoopReceiving (n.map f id) (Link.relabel g (fun _ m => m) n l) := by
    cases l with
    | inl l =>
      obtain ⟨c, rest, hc, -, -⟩ := Link.step_left hs
      exact hok n l c hn hl hc
    | inr m => trivial
  refine ⟨⟨s, hs, ?_⟩, ?_⟩
  · have hrun : Transition.Run (Link.step A' (Link.wire M)) LoopReceiving
        ((Link.Net.start a []).map f id) ((tr 0).map f id) := Link.run_map hA (.refl _) hguard hr
    rwa [Link.Net.start, Link.Net.map, ha] at hrun
  · exact Link.behaviour_map hA (.refl _)
      (fun t l n' hl hs => hguard _ l n' (hr.trans (ht.run (Nat.zero_le t))) hl hs) ht

end

variable {tr : ℕ → Link.Net Kind.webSocket.Config Kind.webSocketServer.Config (List UInt8)}

/-- **A message comes back**, if the session on the right has been given to send what it
    was told whenever nothing runs on its strand. -/
theorem Connects.returns (h : Connects tr) (hl : Fair fun t => (tr t).left)
    (hr : Fair fun t => (tr t).right) (hr' : Listens tr) (hl' : Listens fun t => (tr t).swap)
    (hecho : ∀ t, (tr t).right.stack = [] →
      (tr t).right.state.messages = (tr t).right.state.delivered) (t : ℕ) :
    ∃ t' ≥ t, (tr t).left.state.messages <+: (tr t').left.state.delivered := by
  obtain ⟨t₁, ht₁, htold₁⟩ := everything_told h hl hr hr' (fun _ => rfl) (g := id)
    (fun _ _ _ he => he.symm) t
  obtain ⟨t₂, ht₂, hidle, -⟩ := hr.pauses t₁
  obtain ⟨t₃, ht₃, htold₃⟩ := everything_told h.swap hr hl hl' (fun _ => rfl) (g := id)
    (fun _ _ _ he => he.symm) t₂
  rw [List.map_id] at htold₁ htold₃
  refine ⟨t₃, (ht₁.trans ht₂).trans ht₃, (htold₁.trans (h.right.delivered ht₂)).trans ?_⟩
  rw [← hecho t₂ hidle]
  exact htold₃

end Kind

/-! ## The echo server -/

namespace Echo

/-- The states of an execution of a client and a session of the echo server. -/
structure Executes (tr : ℕ → Link.Net Kind.webSocket.Config Config (List UInt8)) : Prop where
  connected : Connected (tr 0)
  steps : Transition.Behaviour (Link.step Kind.webSocket.party application.party) Steps tr

/-- The two sessions, without what the application has in mind. -/
abbrev sessions (n : Link.Net Kind.webSocket.Config Config (List UInt8)) :
    Link.Net Kind.webSocket.Config Kind.webSocketServer.Config (List UInt8) :=
  n.map id Strand.UserCode.Config.program

/-- When its read handler has returned, an open session of the echo server has been given
    to send what it was told. -/
theorem answered {c : Config} (h : Echoing c) (hst : c.stack = [])
    (ho : c.state.closed = false) : c.state.messages = c.state.delivered := by
  have howes : c.state.messages ++ owed c.stack = c.state.delivered := h.owes ho
  rw [hst] at howes
  rw [← howes]
  exact (List.append_nil _).symm

/-- The steps of a session of the echo server. -/
theorem receives {c c' : Config} (h : application.ReachableBy () Outside c)
    {l : App.Label .webSocketServer} (hl : App.Outside Outside c l)
    (hs : application.step Kind.webSocketServer.cls.program c l = some c') :
    Kind.webSocketServer.Receiving c.program (Strand.UserCode.move c l) :=
  App.ReachableBy.receives (k := .webSocketServer) (B := application) body_replies
    (fun _ _ hx => hx.1) h hl hs

namespace Executes
variable {tr : ℕ → Link.Net Kind.webSocket.Config Config (List UInt8)} (h : Executes tr)
include h

theorem reaches (t : ℕ) : application.ReachableBy () Outside (tr t).right := by
  obtain ⟨s₁, s₂, -, hs₂, hr⟩ := h.connected
  exact ⟨s₂, hs₂, Link.run_right (fun _ _ hl => hl)
    (hr.trans (h.steps.run (Nat.zero_le t)))⟩

theorem connects : Kind.Connects fun t => sessions (tr t) := by
  obtain ⟨s₁, s₂, hs₁, hs₂, hr⟩ := h.connected
  refine .of_map (.refl _) (App.party_runsAs application) hs₁ hs₂ rfl rfl
    (fun n l n' hn hl hs => ?_) hr h.steps
  cases l with
  | inl l => exact hl
  | inr l =>
    obtain ⟨b, rest, hb, -, -⟩ := Link.step_right hs
    exact receives ⟨s₂, hs₂, Link.run_right (fun _ _ hl => hl) hn⟩ hl hb

end Executes

/-- **The echo server returns everything.**  In a fair execution of a client, which has a read
    handler whenever a read completes and is not opened again, and a session of the echo
    server, which both go on reading, the client is told some time later whatever it has been
    given to send at any time. -/
theorem echo_returns_all {tr : ℕ → Link.Net Kind.webSocket.Config Config (List UInt8)}
    (h : Executes tr) (hl : Kind.Fair (k := .webSocket) fun t => (tr t).left)
    (hr : Kind.Fair (k := .webSocketServer) fun t => (tr t).right.program)
    (hr' : Kind.Listens fun t => sessions (tr t))
    (hl' : Kind.Listens fun t => (sessions (tr t)).swap) (t : ℕ) :
    ∃ t' ≥ t, (tr t).left.state.messages <+: (tr t').left.state.delivered :=
  h.connects.returns hl hr hr' hl'
    (fun t hst => answered (echoing (h.reaches t)) (List.map_eq_nil_iff.1 hst) (hr.isOpen t)) t

/-- A message that comes back. -/
theorem echo_returns_all_one : ∃ tr : ℕ → Link.Net Kind.webSocket.Config Config (List UInt8),
    Executes tr ∧ (tr 0).left.state.delivered = [] ∧
      ∃ t, [[7]] <+: (tr t).left.state.delivered := by
  obtain ⟨s, hs⟩ : ∃ s, WebSocketSession.create {} {} = some s := ⟨_, rfl⟩
  obtain ⟨n₀, n₁, n₂, n₃, n₄, n₅, n₆, n₇, hn, h₀, h₁, h₂, h₃, h₄, h₅, h₆, hmessages, hdelivered,
    hhandler, hall, hleft, hright, htoRight, htoLeft, hidle, hidle'⟩ :
      ∃ n₀ n₁ n₂ n₃ n₄ n₅ n₆ n₇ : Link.Net Kind.webSocket.Config Config (List UInt8),
        Connected n₀ ∧
        Link.step Kind.webSocket.party application.party n₀
          (.inl (.event (.write 0 none))) = some n₁ ∧
        Link.step Kind.webSocket.party application.party n₁
          (.inr (.event (.read 0 none [7]))) = some n₂ ∧
        Link.step Kind.webSocket.party application.party n₂ (.inr .proceed) = some n₃ ∧
        Link.step Kind.webSocket.party application.party n₃ (.inr .proceed) = some n₄ ∧
        Link.step Kind.webSocket.party application.party n₄
          (.inr (.event (.write 0 none))) = some n₅ ∧
        Link.step Kind.webSocket.party application.party n₅
          (.inl (.event (.read 0 none [7]))) = some n₆ ∧
        Link.step Kind.webSocket.party application.party n₆ (.inl .ret) = some n₇ ∧
        n₀.left.state.messages = [[7]] ∧ n₀.left.state.delivered = [] ∧
        n₅.left.state.readHandler ≠ none ∧
        (∀ n ∈ [n₀, n₁, n₂, n₃, n₄, n₅, n₆, n₇], n.left.state.closed = false ∧
          n.right.state.closed = false ∧ n.left.state.readEnabled = true ∧
          n.right.state.readEnabled = true) ∧
        (∀ n ∈ [n₁, n₂, n₃, n₄, n₅, n₆, n₇], n.left.state.writes = []) ∧
        (∀ n ∈ [n₅, n₆, n₇], n.right.state.writes = []) ∧
        (∀ n ∈ [n₂, n₃, n₄, n₅, n₆, n₇], n.toRight = []) ∧
        (∀ n ∈ [n₆, n₇], n.toLeft = []) ∧ n₇.left.stack = [] ∧ n₇.right.stack = [] := by
    have hn : Connected _ :=
      ⟨s, WebSocketServerSession.create {}, ⟨_, _, hs⟩, ⟨_, rfl⟩,
        .step (l := .inr (.call .startReading))
        (.step (l := .inr (.call (.setReadHandler (some 0))))
        (.step (l := .inl (.call (.send [7])))
        (.step (l := .inl (.call .startReading))
        (.step (l := .inl (.call (.setReadHandler (some 0)))) .refl
          trivial rfl) trivial rfl) trivial rfl)
          ⟨nofun, rfl⟩ rfl) ⟨nofun, rfl⟩ rfl⟩
    cases hs
    refine ⟨_, _, _, _, _, _, _, _, hn, rfl, rfl, rfl, rfl, rfl, rfl, rfl, rfl, rfl, nofun,
      ?_, ?_, ?_, ?_, ?_, rfl, rfl⟩ <;>
      simp only [List.forall_mem_cons, List.not_mem_nil, false_imp_iff, implies_true, and_true] <;>
      trivial
  have hmap {n n' l} (h : Link.step Kind.webSocket.party application.party n l = some n') :=
    Link.step_map (.refl Kind.webSocket.party) (App.party_runsAs application) h
  have hexec : Executes (Transition.settled [n₀, n₁, n₂, n₃, n₄, n₅, n₆] n₇) := by
    refine ⟨hn, Transition.behaviour_settled ?_⟩
    simp only [List.cons_append, List.nil_append, List.isChain_cons_cons, List.isChain_singleton,
      and_true]
    exact ⟨⟨_, by trivial, h₀⟩, ⟨_, by trivial, h₁⟩, ⟨_, by trivial, h₂⟩, ⟨_, by trivial, h₃⟩,
      ⟨_, by trivial, h₄⟩, ⟨_, by exact hhandler, h₅⟩, ⟨_, by trivial, h₆⟩⟩
  have hall' (t : ℕ) := hall (Transition.settled [n₀, n₁, n₂, n₃, n₄, n₅, n₆] n₇ t)
    (Transition.settled_mem (Nat.zero_le t))
  have hwrites : Kind.Fair (k := .webSocket) fun t =>
      (Transition.settled [n₀, n₁, n₂, n₃, n₄, n₅, n₆] n₇ t).left := by
    refine ⟨fun t => (hall' t).1, fun t => ⟨t + 7, by omega, hidle, nofun⟩, fun t ht => ?_⟩
    rcases Nat.eq_zero_or_pos t with rfl | hpos
    · obtain ⟨a, rest, ha, -, rfl⟩ := Link.step_left h₀
      exact ⟨0, Nat.le_refl 0, 0, ha⟩
    · exact absurd (hleft _ (Transition.settled_mem hpos)) ht
  have hwrites' : Kind.Fair (k := .webSocketServer) fun t =>
      (Transition.settled [n₀, n₁, n₂, n₃, n₄, n₅, n₆] n₇ t).right.program := by
    refine ⟨fun t => (hall' t).2.1,
      fun t => ⟨t + 7, by omega, congrArg (List.map Prod.fst) hidle', nofun⟩, fun t ht => ?_⟩
    rcases Nat.lt_or_ge t 5 with hlt | hge
    · obtain ⟨b, rest, hb, -, rfl⟩ := Link.step_right h₄
      exact ⟨4, by omega, 0, Strand.UserCode.step_program hb⟩
    · exact absurd (hright _ (Transition.settled_mem hge)) ht
  have hreads : Kind.Listens fun t =>
      sessions (Transition.settled [n₀, n₁, n₂, n₃, n₄, n₅, n₆] n₇ t) := by
    refine ⟨fun t => (hall' t).2.2.2, fun t _ ht => ?_⟩
    rcases Nat.lt_or_ge t 2 with hlt | hge
    · exact ⟨1, by omega, 0, [7], hmap h₁⟩
    · exact absurd (htoRight _ (Transition.settled_mem hge)) ht
  have hreads' : Kind.Listens fun t =>
      (sessions (Transition.settled [n₀, n₁, n₂, n₃, n₄, n₅, n₆] n₇ t)).swap := by
    refine ⟨fun t => (hall' t).2.2.1, fun t _ ht => ?_⟩
    rcases Nat.lt_or_ge t 6 with hlt | hge
    · exact ⟨5, by omega, 0, [7], Link.step_swap (hmap h₅)⟩
    · exact absurd (htoLeft _ (Transition.settled_mem hge)) ht
  obtain ⟨t, -, htold⟩ := echo_returns_all hexec hwrites hwrites' hreads hreads' 0
  exact ⟨_, hexec, hdelivered, t, by rw [← hmessages]; exact htold⟩

end Echo

/-! ## Until the end -/

namespace Kind
variable {k j : Kind} {D : ℕ → Prop}

/-- A session is open, its writes complete, and again and again nothing runs on its
    strand, until `D` holds. -/
structure FairUntil (D : ℕ → Prop) (tr : ℕ → k.Config) : Prop where
  isOpen : ∀ t, D t ∨ (tr t).state.closed = false
  pauses : ∀ t, ∃ t' ≥ t, D t' ∨ (tr t').stack = [] ∧
    (k.halfDuplex (tr t').state.derived = true → (tr t').state.readInProgress = false)
  writes : ∀ t, (tr t).state.writes ≠ [] → ∃ t' ≥ t, D t' ∨ ∃ i,
    k.cls.program.step (tr t') (.event (.write i none)) = some (tr (t' + 1))

/-- The session on the right goes on reading, and its reads complete while something is in
    flight, until `D` holds. -/
structure ListensUntil (D : ℕ → Prop) (tr : ℕ → Link.Net k.Config j.Config (List UInt8)) :
    Prop where
  enabled : ∀ t, D t ∨ (tr t).right.state.readEnabled = true
  reads : ∀ t, (tr t).right.state.reads ≠ [] → (tr t).toRight ≠ [] → ∃ t' ≥ t, D t' ∨ ∃ i m,
    Link.step k.party j.party (tr t') (.inr (.event (.read i none m))) = some (tr (t' + 1))

/-- What `Resounds` says, until `D` holds. -/
structure ResoundsUntil {M : Type} [DecidableEq M] (D : ℕ → Prop)
    (A : Link.Party k.Config k.Label M) (tr : ℕ → Link.Net k.Config (List M) M) : Prop where
  enabled : ∀ t, D t ∨ (tr t).left.state.readEnabled = true
  reads : ∀ t, (tr t).left.state.reads ≠ [] → (tr t).toLeft ≠ [] → ∃ t' ≥ t, D t' ∨ ∃ i data,
    A.takes (.event (.read i none data)) ≠ [] ∧
      Link.step A (Link.wire M) (tr t') (.inl (.event (.read i none data))) = some (tr (t' + 1))
  carries : ∀ t, (tr t).toRight ≠ [] → ∃ t' ≥ t, D t' ∨ ∃ m,
    Link.step A (Link.wire M) (tr t') (.inr m) = some (tr (t' + 1))

theorem FairUntil.fair {tr : ℕ → k.Config} (h : FairUntil D tr) (hD : ∀ t, ¬ D t) : Fair tr where
  isOpen t := (h.isOpen t).resolve_left (hD t)
  pauses t := by
    obtain ⟨t', ht', hp⟩ := h.pauses t
    exact ⟨t', ht', hp.resolve_left (hD t')⟩
  writes t ht := by
    obtain ⟨t', ht', hw⟩ := h.writes t ht
    exact ⟨t', ht', hw.resolve_left (hD t')⟩

theorem ListensUntil.listens {tr : ℕ → Link.Net k.Config j.Config (List UInt8)}
    (h : ListensUntil D tr) (hD : ∀ t, ¬ D t) : Listens tr where
  enabled t := (h.enabled t).resolve_left (hD t)
  reads t ht hf := by
    obtain ⟨t', ht', hr⟩ := h.reads t ht hf
    exact ⟨t', ht', hr.resolve_left (hD t')⟩

theorem ResoundsUntil.resounds {M : Type} [DecidableEq M] {A : Link.Party k.Config k.Label M}
    {tr : ℕ → Link.Net k.Config (List M) M} (h : ResoundsUntil D A tr) (hD : ∀ t, ¬ D t) :
    Resounds A tr where
  enabled t := (h.enabled t).resolve_left (hD t)
  reads t ht hf := by
    obtain ⟨t', ht', hr⟩ := h.reads t ht hf
    exact ⟨t', ht', hr.resolve_left (hD t')⟩
  carries t ht := by
    obtain ⟨t', ht', hc⟩ := h.carries t ht
    exact ⟨t', ht', hc.resolve_left (hD t')⟩

end Kind

end TransitSession
