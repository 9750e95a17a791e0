/-
  Two sessions come to rest.

  Joined by their channels, two sessions that read need no further call to get across
  what they have been given to send: the writes of each side complete one after the
  other, and the other side reads what arrives (`settles`).  From every state in which
  nothing runs on the two strands, everything can be told (`connection_completes`).
-/
import TransitSession.Draining
import TransitSession.Serial.Buffer

namespace TransitSession

namespace Kind
variable {k j : Kind} {M : Type}

/-- The party is a session that takes one value `m` of its channel by a read of
    `data m`. -/
structure Joined (A : Link.Party k.Config k.Label M) (data : M → List UInt8) : Prop where
  next : A.next = k.cls.program.step
  sent : ∀ {c c'}, c'.state.written = c.state.written → A.sent c' = A.sent c
  read : ∀ m, A.takes (.event (.read 0 none (data m))) = [m]
  write : A.takes (.event (.write 0 none)) = []
  ret : A.takes .ret = []

theorem stream_joined : Joined k.stream fun b => [b] where
  next := rfl
  sent h := congrArg List.flatten h
  read _ := rfl
  write := rfl
  ret := rfl

/-- A completion without an error, or the return of user code. -/
def Succeeds : k.Label → Prop
  | .event (.read _ ec _) | .event (.write _ ec) => ec = none
  | .ret => True
  | _ => False

/-- The steps of two sessions that are left to themselves. -/
def Succeeding (n : Link.Net k.Config j.Config M) (l : k.Label ⊕ j.Label) : Prop :=
  BothReceiving n l ∧ l.elim Succeeds Succeeds

variable [DecidableEq M] {A : Link.Party k.Config k.Label M} {B : Link.Party j.Config j.Label M}
  {data : M → List UInt8} {n : Link.Net k.Config j.Config M}

/-- The session on the right writes what it has queued. -/
theorem writes_all (hB : Joined B data) (h : Serving n.right) :
    ∃ n', Transition.Run (Link.step A B) Succeeding n n' ∧ n'.left = n.left ∧
      n'.toRight = n.toRight ∧ Serving n'.right ∧ n'.right.state.writeQueue = [] ∧
      n'.right.state.pushed = n.right.state.pushed := by
  induction hq : n.right.state.writeQueue generalizing n with
  | nil => exact ⟨n, .refl, rfl, rfl, h, hq, rfl⟩
  | cons q rest ih =>
    obtain ⟨c', hs, hgoing, hrest, -, hpushed, henabled, hhandler⟩ := h.toGoing.write hq
    have hserving : Serving c' :=
      ⟨hgoing, h.receiving.trans (.step .refl (receiving_write _) hs), henabled.trans h.enabled,
        by rw [hhandler]; exact h.handler⟩
    have hstep : Link.step A B n (.inr (.event (.write 0 none))) =
        some { n with right := c', toLeft := n.toLeft ++ B.puts n.right c' } :=
      Link.step_right_of (by rw [hB.next]; exact hs) (by rw [hB.write]; rfl)
    obtain ⟨n', hr, hleft, hright, hserving', hqueue, hpushed'⟩ :=
      ih (n := { n with right := c', toLeft := n.toLeft ++ B.puts n.right c' }) hserving hrest
    exact ⟨n', (Transition.Run.step .refl ⟨receiving_write n.right, rfl⟩ hstep).trans hr, hleft,
      hright, hserving', hqueue, hpushed'.trans hpushed⟩

/-- The session on the right is told what is in flight. -/
theorem reads_all (hB : Joined B data) (h : Serving n.right)
    (hq : n.right.state.writeQueue = []) (hd : ∀ m ∈ n.toRight, j.Readable (data m)) :
    ∃ n', Transition.Run (Link.step A B) Succeeding n n' ∧ n'.left = n.left ∧
      n'.toRight = [] ∧ n'.toLeft = n.toLeft ∧ Serving n'.right ∧
      n'.right.state.writeQueue = [] ∧ n'.right.state.pushed = n.right.state.pushed := by
  induction hflight : n.toRight generalizing n with
  | nil => exact ⟨n, .refl, rfl, hflight, rfl, h, hq, rfl⟩
  | cons m rest ih =>
    obtain ⟨c₁, c', hs₁, hs₂, hserving, hqueue, hpushed, hwritten₁, hwritten⟩ :=
      h.read hq (hd m (by rw [hflight]; exact List.mem_cons_self))
    have hstep₁ : Link.step A B n (.inr (.event (.read 0 none (data m)))) =
        some { n with right := c₁, toRight := rest } := by
      rw [Link.step_right_of (by rw [hB.next]; exact hs₁) (by rw [hB.read, hflight]; rfl),
        B.puts_eq_nil (hB.sent hwritten₁), List.append_nil]
    have hstep₂ : Link.step A B { n with right := c₁, toRight := rest } (.inr .ret) =
        some { n with right := c', toRight := rest } := by
      rw [Link.step_right_of (by rw [hB.next]; exact hs₂) (by rw [hB.ret]; rfl),
        B.puts_eq_nil (hB.sent (hwritten.trans hwritten₁.symm)), List.append_nil]
    obtain ⟨n', hr, hleft, hright, htoLeft, hserving', hqueue', hpushed'⟩ :=
      ih (n := { n with right := c', toRight := rest }) hserving hqueue
        (fun m' hm' => hd m' (by rw [hflight]; exact List.mem_cons_of_mem m hm')) rfl
    refine ⟨n', Transition.Run.trans (.step (.step .refl ?_ hstep₁) ?_ hstep₂) hr, hleft, hright,
      htoLeft, hserving', hqueue', hpushed'.trans hpushed⟩
    · exact ⟨receiving_read h.handler (data m), rfl⟩
    · exact ⟨receiving_ret c₁, trivial⟩

omit [DecidableEq M] in
theorem Succeeding.swap {l : k.Label ⊕ j.Label} (h : Succeeding n l) :
    Succeeding n.swap l.swap := by
  cases l <;> exact h

theorem Serving.rests {c : k.Config} (h : Serving c) (hq : c.state.writeQueue = []) : Rests c :=
  ⟨h.idle, h.isOpen, h.toGoing.notWriting hq, fun hne => absurd hq hne⟩

/-- Two sessions at rest that have been given to send the same as in `n`, and nothing in
    flight. -/
structure Done (n n' : Link.Net k.Config j.Config M) : Prop where
  left : Rests n'.left
  right : Rests n'.right
  toRight : n'.toRight = []
  toLeft : n'.toLeft = []
  fromLeft : n'.left.state.pushed = n.left.state.pushed
  fromRight : n'.right.state.pushed = n.right.state.pushed

/-- **Two sessions that read come to rest by themselves**, if what comes into flight can
    be read. -/
theorem settles {data' : M → List UInt8} (hA : Joined A data') (hB : Joined B data)
    (hl : Serving n.left) (hr : Serving n.right)
    (hright : ∀ n', Transition.Run (Link.step A B) Succeeding n n' →
      ∀ m ∈ n'.toRight, j.Readable (data m))
    (hleft : ∀ n', Transition.Run (Link.step A B) Succeeding n n' →
      ∀ m ∈ n'.toLeft, k.Readable (data' m)) :
    ∃ n', Transition.Run (Link.step A B) Succeeding n n' ∧ Done n n' := by
  have swap {n n'} (h : Transition.Run (Link.step B A) Succeeding n n') :
      Transition.Run (Link.step A B) Succeeding n.swap n'.swap :=
    Link.run_swap (fun _ _ => Succeeding.swap) h
  -- both sides write what they have queued
  obtain ⟨n₁, h₁, hleft₁, -, hr₁, hqr₁, hpr₁⟩ := writes_all (A := A) hB hr
  obtain ⟨n₂, h₂, hleft₂, -, hl₂, hql₂, hpl₂⟩ :=
    writes_all (A := B) (n := n₁.swap) hA (by rw [Link.Net.swap, hleft₁]; exact hl)
  have hrun₂ := h₁.trans (swap h₂)
  have hright₂ : n₂.swap.right = n₁.right := hleft₂
  -- then they read what is in flight
  obtain ⟨n₃, h₃, hleft₃, hto₃, hback₃, hr₃, hqr₃, hpr₃⟩ :=
    reads_all (A := A) (n := n₂.swap) hB (by rw [hright₂]; exact hr₁)
      (by rw [hright₂]; exact hqr₁) (hright _ hrun₂)
  have hrun₃ := hrun₂.trans h₃
  have hleft₃' : n₃.swap.right = n₂.right := hleft₃
  obtain ⟨n₄, h₄, hleft₄, hto₄, hback₄, hl₄, hql₄, hpl₄⟩ :=
    reads_all (A := B) (n := n₃.swap) hA (by rw [hleft₃']; exact hl₂)
      (by rw [hleft₃']; exact hql₂) (hleft _ hrun₃)
  have hright₄ : n₄.swap.right = n₃.right := hleft₄
  refine ⟨n₄.swap, hrun₃.trans (swap h₄), hl₄.rests hql₄, ?_, hback₄.trans hto₃, hto₄, ?_, ?_⟩
  · rw [hright₄]
    exact hr₃.rests hqr₃
  · show n₄.right.state.pushed = _
    rw [hpl₄, hleft₃', hpl₂]
    exact congrArg (fun c : k.Config => c.state.pushed) hleft₁
  · rw [hright₄, hpr₃, hright₂, hpr₁]

/-! ## Connections -/

theorem Linked.succeeding {n n' : Link.Net k.Config j.Config (List UInt8)} (h : Linked n)
    (hr : Transition.Run (Link.step k.party j.party) Succeeding n n') : Linked n' := by
  obtain ⟨s₁, s₂, hs₁, hs₂, hrun⟩ := h
  exact ⟨s₁, s₂, hs₁, hs₂, hrun.trans (hr.mono fun _ _ hl => hl.1)⟩

theorem Wired.succeeding {n n' : Link.Net k.Config j.Config UInt8} (h : Wired n)
    (hr : Transition.Run (Link.step k.stream j.stream) Succeeding n n') : Wired n' := by
  obtain ⟨s₁, s₂, hs₁, hs₂, hrun⟩ := h
  exact ⟨s₁, s₂, hs₁, hs₂, hrun.trans (hr.mono fun _ _ hl => hl.1)⟩

/-- A read of a serial session takes a byte. -/
theorem readable_serial (b : UInt8) : Kind.serial.Readable [b] where
  payload := ⟨[b], rfl⟩
  fill {c op} hc hop := by
    have hstable : Kind.serial.ReachableBy (fun c l => ¬ SerialSession.Resizes c l) c := by
      obtain ⟨s, hs, hr⟩ := hc
      refine ⟨s, hs, hr.mono fun c l hl => ?_⟩
      unfold SerialSession.Resizes
      split
      · exact hl.elim
      · exact hl.elim
      · exact id
    have hsize : op.size = c.state.derived.readBuffer.length :=
      SerialSession.run_stable hstable op hop
    refine ⟨_, if_pos ?_⟩
    rw [hsize]
    exact Nat.one_le_iff_ne_zero.2 (SerialSession.roomy hc.reachable)

/-- **A serial line completes** in the same way, with sessions that were used on their
    strands: every byte that the two sides have queued arrives. -/
theorem line_completes {n : Link.Net Kind.serial.Config Kind.serial.Config UInt8}
    (h : Wired n) (hl : Serving n.left) (hr : Serving n.right) :
    ∃ n', Transition.Run (Link.step Kind.serial.stream Kind.serial.stream) Succeeding n n' ∧
      n'.right.state.delivered.flatten =
        (n.left.state.pushed.map Queued.message).flatten ∧
      n'.left.state.delivered.flatten =
        (n.right.state.pushed.map Queued.message).flatten := by
  obtain ⟨n', hrun, hdone⟩ := settles stream_joined stream_joined hl hr
    (fun _ _ b _ => readable_serial b) (fun _ _ b _ => readable_serial b)
  obtain ⟨h₁, h₂, hc⟩ := (h.succeeding hrun).parts
  have hright := (toldBytes h₁.onStrand h₂ hc.toRight).complete hdone.left hdone.toRight
  have hleft := (toldBytes h₂.onStrand h₁ hc.toLeft).complete hdone.right hdone.toLeft
  rw [hdone.fromLeft] at hright
  rw [hdone.fromRight] at hleft
  exact ⟨n', hrun, hright, hleft⟩

set_option maxRecDepth 8000 in
/-- The bytes that one side has queued arrive. -/
theorem line_completes_one : ∃ n n' : Link.Net Kind.serial.Config Kind.serial.Config UInt8,
    n.right.state.delivered = [] ∧
      Transition.Run (Link.step Kind.serial.stream Kind.serial.stream) Succeeding n n' ∧
      n'.right.state.delivered.flatten = [1, 2] := by
  obtain ⟨s, hs⟩ : ∃ s, SerialSession.create none {} { readBufferSize := 1 } = some s := ⟨_, rfl⟩
  obtain ⟨n, hn, hright, hpushed, hl, hr⟩ : ∃ n : Link.Net Kind.serial.Config Kind.serial.Config
      UInt8, Wired n ∧ n.right.state.delivered = [] ∧
        n.left.state.pushed = [⟨0, [1, 2]⟩] ∧ Serving n.left ∧ Serving n.right := by
    have hn : Wired (k := .serial) (j := .serial) _ :=
      ⟨s, s, ⟨_, _, _, hs⟩, ⟨_, _, _, hs⟩,
        .step (l := .inl (.call (.send [1, 2])))
        (.step (l := .inl (.call .startReading))
        (.step (l := .inl (.call (.setReadHandler (some 0))))
        (.step (l := .inr (.call .startReading))
        (.step (l := .inr (.call (.setReadHandler (some 0)))) .refl
          trivial rfl) trivial (by cases hs; rfl)) trivial rfl) trivial (by cases hs; rfl)) trivial
          (by cases hs; rfl)⟩
    obtain ⟨h₁, h₂, -⟩ := hn.parts
    refine ⟨_, hn, ?_, ?_,
      ⟨⟨h₁.onStrand, rfl, ?_, fun _ _ => trivial, fun _ hm => ?_⟩, h₁, ?_, ?_⟩,
      ⟨⟨h₂.onStrand, rfl, ?_, fun _ _ => trivial, fun hne _ => ?_⟩, h₂, ?_, ?_⟩⟩ <;> cases hs
    · rfl
    · rfl
    · rfl
    · cases hm
    · rfl
    · exact nofun
    · rfl
    · exact absurd rfl hne
    · rfl
    · exact nofun
  obtain ⟨n', hrun, htold, -⟩ := line_completes hn hl hr
  exact ⟨n, n', hright, hrun, by rw [htold, hpushed]; rfl⟩

end Kind

end TransitSession
