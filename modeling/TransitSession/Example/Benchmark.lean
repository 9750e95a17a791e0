/-
  The benchmarks (example/websocket_benchmark.cpp, example/can_benchmark.cpp).

  A benchmark sends numbered messages, each after the reply to the one before, and
  gives up on a reply that is not the one it expects.  If the replies are the beginning
  of what it sent, that never happens: one message is under way at a time, and the reply
  that arrives is its own (`Timely`).  So neither the echo server nor a looped back bus
  makes the read handler give up, unless a read fails.

  The latencies and the summary are left out.  `timeout_thread` is modelled in
  Example/Timeout; here `close()` may be called from outside at any time.
-/
import TransitSession.Example.Echo

namespace TransitSession

variable {D M C E F : Type}

namespace Benchmark

/-- What the read handler makes of a reply. -/
inductive Reading where
  | ignored
  | undersized
  | sequence (actual : BitVec 32)

/-- The lines on `std::cerr`. -/
inductive Complaint where
  | readError (ec : ErrorCode)
  | undersized
  | outOfOrder (expected actual : BitVec 32)
  | timeout (receivedCount : ℕ)
deriving DecidableEq

/-- What the benchmarks differ in: the number of samples, the message with a sequence
    number, and the check of a reply. -/
structure Plan (M : Type) where
  samples : ℕ
  /-- `parse_options` refuses other numbers -/
  positive : 0 < samples
  message : BitVec 32 → M
  reading : M → Reading

/-- The variables of `main`, as `send_next` and the read handler set them. -/
structure Progress where
  sentCount : ℕ := 0
  receivedCount : ℕ := 0
  expectedSequence : BitVec 32 := 0
  failed : Bool := false
  completed : Bool := false
  complaints : List Complaint := []
deriving DecidableEq

def Progress.fail (u : Progress) (x : Complaint) : Progress :=
  { u with failed := true, completed := true, complaints := u.complaints ++ [x] }

variable (P : Plan M)

/-- `send_next`, with the message that it sends. -/
def sendNext (u : Progress) : Option M × Progress :=
  if P.samples ≤ u.sentCount then (none, u)
  else
    (some (P.message (BitVec.ofNat 32 u.sentCount)),
      { u with
        expectedSequence := BitVec.ofNat 32 u.sentCount
        sentCount := u.sentCount + 1 })

/-- The read handler, given a value. -/
def onValue (m : M) (u : Progress) : List (Call M C) × Progress :=
  match P.reading m with
  | .ignored => ([], u)
  | .undersized => ([.close], u.fail .undersized)
  | .sequence actual =>
    if actual ≠ u.expectedSequence then
      ([.close], u.fail (.outOfOrder u.expectedSequence actual))
    else
      let u := { u with receivedCount := u.receivedCount + 1 }
      if P.samples ≤ u.receivedCount then ([.close], { u with completed := true })
      else
        let r := sendNext P u
        (r.1.toList.map .send, r.2)

/-- The read handler, given the error or the value that the session tells. -/
def body : Frame F → Session D M M → Progress → List (Call M C) × Progress
  | .readError _, s, u => ([.close], u.fail (.readError (s.told.getLast?.bind Prod.fst)))
  | .readValue _, s, u =>
    match s.told.getLast? with
    | none => ([], u)
    | some p => onValue P p.2 u
  | .derived _, _, u => ([], u)

def application : Strand.UserCode (Session D M M) (Call M C) (Frame F) Progress := ⟨body P⟩

theorem body_value (f : Handler) (s : Session D M M) (m : M) (u : Progress) :
    body (C := C) (F := F) P (.readValue f) (s.emit (.notified none m)) u = onValue P m u := by
  simp only [body, Session.told_emit, List.getLast?_concat]

/-- The closures that `main` posts before it runs the session, `m` being the message that
    `send_next` sends. -/
def posted (m : Option M) : List (Strand.UserCode.Label (Call M C) (Completion E)) :=
  [.call (.setReadHandler (some 0)), .call .startReading] ++
    m.toList.map fun m => .call (.send m)

/-- The calls from outside after these: the `close()` of `timeout_thread`. -/
def Outside (x : Call M C) : Prop := x = .close

/-! ## One message at a time -/

/-- The first `n` messages. -/
def Plan.messages (n : ℕ) : List M := (List.range n).map fun i => P.message (BitVec.ofNat 32 i)

/-- The reply `g m` to a message `m` is read as the reply to `m`, if it is not ignored. -/
def Plan.Answers (g : M → M) : Prop :=
  ∀ n, P.reading (g (P.message n)) = .sequence n ∨ P.reading (g (P.message n)) = .ignored

/-- A reply counts, if it is not ignored. -/
def Plan.counts (m : M) : Bool :=
  match P.reading m with
  | .ignored => false
  | _ => true

/-- At most one message has no reply, and the read handler expects the reply to the last
    one.  Nothing but an error of a read has been complained about. -/
structure Punctual (u : Progress) : Prop where
  window : u.sentCount = min (u.receivedCount + 1) P.samples
  expected : u.expectedSequence = BitVec.ofNat 32 (u.sentCount - 1)
  bound : u.receivedCount ≤ P.samples
  goesOn : u.completed = false → u.receivedCount < P.samples
  complaints : ∀ x ∈ u.complaints, ∃ ec, x = .readError ec
  outcome : u.completed = true → u.failed = true ∨ u.receivedCount = P.samples
  blamed : u.failed = true → u.complaints ≠ []

namespace Punctual
variable {P} {u : Progress}

theorem first : Punctual P { sentCount := 1 } where
  window := (Nat.min_eq_left P.positive).symm
  expected := rfl
  bound := Nat.zero_le _
  goesOn _ := P.positive
  complaints := nofun
  outcome := nofun
  blamed := nofun

theorem readError (h : Punctual P u) (ec : ErrorCode) : Punctual P (u.fail (.readError ec)) where
  window := h.window
  expected := h.expected
  bound := h.bound
  goesOn := Bool.noConfusion
  complaints x hx := by
    rcases List.mem_append.1 hx with hx | hx
    · exact h.complaints x hx
    · exact ⟨ec, List.mem_singleton.1 hx⟩
  outcome _ := Or.inl rfl
  blamed _ := by simp [Progress.fail]

/-- The reply to the last message arrives. -/
theorem completed (h : Punctual P u) {n : ℕ} (hsent : u.sentCount = n + 1)
    (hreceived : u.receivedCount = n) (hn : P.samples ≤ n + 1) :
    Punctual P { u with receivedCount := n + 1, completed := true } := by
  have hwindow := h.window
  have hall : n + 1 = P.samples := by omega
  exact ⟨by dsimp only; omega, h.expected, hall.le, Bool.noConfusion, h.complaints,
    fun _ => Or.inr hall, h.blamed⟩

/-- A reply arrives, and the next message is sent. -/
theorem next (h : Punctual P u) {n : ℕ} (hreceived : u.receivedCount = n)
    (hn : n + 1 < P.samples) :
    Punctual P { u with
      receivedCount := n + 1
      expectedSequence := BitVec.ofNat 32 (n + 1)
      sentCount := n + 2 } := by
  refine ⟨by dsimp only; omega, rfl, hn.le, fun _ => hn, h.complaints, fun hdone => ?_, h.blamed⟩
  rcases h.outcome hdone with hfail | hdone
  · exact Or.inl hfail
  · omega

end Punctual

/-- The messages before `sent_count` were given to the session, `received_count` is the
    number of replies that count, and the replies are awaited in turn. -/
structure Timely (c : Strand.UserCode.Config (Session D M M) (Call M C) (Frame F) Progress) :
    Prop where
  sends : Sends (P.messages c.own.sentCount) c.state c.stack
  received : c.own.receivedCount = c.state.delivered.countP P.counts
  punctual : Punctual P c.own

variable {P} {g : M → M}

theorem messages_succ (n : ℕ) :
    P.messages (n + 1) = P.messages n ++ [P.message (BitVec.ofNat 32 n)] := by
  rw [Plan.messages, List.range_succ, List.map_append]
  rfl

/-- A reply that arrives is the reply to a message that was sent. -/
theorem reply_eq {ds ms : List M} {m : M} {k : ℕ} (h : ds ++ [m] <+: ms.map g)
    (hms : ms <+: P.messages k) :
    ds.length < k ∧ m = g (P.message (BitVec.ofNat 32 ds.length)) := by
  have hall : ds ++ [m] <+: (P.messages k).map g := h.trans (hms.map g)
  have hlt : ds.length < ((P.messages k).map g).length := by
    have := hall.length_le
    rw [List.length_append, List.length_singleton] at this
    exact this
  have hget := hall.getElem (i := ds.length) (by simp)
  rw [List.getElem_concat_length rfl] at hget
  refine ⟨by simpa [Plan.messages] using hlt, ?_⟩
  rw [hget, List.getElem_map]
  simp [Plan.messages]

/-- What the read handler does with the reply that it expects, or ignores. -/
theorem onValue_eq {m : M} {u : Progress} {n : ℕ} (hsent : u.sentCount = n + 1)
    (hreceived : u.receivedCount = n)
    (hexpected : u.expectedSequence = BitVec.ofNat 32 n)
    (hm : P.reading m = .sequence (BitVec.ofNat 32 n) ∨ P.reading m = .ignored) :
    P.counts m = false ∧ onValue (C := C) P m u = ([], u) ∨
    P.counts m = true ∧ P.samples ≤ n + 1 ∧
      onValue (C := C) P m u = ([.close], { u with receivedCount := n + 1, completed := true }) ∨
    P.counts m = true ∧ n + 1 < P.samples ∧
      onValue (C := C) P m u = ([.send (P.message (BitVec.ofNat 32 (n + 1)))],
        { u with
          receivedCount := n + 1
          expectedSequence := BitVec.ofNat 32 (n + 1)
          sentCount := n + 2 }) := by
  unfold onValue Plan.counts
  rcases hm with hm | hm <;> rw [hm]
  · dsimp only
    rw [if_neg (by simp [hexpected]), hreceived]
    by_cases hs : P.samples ≤ n + 1
    · exact Or.inr (Or.inl ⟨rfl, hs, by rw [if_pos hs]⟩)
    · refine Or.inr (Or.inr ⟨rfl, Nat.lt_of_not_le hs, ?_⟩)
      rw [if_neg hs, sendNext, hsent, if_neg hs]
      rfl
  · exact Or.inl ⟨rfl, rfl⟩

namespace Timely
variable {c c' : Strand.UserCode.Config (Session D M M) (Call M C) (Frame F) Progress}
  {l : Strand.UserCode.Label (Call M C) (Completion E)} {s : Session D M M}
  {st : List (Frame F × List (Call M C))} {u u' : Progress}

/-- The reply to the last message arrives. -/
theorem value (h : Timely P ⟨s, ([] : List (Frame F × List (Call M C))), u⟩)
    (hP : P.Answers g) {m : M} {f : Frame F}
    (hlt : s.delivered.length < u.sentCount)
    (hm : m = g (P.message (BitVec.ofNat 32 s.delivered.length))) :
    Timely P ⟨s.emit (.notified none m), [(f, (onValue (C := C) P m u).1)],
      (onValue (C := C) P m u).2⟩ := by
  have hpunctual : Punctual P u := h.punctual
  have hwindow := hpunctual.window
  have hcount : u.receivedCount = s.delivered.countP P.counts := h.received
  have hle : s.delivered.countP P.counts ≤ s.delivered.length := List.countP_le_length
  have hreceived : u.receivedCount = s.delivered.length := by omega
  have hsent : u.sentCount = s.delivered.length + 1 := by omega
  have hdelivered : (s.emit (.notified none m)).delivered.countP P.counts =
      s.delivered.length + if P.counts m then 1 else 0 := by
    rw [Session.delivered_emit, List.countP_append, ← hcount, hreceived]
    exact congrArg (s.delivered.length + ·) List.countP_singleton
  have hexpected : u.expectedSequence = BitVec.ofNat 32 s.delivered.length := by
    rw [hpunctual.expected, hsent, Nat.add_sub_cancel]
  have hsends : Sends (P.messages u.sentCount) s ([] : List (Frame F × List (Call M C))) := h.sends
  rcases onValue_eq (C := C) hsent hreceived hexpected (hm ▸ hP _) with
    ⟨hc, he⟩ | ⟨hc, hs, he⟩ | ⟨hc, hs, he⟩ <;> rw [he] <;> rw [hc] at hdelivered
  · exact ⟨hsends.told_quiet rfl, hreceived.trans hdelivered.symm, hpunctual⟩
  · exact ⟨hsends.told_quiet rfl, hdelivered.symm, hpunctual.completed hsent hreceived hs⟩
  · have hnext : P.messages (s.delivered.length + 2) = P.messages u.sentCount ++
        [P.message (BitVec.ofNat 32 (s.delivered.length + 1))] := by
      rw [hsent, messages_succ]
    refine ⟨?_, hdelivered.symm, hpunctual.next hreceived hs⟩
    show Sends (P.messages (s.delivered.length + 2)) _ _
    rw [hnext]
    exact hsends.told rfl

/-- **Every step is in time**, if what is told is the beginning of what was sent. -/
theorem step [Inhabited M] {K : SessionClass D M M C E F} (hK : K.Lawful) (hP : P.Answers g)
    (h : Timely P c) (hl : ∀ x, l = .call x → Outside x)
    (hreply : c'.state.delivered <+: c'.state.messages.map g)
    (hs : (application P).step K.program c l = some c') : Timely P c' := by
  have hquiet : ∀ x, l = .call x → x.message? = none := by
    intro x hx
    rw [hl x hx]
    rfl
  rcases Sends.exchange (B := application P) (fun _ _ _ => rfl) hquiet (step_exchange hK hs)
    h.sends with ⟨hsends, htold, hown⟩ | ⟨f, s, ec, value, hsends, htold, rfl⟩
  · have hdelivered := Session.delivered_of_told htold
    rw [← hown] at hsends
    exact ⟨hsends, by rw [hown, hdelivered]; exact h.received, hown ▸ h.punctual⟩
  · have hdelivered := Session.delivered_of_told htold
    have hlast : Timely P ⟨s, ([] : List (Frame F × List (Call M C))), c.own⟩ :=
      ⟨hsends, by rw [hdelivered]; exact h.received, h.punctual⟩
    rw [Strand.UserCode.enter_some]
    cases ec with
    | some e =>
      refine ⟨hsends.told_quiet rfl, hlast.received.trans ?_, h.punctual.readError _⟩
      rw [Session.delivered_emit]
      exact congrArg (List.countP P.counts) (List.append_nil _).symm
    | none =>
      rw [Strand.UserCode.enter_state, Session.delivered_emit] at hreply
      have hmessages : (s.emit (.notified none value)).messages = s.messages := by
        unfold Session.messages
        rw [Session.pushed_emit]
      rw [hmessages] at hreply
      obtain ⟨hlt, hm⟩ := reply_eq hreply hsends.initial
      have hvalue := hlast.value (f := .readValue f) hP hlt hm
      rw [← body_value (F := F) P f s value c.own] at hvalue
      exact hvalue

section
variable (h : Timely P c) (hreply : c.state.delivered <+: c.state.messages.map g)
include h hreply

/-- The replies that arrived are replies to its messages. -/
theorem replies : c.state.delivered <+: (P.messages c.own.sentCount).map g :=
  hreply.trans (h.sends.initial.map g)

theorem reply {m : M} (hm : m ∈ c.state.delivered) : ∃ i, m = g (P.message i) := by
  obtain ⟨m', hm', rfl⟩ := List.mem_map.1 ((h.replies hreply).subset hm)
  obtain ⟨i, -, rfl⟩ := List.mem_map.1 hm'
  exact ⟨_, rfl⟩

theorem received_all (hall : ∀ i, P.counts (g (P.message i)) = true) :
    c.own.receivedCount = c.state.delivered.length := by
  refine h.received.trans (List.countP_eq_length.2 fun m hm => ?_)
  obtain ⟨i, rfl⟩ := h.reply hreply hm
  exact hall i

theorem received_none (hnone : ∀ i, P.counts (g (P.message i)) = false) :
    c.own.receivedCount = 0 := by
  refine h.received.trans (List.countP_eq_zero.2 fun m hm => ?_)
  obtain ⟨i, rfl⟩ := h.reply hreply hm
  rw [hnone]
  exact Bool.noConfusion

end

end Timely

/-! ## Runs -/

section
variable {k : Kind} {U M' C₂ L₂ : Type} [DecidableEq M']

/-- The steps of a benchmark and the other end of its connection, which take place as
    `right` allows. -/
def Steps (right : C₂ → L₂ → Prop) (n : Link.Net (App.Config k U) C₂ M') :
    App.Label k ⊕ L₂ → Prop
  | .inl l => App.Outside (fun _ x => Outside x) n.left l
  | .inr l => right n.right l

/-- The states of the runs of a benchmark and the other end of its connection, `b` at
    first: the closures that `main` posts, and anything afterwards. -/
def Running (A : Link.Party (App.Config k U) (App.Label k) M') (E : Link.Party C₂ L₂ M')
    (m : Option k.Value) (u : U) (b : C₂) (right : C₂ → L₂ → Prop)
    (n : Link.Net (App.Config k U) C₂ M') : Prop :=
  ∃ s n₀, k.Created s ∧
    Transition.exec (Link.step A E) (.start ⟨s, [], u⟩ b) ((posted m).map .inl) = some n₀ ∧
    Transition.Run (Link.step A E) (Steps right) n₀ n

/-- The steps of a session that is used on its strand, and of the other end. -/
def Attending (right : C₂ → L₂ → Prop) (n : Link.Net (App.Config k U) C₂ M') :
    App.Label k ⊕ L₂ → Prop
  | .inl l => App.Outside (fun c x => k.Attaching c.program (.call x)) n.left l
  | .inr l => right n.right l

omit [DecidableEq M'] in
theorem Steps.attending {right : C₂ → L₂ → Prop} {n : Link.Net (App.Config k U) C₂ M'}
    {l : App.Label k ⊕ L₂} (h : Steps right n l) : Attending right n l := by
  cases l with
  | inl l =>
    cases l with
    | call x =>
      obtain rfl : x = .close := h
      trivial
    | _ => trivial
  | inr l => exact h

variable {A : Link.Party (App.Config k U) (App.Label k) M'} {E : Link.Party C₂ L₂ M'}
  {B : App k U} {u : U} {b : C₂} {right : C₂ → L₂ → Prop} {n : Link.Net (App.Config k U) C₂ M'}
  (hA : A.next = B.step k.cls.program)
include hA

/-- What the closures that `main` posts do. -/
theorem posted_run (hB : ReadsOnly B) {m : k.Value} {s : Session k.Members k.Value k.Value}
    (hs : k.Created s) {n₀ : Link.Net (App.Config k U) C₂ M'}
    (h : Transition.exec (Link.step A E) (.start ⟨s, [], u⟩ b) ((posted (some m)).map .inl) =
      some n₀) :
    Transition.Run (Link.step A E) (Attending right) (.start ⟨s, [], u⟩ b) n₀ ∧
      Sends [m] n₀.left.state n₀.left.stack ∧ n₀.left.state.told = [] ∧ n₀.left.own = u := by
  simp only [posted, Transition.exec, Option.toList_some, List.map_cons, List.map_nil,
    List.cons_append, List.nil_append, List.foldlM_cons, List.foldlM_nil, bind,
    Option.bind_eq_some_iff, pure, Option.some.injEq] at h
  obtain ⟨n₁, h₁, n₂, h₂, _, h₃, rfl⟩ := h
  obtain ⟨a₁, rest₁, ha₁, -, rfl⟩ := Link.step_left h₁
  obtain ⟨a₂, rest₂, ha₂, -, rfl⟩ := Link.step_left h₂
  obtain ⟨a₃, rest₃, ha₃, -, rfl⟩ := Link.step_left h₃
  rw [hA] at ha₁ ha₂ ha₃
  have hfresh : Sends (F := k.DerivedFrame) (C := k.DerivedCall) [] s [] ∧ s.told = [] := by
    obtain ⟨d, rfl⟩ := hs.fresh
    exact ⟨⟨List.prefix_rfl, fun _ => rfl⟩, rfl⟩
  obtain ⟨hs₁, htold₁, hown₁⟩ := Sends.called hB (step_exchange k.lawful ha₁) hfresh.1
  obtain ⟨hs₂, htold₂, hown₂⟩ := Sends.called hB (step_exchange k.lawful ha₂) hs₁
  obtain ⟨hs₃, htold₃, hown₃⟩ := Sends.called hB (step_exchange k.lawful ha₃) hs₂
  refine ⟨.step (.step (.step .refl ?_ h₁) ?_ h₂) ?_ h₃, hs₃,
    htold₃.trans (htold₂.trans (htold₁.trans hfresh.2)), hown₃.trans (hown₂.trans hown₁)⟩
  · exact Option.some_ne_none 0
  · -- the handler was set by the closure before
    obtain rfl := Option.some.inj ha₁
    exact Option.some_ne_none 0
  · trivial

variable {m : k.Value} (h : Running A E (some m) u b right n) (hB : ReadsOnly B)
include h hB

/-- The whole run is one of a session that is used on its strand. -/
theorem Running.attends : ∃ s, k.Created s ∧
    Transition.Run (Link.step A E) (Attending right) (.start ⟨s, [], u⟩ b) n := by
  obtain ⟨s, n₀, hs, hposted, hr⟩ := h
  exact ⟨s, hs, (posted_run hA hB hs hposted).1.trans (hr.mono fun _ _ => Steps.attending)⟩

/-- **Invariants of a benchmark.**  `T` is what its session keeps, whatever its
    application does. -/
theorem Running.inv {T I : App.Config k U → Prop}
    (hT : ∀ s n, k.Created s →
      Transition.Run (Link.step A E) (Attending right) (.start ⟨s, [], u⟩ b) n → T n.left)
    (h₀ : ∀ c : App.Config k U, Sends [m] c.state c.stack → c.state.told = [] → c.own = u → I c)
    (hI : ∀ c l c', I c → T c' → (∀ x, l = .call x → Outside x) →
      B.step k.cls.program c l = some c' → I c') : I n.left := by
  obtain ⟨s, n₀, hs, hposted, hr⟩ := h
  induction hr with
  | refl =>
    obtain ⟨-, hsends, htold, hown⟩ :=
      (posted_run hA hB hs hposted : Transition.Run _ (Attending right) _ _ ∧ _)
    exact h₀ _ hsends htold hown
  | @step n₁ n₂ l hrun hl hstep ih =>
    obtain ⟨s', hs', hall⟩ :=
      Running.attends hA ⟨s, n₀, hs, hposted, .step hrun hl hstep⟩ hB
    have hnext := hT s' n₂ hs' hall
    cases l with
    | inl l =>
      obtain ⟨a, rest, ha, -, rfl⟩ := Link.step_left hstep
      rw [hA] at ha
      refine hI _ l _ ih hnext (fun x hx => ?_) ha
      subst hx
      exact hl
    | inr l =>
      obtain ⟨b, rest, -, -, rfl⟩ := Link.step_right hstep
      exact ih

end

section
variable {k : Kind} {P : Plan k.Value} {g : k.Value → k.Value}

abbrev Config (k : Kind) := App.Config k Progress

/-- The benchmark `P`, on a session of a kind. -/
abbrev app (P : Plan k.Value) : App k Progress := application P

theorem onValue_replies (m : k.Value) (u : Progress) :
    ∀ x ∈ (onValue (C := k.DerivedCall) P m u).1, x.isReply := by
  intro x hx
  unfold onValue at hx
  split at hx
  · cases hx
  · rw [List.mem_singleton.1 hx]
    trivial
  · dsimp only at hx
    split_ifs at hx
    · rw [List.mem_singleton.1 hx]
      trivial
    · rw [List.mem_singleton.1 hx]
      trivial
    · obtain ⟨m', -, rfl⟩ := List.mem_map.1 hx
      trivial

theorem body_replies (f : Frame k.DerivedFrame) (s : Session k.Members k.Value k.Value)
    (u : Progress) : ∀ x ∈ ((app P).body f s u).1, x.isReply := by
  intro x hx
  cases f with
  | readError =>
    rw [List.mem_singleton.1 hx]
    trivial
  | readValue =>
    simp only [application, body] at hx
    split at hx
    · cases hx
    · exact onValue_replies _ _ x hx
  | derived => cases hx

/-- The message of `main`, and its variables when it runs the session. -/
theorem sendNext_first : sendNext P {} = (some (P.message 0), { sentCount := 1 }) := by
  have hs : ¬ P.samples ≤ ({} : Progress).sentCount := Nat.not_le.2 P.positive
  unfold sendNext
  rw [if_neg hs]
  rfl

variable {C₂ L₂ : Type} {E : Link.Party C₂ L₂ (List UInt8)} {b : C₂} {right : C₂ → L₂ → Prop}
  {n : Link.Net (Config k) C₂ (List UInt8)}

/-- The states of the runs of the benchmark `P`. -/
def Runs (P : Plan k.Value) (E : Link.Party C₂ L₂ (List UInt8)) (b : C₂)
    (right : C₂ → L₂ → Prop) (n : Link.Net (Config k) C₂ (List UInt8)) : Prop :=
  Running (app P).party E (sendNext P {}).1 (sendNext P {}).2 b right n

theorem attends_receiving {u : Progress} {s : Session k.Members k.Value k.Value}
    (hs : k.Created s)
    (h : Transition.Run (Link.step (app P).party E) (Attending right) (.start ⟨s, [], u⟩ b) n) :
    k.ReachableBy k.Receiving n.left.program :=
  App.ReachableBy.receiving (B := app P) body_replies (fun _ _ hx => hx)
    ⟨s, hs, Link.run_left (fun _ _ hl => hl) h⟩

section
variable (h : Runs P E b right n) (hP : P.Answers g)
  (hreply : ∀ u s n, k.Created s → Transition.Run (Link.step (app P).party E)
    (Attending right) (.start ⟨s, [], u⟩ b) n →
    n.left.state.delivered <+: n.left.state.messages.map g)
include h hP hreply

/-- **A benchmark is in time**, if all along the replies are the beginning of what it
    sent. -/
theorem Runs.timely : Timely P n.left := by
  unfold Runs at h
  rw [sendNext_first] at h
  refine h.inv rfl (fun _ _ _ => rfl)
    (T := fun c => c.state.delivered <+: c.state.messages.map g) (hreply _)
    (fun c hsends htold hown => ?_) fun c l c' hc hT hl hs => hc.step k.lawful hP hl hT hs
  have hnone : c.state.delivered = [] := by
    rw [Session.delivered_eq, htold]
    rfl
  refine ⟨?_, ?_, ?_⟩ <;> rw [hown]
  · exact hsends
  · rw [hnone]
    rfl
  · exact .first

end

end

/-! ## The sequence number -/

/-- `std::memcpy` of a `std::uint32_t`, on a little-endian machine. -/
def sequenceBytes (sequence : BitVec 32) : List UInt8 :=
  [⟨sequence.extractLsb' 0 8⟩, ⟨sequence.extractLsb' 8 8⟩, ⟨sequence.extractLsb' 16 8⟩,
    ⟨sequence.extractLsb' 24 8⟩]

/-- `std::memcpy` to a `std::uint32_t`. -/
def sequenceOf (data : List UInt8) : BitVec 32 :=
  (data.getD 3 0).toBitVec ++ (data.getD 2 0).toBitVec ++ (data.getD 1 0).toBitVec ++
    (data.getD 0 0).toBitVec

theorem sequenceOf_bytes {data : List UInt8} {sequence : BitVec 32}
    (h : sequenceBytes sequence <+: data) : sequenceOf data = sequence := by
  obtain ⟨rest, rfl⟩ := h
  exact Can.idBytes_join sequence

/-! ## The WebSocket benchmark -/

def makePayload (payloadSize : ℕ) (sequence : BitVec 32) : List UInt8 :=
  sequenceBytes sequence ++ (List.range' 4 (payloadSize - 4)).map UInt8.ofNat

/-- The options that `parse_options` accepts, less those of the connection. -/
structure Options where
  payloadSize : ℕ := 32
  samples : ℕ := 1000
  fits : 4 ≤ payloadSize := by decide
  positive : 0 < samples := by decide

theorem makePayload_length (o : Options) (sequence : BitVec 32) :
    (makePayload o.payloadSize sequence).length = o.payloadSize := by
  have := o.fits
  simp only [makePayload, sequenceBytes, List.length_append, List.length_cons, List.length_nil,
    List.length_map, List.length_range']
  omega

def webSocketPlan (o : Options) : Plan Kind.webSocket.Value where
  samples := o.samples
  positive := o.positive
  message := makePayload o.payloadSize
  reading data := if data.length < 4 then .undersized else .sequence (sequenceOf data)

theorem webSocketPlan_answers (o : Options) : (webSocketPlan o).Answers id := by
  intro sequence
  have hlen : ¬ (makePayload o.payloadSize sequence).length < 4 := by
    rw [makePayload_length]
    exact Nat.not_lt.2 o.fits
  refine Or.inl ?_
  show (if (makePayload o.payloadSize sequence).length < 4 then Reading.undersized
    else .sequence (sequenceOf (makePayload o.payloadSize sequence))) = _
  rw [if_neg hlen]
  exact congrArg Reading.sequence (sequenceOf_bytes (List.prefix_append _ _))

theorem webSocketPlan_counts (o : Options) (data : List UInt8) :
    (webSocketPlan o).counts data = true := by
  unfold Plan.counts webSocketPlan
  dsimp only
  split_ifs <;> rfl

/-- What the benchmark is told of is the beginning of what it sent. -/
theorem webSocket_replies {o : Options} {u : Progress} {s : WebSocketSession}
    {s₂ : WebSocketServerSession} (hs : Kind.webSocket.Created s)
    (hs₂ : Kind.webSocketServer.Created s₂)
    {n : Link.Net (Config .webSocket) Echo.Config (List UInt8)}
    (hr : Transition.Run (Link.step (app (webSocketPlan o)).party Echo.application.party)
      (Attending (App.Outside Echo.Outside)) (.start ⟨s, [], u⟩ ⟨s₂, [], ()⟩) n) :
    n.left.state.delivered <+: n.left.state.messages := by
  have hc : Link.Conserved (app (webSocketPlan o)).party Echo.application.party n := by
    refine Link.conserved hr ?_
    obtain ⟨d₁, rfl⟩ := hs.fresh
    obtain ⟨d₂, rfl⟩ := hs₂.fresh
    exact ⟨rfl, rfl⟩
  have hleft := attends_receiving hs hr
  exact (Echo.returned hleft ⟨s₂, hs₂, Link.run_right (fun _ _ hl => hl) hr⟩ hc.toRight
    hc.toLeft).initial

theorem Runs.webSocket {o : Options} {s₂ : WebSocketServerSession}
    (hs₂ : Kind.webSocketServer.Created s₂)
    {n : Link.Net (Config .webSocket) Echo.Config (List UInt8)}
    (h : Runs (webSocketPlan o) Echo.application.party ⟨s₂, [], ()⟩ (App.Outside Echo.Outside) n) :
    Timely (webSocketPlan o) n.left ∧ n.left.state.delivered <+: n.left.state.messages := by
  have htimely := h.timely (webSocketPlan_answers o) fun u s n hs hr => by
    rw [List.map_id]
    exact webSocket_replies hs hs₂ hr
  unfold Runs at h
  rw [sendNext_first] at h
  obtain ⟨s, hs, hr⟩ := h.attends rfl (fun _ _ _ => rfl)
  exact ⟨htimely, webSocket_replies hs hs₂ hr⟩

/-- **The WebSocket benchmark is in time.**  Connected to a session of the echo server,
    it never takes a reply for one that is out of order or undersized, whatever else
    happens: the replies it is told of are its own messages, in order, and it counts
    them all. -/
theorem webSocket_in_time {o : Options} {s₂ : WebSocketServerSession}
    (hs₂ : Kind.webSocketServer.Created s₂)
    {n : Link.Net (Config .webSocket) Echo.Config (List UInt8)}
    (h : Runs (webSocketPlan o) Echo.application.party ⟨s₂, [], ()⟩ (App.Outside Echo.Outside) n) :
    Timely (webSocketPlan o) n.left ∧
      n.left.state.delivered <+: (webSocketPlan o).messages n.left.own.sentCount ∧
      n.left.own.receivedCount = n.left.state.delivered.length := by
  obtain ⟨htimely, hreplies⟩ := h.webSocket hs₂
  refine ⟨htimely, hreplies.trans htimely.sends.initial, ?_⟩
  refine htimely.received_all (g := id) ?_ fun i => webSocketPlan_counts o _
  rw [List.map_id]
  exact hreplies

/-- A benchmark of one sample, which completes. -/
theorem webSocket_in_time_one :
    ∃ n : Link.Net (Config .webSocket) Echo.Config (List UInt8),
      n.left.own.completed = true ∧ n.left.own.failed = false ∧
      n.left.state.delivered = [[0, 0, 0, 0]] ∧
      n.left.own.receivedCount = n.left.state.delivered.length := by
  obtain ⟨s, hs⟩ : ∃ s, WebSocketSession.create {} {} = some s := ⟨_, rfl⟩
  have hr : Runs (webSocketPlan { payloadSize := 4, samples := 1 }) Echo.application.party
      ⟨WebSocketServerSession.create {}, [], ()⟩ (App.Outside Echo.Outside) _ :=
    ⟨s, _, ⟨_, _, hs⟩, by cases hs; rfl,
      .step (l := .inl (.event (.read 0 none [0, 0, 0, 0])))
      (.step (l := .inr .proceed)
      (.step (l := .inr (.event (.read 0 none [0, 0, 0, 0])))
      (.step (l := .inr (.call .startReading))
      (.step (l := .inr (.call (.setReadHandler (some 0)))) .refl
        (by exact ⟨nofun, rfl⟩) (by rfl)) (by exact ⟨nofun, rfl⟩) (by rfl)) trivial (by rfl))
        trivial (by rfl)) trivial (by rfl)⟩
  refine ⟨_, ?_, ?_, ?_, (webSocket_in_time ⟨_, rfl⟩ hr).2.2⟩
  · rfl
  · rfl
  · rfl

/-! ## The CAN benchmark -/

def makeFrame (canId : BitVec 32) (fdFrame : Bool) (sequence : BitVec 32) : Can.CanFrame where
  id := canId
  fdFrame := fdFrame
  dataLength := if fdFrame then 16 else 8
  bitrateSwitch := fdFrame
  data := Vector.ofFn fun i =>
    if i.val < 4 then (sequenceBytes sequence).getD i.val 0
    else if i.val < if fdFrame then 16 else 8 then UInt8.ofNat i.val
    else 0

/-- The options that `parse_options` accepts. -/
structure CanOptions where
  canId : BitVec 32 := 0x123#32
  samples : ℕ := 1000
  fdFrame : Bool := false
  positive : 0 < samples := by decide

def canPlan (o : CanOptions) : Plan Kind.can.Value where
  samples := o.samples
  positive := o.positive
  message := makeFrame o.canId o.fdFrame
  reading frame :=
    if frame.id ≠ o.canId ∨ frame.dataLength < 4 then .ignored
    else .sequence (sequenceOf frame.data.toList)

/-- The sequence number stands in the data that a frame carries. -/
theorem sequenceOf_makeFrame (canId : BitVec 32) (fdFrame : Bool) (sequence : BitVec 32) :
    sequenceOf (Can.received (makeFrame canId fdFrame sequence)).data.toList = sequence := by
  have hlen : 4 ≤ (makeFrame canId fdFrame sequence).dataLength := by
    show 4 ≤ if fdFrame then 16 else 8
    split_ifs <;> omega
  have hget (i : ℕ) (hi : i < 4) :
      (Can.received (makeFrame canId fdFrame sequence)).data.toList.getD i 0 =
        (sequenceBytes sequence).getD i 0 := by
    have h64 : i < 64 := by omega
    have hin : i < (makeFrame canId fdFrame sequence).dataLength := by omega
    have hdata : (Can.received (makeFrame canId fdFrame sequence)).data.toList.getD i 0 =
        (makeFrame canId fdFrame sequence).data[i] := by
      simp [Can.received, Can.CanFrame.zeroTail, hin, h64, List.getD_eq_getElem?_getD]
      rfl
    rw [hdata]
    simp [makeFrame, hi]
  unfold sequenceOf
  rw [hget 3 (by omega), hget 2 (by omega), hget 1 (by omega), hget 0 (by omega)]
  exact Can.idBytes_join sequence

theorem canPlan_answers (o : CanOptions) : (canPlan o).Answers Can.received := by
  intro sequence
  have hreading : (canPlan o).reading (Can.received ((canPlan o).message sequence)) =
      if (Can.received (makeFrame o.canId o.fdFrame sequence)).id ≠ o.canId ∨
        (Can.received (makeFrame o.canId o.fdFrame sequence)).dataLength < 4 then .ignored
      else .sequence sequence := by
    show (if _ then Reading.ignored
      else .sequence (sequenceOf (Can.received (makeFrame o.canId o.fdFrame sequence)).data.toList))
        = _
    rw [sequenceOf_makeFrame]
    rfl
  rw [hreading]
  split_ifs
  · exact Or.inr rfl
  · exact Or.inl rfl

/-- The frames come back with the identifier `o.canId`, if it has 29 bits. -/
theorem canPlan_counts (o : CanOptions) (i : BitVec 32) :
    (canPlan o).counts (Can.received ((canPlan o).message i)) =
      decide (o.canId ≤ Can.canEffMask) := by
  have hlen : ¬ (Can.received (makeFrame o.canId o.fdFrame i)).dataLength < 4 := by
    show ¬ (if o.fdFrame then 16 else 8) < 4
    split_ifs <;> omega
  have hid : (Can.received (makeFrame o.canId o.fdFrame i)).id = o.canId ↔
      o.canId ≤ Can.canEffMask := Can.and_canEffMask_eq_iff o.canId
  unfold Plan.counts canPlan
  dsimp only
  split_ifs with h
  · exact (decide_eq_false fun hle => h.elim (fun hne => hne (hid.2 hle)) hlen).symm
  · exact (decide_eq_true (hid.1 (not_not.1 fun hne => h (Or.inl hne)))).symm

/-- What the benchmark is told of is the beginning of what it sent, as it decodes. -/
theorem can_replies {o : CanOptions} {u : Progress} {s : CanSession} (hs : Kind.can.Created s)
    {n : Link.Net (Config .can) (List (List UInt8)) (List UInt8)}
    (hr : Transition.Run (Link.step (app (canPlan o)).party (Link.wire (List UInt8)))
      (Attending fun _ _ => True) (.start ⟨s, [], u⟩ []) n) :
    n.left.state.delivered <+: n.left.state.messages.map Can.received := by
  have hc : Link.Conserved (app (canPlan o)).party (Link.wire (List UInt8)) n := by
    refine Link.conserved hr ?_
    obtain ⟨d, rfl⟩ := hs.fresh
    exact ⟨rfl, rfl⟩
  have hleft := attends_receiving hs hr
  -- the session is told what it has sent itself
  exact (Kind.told (k := .can) (j := .can) hleft.onStrand hleft hc.looped
    fun _ _ _ he => Kind.payload_encodeFrame he).initial

theorem Runs.can {o : CanOptions} {n : Link.Net (Config .can) (List (List UInt8)) (List UInt8)}
    (h : Runs (canPlan o) (Link.wire (List UInt8)) [] (fun _ _ => True) n) :
    Timely (canPlan o) n.left ∧
      n.left.state.delivered <+: n.left.state.messages.map Can.received := by
  have htimely := h.timely (canPlan_answers o) fun _ _ _ hs hr => can_replies hs hr
  unfold Runs at h
  rw [sendNext_first] at h
  obtain ⟨s, hs, hr⟩ := h.attends rfl (fun _ _ _ => rfl)
  exact ⟨htimely, can_replies hs hr⟩

/-- **The CAN benchmark is in time.**  On a bus that loops its frames back, and with no
    other node, it never takes a frame for one that is out of order: the frames it is told
    of are its own, in order, and it counts them all, if their identifier has 29 bits.
    Frames with another identifier do not come back as they were sent, and it counts
    none. -/
theorem can_in_time {o : CanOptions} {n : Link.Net (Config .can) (List (List UInt8)) (List UInt8)}
    (h : Runs (canPlan o) (Link.wire (List UInt8)) [] (fun _ _ => True) n) :
    Timely (canPlan o) n.left ∧
      n.left.state.delivered <+: ((canPlan o).messages n.left.own.sentCount).map Can.received ∧
      n.left.own.receivedCount =
        if o.canId ≤ Can.canEffMask then n.left.state.delivered.length else 0 := by
  obtain ⟨htimely, hreplies⟩ := h.can
  refine ⟨htimely, htimely.replies hreplies, ?_⟩
  split_ifs with hid
  · exact htimely.received_all hreplies fun i =>
      (canPlan_counts o i).trans (decide_eq_true hid)
  · exact htimely.received_none hreplies fun i =>
      (canPlan_counts o i).trans (decide_eq_false hid)

/-- A benchmark of one sample, which completes. -/
theorem can_in_time_one :
    ∃ n : Link.Net (Config .can) (List (List UInt8)) (List UInt8),
      n.left.own.completed = true ∧ n.left.own.failed = false ∧
      n.left.state.delivered.length = 1 ∧
      n.left.own.receivedCount = n.left.state.delivered.length := by
  obtain ⟨s, hs⟩ : ∃ s, CanSession.create { socket := .ok 3 } {} = some s := ⟨_, rfl⟩
  have hr : Runs (canPlan { samples := 1 }) (Link.wire (List UInt8)) [] (fun _ _ => True) _ :=
    ⟨s, _, ⟨_, _, hs⟩, by cases hs; rfl,
      .step (l := .inl (.event (.read 0 none
        [0x23, 1, 0, 0, 8, 0, 0, 0, 0, 0, 0, 0, 4, 5, 6, 7])))
      (.step (l := .inr [0x23, 1, 0, 0, 8, 0, 0, 0, 0, 0, 0, 0, 4, 5, 6, 7]) .refl
        trivial (by rfl)) trivial (by rfl)⟩
  refine ⟨_, ?_, ?_, ?_, (can_in_time hr).2.2.trans (if_pos (by decide))⟩
  · rfl
  · rfl
  · rfl

end Benchmark

end TransitSession
