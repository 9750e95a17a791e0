/-
  Sessions with the applications that use them.

  An application is the user code of a session (Lib/UserCode): what its handlers do when
  they are called.  `Exchange` lists what a step of the two exchanges, and `Sends` says
  what the session has been given to send.  An application installs a read handler before
  it enables reading, and keeps one (`Attaching`); then there is a read handler whenever
  a read completes (`attached`), and the session with its application takes its place
  between two channels (`App.party`).
-/
import TransitSession.Core.Exchange
import TransitSession.Lib.UserCode
import TransitSession.Linked

namespace TransitSession

variable {D R W C E F U : Type}

/-! ## Calls and what they ask for -/

/-- The message that a call sends. -/
def Call.message? : Call W C → Option W
  | .send m => some m
  | _ => none

/-- The call sends a message, or closes the session. -/
def Call.isReply : Call W C → Prop
  | .send _ | .close => True
  | _ => False

namespace Session

/-- The messages pushed so far. -/
def messages (s : Session D R W) : List W := s.pushed.map Queued.message

variable (x : Call W C) (s : Session D R W)

theorem messages_asked :
    (s.asked x).messages = s.messages ++ if s.closed then [] else x.message?.toList := by
  cases x with
  | send m =>
    unfold asked messages
    dsimp only
    split_ifs <;> simp [Call.message?]
  | startReading =>
    unfold asked messages
    dsimp only
    split_ifs <;> simp [Call.message?, pushed]
  | _ => simp [asked, messages, Call.message?, pushed, setReadHandler]

@[simp] theorem told_asked : (s.asked x).told = s.told := by
  cases x with
  | send | startReading =>
    unfold asked
    dsimp only
    split_ifs <;> simp [told, pushBack]
  | _ => rfl

@[simp] theorem closed_asked : (s.asked x).closed = s.closed := by
  cases x with
  | send | startReading =>
    unfold asked
    dsimp only
    split_ifs <;> rfl
  | _ => rfl

end Session

theorem Behind.messages {s s' : Session D R W} (h : Behind s s') : s'.messages = s.messages := by
  unfold Session.messages
  rw [h.pushed]

/-! ## Steps of a session with its user code -/

/-- One step, by what it exchanges: a call from outside, the next call of the user code,
    its return, and the completion of an operation, which may tell the read handler
    something.  None of the others calls the read handler. -/
inductive Exchange (B : Strand.UserCode (Session D R W) (Call W C) (Frame F) U)
    (c : Strand.UserCode.Config (Session D R W) (Call W C) (Frame F) U) :
    Strand.UserCode.Label (Call W C) (Completion E) →
    Strand.UserCode.Config (Session D R W) (Call W C) (Frame F) U → Prop where
  | called (x s o) : c.stack = [] → Behind (c.state.asked x) s →
      (∀ f, o = some f → ∃ f', f = .derived f') → Exchange B c (.call x) (B.enter (s, o) [] c.own)
  | calls (f x xs st s o) : c.stack = (f, x :: xs) :: st → Behind (c.state.asked x) s →
      (∀ f, o = some f → ∃ f', f = .derived f') →
      Exchange B c .proceed (B.enter (s, o) ((f, xs) :: st) c.own)
  | returns (f st s o) : c.stack = (f, []) :: st → Behind c.state s →
      (∀ f, o = some f → ∃ f', f = .derived f') → Exchange B c .proceed (B.enter (s, o) st c.own)
  | completes (e s o) : c.stack = [] → Behind c.state s →
      (∀ f, o = some f → ∃ f', f = .derived f') → Exchange B c (.event e) (B.enter (s, o) [] c.own)
  | tells (e g s ec value) : c.stack = [] → Behind c.state s →
      Exchange B c (.event e)
        (B.enter (s.emit (.notified ec value), some (.telling g ec)) [] c.own)

section
variable {B : Strand.UserCode (Session D R W) (Call W C) (Frame F) U}
  {c c' : Strand.UserCode.Config (Session D R W) (Call W C) (Frame F) U}
  {l : Strand.UserCode.Label (Call W C) (Completion E)}

/-- **What one step exchanges.** -/
theorem step_exchange [Inhabited R] {K : SessionClass D R W C E F} (hK : K.Lawful)
    (hs : B.step K.program c l = some c') : Exchange B c l c' := by
  rcases Strand.UserCode.step_cases hs with ⟨x, rfl, hst, rfl⟩ | ⟨e, ⟨s, o⟩, rfl, hst, hr, rfl⟩ |
    ⟨f, x, xs, st, rfl, hst, rfl⟩ | ⟨f, st, rfl, hst, rfl⟩
  · exact .called x _ _ hst (SessionClass.call_behind hK x c.state)
      fun f hf => SessionClass.call_frames hK hf
  · rcases SessionClass.event_exchange hK hr with ⟨hb, ho⟩ | ⟨g, t, ec, value, hb, he⟩
    · exact .completes e s o hst hb ho
    · rw [he]
      exact .tells e g t ec value hst hb
  · exact .calls f x xs st _ _ hst (SessionClass.call_behind hK x c.state)
      fun f hf => SessionClass.call_frames hK hf
  · exact .returns f st _ _ hst (SessionClass.resume_behind hK f c.state)
      fun f hf => SessionClass.resume_frames hK hf

end

/-! ## What user code sends -/

/-- User code other than the read handler does nothing. -/
def ReadsOnly (B : Strand.UserCode (Session D R W) (Call W C) (Frame F) U) : Prop :=
  ∀ f s u, B.body (.derived f) s u = ([], u)

/-- The messages that the user code has still to send. -/
def owed (st : List (Frame F × List (Call W C))) : List W :=
  (st.flatMap Prod.snd).filterMap Call.message?

/-- An open session has been given to send `ms`, but for what is owed; a closed one the
    beginning of it. -/
structure Sends (ms : List W) (s : Session D R W) (st : List (Frame F × List (Call W C))) :
    Prop where
  initial : s.messages <+: ms
  owes : s.closed = false → s.messages ++ owed st = ms

namespace Sends
variable {ms : List W} {s s' : Session D R W} {st st' : List (Frame F × List (Call W C))}

theorem behind (h : Sends ms s st) (hb : Behind s s') : Sends ms s' st := by
  refine ⟨?_, fun ho => ?_⟩
  · rw [hb.messages]
    exact h.initial
  · rw [hb.messages]
    exact h.owes (hb.isOpen ho)

/-- A call that sends the first of what is owed, if it sends anything. -/
theorem asked (h : Sends ms s st) {x : Call W C}
    (hst : owed st = x.message?.toList ++ owed st') : Sends ms (s.asked x) st' := by
  cases hc : s.closed with
  | true =>
    have hmessages : (s.asked x).messages = s.messages := by
      rw [Session.messages_asked, if_pos hc, List.append_nil]
    refine ⟨?_, fun ho => ?_⟩
    · rw [hmessages]
      exact h.initial
    · rw [Session.closed_asked, hc] at ho
      cases ho
  | false =>
    have hmessages : (s.asked x).messages = s.messages ++ x.message?.toList := by
      rw [Session.messages_asked, if_neg (by simp [hc])]
    have howes : (s.asked x).messages ++ owed st' = ms := by
      rw [hmessages, List.append_assoc, ← hst]
      exact h.owes hc
    refine ⟨?_, fun _ => howes⟩
    rw [← howes]
    exact List.prefix_append _ _

/-- The read handler was told something, and is about to send `ms'`. -/
theorem told (h : Sends ms s ([] : List (Frame F × List (Call W C)))) {ms' : List W}
    {ec : ErrorCode} {value : R} {f : Frame F} {xs : List (Call W C)}
    (hxs : xs.filterMap Call.message? = ms') :
    Sends (ms ++ ms') (s.emit (.notified ec value)) [(f, xs)] := by
  have hmessages : (s.emit (.notified ec value)).messages = s.messages := by
    unfold Session.messages
    rw [Session.pushed_emit]
  refine ⟨?_, fun ho => ?_⟩
  · rw [hmessages]
    exact h.initial.trans (List.prefix_append _ _)
  · have howes : s.messages ++ [] = ms := h.owes ho
    rw [hmessages, ← howes, List.append_nil, owed, List.flatMap_singleton, hxs]

theorem told_quiet (h : Sends ms s ([] : List (Frame F × List (Call W C)))) {ec : ErrorCode}
    {value : R} {f : Frame F} {xs : List (Call W C)} (hxs : xs.filterMap Call.message? = []) :
    Sends ms (s.emit (.notified ec value)) [(f, xs)] := by
  have hnone : Sends (ms ++ []) (s.emit (.notified ec value)) [(f, xs)] := h.told hxs
  rwa [List.append_nil] at hnone

/-- A part of a closure that does not call the read handler. -/
theorem enter {B : Strand.UserCode (Session D R W) (Call W C) (Frame F) U} (hB : ReadsOnly B)
    (h : Sends ms s st) {o : Option (Frame F)} (ho : ∀ f, o = some f → ∃ f', f = .derived f')
    (u : U) : Sends ms (B.enter (s, o) st u).state (B.enter (s, o) st u).stack ∧
      (B.enter (s, o) st u).own = u := by
  cases o with
  | none => exact ⟨h, rfl⟩
  | some f =>
    obtain ⟨f', rfl⟩ := ho f rfl
    rw [Strand.UserCode.enter_some, hB f' s u]
    exact ⟨⟨h.initial, h.owes⟩, rfl⟩

section
variable {B : Strand.UserCode (Session D R W) (Call W C) (Frame F) U} (hB : ReadsOnly B)
  {c c' : Strand.UserCode.Config (Session D R W) (Call W C) (Frame F) U}
include hB

/-- A call from outside sends its message. -/
theorem called {x : Call W C} (he : Exchange (E := E) B c (.call x) c')
    (h : Sends ms c.state c.stack) :
    Sends (ms ++ x.message?.toList) c'.state c'.stack ∧ c'.state.told = c.state.told ∧
      c'.own = c.own := by
  cases he with
  | called _ s o hst hb ho =>
    -- as if user code were about to make the call
    have hplan : Sends (ms ++ x.message?.toList) c.state
        [((.readValue 0 : Frame F), [x])] := by
      refine ⟨h.initial.trans (List.prefix_append _ _), fun hopen => ?_⟩
      have howes := h.owes hopen
      rw [hst] at howes
      rw [← howes]
      cases hm : x.message? <;> simp [owed, hm]
    have hx : owed [((.readValue 0 : Frame F), [x])] =
        x.message?.toList ++ owed ([] : List (Frame F × List (Call W C))) := by
      cases hm : x.message? <;> simp [owed, hm]
    obtain ⟨hs, hown⟩ := enter hB ((hplan.asked hx).behind hb) ho c.own
    exact ⟨hs, by rw [Strand.UserCode.enter_state, hb.told, Session.told_asked], hown⟩

/-- **What a step sends.**  The session goes on sending `ms`, unless the read handler is
    told something. -/
theorem exchange {l : Strand.UserCode.Label (Call W C) (Completion E)}
    (hl : ∀ x, l = .call x → x.message? = none) (he : Exchange B c l c')
    (h : Sends ms c.state c.stack) :
    (Sends ms c'.state c'.stack ∧ c'.state.told = c.state.told ∧ c'.own = c.own) ∨
    ∃ g s ec value, Sends ms s ([] : List (Frame F × List (Call W C))) ∧
      s.told = c.state.told ∧
      c' = B.enter (s.emit (.notified ec value), some (.telling g ec)) [] c.own := by
  cases he with
  | called x s o hst hb ho =>
    have hcalled := called hB (.called (E := E) x s o hst hb ho) h
    rw [hl x rfl] at hcalled
    exact Or.inl (by simpa using hcalled)
  | calls f x xs st s o hst hb ho =>
    have hx : owed c.stack = x.message?.toList ++ owed ((f, xs) :: st) := by
      rw [hst]
      unfold owed
      cases hm : x.message? <;> simp [hm]
    obtain ⟨hs, hown⟩ := enter hB ((h.asked hx).behind hb) ho c.own
    exact Or.inl ⟨hs, by rw [Strand.UserCode.enter_state, hb.told, Session.told_asked], hown⟩
  | returns f st s o hst hb ho =>
    have hret : Sends ms c.state st := by
      refine ⟨h.initial, fun hopen => ?_⟩
      have := h.owes hopen
      rwa [hst] at this
    obtain ⟨hs, hown⟩ := enter hB (hret.behind hb) ho c.own
    exact Or.inl ⟨hs, by rw [Strand.UserCode.enter_state, hb.told], hown⟩
  | completes e s o hst hb ho =>
    rw [hst] at h
    obtain ⟨hs, hown⟩ := enter hB (h.behind hb) ho c.own
    exact Or.inl ⟨hs, by rw [Strand.UserCode.enter_state, hb.told], hown⟩
  | tells e g s ec value hst hb =>
    rw [hst] at h
    exact Or.inr ⟨g, s, ec, value, h.behind hb, hb.told, rfl⟩

end

end Sends

/-! ## The read handler is there -/

/-- Without a read handler nothing is read. -/
def Attached (s : Session D R W) : Prop :=
  s.readHandler = none → s.readEnabled = false ∧ s.reads = []

/-- The read handler is installed before reading is enabled, and stays. -/
def Attaches (s : Session D R W) : Call W C → Prop
  | .setReadHandler h => h ≠ none
  | .startReading => s.readHandler ≠ none
  | _ => True

namespace Attached
variable {s s' : Session D R W}

theorem behind (h : Attached s) (hb : Behind s s') : Attached s' := by
  intro hn
  rw [hb.readHandler] at hn
  exact hb.reading (h hn)

theorem asked (h : Attached s) {x : Call W C} (hx : Attaches s x) : Attached (s.asked x) := by
  cases x with
  | setReadHandler g => exact fun hn => absurd hn hx
  | startReading =>
    unfold Session.asked
    dsimp only
    split_ifs
    · exact h
    · exact fun hn => absurd hn hx
  | send m =>
    unfold Session.asked
    dsimp only
    split_ifs <;> exact h
  | _ => exact h

variable [Inhabited R] {K : SessionClass D R W C E F} (hK : K.Lawful)
include hK

theorem event (h : Attached s) {e : Completion E} {r : Session D R W × Option (Frame F)}
    (hr : K.event e s = some r) : Attached r.1 := by
  rcases SessionClass.event_exchange hK hr with ⟨hb, -⟩ | ⟨g, t, ec, value, hb, rfl⟩
  · exact h.behind hb
  · have ht : Attached t := h.behind hb
    exact ht

theorem step (h : Attached s) {st : List (Frame F)} {c' : Strand.Config (Session D R W) (Frame F)}
    {l : Strand.Label (Call W C) (Completion E)} (hl : ∀ x, l = .call x → Attaches s x)
    (hs : K.program.step ⟨s, st⟩ l = some c') : Attached c'.state := by
  rcases Strand.Program.step_cases hs with ⟨x, rfl, rfl⟩ | ⟨e, r, rfl, -, hr, rfl⟩ |
    ⟨f, st, rfl, -, rfl⟩
  · exact (h.asked (hl x rfl)).behind (SessionClass.call_behind hK x s)
  · exact h.event hK hr
  · exact h.behind (SessionClass.resume_behind hK f s)

end Attached

namespace Kind
variable {k : Kind}

/-- The steps of a session that is used on its strand, by an application that attaches
    its read handler first. -/
def Attaching (k : Kind) (c : k.Config) : k.Label → Prop
  | .call (.derived x) => k.Dispatched x
  | .call x => Attaches c.state x
  | _ => True

/-- Where there is a read handler, a read that completes finds it. -/
theorem receiving_step {c c' : k.Config} {l : k.Label} (h : Attached c.state)
    (hl : k.Attaching c l) (hs : k.cls.program.step c l = some c') : k.Receiving c l := by
  rcases Strand.Program.step_cases hs with ⟨x, rfl, -⟩ | ⟨e, r, rfl, -, hr, -⟩ |
    ⟨f, st, rfl, -, -⟩
  · cases x with
    | derived x => exact hl
    | _ => trivial
  · cases e with
    | read i ec data =>
      intro hnone
      obtain ⟨op, d, hop, -⟩ := SessionClass.event_read_eq hr
      rw [(h hnone).2] at hop
      cases hop
    | _ => trivial
  · trivial

theorem attached_state {c : k.Config} (h : k.ReachableBy k.Attaching c) : Attached c.state := by
  obtain ⟨s, hs, hr⟩ := h
  refine hr.inv (I := fun c : k.Config => Attached c.state) ?_ fun c₁ l c₂ h₁ hl hstep => ?_
  · obtain ⟨d, rfl⟩ := hs.fresh
    exact fun _ => ⟨rfl, rfl⟩
  · refine h₁.step k.lawful (fun x hx => ?_) hstep
    subst hx
    cases x with
    | derived => trivial
    | _ => exact hl

/-- **There is a read handler whenever a read completes.** -/
theorem attached {c : k.Config} (h : k.ReachableBy k.Attaching c) :
    k.ReachableBy k.Receiving c := by
  obtain ⟨s, hs, hr⟩ := h
  refine ⟨s, hs, ?_⟩
  induction hr with
  | refl => exact .refl
  | step hr hl hstep ih =>
    exact ih.step (receiving_step (attached_state ⟨s, hs, hr⟩) hl hstep) hstep

end Kind

/-! ## Applications -/

/-- An application of the sessions of a kind, with the variables `U`. -/
abbrev App (k : Kind) (U : Type) :=
  Strand.UserCode (Session k.Members k.Value k.Value) (Call k.Value k.DerivedCall)
    (Frame k.DerivedFrame) U

namespace App
variable {k : Kind}

/-- A session and its application. -/
abbrev Config (k : Kind) (U : Type) :=
  Strand.UserCode.Config (Session k.Members k.Value k.Value) (Call k.Value k.DerivedCall)
    (Frame k.DerivedFrame) U

abbrev Label (k : Kind) :=
  Strand.UserCode.Label (Call k.Value k.DerivedCall) (Completion k.DerivedEvent)

/-- What comes from outside: the calls that meet `ok`, and completions. -/
def Outside (ok : Config k U → Call k.Value k.DerivedCall → Prop) (c : Config k U) :
    Label k → Prop
  | .call x => ok c x
  | _ => True

/-- What a step takes from the transport. -/
def takes : Label k → List (List UInt8)
  | .event e => SessionClass.takes (W := k.Value) (C := k.DerivedCall) (.event e)
  | _ => []

variable (B : App k U)

theorem takes_move (c : Config k U) (l : Label k) :
    SessionClass.takes (Strand.UserCode.move c l) = takes l := by
  cases l with
  | proceed => rcases c with ⟨s, _ | ⟨⟨f, _ | ⟨x, xs⟩⟩, st⟩, u⟩ <;> rfl
  | _ => rfl

/-- A session with its application, between two channels of messages. -/
def party : Link.Party (Config k U) (Label k) (List UInt8) where
  next := B.step k.cls.program
  takes := takes
  taken c := c.state.received
  sent c := c.state.written
  taken_next {c l c'} hs := by
    rw [← takes_move c l]
    exact k.party.taken_next (Strand.UserCode.step_program hs)
  sent_next hs := k.party.sent_next (Strand.UserCode.step_program hs)

/-- The same between two channels of bytes. -/
def stream : Link.Party (Config k U) (Label k) UInt8 where
  next := B.step k.cls.program
  takes l := (takes l).flatten
  taken c := c.state.received.flatten
  sent c := c.state.written.flatten
  taken_next {c l c'} hs := by
    rw [← takes_move c l]
    exact k.stream.taken_next (Strand.UserCode.step_program hs)
  sent_next hs := k.stream.sent_next (Strand.UserCode.step_program hs)

/-- The states of the runs of a session that was just created and its application,
    whose variables are `u` at first. -/
def ReachableBy (u : U) (ok : Config k U → Call k.Value k.DerivedCall → Prop)
    (c : Config k U) : Prop :=
  ∃ s, k.Created s ∧ B.Run k.cls.program (Outside ok) ⟨s, [], u⟩ c

variable {B}

section
variable {u : U} {ok : Config k U → Call k.Value k.DerivedCall → Prop} {c c' : Config k U}
  (hB : ∀ f s u, ∀ x ∈ (B.body f s u).1, x.isReply)
  (hok : ∀ c x, ok c x → k.Attaching c.program (.call x))
include hB hok

theorem ReachableBy.attaching (h : B.ReachableBy u ok c) :
    k.ReachableBy k.Attaching c.program := by
  obtain ⟨s, hs, hr⟩ := h
  refine ⟨s, hs, ?_⟩
  refine Strand.UserCode.run_program (Q := Call.isReply) hB hok (fun _ _ _ => trivial) ?_
    (fun _ => trivial) hr nofun
  intro p x hx
  cases x with
  | send | close => trivial
  | _ => exact hx.elim

/-- **With an application that sends and closes, a session runs as it does for any other
    that attaches its read handler.** -/
theorem ReachableBy.receiving (h : B.ReachableBy u ok c) :
    k.ReachableBy k.Receiving c.program :=
  Kind.attached (h.attaching hB hok)

omit hok in
/-- A step calls what is called from outside, or a reply. -/
theorem ReachableBy.calls (h : B.ReachableBy u ok c) {l : Label k}
    (hs : B.step k.cls.program c l = some c') {x : Call k.Value k.DerivedCall}
    (hx : Strand.UserCode.move c l = .call x) : l = .call x ∨ x.isReply := by
  have hplans : c.Plans Call.isReply := by
    obtain ⟨s, -, hr⟩ := h
    exact hr.inv nofun fun _ _ _ hc _ hs => Strand.UserCode.Plans.step hB hc hs
  rcases Strand.UserCode.step_cases hs with ⟨y, rfl, -, -⟩ | ⟨e, r, rfl, -, -, -⟩ |
    ⟨f, y, ys, st, rfl, hst, -⟩ | ⟨f, st, rfl, hst, -⟩
  · cases hx
    exact Or.inl rfl
  · cases hx
  · simp only [Strand.UserCode.move, hst] at hx
    cases hx
    exact Or.inr (hplans (f, x :: ys) (by simp [hst]) x (by simp))
  · simp only [Strand.UserCode.move, hst] at hx
    cases hx

/-- So does every step of it. -/
theorem ReachableBy.receives (h : B.ReachableBy u ok c) {l : Label k} (hl : Outside ok c l)
    (hs : B.step k.cls.program c l = some c') :
    k.Receiving c.program (Strand.UserCode.move c l) := by
  refine Kind.receiving_step (Kind.attached_state (h.attaching hB hok)) ?_
    (Strand.UserCode.step_program hs)
  cases hm : Strand.UserCode.move c l with
  | call x =>
    rcases h.calls hB hs hm with rfl | hx
    · exact hok c x hl
    · cases x with
      | send | close => trivial
      | _ => exact hx.elim
  | _ => trivial

end

/-- Between two channels, it runs as the session does. -/
theorem party_runsAs (B : App k U) :
    B.party.RunsAs k.party Strand.UserCode.Config.program Strand.UserCode.move where
  next := Strand.UserCode.step_program
  takes := takes_move
  sent _ := rfl

theorem stream_runsAs (B : App k U) :
    B.stream.RunsAs k.stream Strand.UserCode.Config.program Strand.UserCode.move where
  next := Strand.UserCode.step_program
  takes c l := congrArg List.flatten (takes_move c l)
  sent _ := rfl

end App

end TransitSession
