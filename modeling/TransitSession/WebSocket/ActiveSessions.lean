/-
  `active_sessions_` and the sessions that are live.

  A session is erased from the set by the close handler that `do_accept` stores in
  it, in a slot that the user may write as well.  `closesReplaced` are the steps that
  run `close_transport` when another close handler is in the slot; in the runs
  without them, the set has the sessions whose handshake succeeded and that were not
  closed, but for those that a thread is about to erase: `close_transport` sets
  `close_notified_` before it calls the close handler (`active_sessions_live`).
-/
import TransitSession.WebSocket.Living
import TransitSession.WebSocket.StopLoop

namespace TransitSession.WebSocket

/-! ## Parts that close the session -/

/-- The part runs `close_transport`. -/
def Part.closing (X : WebSocketServerSession) : Part → Bool
  | .call x => WebSocketServerSession.closing x X
  | .event (.read k (some _) _) => X.reads[k]?.isSome && X.readHandler.isNone && !X.closed
  | .event (.write k (some _)) => X.writes[k]?.isSome && !X.closed
  | .event (.derived ⟨k, some _⟩) => X.derived.own.handshakes[k]?.isSome
  | .resume (.readError _) => !X.closed
  | _ => false

end WebSocket

namespace WebSocketServerSession
open WebSocket

theorem close_closing (X : WebSocketServerSession) :
    (cls.close X).1.derived.own.closeNotified =
      (X.derived.own.closeNotified || !X.closed) := by
  show (X.close closeTransport).1.derived.own.closeNotified = _
  unfold Session.close
  split_ifs with hc
  · simp [hc]
    rfl
  · show (closeTransportCalls X.shut).1.derived.own.closeNotified = _
    rw [(closeTransportCalls_own X.shut).1]
    simp [hc, ServerMembers.notified]

theorem failRead_closing (e : Errc) (X : WebSocketServerSession) :
    (cls.failRead e X).1.derived.own.closeNotified =
      (X.derived.own.closeNotified || (X.readHandler.isNone && !X.closed)) := by
  rcases cls.failRead_eq X e with ⟨h, hh, he⟩ | ⟨hh, he⟩ <;> rw [he]
  · show X.derived.own.closeNotified = _
    simp [hh]
  · rw [hh]
    exact close_closing X

theorem deliverRead_own (value : List UInt8) (X : WebSocketServerSession) :
    (cls.deliverRead value X).1.derived.own = X.derived.own := by
  rcases cls.deliverRead_eq X value with ⟨h, he⟩ | he <;> rw [he]
  · rfl
  · exact schedule_own X

theorem failStart_closing (handler : Option Callback) (e : Errc) (X : WebSocketServerSession) :
    (failStart handler e X).1.derived.own.closeNotified = true := by
  rw [(failStart_own handler e X).1]
  rfl

theorem start_closing (handler : Option Callback) (nd : ErrorCode) (X : WebSocketServerSession) :
    (start handler nd X).1.derived.own.closeNotified =
      (X.derived.own.closeNotified || (X.derived.own.config.tcpNoDelay && nd.isSome)) := by
  unfold start
  dsimp only
  cases hd : X.derived.own.config.tcpNoDelay with
  | false => simp
  | true =>
    cases nd with
    | none => simp
    | some e => simp [failStart_closing]

theorem read_closing (k : ℕ) (ec : ErrorCode) (data : List UInt8) (X : WebSocketServerSession) :
    ((cls.event (.read k ec data) X).getD (X, none)).1.derived.own.closeNotified =
      (X.derived.own.closeNotified || (Part.event (.read k ec data)).closing X) := by
  cases hop : X.reads[k]? with
  | none => cases ec <;> simp [SessionClass.event, Part.closing, hop]
  | some op =>
    have hev : cls.event (.read k ec data) X = some (cls.onRead ec data.length
        { X with
          derived.readBuffer := X.derived.readBuffer ++ data
          reads := X.reads.eraseIdx k
          log := X.log ++ [.readCompleted ec data] }) := by
      simp only [SessionClass.event, hop]
      rfl
    rw [hev, Option.getD_some]
    cases ec with
    | none =>
      simp only [Part.closing, Bool.or_false]
      exact congrArg _ (deliverRead_own _ _)
    | some e =>
      simp only [Part.closing, hop, Option.isSome_some, Bool.true_and]
      exact failRead_closing e _

theorem write_closing (k : ℕ) (ec : ErrorCode) (X : WebSocketServerSession) :
    ((cls.event (.write k ec) X).getD (X, none)).1.derived.own.closeNotified =
      (X.derived.own.closeNotified || (Part.event (.write k ec)).closing X) := by
  cases hop : X.writes[k]? with
  | none => cases ec <;> simp [SessionClass.event, Part.closing, hop]
  | some op =>
    have hev : cls.event (.write k ec) X = some (cls.onWrite ec
        { X with
          writes := X.writes.eraseIdx k
          log := X.log ++ [.writeCompleted op ec] }) := by
      simp only [SessionClass.event, hop]
    rw [hev, Option.getD_some]
    cases ec with
    | none =>
      simp only [Part.closing, Bool.or_false]
      refine congrArg _ ((schedule_own _).trans ?_)
      unfold Session.consumeWrite
      split_ifs <;> rfl
    | some e =>
      simp only [Part.closing, hop, Option.isSome_some, Bool.true_and]
      exact close_closing (X.writeDone k op (some e))

theorem handshake_closing (k : ℕ) (ec : ErrorCode) (X : WebSocketServerSession) :
    ((eventDerived ⟨k, ec⟩ X).getD (X, none)).1.derived.own.closeNotified =
      (X.derived.own.closeNotified || (Part.event (.derived ⟨k, ec⟩)).closing X) := by
  unfold eventDerived
  cases hk : X.derived.own.handshakes[k]? with
  | none => cases ec <;> simp [Part.closing, hk]
  | some handler =>
    cases ec with
    | none => simp [Part.closing, onHandshake, callStartHandler]
    | some e => simp [Part.closing, onHandshake, failStart_closing, hk]

theorem event_closing (e : Completion Handshake) (X : WebSocketServerSession) :
    ((Part.event e).run X).1.derived.own.closeNotified =
      (X.derived.own.closeNotified || (Part.event e).closing X) := by
  cases e with
  | read k ec data => exact read_closing k ec data X
  | write k ec => exact write_closing k ec X
  | derived e => exact handshake_closing e.k e.ec X

/-- **`closing` are the parts that set `close_notified_`.** -/
theorem part_closing (p : Part) (X : WebSocketServerSession) :
    (p.run X).1.derived.own.closeNotified =
      (X.derived.own.closeNotified || p.closing X) := by
  have hkeeps {Y : WebSocketServerSession} (h : Y.derived.own = X.derived.own) :
      Y.derived.own.closeNotified = (X.derived.own.closeNotified || false) := by
    rw [h, Bool.or_false]
  cases p with
  | call x =>
    cases x with
    | setReadHandler | stopReading => exact hkeeps rfl
    | startReading =>
      refine hkeeps (Y := cls.startReading X) ?_
      rcases cls.startReading_eq X with ⟨-, he⟩ | ⟨-, he⟩ <;> rw [he]
      exact schedule_own _
    | send m =>
      refine hkeeps (Y := cls.enqueueWrite m X) ?_
      rcases cls.enqueueWrite_eq X m with ⟨-, he⟩ | ⟨-, he⟩ <;> rw [he]
      exact schedule_own _
    | close => exact close_closing X
    | derived x =>
      cases x with
      | start handler nd => exact start_closing handler nd X
      | setCloseHandler => exact (Bool.or_false _).symm
  | event e => exact event_closing e X
  | resume f =>
    cases f with
    | readError => exact close_closing X
    | readValue => exact hkeeps (schedule_own X)
    | derived f => cases f <;> exact hkeeps rfl

end WebSocketServerSession

namespace WebSocket.Server

/-! ## The set and the sessions -/

/-- The step runs `close_transport` of a session in which another close handler is
    stored than that of `do_accept`. -/
def closesReplaced (I : Iteration) (w : World) (l : Label) : Bool :=
  match partOf ((machine I).ran w l) (w.resumed l) with
  | none => false
  | some (i, p) =>
    match w.shared.sessions[i]? with
    | none => false
    | some X => p.closing X && !X.derived.own.closeNotified &&
        decide (X.derived.own.closeHandler ≠ some .server)

/-- The closure is the completion handler of a handshake of session `i` that
    succeeded. -/
def shakes (i : ℕ) (s : Server) : Option Closure → Bool
  | some (.event j (.derived ⟨k, none⟩)) => decide (j = i) &&
      (s.sessions[i]?).any fun X => X.derived.own.handshakes[k]?.isSome
  | _ => false

/-- The handshake of session `i` succeeded, in the run that took the steps `es`. -/
def Succeeded (I : Iteration) (i : ℕ) (es : List (World × Label)) : Prop :=
  ∃ e ∈ es, shakes i e.1.shared ((machine I).ran e.1 e.2) = true

/-- No closure is queued or running on the strand of the server, and no hand-over is
    pending. -/
structure Settled (w : World) : Prop where
  queue : w.queue .server = []
  holder : w.holder .server = none
  handOver : ∀ t i ec f, .dispatch (.handOver i ec) f ∉ w.stack t

/-- `close_notified_` of session `i`. -/
def CloseNotified (w : World) (i : ℕ) : Prop :=
  ∃ X, w.shared.sessions[i]? = some X ∧ X.derived.own.closeNotified = true

/-- The handshake of session `i` succeeded, and its `close_transport` has not run. -/
def Live (I : Iteration) (i : ℕ) (es : List (World × Label)) (w : World) : Prop :=
  Succeeded I i es ∧ ¬ CloseNotified w i

/-- A thread is inside `close_transport` of session `i`: it has set `close_notified_`,
    and is about to dispatch the closure that erases the session. -/
def Erasing (w : World) (i : ℕ) : Prop := ∃ t f, .dispatch (.erase i) f ∈ w.stack t

variable {I : Iteration} {i : ℕ} {s s' : Server} {t t' : Tokens} {o : Option Closure}
  {g : Option ServerRest}

theorem shakes_part (h : shakes i s o = true) : ∃ k X handler,
    partOf o g = some (i, .event (.derived ⟨k, none⟩)) ∧ s.sessions[i]? = some X ∧
      X.derived.own.handshakes[k]? = some handler := by
  unfold shakes at h
  split at h
  · next j k =>
    simp only [Bool.and_eq_true, decide_eq_true_eq, Option.any_eq_true,
      Option.isSome_iff_exists] at h
    obtain ⟨rfl, X, hX, handler, hk⟩ := h
    exact ⟨k, X, handler, rfl, hX, hk⟩
  · cases h

/-- The handshake of a session succeeds when its hand-over is posted, and only
    then. -/
theorem LifeEffect.shaken (he : LifeEffect i s s' t t' o g) (hb : Balance i s t)
    (hinner : .inserted i ∉ s.log → ∀ X, s.sessions[i]? = some X →
      ∀ h ∈ X.derived.own.handshakes, h = some .server) :
    (.inserted i ∈ s'.log ∨ t'.hand ≠ 0) ↔
      (.inserted i ∈ s.log ∨ t.hand ≠ 0) ∨ shakes i s o = true := by
  have hidle (hp : partOf o g = none) : ¬ shakes i s o = true := by
    intro hsh
    obtain ⟨k, X, handler, hp', -⟩ := shakes_part (g := g) hsh
    rw [hp] at hp'
    cases hp'
  cases he with
  | other hs hr ht hp =>
    have hno : ¬ shakes i s o = true := by
      intro hsh
      obtain ⟨k, X, handler, hp', hX, -⟩ := shakes_part (g := g) hsh
      rw [hp _ hp'] at hX
      cases hX
    rw [hr.inserted, ht]
    simp [hno]
  | accepted config hnone hs hr ht hp =>
    rw [hr.inserted, ht]
    simp [hidle hp]
  | turn p X hp hX hX' hr hstart hhand herase =>
    have hturn := WebSocketServerSession.part_turn p X
    rw [hr.inserted, hhand]
    constructor
    · rintro (hi | hh)
      · exact Or.inl (Or.inl hi)
      by_cases ht : t.hand = 0
      · -- the part posts the hand-over
        obtain ⟨k, handler, rfl, hk⟩ := hturn.hands (by omega)
        have ho : o = some (.event i (.derived ⟨k, none⟩)) := partOf_eq rfl hp
        rw [ho]
        refine Or.inr ?_
        simp [shakes, hX, hk]
      · exact Or.inl (Or.inr ht)
    · rintro ((hi | ht) | hsh)
      · exact Or.inl hi
      · exact Or.inr (by omega)
      · obtain ⟨k, Y, handler, hp', hY, hk⟩ := shakes_part (g := g) hsh
        rw [hp] at hp'
        cases hp'
        rw [hX] at hY
        cases hY
        by_cases hi : .inserted i ∈ s.log
        · exact Or.inl hi
        · have hserver := hinner hi X hX handler (List.mem_of_getElem? hk)
          subst hserver
          have := hturn.shakes_hands hk
          exact Or.inr (by omega)
  | erased ho hs ht hp =>
    subst hs ht
    simp [hidle hp, Server.erase]
  | handed ho hs ht hp =>
    subst hs ht
    obtain ⟨X, hX, hins, hc, hact, hcount⟩ := hb.handing (Nat.succ_ne_zero _)
    exact iff_of_true (Or.inl (handOver_inserts hact).2.1) (Or.inl (Or.inr (Nat.succ_ne_zero _)))

/-! ## Runs -/

variable {w w' : World} {l : Label} {es : List (World × Label)}

/-- What the invariant of a session says about the steps `es` that led here. -/
structure Recorded (I : Iteration) (i : ℕ) (es : List (World × Label)) (v : View) (t : Tokens) :
    Prop where
  living : Living I i v t
  succeeded : Succeeded I i es ↔ .inserted i ∈ v.shared.log ∨ t.hand ≠ 0
  /-- a session that was closed is erased -/
  erasing : t.erase + v.shared.log.count (.erased i) = closings i v.shared

theorem Recorded.idle (config : ServerConfig) :
    Recorded I i [] ((Executor.World.idle { config := config } : World).view (machine I).home)
      ⟨0, 0, 0⟩ where
  living := .idle config
  succeeded := by
    refine iff_of_false ?_ ?_
    · rintro ⟨e, he, -⟩
      cases he
    · rintro (hm | hm)
      · cases hm
      · exact hm rfl
  erasing := rfl

theorem closesReplaced_of {p : Part} {X : WebSocketServerSession}
    (hp : partOf ((machine I).ran w l) (w.resumed l) = some (i, p))
    (hX : w.shared.sessions[i]? = some X) (hc : X.derived.own.closeNotified = false)
    (hc' : (p.run X).1.derived.own.closeNotified = true)
    (hh : X.derived.own.closeHandler ≠ some .server) : closesReplaced I w l = true := by
  rw [WebSocketServerSession.part_closing, hc, Bool.false_or] at hc'
  unfold closesReplaced
  simp [hp, hX, hc, hc', hh]

theorem succeeded_append (e : World × Label) : Succeeded I i (es ++ [e]) ↔
    Succeeded I i es ∨ shakes i e.1.shared ((machine I).ran e.1 e.2) = true :=
  Transition.exists_append e

/-- **One step of a session**, if it closes no session whose close handler was
    replaced. -/
theorem Recorded.step (h : Recorded I i es (w.view (machine I).home) t) (hw : Shaped I w)
    (hok : closesReplaced I w l = false) (hs : (machine I).step w l = some w') :
    ∃ t', Recorded I i (es ++ [(w, l)]) (w'.view (machine I).home) t' := by
  obtain ⟨t', hl, he⟩ := h.living.step hw.nodup (Executor.step_view machine_lawful hw.held hs)
  have hb := h.living.balance
  refine ⟨t', hl, ?_, ?_⟩
  · rw [succeeded_append, h.succeeded]
    exact (he.shaken hb fun hi X hX => ((h.living.unseen hi).fresh X hX).2.2).symm
  · obtain ⟨n, hn, hlost⟩ := he.erasing fun ht => (hb.handing ht).choose_spec.2.2.2.1
    have hn0 : n = 0 := by
      by_contra hne
      obtain ⟨p, X, hp, hX, hc, hc', hh⟩ := hlost hne
      rw [closesReplaced_of hp hX hc hc' hh] at hok
      cases hok
    have := h.erasing
    omega

theorem run_recorded {config : ServerConfig}
    (h : Transition.Trace (machine I).step (Executor.World.idle { config := config }) es w)
    (hok : ∀ e ∈ es, closesReplaced I e.1 e.2 = false) (i : ℕ) :
    Shaped I w ∧ ∃ t, Recorded I i es (w.view (machine I).home) t := by
  refine h.inv (I := fun es w => (∀ e ∈ es, closesReplaced I e.1 e.2 = false) →
    Shaped I w ∧ ∃ t, Recorded I i es (w.view (machine I).home) t)
    (fun _ => ⟨.idle config, _, .idle config⟩) (fun es w₁ l w₂ ih hs hok => ?_) hok
  obtain ⟨hw, t, ht⟩ := ih fun e he => hok e (List.mem_append_left _ he)
  exact ⟨hw.step hs, ht.step hw (hok (w₁, l) (by simp)) hs⟩

/-! ## States in which nothing is pending -/

/-- No hand-over is pending. -/
theorem Settled.no_hand (h : Settled w) (held : Executor.Held (machine I) w)
    (ht : t.Of I i (w.view (machine I).home)) : t.hand = 0 := by
  by_contra hne
  rcases ht.hand.exists hne with ⟨s, q, hq, hw⟩ | ⟨s, it, hit, hw⟩
  · cases q with
    | handOver j ec =>
      have hs : .server = s := held.queued s _ hq
      subst hs
      have hqueue : (w.view (machine I).home).queue .server = [] := h.queue
      rw [hqueue] at hq
      cases hq
    | _ => exact hw rfl
  · obtain ⟨t', hit⟩ := Executor.items_stack hit
    cases it with
    | dispatch q f =>
      cases q with
      | handOver j ec => exact h.handOver t' j ec f hit
      | _ => exact hw rfl
    | _ => exact hw rfl

/-- The session is erased, or about to be. -/
theorem Settled.erase_iff (h : Settled w) (held : Executor.Held (machine I) w)
    (ht : t.Of I i (w.view (machine I).home)) : t.erase = 0 ↔ ¬ Erasing w i := by
  constructor
  · rintro h0 ⟨t', f, hit⟩
    have hle := ht.erase.item_le (held.stack_items hit rfl)
    simp [Executor.Weight.item, eraseWeight, h0] at hle
  · intro hno
    by_contra hne
    rcases ht.erase.exists hne with ⟨s, q, hq, hw⟩ | ⟨s, it, hit, hw⟩
    · cases q with
      | erase j =>
        have hs : .server = s := held.queued s _ hq
        subst hs
        have hqueue : (w.view (machine I).home).queue .server = [] := h.queue
        rw [hqueue] at hq
        cases hq
      | _ => exact hw rfl
    · obtain ⟨t', hit⟩ := Executor.items_stack hit
      cases it with
      | dispatch q f =>
        cases q with
        | erase j =>
          have hj : j = i := by
            by_contra hj
            exact hw (if_neg hj)
          subst hj
          exact hno ⟨t', f, hit⟩
        | _ => exact hw rfl
      | _ => exact hw rfl

theorem closings_iff : closings i w.shared = 1 ↔ CloseNotified w i := by
  unfold closings CloseNotified
  cases hX : w.shared.sessions[i]? with
  | none => simp
  | some X => cases hc : X.derived.own.closeNotified <;> simp [hc]

theorem closings_le : closings i s ≤ 1 := by
  unfold closings
  split
  · exact Nat.zero_le _
  · exact Bool.toNat_le _

/-- The set has the live sessions, and those that a thread is about to erase. -/
theorem Settled.active_iff {config : ServerConfig} (hw : Settled w)
    (h : Transition.Trace (machine I).step (Executor.World.idle { config := config }) es w)
    (hok : ∀ e ∈ es, closesReplaced I e.1 e.2 = false) (i : ℕ) :
    (i ∈ w.shared.activeSessions ↔ Succeeded I i es ∧ (¬ CloseNotified w i ∨ Erasing w i)) ∧
      (Erasing w i → CloseNotified w i) := by
  obtain ⟨hshaped, t, hl, hsucc, herasing⟩ := run_recorded h hok i
  have hhand := hw.no_hand hshaped.held hl.tokens
  have herase := hw.erase_iff hshaped.held hl.tokens
  have hactive : i ∈ w.shared.activeSessions ↔ _ := hl.balance.active
  have hinserted : Succeeded I i es ↔ .inserted i ∈ w.shared.log := by
    rw [hsucc]
    simp [hhand]
    rfl
  -- the session was erased, or is about to be, iff it was closed
  have hle : closings i w.shared ≤ 1 := closings_le
  change t.erase + w.shared.log.count (.erased i) = closings i w.shared at herasing
  have herased : .erased i ∈ w.shared.log ↔ CloseNotified w i ∧ ¬ Erasing w i := by
    rw [← closings_iff, ← herase, ← List.count_pos_iff]
    omega
  have hclosed : Erasing w i → CloseNotified w i := by
    intro her
    rw [← closings_iff]
    have hne : t.erase ≠ 0 := fun h0 => herase.1 h0 her
    omega
  refine ⟨?_, hclosed⟩
  rw [hactive, hinserted]
  change _ ∧ ¬ (.erased i ∈ w.shared.log) ↔ _
  rw [herased, not_and_not_right]
  exact and_congr_right fun _ => imp_iff_not_or

/-- **`active_sessions_` are the live sessions**, in the runs that close no session
    whose close handler was replaced, but while a thread is about to erase one. -/
theorem active_sessions_live {config : ServerConfig}
    (h : Transition.Trace (machine I).step (Executor.World.idle { config := config }) es w)
    (hok : ∀ e ∈ es, closesReplaced I e.1 e.2 = false) (hw : Settled w) (i : ℕ) :
    (i ∈ w.shared.activeSessions ↔ Live I i es w) ↔ ¬ (Succeeded I i es ∧ Erasing w i) := by
  obtain ⟨hactive, hclosed⟩ := hw.active_iff h hok i
  rw [hactive]
  unfold Live
  constructor
  · rintro hiff ⟨hs, her⟩
    exact (hiff.1 ⟨hs, Or.inr her⟩).2 (hclosed her)
  · intro hno
    refine and_congr_right fun hs => ?_
    exact or_iff_left fun her => hno ⟨hs, her⟩

/-- A run with its steps, computed; only the thread 0 runs anything. -/
theorem exec_history (ls : List Label) (p : World → Bool)
    (hls : ls.all (fun l => l.thread.all fun t => t == 0) = true)
    (h : (Transition.exec (machine inOrder).step (Executor.World.idle {}) ls).any p = true) :
    ∃ w, Transition.Trace (machine inOrder).step (Executor.World.idle {})
      (Transition.history (machine inOrder).step (Executor.World.idle {}) ls) w ∧
      p w = true ∧ ∀ t, t ≠ 0 → w.stack t = [] := by
  obtain ⟨w, hw, hp⟩ := (Option.any_eq_true _ _).1 h
  refine ⟨w, Transition.exec_trace hw, hp, fun t ht => ?_⟩
  refine Executor.Machine.exec_stack (fun l hl hlt => ht ?_) hw
  have hthread := List.all_eq_true.1 hls l hl
  rw [hlt] at hthread
  simpa using hthread

/-- Nothing runs, and nothing is queued on the strand of the server. -/
def resting (w : World) : Bool :=
  (w.queue .server).isEmpty && (w.holder .server).isNone && (w.stack 0).isEmpty

theorem resting_stack (h : resting w = true) (hst : ∀ t, t ≠ 0 → w.stack t = []) (t : ℕ) :
    w.stack t = [] := by
  simp only [resting, Bool.and_eq_true, List.isEmpty_iff] at h
  by_cases ht : t = 0
  · rw [ht, h.2]
  · exact hst t ht

theorem resting_settled (h : resting w = true) (hst : ∀ t, t ≠ 0 → w.stack t = []) :
    Settled w := by
  have hstack := resting_stack h hst
  simp only [resting, Bool.and_eq_true, List.isEmpty_iff, Option.isNone_iff_eq_none] at h
  refine ⟨h.1.1, h.1.2, fun t i ec f hit => ?_⟩
  rw [hstack t] at hit
  cases hit

/-- A session that was handed over and is open. -/
theorem active_sessions_live_open : ∃ es w, 0 ∈ w.shared.activeSessions ∧ Live inOrder 0 es w := by
  obtain ⟨w, hr, hp, hst⟩ := exec_history (connect ++ handshake)
    (fun w => resting w && decide (0 ∈ w.shared.activeSessions)) (by decide +kernel)
    (by decide +kernel)
  simp only [Bool.and_eq_true, decide_eq_true_eq] at hp
  have hok : ∀ e ∈ Transition.history (machine inOrder).step (Executor.World.idle {})
      (connect ++ handshake), closesReplaced inOrder e.1 e.2 = false := by
    have hall : (Transition.history (machine inOrder).step (Executor.World.idle {})
        (connect ++ handshake)).all (fun e => !closesReplaced inOrder e.1 e.2) = true := by
      decide +kernel
    simpa using hall
  have hlive := (active_sessions_live hr hok (resting_settled hp.1 hst) 0).2 ?_
  · exact ⟨_, w, hp.2, hlive.1 hp.2⟩
  · rintro ⟨-, t, f, hit⟩
    rw [resting_stack hp.1 hst t] at hit
    cases hit

/-- The user replaces the close handler of a session, which is closed then. -/
def replaceAndClose : List Label :=
  [.post (.call 0 (.derived (.setCloseHandler (some (.user 1))))), .take 0 (.session 0), .step 0,
    .post (.call 0 .close), .take 0 (.session 0), .ret 0, .step 0]

/-- The closure is that of `stop()`. -/
def stops : Option Closure → Bool
  | some .stop => true
  | _ => false

/-- The session stays in the set. -/
theorem replaced_session_stays : ¬ ∀ (I : Iteration) (config : ServerConfig) es w,
    Transition.Trace (machine I).step (Executor.World.idle { config := config }) es w →
    (∀ e ∈ es, (machine I).ran e.1 e.2 ≠ some .stop) → Settled w →
    ∀ i, i ∈ w.shared.activeSessions ↔ Live I i es w := by
  intro h
  obtain ⟨w, hr, hp, hst⟩ := exec_history (connect ++ handshake ++ replaceAndClose)
    (fun w => resting w && decide (0 ∈ w.shared.activeSessions) &&
      (w.shared.sessions[0]?).any fun X => X.derived.own.closeNotified)
    (by decide +kernel) (by decide +kernel)
  simp only [Bool.and_eq_true, decide_eq_true_eq, Option.any_eq_true] at hp
  obtain ⟨⟨hrest, hactive⟩, hclosed⟩ := hp
  have hstop : ∀ e ∈ Transition.history (machine inOrder).step (Executor.World.idle {})
      (connect ++ handshake ++ replaceAndClose), (machine inOrder).ran e.1 e.2 ≠ some .stop := by
    have hall : (Transition.history (machine inOrder).step (Executor.World.idle {})
        (connect ++ handshake ++ replaceAndClose)).all (fun e =>
          !stops ((machine inOrder).ran e.1 e.2)) = true := by
      decide +kernel
    intro e he hs
    have := List.all_eq_true.1 hall e he
    rw [hs] at this
    cases this
  exact ((h inOrder {} _ w hr hstop (resting_settled hrest hst) 0).1 hactive).2 hclosed

end WebSocket.Server

end TransitSession
