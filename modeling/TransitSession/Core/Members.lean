/-
  Relations between the states of a session that see only `closed_`, the read
  handler and the members of the derived class.

  If such a relation holds along the hooks of a class, and along what the class
  adds to the core (`Respects`), then it holds along every step of a session
  (`step_respects`).
-/
import TransitSession.Core.Scheduling

namespace TransitSession

variable {D R W C E F : Type}

/-- The slot of the read handler holds the same function object in both states. -/
def SameReadHandler (s s' : Session D R W) : Prop :=
  s'.readHandler = s.readHandler ∧ s'.readHandlerVersion = s.readHandlerVersion

namespace SameReadHandler
variable {s s' s'' : Session D R W}

theorem refl (s : Session D R W) : SameReadHandler s s := ⟨rfl, rfl⟩

theorem trans (h : SameReadHandler s s') (h' : SameReadHandler s' s'') : SameReadHandler s s'' :=
  ⟨h'.1.trans h.1, h'.2.trans h.2⟩

/-- An assignment stores another object, of whatever handler. -/
theorem not_set (g : Option Handler) (s : Session D R W) :
    ¬ SameReadHandler s (s.setReadHandler g) :=
  fun h => Nat.succ_ne_self _ h.2

end SameReadHandler

/-- The relation `P` holds along the hooks. -/
structure Hooks.Respects (H : Hooks D R W F) (P : Session D R W → Session D R W → Prop) :
    Prop where
  trans : ∀ {s s' s''}, P s s' → P s' s'' → P s s''
  core : ∀ {s s'}, s'.closed = s.closed → SameReadHandler s s' → s'.derived = s.derived → P s s'
  doRead : ∀ {s}, H.canStartRead s = true → P s (H.doRead s)
  doWrite : ∀ {s}, H.canStartWrite s = true →
    P s (H.doWrite s) ∨ H.doWrite s = (s.close H.closeTransport).1
  closeTransport : ∀ {s}, s.closed = false → P s (H.closeTransport s.shut).1

namespace Hooks.Respects
variable {H : Hooks D R W F} {P : Session D R W → Session D R W → Prop} (h : H.Respects P)
include h

theorem refl (s : Session D R W) : P s s := h.core rfl ⟨rfl, rfl⟩ rfl

theorem close (s : Session D R W) : P s (s.close H.closeTransport).1 := by
  unfold Session.close
  split_ifs with hc
  · exact h.core rfl ⟨rfl, rfl⟩ rfl
  · exact h.closeTransport (by simpa using hc)

theorem schedule (s : Session D R W) : P s (H.scheduleOperations s) := by
  have hwrite : P s (H.startWriting s) := by
    unfold startWriting
    split_ifs with hw
    · rcases h.doWrite hw with hp | he
      · exact hp
      · rw [he]
        exact h.close s
    · exact h.refl s
  rw [schedule_eq]
  split_ifs with hr
  · exact h.trans hwrite (h.doRead hr)
  · exact hwrite

theorem startReading (s : Session D R W) : P s (H.startReading s) := by
  rcases H.startReading_eq s with ⟨-, he⟩ | ⟨-, he⟩ <;> rw [he]
  · exact h.refl s
  · have hp : P s { s with readEnabled := true } := h.core rfl ⟨rfl, rfl⟩ rfl
    exact h.trans hp (h.schedule _)

theorem enqueueWrite (m : W) (s : Session D R W) : P s (H.enqueueWrite m s) := by
  rcases H.enqueueWrite_eq s m with ⟨-, he⟩ | ⟨-, he⟩ <;> rw [he]
  · exact h.refl s
  · have hp : P s (s.pushBack m) := h.core rfl ⟨rfl, rfl⟩ rfl
    exact h.trans hp (h.schedule _)

theorem failRead [Inhabited R] (e : Errc) (s : Session D R W) : P s (H.failRead e s).1 := by
  rcases H.failRead_eq s e with ⟨g, -, he⟩ | ⟨-, he⟩ <;> rw [he]
  · exact h.core rfl ⟨rfl, rfl⟩ rfl
  · exact h.close s

theorem deliverRead (value : R) (s : Session D R W) : P s (H.deliverRead value s).1 := by
  rcases H.deliverRead_eq s value with ⟨g, he⟩ | he <;> rw [he]
  · exact h.core rfl ⟨rfl, rfl⟩ rfl
  · exact h.schedule s

end Hooks.Respects

/-- The relation `P` holds along the closures of a class, in the runs of `ok`. -/
structure SessionClass.Respects (K : SessionClass D R W C E F)
    (P : Session D R W → Session D R W → Prop) (ok : K.Guard) : Prop extends
    K.toHooks.Respects P where
  setReadHandler : ∀ {c g}, ok c (.call (.setReadHandler g)) →
    P c.state (c.state.setReadHandler g)
  fill : ∀ {op data d} {s : Session D R W}, K.fill op data s.derived = some d →
    P s { s with derived := d }
  onRead : ∀ ec n s, P s (K.onRead ec n s).1
  callDerived : ∀ {c x}, ok c (.call (.derived x)) → P c.state (K.callDerived x c.state).1
  eventDerived : ∀ {e s r}, K.eventDerived e s = some r → P s r.1
  resumeDerived : ∀ f s, P s (K.resumeDerived f s).1

namespace SessionClass
variable {K : SessionClass D R W C E F} {P : Session D R W → Session D R W → Prop}
  {ok : K.Guard} (h : K.Respects P ok)
include h

theorem call_respects {c : Strand.Config (Session D R W) (Frame F)} {x : Call W C}
    (hok : ok c (.call x)) : P c.state (K.call x c.state).1 := by
  cases x with
  | setReadHandler g => exact h.setReadHandler hok
  | startReading => exact h.startReading c.state
  | stopReading => exact h.core rfl ⟨rfl, rfl⟩ rfl
  | send m => exact h.enqueueWrite m c.state
  | close => exact h.close c.state
  | derived x => exact h.callDerived hok

theorem event_respects {e : Completion E} {s : Session D R W}
    {r : Session D R W × Option (Frame F)} (hr : K.event e s = some r) : P s r.1 := by
  cases e with
  | read k ec data =>
    obtain ⟨op, d, -, hfill, rfl⟩ := event_read_eq hr
    have hfilled : P s
        { s with
          derived := d
          reads := s.reads.eraseIdx k
          log := s.log ++ [.readCompleted ec data] } :=
      h.trans (h.fill hfill) (h.core rfl ⟨rfl, rfl⟩ rfl)
    exact h.trans hfilled (h.onRead ec data.length _)
  | write k ec =>
    unfold event at hr
    cases hop : s.writes[k]? with
    | none => simp [hop] at hr
    | some op =>
      simp only [hop, Option.some.injEq] at hr
      obtain rfl := hr
      cases ec with
      | none =>
        have hdone : P s (s.writeDone k op none).consumeWrite := by
          rw [Session.consumeWrite_eq]
          exact h.core rfl ⟨rfl, rfl⟩ rfl
        exact h.trans hdone (h.schedule _)
      | some e =>
        have hdone : P s (s.writeDone k op (some e)) := h.core rfl ⟨rfl, rfl⟩ rfl
        exact h.trans hdone (h.close _)
  | derived e => exact h.eventDerived hr

theorem resume_respects (f : Frame F) (s : Session D R W) : P s (K.resume f s).1 := by
  cases f with
  | readError => exact h.close s
  | readValue => exact h.schedule s
  | derived f => exact h.resumeDerived f s

/-- **The relation holds along every step.** -/
theorem step_respects {c c' : Strand.Config (Session D R W) (Frame F)}
    {l : Strand.Label (Call W C) (Completion E)} (hok : ok c l)
    (hs : K.program.step c l = some c') : P c.state c'.state := by
  rcases Strand.Program.step_cases hs with ⟨x, rfl, rfl⟩ | ⟨e, r, rfl, -, he, rfl⟩ |
    ⟨f, st, rfl, -, rfl⟩
  · exact call_respects h hok
  · exact event_respects h he
  · exact resume_respects h f c.state

end SessionClass

/-! ## The read handler -/

/-- The hooks do not touch the read handler. -/
theorem Hooks.Lawful.keeps_readHandler {H : Hooks D R W F} (hH : H.Lawful) :
    H.Respects SameReadHandler where
  trans h h' := h.trans h'
  core _ hh _ := hh
  doRead h := by
    obtain ⟨d, op, -, he⟩ := hH.doRead_starts h
    rw [he]
    exact ⟨rfl, rfl⟩
  doWrite h := by
    rcases hH.doWrite_starts h with ⟨d, q, bytes, -, -, he⟩ | he
    · refine Or.inl ?_
      rw [he]
      exact ⟨rfl, rfl⟩
    · exact Or.inr he
  closeTransport {s} _ := by
    obtain ⟨d, hd⟩ := hH.closeTransport_members s.shut
    rw [hd]
    exact ⟨rfl, rfl⟩

theorem MembersOnly.readHandler {s : Session D R W} {r : Session D R W × Option (Frame F)}
    (h : MembersOnly s r) : SameReadHandler s r.1 := by
  obtain ⟨⟨d, hd⟩, -⟩ := h
  rw [hd]
  exact ⟨rfl, rfl⟩

theorem ReadHandled.readHandler [Inhabited R] {H : Hooks D R W F} (hH : H.Lawful)
    {s : Session D R W} {ec : ErrorCode} {r : Session D R W × Option (Frame F)}
    (h : ReadHandled H s ec r) : SameReadHandler s r.1 := by
  have hP := hH.keeps_readHandler
  cases h with
  | resumed => exact hP.schedule s
  | failed _ d e => exact hP.failRead e { s with derived := d }
  | delivered d value => exact hP.deliverRead value { s with derived := d }

/-- **Only `set_read_handler` writes the read handler.** -/
theorem SessionClass.Lawful.keeps_readHandler [Inhabited R] {K : SessionClass D R W C E F}
    (hK : K.Lawful) : K.Respects SameReadHandler fun _ l => ∀ g, l ≠ .call (.setReadHandler g) where
  toRespects := hK.toLawful.keeps_readHandler
  setReadHandler {c g} hok := absurd rfl (hok g)
  fill _ := ⟨rfl, rfl⟩
  onRead ec n s := (hK.onRead_handled ec n s).readHandler hK.toLawful
  callDerived {c x} _ := by
    rcases hK.callDerived_members x c.state with hm | ⟨d, he⟩
    · exact hm.readHandler
    · rw [he]
      exact hK.toLawful.keeps_readHandler.schedule { c.state with derived := d }
  eventDerived hr := (hK.eventDerived_members _ _ _ hr).readHandler
  resumeDerived f s := (hK.resumeDerived_members f s).readHandler

end TransitSession
