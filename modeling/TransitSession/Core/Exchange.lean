/-
  What a session exchanges with its user.

  The user causes the messages that are pushed, enables reading, and sees what the read
  handler is told (`Session.told`).  Everything else goes on behind the calls (`Behind`):
  operations start and complete, and the transport is closed.  So a call exchanges what
  it asks for (`call_behind`), the completion handler of a read tells at most one thing
  (`event_exchange`), and the rest of a closure nothing (`resume_behind`).
-/
import TransitSession.Core.Delivery

namespace TransitSession

variable {D R W C E F : Type}

namespace Session

/-- What the read handler was told, in order. -/
def told (s : Session D R W) : List (ErrorCode × R) :=
  s.log.filterMap fun | .notified ec value => some (ec, value) | _ => none

theorem delivered_eq (s : Session D R W) :
    s.delivered = s.told.filterMap fun p => if p.1.isNone then some p.2 else none := by
  unfold delivered told
  rw [List.filterMap_filterMap]
  refine List.filterMap_congr fun e _ => ?_
  rcases e with _ | _ | _ | _ | _ | ⟨_ | _, _⟩ | _ | _ <;> rfl

theorem delivered_of_told {s s' : Session D R W} (h : s'.told = s.told) :
    s'.delivered = s.delivered := by
  rw [delivered_eq, delivered_eq, h]

@[simp] theorem told_emit (s : Session D R W) (ec : ErrorCode) (value : R) :
    (s.emit (.notified ec value)).told = s.told ++ [(ec, value)] := by
  simp [told, emit]

theorem delivered_emit (s : Session D R W) (ec : ErrorCode) (value : R) :
    (s.emit (.notified ec value)).delivered =
      s.delivered ++ if ec.isNone then [value] else [] := by
  rw [delivered_eq, delivered_eq, told_emit, List.filterMap_append]
  cases ec <;> rfl

@[simp] theorem pushed_emit (s : Session D R W) (ec : ErrorCode) (value : R) :
    (s.emit (.notified ec value)).pushed = s.pushed := by
  simp [pushed, emit]

@[simp] theorem pushed_pushBack (s : Session D R W) (m : W) :
    (s.pushBack m).pushed = s.pushed ++ [⟨s.pushed.length, m⟩] := by
  simp [pushed, pushBack]

@[simp] theorem told_pushBack (s : Session D R W) (m : W) : (s.pushBack m).told = s.told := by
  simp [told, pushBack]

end Session

/-- The user neither causes the event nor sees it. -/
def Event.isBehind : Event D R W → Bool
  | .pushed _ | .notified .. => false
  | _ => true

/-- What leads from `s` to `s'` goes on behind the calls. -/
structure Behind (s s' : Session D R W) : Prop where
  log : ∃ es, s'.log = s.log ++ es ∧ ∀ e ∈ es, e.isBehind = true
  readHandler : s'.readHandler = s.readHandler
  stays : s.closed = true → s'.closed = true
  /-- reading does not start by itself -/
  reading : s.readEnabled = false ∧ s.reads = [] → s'.readEnabled = false ∧ s'.reads = []

namespace Behind
variable {s s' s'' : Session D R W}

theorem refl (s : Session D R W) : Behind s s := ⟨⟨[], by simp, by simp⟩, rfl, id, id⟩

theorem trans (h : Behind s s') (h' : Behind s' s'') : Behind s s'' := by
  obtain ⟨⟨es, hl, hes⟩, hh, hc, hr⟩ := h
  obtain ⟨⟨es', hl', hes'⟩, hh', hc', hr'⟩ := h'
  refine ⟨⟨es ++ es', by rw [hl', hl, List.append_assoc], ?_⟩, hh'.trans hh, hc' ∘ hc, hr' ∘ hr⟩
  intro e he
  rcases List.mem_append.1 he with he | he
  exacts [hes e he, hes' e he]

theorem filterMap {β : Type} {g : Event D R W → Option β} (h : Behind s s')
    (hg : ∀ e, e.isBehind = true → g e = none) : s'.log.filterMap g = s.log.filterMap g := by
  obtain ⟨es, hl, hes⟩ := h.log
  have : es.filterMap g = [] := List.filterMap_eq_nil_iff.2 fun e he => hg e (hes e he)
  rw [hl, List.filterMap_append, this, List.append_nil]

theorem told (h : Behind s s') : s'.told = s.told :=
  h.filterMap fun e he => by cases e <;> first | rfl | cases he

theorem pushed (h : Behind s s') : s'.pushed = s.pushed :=
  h.filterMap fun e he => by cases e <;> first | rfl | cases he

theorem isOpen (h : Behind s s') (ho : s'.closed = false) : s.closed = false := by
  by_contra hc
  rw [h.stays (by simpa using hc)] at ho
  cases ho

end Behind

namespace Hooks
variable {H : Hooks D R W F} (hH : H.Lawful)
include hH

theorem closeHook_behind (s : Session D R W) : Behind s (s.close H.closeTransport).1 := by
  obtain ⟨d, hd⟩ := closeHook_eq s hH
  rw [hd]
  unfold Session.shutOnce
  split_ifs
  · exact ⟨⟨[.closeRun], rfl, by simp [Event.isBehind]⟩, rfl, id, id⟩
  · exact ⟨⟨[.closeRun, .closeTransport], rfl, by simp [Event.isBehind]⟩, rfl, fun _ => rfl,
      fun hr => ⟨rfl, hr.2⟩⟩

theorem startWriting_behind (s : Session D R W) : Behind s (H.startWriting s) := by
  unfold startWriting
  split_ifs with h
  · rcases hH.doWrite_starts h with ⟨d, q, bytes, -, -, he⟩ | he <;> rw [he]
    · exact ⟨⟨[.writeStarted _ _ _], rfl, by simp [Event.isBehind]⟩, rfl, id, id⟩
    · exact closeHook_behind hH s
  · exact .refl s

theorem schedule_behind (s : Session D R W) : Behind s (H.scheduleOperations s) := by
  rw [schedule_eq]
  refine (startWriting_behind hH s).trans ?_
  split_ifs with h
  · obtain ⟨d, op, -, he⟩ := hH.doRead_starts h
    rw [he]
    refine ⟨⟨[.readStarted _ _ _], rfl, by simp [Event.isBehind]⟩, rfl, id, fun hr => ?_⟩
    rw [(hH.canStartRead_core h).1] at hr
    cases hr.1
  · exact .refl _

end Hooks

/-- The members of the derived class are behind the calls. -/
theorem Behind.members (s : Session D R W) (d : D) : Behind s { s with derived := d } :=
  ⟨⟨[], by simp, by simp⟩, rfl, id, id⟩

theorem MembersOnly.behind {s : Session D R W} {r : Session D R W × Option (Frame F)}
    (h : MembersOnly s r) : Behind s r.1 := by
  obtain ⟨⟨d, hd⟩, -⟩ := h
  rw [hd]
  exact .members s d

/-- The frame of the call that tells the read handler `g` of `ec`. -/
def Frame.telling (g : Handler) : ErrorCode → Frame F
  | some _ => .readError g
  | none => .readValue g

/-- What a call asks of the session: another read handler, reading, or a message for the
    queue. -/
def Session.asked (x : Call W C) (s : Session D R W) : Session D R W :=
  match x with
  | .setReadHandler h => s.setReadHandler h
  | .startReading => if s.closed then s else { s with readEnabled := true }
  | .send m => if s.closed then s else s.pushBack m
  | _ => s

namespace SessionClass
variable [Inhabited R] {K : SessionClass D R W C E F} (hK : K.Lawful)
include hK

/-- **A call exchanges what it asks for.** -/
theorem call_behind (x : Call W C) (s : Session D R W) : Behind (s.asked x) (K.call x s).1 := by
  have hH := hK.toLawful
  cases x with
  | setReadHandler h => exact .refl _
  | startReading =>
    show Behind (if s.closed then s else { s with readEnabled := true }) (K.startReading s)
    rcases K.startReading_eq s with ⟨hc, he⟩ | ⟨hc, he⟩ <;> rw [he]
    · rw [if_pos hc]
      exact .refl s
    · rw [if_neg (by simp [hc])]
      exact Hooks.schedule_behind hH _
  | stopReading =>
    show Behind s s.stopReading
    exact ⟨⟨[], by simp [Session.stopReading], by simp⟩, rfl, id, fun hr => ⟨rfl, hr.2⟩⟩
  | send m =>
    show Behind (if s.closed then s else s.pushBack m) (K.enqueueWrite m s)
    rcases K.enqueueWrite_eq s m with ⟨hc, he⟩ | ⟨hc, he⟩ <;> rw [he]
    · rw [if_pos hc]
      exact .refl s
    · rw [if_neg (by simp [hc])]
      exact Hooks.schedule_behind hH _
  | close => exact Hooks.closeHook_behind hH s
  | derived x =>
    show Behind s (K.callDerived x s).1
    rcases hK.callDerived_members x s with hm | ⟨d, he⟩
    · exact hm.behind
    · rw [he]
      exact (Behind.members s d).trans (Hooks.schedule_behind hH _)

/-- What is left of a closure exchanges nothing. -/
theorem resume_behind (f : Frame F) (s : Session D R W) : Behind s (K.resume f s).1 := by
  cases f with
  | readError => exact Hooks.closeHook_behind hK.toLawful s
  | readValue => exact Hooks.schedule_behind hK.toLawful s
  | derived f => exact (hK.resumeDerived_members f s).behind

/-- What the completion handler of a read does: it tells the read handler one thing, or
    nothing. -/
theorem readHandled_exchange {s : Session D R W} {ec : ErrorCode}
    {r : Session D R W × Option (Frame F)} (h : ReadHandled K.toHooks s ec r) :
    (Behind s r.1 ∧ ∀ f, r.2 = some f → ∃ f', f = .derived f') ∨
    ∃ g t ec' value, Behind s t ∧ r = (t.emit (.notified ec' value), some (.telling g ec')) := by
  have hH := hK.toLawful
  cases h with
  | resumed => exact Or.inl ⟨Hooks.schedule_behind hH s, fun _ hf => nomatch hf⟩
  | failed _ d e =>
    rcases K.failRead_eq { s with derived := d } e with ⟨g, -, he⟩ | ⟨-, he⟩ <;> rw [he]
    · exact Or.inr ⟨g, _, some e, default, .members s d, rfl⟩
    · refine Or.inl ⟨(Behind.members s d).trans (Hooks.closeHook_behind hH _), fun f hf => ?_⟩
      obtain ⟨f', -, rfl⟩ := Option.map_eq_some_iff.1 hf
      exact ⟨f', rfl⟩
  | delivered d value =>
    rcases K.deliverRead_eq { s with derived := d } value with ⟨g, he⟩ | he <;> rw [he]
    · exact Or.inr ⟨g, _, none, value, .members s d, rfl⟩
    · exact Or.inl ⟨(Behind.members s d).trans (Hooks.schedule_behind hH _),
        fun _ hf => nomatch hf⟩

/-- **A completion handler tells the read handler one thing, or nothing.** -/
theorem event_exchange {e : Completion E} {s : Session D R W}
    {r : Session D R W × Option (Frame F)} (h : K.event e s = some r) :
    (Behind s r.1 ∧ ∀ f, r.2 = some f → ∃ f', f = .derived f') ∨
    ∃ g t ec value, Behind s t ∧ r = (t.emit (.notified ec value), some (.telling g ec)) := by
  have hH := hK.toLawful
  have hdone (k : ℕ) (op : WriteOp W) (ec : ErrorCode) : Behind s (s.writeDone k op ec) :=
    ⟨⟨[.writeCompleted op ec], rfl, by simp [Event.isBehind]⟩, rfl, id, id⟩
  rcases event_cases hK h with ⟨k, ec, data, op, d, -, -, hr⟩ | ⟨k, op, -, -, rfl⟩ |
    ⟨k, op, e', -, -, rfl⟩ | ⟨-, -, hm⟩
  · have hread : Behind s { s.readDone k ec data with derived := d } :=
      ⟨⟨[.readCompleted ec data], rfl, by simp [Event.isBehind]⟩, rfl, id, fun hr =>
        ⟨hr.1, by simp [Session.readDone, hr.2]⟩⟩
    rcases readHandled_exchange hK hr with ⟨hb, hf⟩ | ⟨g, t, ec', value, hb, he⟩
    · exact Or.inl ⟨hread.trans hb, hf⟩
    · exact Or.inr ⟨g, t, ec', value, hread.trans hb, he⟩
  · refine Or.inl ⟨?_, fun _ hf => by cases hf⟩
    have hpop : Behind s (s.writeDone k op none).consumeWrite := by
      rw [Session.consumeWrite_eq]
      exact ⟨(hdone k op none).log, rfl, id, id⟩
    exact hpop.trans (Hooks.schedule_behind hH _)
  · refine Or.inl ⟨(hdone k op (some e')).trans (Hooks.closeHook_behind hH _), fun f hf => ?_⟩
    obtain ⟨f', -, rfl⟩ := Option.map_eq_some_iff.1 hf
    exact ⟨f', rfl⟩
  · exact Or.inl ⟨hm.behind, hm.2⟩

end SessionClass

end TransitSession
