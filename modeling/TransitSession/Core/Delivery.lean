/-
  What the read handler is given: the payloads of the reads that completed.

  One buffer serves all reads of a session.  A class `Receives` if the buffer
  stays fit for the outstanding read (`Fit`) whatever else runs, and if its
  completion handler copies the payload out of the buffer before the read handler
  is called.  Then nothing is lost or duplicated (`run_delivers`), although the
  read handler may start the next read into the same buffer.
-/
import TransitSession.Core.Notifications

namespace TransitSession

variable {D R W C E F : Type}

/-- The value that `read_handler_` was given without an error. -/
def Event.delivered? : Event D R W → Option R
  | .notified none value => some value
  | _ => none

/-- What the transport stored for a read that completed without an error. -/
def Event.received? : Event D R W → Option (List UInt8)
  | .readCompleted none data => some data
  | _ => none

namespace Session

/-- The values delivered, in order. -/
def delivered (s : Session D R W) : List R := s.log.filterMap Event.delivered?

/-- The data received, in order. -/
def received (s : Session D R W) : List (List UInt8) := s.log.filterMap Event.received?

end Session

/-- The members of the derived class fit every outstanding read. -/
def Fits (Fit : ReadOp → D → Prop) (s : Session D R W) : Prop := ∀ op ∈ s.reads, Fit op s.derived

/-- The read handler was given the payloads of the reads that completed. -/
def Delivers (payload : List UInt8 → Option R) (s : Session D R W) : Prop :=
  s.delivered = s.received.filterMap payload

/-- What a class has to do for the reads it delivers: `payload data` is the value
    of a read that stored `data`, if it has one. -/
structure SessionClass.Receives [Inhabited R] (K : SessionClass D R W C E F)
    (payload : List UInt8 → Option R) (Fit : ReadOp → D → Prop) (ok : K.Guard) : Prop where
  doRead_fit : ∀ {s}, K.canStartRead s = true →
    ∃ d op, Fit op d ∧
      K.doRead s = Session.asyncRead (Session.markReadStarted { s with derived := d }) op
  doWrite_fit : ∀ {s op}, K.canStartWrite s = true → Fit op s.derived → Fit op (K.doWrite s).derived
  closeTransport_fit : ∀ {s op}, Fit op s.derived → Fit op (K.closeTransport s).1.derived
  callDerived_fits : ∀ {c x}, ok c (.call (.derived x)) → Kept c.state → Fits Fit c.state →
    Fits Fit (K.callDerived x c.state).1 ∨
      ∃ d, (∀ op, Fit op c.state.derived → Fit op d) ∧
        K.callDerived x c.state = (K.scheduleOperations { c.state with derived := d }, none)
  eventDerived_fit : ∀ {e s r op}, K.eventDerived e s = some r → Fit op s.derived →
    Fit op r.1.derived
  resumeDerived_fit : ∀ {f s op}, Fit op s.derived → Fit op (K.resumeDerived f s).1.derived
  /-- the completion handler of a read that succeeds delivers its payload -/
  onRead_payload : ∀ {op data d s}, Fit op d → K.fill op data d = some s.derived →
    ∃ d', (∃ value, payload data = some value ∧
        K.onRead none data.length s =
          K.deliverRead value { s.markReadFinished with derived := d' }) ∨
      (∃ e, payload data = none ∧
        K.onRead none data.length s = K.failRead e { s.markReadFinished with derived := d' })

namespace Delivers
variable {s s' : Session D R W} {payload : List UInt8 → Option R}

/-- Events that deliver what they receive. -/
theorem append (h : Delivers payload s) (es : List (Event D R W)) (hl : s'.log = s.log ++ es)
    (hes : es.filterMap Event.delivered? = (es.filterMap Event.received?).filterMap payload) :
    Delivers payload s' := by
  unfold Delivers Session.delivered Session.received at h ⊢
  rw [hl, List.filterMap_append, List.filterMap_append, List.filterMap_append, h, hes]

theorem silent (h : Delivers payload s) (hs : Silent s s') : Delivers payload s' := by
  obtain ⟨es, hl, hes⟩ := hs
  have h₁ : es.filterMap Event.delivered? = [] := by
    refine List.filterMap_eq_nil_iff.2 fun e he => ?_
    have := hes e he
    cases e <;> first | rfl | cases this
  have h₂ : es.filterMap Event.received? = [] := by
    refine List.filterMap_eq_nil_iff.2 fun e he => ?_
    have := hes e he
    cases e <;> first | rfl | cases this
  exact h.append es hl (by rw [h₁, h₂]; rfl)

/-- A read that fails delivers nothing. -/
theorem failRead [Inhabited R] {H : Hooks D R W F} (hH : H.Lawful) {e : Errc}
    (h : Delivers payload s) : Delivers payload (H.failRead e s).1 := by
  rcases H.failRead_eq s e with ⟨g, -, he⟩ | ⟨-, he⟩ <;> rw [he]
  · exact h.append [.notified (some e) default] rfl rfl
  · exact h.silent (Hooks.closeHook_silent hH s)

end Delivers

namespace SessionClass
variable [Inhabited R] {K : SessionClass D R W C E F} {payload : List UInt8 → Option R}
  {Fit : ReadOp → D → Prop} {ok : K.Guard}

/-! ## The buffer fits the outstanding read -/

section
variable (hK : K.Lawful) (hR : K.Receives payload Fit ok)
include hK hR

theorem closeHook_fits {s : Session D R W} (h : Fits Fit s) :
    Fits Fit (s.close K.closeTransport).1 := by
  intro op hop
  rw [(Hooks.closeHook_spec hK.toLawful s).2.1] at hop
  unfold Session.close
  split_ifs
  · exact h op hop
  · exact hR.closeTransport_fit (s := s.shut) (h op hop)

theorem startWriting_fits {s : Session D R W} (h : Fits Fit s) : Fits Fit (K.startWriting s) := by
  intro op hop
  rw [(Hooks.startWriting_silent hK.toLawful s).2] at hop
  unfold Hooks.startWriting
  split_ifs with hw
  · exact hR.doWrite_fit hw (h op hop)
  · exact h op hop

theorem schedule_fits {s : Session D R W} (hk : Kept s) (h : Fits Fit s) :
    Fits Fit (K.scheduleOperations s) := by
  have hH := hK.toLawful
  have hf := startWriting_fits hK hR h
  have hm := (hk.acts hH (Hooks.startWriting_acts hH s)).mirrored
  rw [Hooks.schedule_eq]
  split_ifs with hr
  · obtain ⟨d, op, hop, he⟩ := hR.doRead_fit hr
    -- the read that starts is the only one
    have hnil := hm.reads_nil.2 (hH.canStartRead_core hr).2.1
    rw [he]
    intro op' hop'
    simp only [Session.asyncRead, Session.markReadStarted, hnil, List.nil_append,
      List.mem_singleton] at hop'
    rw [hop']
    exact hop
  · exact hf

theorem call_fits {c : Strand.Config (Session D R W) (Frame F)} {x : Call W C}
    (hok : ok c (.call x)) (hk : Kept c.state) (h : Fits Fit c.state) :
    Fits Fit (K.call x c.state).1 := by
  have hH := hK.toLawful
  cases x with
  | setReadHandler | stopReading => exact h
  | startReading =>
    show Fits Fit (K.startReading c.state)
    rcases K.startReading_eq c.state with ⟨-, he⟩ | ⟨hc, he⟩ <;> rw [he]
    · exact h
    · exact schedule_fits hK hR (hk.act hH (.enable c.state hc)) h
  | send m =>
    show Fits Fit (K.enqueueWrite m c.state)
    rcases K.enqueueWrite_eq c.state m with ⟨-, he⟩ | ⟨hc, he⟩ <;> rw [he]
    · exact h
    · exact schedule_fits hK hR (hk.act hH (.push c.state m hc)) h
  | close => exact closeHook_fits hK hR h
  | derived x =>
    show Fits Fit (K.callDerived x c.state).1
    rcases hR.callDerived_fits hok hk h with hf | ⟨d, hd, he⟩
    · exact hf
    · rw [he]
      exact schedule_fits hK hR (hk.act hH (.members c.state d)) fun op hop => hd op (h op hop)

theorem resume_fits {f : Frame F} {s : Session D R W} (hk : Kept s) (h : Fits Fit s) :
    Fits Fit (K.resume f s).1 := by
  cases f with
  | readError => exact closeHook_fits hK hR h
  | readValue => exact schedule_fits hK hR hk h
  | derived f =>
    obtain ⟨⟨d, hd⟩, -⟩ := hK.resumeDerived_members f s
    intro op hop
    refine hR.resumeDerived_fit (h op ?_)
    change op ∈ (K.resumeDerived f s).1.reads at hop
    rwa [hd] at hop

/-! ## Completions -/

/-- Once the outstanding read has completed, the buffer has nothing to fit. -/
theorem readHandled_fits {s : Session D R W} {ec : ErrorCode}
    {r : Session D R W × Option (Frame F)} (hr : ReadHandled K.toHooks s ec r) (hk : Kept s)
    (hnil : s.reads = []) : Fits Fit r.1 := by
  have hfits (d : D) : Fits Fit { s with derived := d } := by
    intro op hop
    rw [show ({ s with derived := d } : Session D R W).reads = [] from hnil] at hop
    cases hop
  have hkept (d : D) : Kept { s with derived := d } := hk.act hK.toLawful (.members s d)
  cases hr with
  | resumed => exact schedule_fits hK hR hk (hfits s.derived)
  | failed _ d e =>
    rcases K.failRead_eq { s with derived := d } e with ⟨g, -, he⟩ | ⟨-, he⟩ <;> rw [he]
    · exact hfits d
    · exact closeHook_fits hK hR (hfits d)
  | delivered d value =>
    rcases K.deliverRead_eq { s with derived := d } value with ⟨g, he⟩ | he <;> rw [he]
    · exact hfits d
    · exact schedule_fits hK hR (hkept d) (hfits d)

theorem event_fits {e : Completion E} {s : Session D R W}
    {r : Session D R W × Option (Frame F)} (hr : K.event e s = some r) (hk : Kept s)
    (h : Fits Fit s) : Fits Fit r.1 := by
  have hH := hK.toLawful
  rcases event_cases hK hr with ⟨k, ec, data, op, d, rfl, hop, hread⟩ | ⟨k, op, -, hop, rfl⟩ |
    ⟨k, op, e', -, hop, rfl⟩ | ⟨e', rfl, ⟨d, hd⟩, -⟩
  · have hdone := hk.act hH (.readDone s k op ec data hop)
    exact readHandled_fits hK hR hread (hdone.act hH (.members _ d)) (hk.mirrored.reads_eq hop).2.1
  · have hdone := hk.act hH (.writeDone s k op hop)
    refine schedule_fits hK hR hdone ?_
    rw [Session.consumeWrite_eq]
    exact h
  · exact closeHook_fits hK hR (s := s.writeDone k op (some e')) h
  · intro op hop
    refine hR.eventDerived_fit hr (h op ?_)
    rwa [hd] at hop

omit hR in
theorem readHandled_delivers {s : Session D R W} {e : Errc}
    {r : Session D R W × Option (Frame F)} (hr : ReadHandled K.toHooks s (some e) r)
    (h : Delivers payload s) : Delivers payload r.1 := by
  cases hr with
  | resumed => exact h.silent (Hooks.schedule_silent hK.toLawful s)
  | failed _ d e' =>
    exact Delivers.failRead hK.toLawful (h.silent (.of_log rfl))

/-- The completion handler of a read delivers its payload to the read handler. -/
theorem event_read_delivers {k : ℕ} {ec : ErrorCode} {data : List UInt8} {s : Session D R W}
    {r : Session D R W × Option (Frame F)} (hr : K.event (.read k ec data) s = some r)
    (hh : s.readHandler ≠ none) (hf : Fits Fit s) (h : Delivers payload s) :
    Delivers payload r.1 := by
  have hH := hK.toLawful
  obtain ⟨op, d, hop, hfill, rfl⟩ := event_read_eq hr
  cases ec with
  | some e =>
    have hdone : Delivers payload (s.readDone k (some e) data) :=
      h.append [.readCompleted (some e) data] rfl rfl
    exact readHandled_delivers hK (hK.onRead_handled (some e) data.length _)
      (hdone.silent (.of_log rfl))
  | none =>
    obtain ⟨g, hg⟩ := Option.ne_none_iff_exists'.1 hh
    obtain ⟨d', ⟨value, hv, he⟩ | ⟨e, hv, he⟩⟩ := hR.onRead_payload
      (s := { s with
        derived := d
        reads := s.reads.eraseIdx k
        log := s.log ++ [.readCompleted none data] })
      (hf op (List.mem_of_getElem? hop)) hfill <;> rw [he]
    · unfold Hooks.deliverRead
      simp only [Session.markReadFinished, hg]
      refine h.append [.readCompleted none data, .notified none value] ?_ ?_
      · simp [Session.emit]
      · simp [List.filterMap_cons, Event.delivered?, Event.received?, hv]
    · refine Delivers.failRead hH (h.append [.readCompleted none data] rfl ?_)
      simp [List.filterMap_cons, Event.delivered?, Event.received?, hv]

theorem event_delivers {e : Completion E} {s : Session D R W}
    {r : Session D R W × Option (Frame F)} (hr : K.event e s = some r)
    (hh : ∀ k ec data, e = .read k ec data → s.readHandler ≠ none) (hf : Fits Fit s)
    (h : Delivers payload s) : Delivers payload r.1 := by
  have hH := hK.toLawful
  rcases event_cases hK hr with ⟨k, ec, data, op, d, rfl, -, -⟩ | ⟨k, op, -, hop, rfl⟩ |
    ⟨k, op, e', -, hop, rfl⟩ | ⟨e', -, ⟨d, hd⟩, -⟩
  · exact event_read_delivers hK hR hr (hh k ec data rfl) hf h
  · have hdone : Silent s (s.writeDone k op none).consumeWrite := by
      rw [Session.consumeWrite_eq]
      exact .emit rfl rfl
    exact h.silent (hdone.trans (Hooks.schedule_silent hH _))
  · have hdone : Silent s (s.writeDone k op (some e')) := .emit rfl rfl
    exact h.silent (hdone.trans (Hooks.closeHook_silent hH _))
  · rw [hd]
    exact h.silent (.of_log rfl)

omit hR in
theorem resume_silent (f : Frame F) (s : Session D R W) : Silent s (K.resume f s).1 := by
  have hH := hK.toLawful
  cases f with
  | readError => exact Hooks.closeHook_silent hH s
  | readValue => exact Hooks.schedule_silent hH s
  | derived f =>
    obtain ⟨⟨d, hd⟩, -⟩ := hK.resumeDerived_members f s
    show Silent s (K.resumeDerived f s).1
    rw [hd]
    exact .of_log rfl

/-- **The members fit the outstanding reads**, in the runs whose steps meet `ok`. -/
theorem run_fits {s : Session D R W} {c : Strand.Config (Session D R W) (Frame F)}
    (hs : s.Fresh) (h : K.program.Run ok ⟨s, []⟩ c) : Fits Fit c.state := by
  induction h with
  | refl =>
    obtain ⟨d, rfl⟩ := hs
    rintro op ⟨⟩
  | @step c₁ c₂ l hr hl hstep ih =>
    have hk := run_kept hK hs hr
    rcases Strand.Program.step_cases hstep with ⟨x, rfl, rfl⟩ | ⟨e, r, rfl, hst, he, rfl⟩ |
      ⟨f, st, rfl, hst, rfl⟩
    · exact call_fits hK hR hl hk ih
    · exact event_fits hK hR he hk ih
    · exact resume_fits hK hR hk ih

/-- **Read delivery is exact**, in the runs in which a read handler is installed
    whenever a read completes. -/
theorem run_delivers {s : Session D R W} {c : Strand.Config (Session D R W) (Frame F)}
    (hs : s.Fresh) (h : K.program.Run ok ⟨s, []⟩ c)
    (hok : ∀ c k ec data, ok c (.event (.read k ec data)) → c.state.readHandler ≠ none) :
    Delivers payload c.state := by
  induction h with
  | refl =>
    obtain ⟨d, rfl⟩ := hs
    rfl
  | @step c₁ c₂ l hr hl hstep ih =>
    have hf := run_fits hK hR hs hr
    rcases Strand.Program.step_cases hstep with ⟨x, rfl, rfl⟩ | ⟨e, r, rfl, hst, he, rfl⟩ |
      ⟨f, st, rfl, hst, rfl⟩
    · exact ih.silent (call_silent hK x c₁.state)
    · have hhandler (k ec data) (h : e = .read k ec data) := hok _ k ec data (h ▸ hl)
      exact event_delivers hK hR he hhandler hf ih
    · exact ih.silent (resume_silent hK f c₁.state)

end

end SessionClass

end TransitSession
