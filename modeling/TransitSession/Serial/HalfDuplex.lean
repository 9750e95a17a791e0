/-
  Half duplex in `SerialSession`.

  * `half_duplex_exclusive`: in half duplex a read starts only when nothing is
    written or queued, a write only when nothing is read, and the two are never
    outstanding together;
  * `NeverPaused`: the branch of `do_write` that cancels a read for a write is
    never taken, since `can_start_write` refuses a write while a read is
    outstanding;
  * so a write that is queued behind a read stays there (`ParksWrite`), and the
    runs without such a step are those that serve every write
    (`half_duplex_serves`).
-/
import TransitSession.Core.Scheduling
import TransitSession.Sessions

namespace TransitSession.SerialSession
open Serial

/-- The session is in half duplex. -/
def Half (s : SerialSession) : Prop := s.derived.duplexMode = .halfDuplex

instance (s : SerialSession) : Decidable (Half s) :=
  inferInstanceAs (Decidable (s.derived.duplexMode = .halfDuplex))

/-! ## `schedule_operations` of a serial session -/

theorem startWriting_eq (s : SerialSession) :
    hooks.startWriting s = s ∧ canStartWrite s = false ∨
    ∃ q, canStartWrite s = true ∧ s.writeQueue.head? = some q ∧
      hooks.startWriting s = s.markWriteStarted.asyncWrite ⟨q, q.message⟩ := by
  unfold Hooks.startWriting
  show (if canStartWrite s then doWrite s else s) = s ∧ _ ∨
    ∃ q, _ ∧ _ ∧ (if canStartWrite s then doWrite s else s) = _
  by_cases h : canStartWrite s = true
  · right
    obtain ⟨-, hq, -, hr⟩ := canStartWrite_eq_true.1 h
    obtain ⟨q, rest, hq⟩ := List.exists_cons_of_ne_nil hq
    have hf : s.currentWrite = some q := by simp [Session.currentWrite, hq]
    refine ⟨q, h, hf, ?_⟩
    rw [if_pos h, doWrite_eq hf fun hd => (hr hd).1]
  · left
    rw [if_neg h]
    exact ⟨rfl, by simpa using h⟩

/-- What `schedule_operations` does to a serial session. -/
structure Scheduled (s s' : SerialSession) : Prop where
  closed : s'.closed = s.closed
  queue : s'.writeQueue = s.writeQueue
  mode : s'.derived.duplexMode = s.derived.duplexMode
  pause : s.derived.readPauseForWrite = false → s'.derived.readPauseForWrite = false
  /-- the reads it starts are not cancelled -/
  reads : ∀ op ∈ s'.reads, op ∈ s.reads ∨ op.cancelRequested = false
  writing : s'.writeInProgress = (s.writeInProgress || canStartWrite s)
  reading : s'.readInProgress = true → s.readInProgress = true ∨
    (Half s → s'.writeInProgress = false)

theorem scheduled (s : SerialSession) : Scheduled s (hooks.scheduleOperations s) := by
  rw [Hooks.schedule_eq]
  rcases startWriting_eq s with ⟨hs, hw⟩ | ⟨q, hw, -, hs⟩ <;> rw [hs]
  · split_ifs with hr
    · refine ⟨rfl, rfl, rfl, fun _ => rfl, fun op hop => ?_, ?_, fun _ => Or.inr fun hm => ?_⟩
      · rcases List.mem_append.1 hop with h | h
        · exact Or.inl h
        · rw [List.mem_singleton.1 h]; exact Or.inr rfl
      · rw [hw, Bool.or_false]; rfl
      · exact ((canStartRead_eq_true.1 hr).2.2.2 hm).1
    · exact ⟨rfl, rfl, rfl, id, fun op hop => Or.inl hop, by rw [hw, Bool.or_false], Or.inl⟩
  · split_ifs with hr
    · -- both directions start: the mode is not half duplex
      refine ⟨rfl, rfl, rfl, fun _ => rfl, fun op hop => ?_, ?_, fun _ => Or.inr fun hm => ?_⟩
      · rcases List.mem_append.1 hop with h | h
        · exact Or.inl h
        · rw [List.mem_singleton.1 h]; exact Or.inr rfl
      · rw [hw, Bool.or_true]; rfl
      · exact ((canStartRead_eq_true.1 hr).2.2.2 hm).1
    · exact ⟨rfl, rfl, rfl, id, fun op hop => Or.inl hop, by rw [hw, Bool.or_true]; rfl, Or.inl⟩

/-- In half duplex a session that reads schedules nothing. -/
theorem schedule_of_reading {s : SerialSession} (hm : Half s) (hr : s.readInProgress = true) :
    hooks.scheduleOperations s = s := by
  refine Hooks.schedule_of_quiet hooks ⟨?_, ?_⟩
  · refine Bool.eq_false_iff.2 fun hc => ?_
    have := ((canStartWrite_eq_true.1 hc).2.2.2 hm).1
    rw [hr] at this; cases this
  · refine Bool.eq_false_iff.2 fun hc => ?_
    have := (canStartRead_eq_true.1 hc).2.1
    rw [hr] at this; cases this

/-! ## One step of a serial session -/

theorem applyConfig_pause (res : OptionResults) (config : SerialPortConfig) (s : SerialSession) :
    (applyConfig res config s).1.derived.readPauseForWrite = s.derived.readPauseForWrite := by
  unfold applyConfig
  dsimp only
  split_ifs <;> rfl

theorem open_pause (openEc : ErrorCode) (res : OptionResults) (config : SerialPortConfig)
    (s : SerialSession) :
    (s.open openEc res config).1.derived.readPauseForWrite = s.derived.readPauseForWrite := by
  have h := applyConfig_pause res config { s with derived.isOpen := true }
  unfold SerialSession.open
  dsimp only
  split_ifs
  exacts [rfl, rfl, h, h]

/-- What one step does to the state of a serial session. -/
inductive Effect (c : Kind.serial.Config) : Kind.serial.Label → SerialSession → Prop where
  | setReadHandler (h) : Effect c (.call (.setReadHandler h)) (c.state.setReadHandler h)
  | startReading : Effect c (.call .startReading) (hooks.startReading c.state)
  | stopReading : Effect c (.call .stopReading) c.state.stopReading
  | send (m) : Effect c (.call (.send m)) (hooks.enqueueWrite m c.state)
  | close : Effect c (.call .close) (hooks.close c.state).1
  | setDuplexMode (mode) :
      Effect c (.call (.derived (.setDuplexMode mode))) (setDuplexMode mode c.state)
  /-- the calls that configure the port, or resize the buffer -/
  | config (x) (d : State) : (∀ mode, x ≠ .setDuplexMode mode) →
      d.readPauseForWrite = c.state.derived.readPauseForWrite →
      Effect c (.call (.derived x)) { c.state with derived := d }
  | read (k ec data op) (b : List UInt8) (s : SerialSession) : c.state.reads[k]? = some op →
      (s = hooks.scheduleOperations { c.state.readDone k ec data with derived.readBuffer := b } ∨
        s = (hooks.close { c.state.readDone k ec data with derived.readBuffer := b }).1 ∨
        ∃ ec' v, s = Session.emit { c.state.readDone k ec data with derived.readBuffer := b }
          (.notified ec' v)) →
      Effect c (.event (.read k ec data)) s
  | written (k op) : c.state.writes[k]? = some op → Effect c (.event (.write k none))
      (hooks.scheduleOperations (c.state.writeDone k op none).consumeWrite)
  | writeFailed (k op e) : c.state.writes[k]? = some op → Effect c (.event (.write k (some e)))
      (hooks.close (c.state.writeDone k op (some e))).1
  | readFailed (h st) : c.stack = .readError h :: st → Effect c .ret (hooks.close c.state).1
  | delivered (h st) : c.stack = .readValue h :: st →
      Effect c .ret (hooks.scheduleOperations c.state)

theorem event_read {k : ℕ} {ec : ErrorCode} {data : List UInt8} {s : SerialSession}
    {r : SerialSession × Option (Frame Empty)} (h : cls.event (.read k ec data) s = some r) :
    ∃ op b, s.reads[k]? = some op ∧
      (r.1 = hooks.scheduleOperations { s.readDone k ec data with derived.readBuffer := b } ∨
        r.1 = (hooks.close { s.readDone k ec data with derived.readBuffer := b }).1 ∨
        ∃ ec' v, r.1 = Session.emit { s.readDone k ec data with derived.readBuffer := b }
          (.notified ec' v)) := by
  obtain ⟨op, d, hop, hd, rfl⟩ := SessionClass.event_read_eq h
  change fill op data s.derived = some d at hd
  unfold fill at hd
  split_ifs at hd
  obtain rfl := Option.some.inj hd
  refine ⟨op, (data ++ s.derived.readBuffer.drop data.length).take s.derived.readBuffer.length,
    hop, ?_⟩
  show (onRead _ _ _).1 = _ ∨ (onRead _ _ _).1 = _ ∨ ∃ ec' v, (onRead _ _ _).1 = _
  unfold onRead
  dsimp only
  split_ifs
  · exact Or.inl rfl
  · cases ec with
    | some e =>
      dsimp only
      rcases hooks.failRead_eq (Session.markReadFinished _) e with ⟨g, -, he⟩ | ⟨-, he⟩ <;> rw [he]
      · exact Or.inr (Or.inr ⟨_, _, rfl⟩)
      · exact Or.inr (Or.inl rfl)
    | none =>
      dsimp only
      rcases hooks.deliverRead_eq (Session.markReadFinished _) _ with ⟨g, he⟩ | he <;> rw [he]
      · exact Or.inr (Or.inr ⟨_, _, rfl⟩)
      · exact Or.inl rfl

theorem step_effect {c c' : Kind.serial.Config} {l : Kind.serial.Label}
    (h : Kind.serial.cls.program.step c l = some c') : Effect c l c'.state := by
  rcases Strand.Program.step_cases h with ⟨x, rfl, rfl⟩ | ⟨e, r, rfl, -, hr, rfl⟩ |
    ⟨f, st, rfl, hst, rfl⟩
  · cases x with
    | setReadHandler g => exact .setReadHandler g
    | startReading => exact .startReading
    | stopReading => exact .stopReading
    | send m => exact .send m
    | close => exact .close
    | derived x =>
      cases x with
      | setDuplexMode mode => exact .setDuplexMode mode
      | «open» openEc res config =>
        obtain ⟨d, hd⟩ := open_members openEc res config c.state
        have hp := open_pause openEc res config c.state
        show Effect c _ (SerialSession.open openEc res config c.state).1
        rw [hd] at hp ⊢
        exact .config _ d (by simp) hp
      | applyConfig res config =>
        obtain ⟨d, hd⟩ := applyConfig_members res config c.state
        have hp := applyConfig_pause res config c.state
        show Effect c _ (applyConfig res config c.state).1
        rw [hd] at hp ⊢
        exact .config _ d (by simp) hp
      | setReadBufferSize n =>
        show Effect c _ (setReadBufferSize n c.state)
        unfold setReadBufferSize
        split_ifs
        · exact .config _ c.state.derived (by simp) rfl
        · exact .config _ (c.state.derived.resize n) (by simp) rfl
  · cases e with
    | read k ec data =>
      obtain ⟨op, b, hop, hs⟩ := event_read hr
      exact .read k ec data op b _ hop hs
    | write k ec =>
      change cls.event (.write k ec) c.state = some r at hr
      rcases SessionClass.event_cases lawful hr with
        ⟨_, _, _, _, _, he, -⟩ | ⟨k, op, he, hop, rfl⟩ |
        ⟨k, op, e', he, hop, rfl⟩ | ⟨_, he, -⟩
      · cases he
      · cases he; exact .written k op hop
      · cases he; exact .writeFailed k op e' hop
      · cases he
    | derived e => exact e.elim
  · cases f with
    | readError g => exact .readFailed g st hst
    | readValue g => exact .delivered g st hst
    | derived f => exact f.elim

/-- A closing session keeps its members but for the port, its flags and its
    reads. -/
theorem close_keeps (s : SerialSession) :
    (hooks.close s).1.derived.readPauseForWrite = s.derived.readPauseForWrite ∧
    (hooks.close s).1.derived.duplexMode = s.derived.duplexMode ∧
    (hooks.close s).1.reads = s.reads ∧
    (hooks.close s).1.readInProgress = s.readInProgress ∧
    (hooks.close s).1.writeInProgress = s.writeInProgress := by
  unfold Hooks.close Session.close
  dsimp only
  split_ifs <;> exact ⟨rfl, rfl, rfl, rfl, rfl⟩

/-- Only a further call sets the mode. -/
theorem step_mode {c c' : Kind.serial.Config} {l : Kind.serial.Label}
    (h : Kind.serial.cls.program.step c l = some c') (hl : ∀ x, l ≠ .call (.derived x)) :
    c'.state.derived.duplexMode = c.state.derived.duplexMode := by
  have he := step_effect h
  generalize c'.state = s' at he
  cases he with
  | setReadHandler | stopReading => rfl
  | startReading =>
    rcases hooks.startReading_eq c.state with ⟨-, he⟩ | ⟨-, he⟩ <;> rw [he]
    exact (scheduled _).mode
  | send m =>
    rcases hooks.enqueueWrite_eq c.state m with ⟨-, he⟩ | ⟨-, he⟩ <;> rw [he]
    exact (scheduled _).mode
  | close | readFailed => exact (close_keeps c.state).2.1
  | setDuplexMode mode => exact absurd rfl (hl _)
  | config x => exact absurd rfl (hl x)
  | read k ec data op b s hop hs =>
    rcases hs with rfl | rfl | ⟨ec', v, rfl⟩
    · exact (scheduled _).mode
    · exact (close_keeps _).2.1
    · rfl
  | written k op hop =>
    rw [Session.consumeWrite_eq]
    exact (scheduled _).mode
  | writeFailed k op e hop => exact (close_keeps _).2.1
  | delivered => exact (scheduled c.state).mode

/-! ## The cancel branch of `do_write` -/

/-- No read was ever cancelled for a write. -/
structure NeverPaused (s : SerialSession) : Prop where
  pause : s.derived.readPauseForWrite = false
  reads : ∀ op ∈ s.reads, op.cancelRequested = false

namespace NeverPaused
variable {s : SerialSession}

theorem schedule (h : NeverPaused s) : NeverPaused (hooks.scheduleOperations s) where
  pause := (scheduled s).pause h.pause
  reads op hop := ((scheduled s).reads op hop).elim (h.reads op) id

theorem close (h : NeverPaused s) : NeverPaused (hooks.close s).1 where
  pause := (close_keeps s).1.trans h.pause
  reads op hop := h.reads op ((close_keeps s).2.2.1 ▸ hop)

theorem step {c c' : Kind.serial.Config} {l : Kind.serial.Label} (h : NeverPaused c.state)
    (hs : Kind.serial.cls.program.step c l = some c') : NeverPaused c'.state := by
  have he := step_effect hs
  generalize c'.state = s' at he
  cases he with
  | setReadHandler g => exact ⟨h.pause, h.reads⟩
  | startReading =>
    rcases hooks.startReading_eq c.state with ⟨-, he⟩ | ⟨-, he⟩ <;> rw [he]
    · exact h
    · exact NeverPaused.schedule ⟨h.pause, h.reads⟩
  | stopReading => exact ⟨h.pause, h.reads⟩
  | send m =>
    rcases hooks.enqueueWrite_eq c.state m with ⟨-, he⟩ | ⟨-, he⟩ <;> rw [he]
    · exact h
    · exact NeverPaused.schedule ⟨h.pause, h.reads⟩
  | close => exact h.close
  | setDuplexMode mode => exact NeverPaused.schedule ⟨h.pause, h.reads⟩
  | config x d _ hd => exact ⟨hd.trans h.pause, h.reads⟩
  | read k ec data op b s hop hs =>
    have ht : NeverPaused { c.state.readDone k ec data with derived.readBuffer := b } :=
      ⟨h.pause, fun op hop => h.reads op (List.mem_of_mem_eraseIdx hop)⟩
    rcases hs with rfl | rfl | ⟨ec', v, rfl⟩
    · exact ht.schedule
    · exact ht.close
    · exact ⟨ht.pause, ht.reads⟩
  | written k op hop =>
    rw [Session.consumeWrite_eq]
    exact NeverPaused.schedule ⟨h.pause, h.reads⟩
  | writeFailed k op e hop => exact NeverPaused.close ⟨h.pause, h.reads⟩
  | readFailed g st hst => exact h.close
  | delivered g st hst => exact h.schedule

end NeverPaused

/-- **A read is never cancelled for a write.** -/
theorem never_paused {c : Kind.serial.Config} (h : Kind.serial.Reachable c) :
    NeverPaused c.state := by
  obtain ⟨s, ⟨openEc, res, config, hs⟩, hr⟩ := h
  refine hr.inv (I := fun d => NeverPaused d.state) ?_ fun c₁ l c₂ h₁ _ hl => h₁.step hl
  have hp := open_pause openEc res config construct
  obtain ⟨d, rfl⟩ := create_derived hs
  unfold create at hs
  dsimp only at hs
  split_ifs at hs
  refine ⟨?_, fun op hop => by cases hop⟩
  rw [Option.some.inj hs] at hp
  exact hp

/-! ## Exclusion -/

/-- What half duplex asks of the operations that were initiated. -/
structure StartsAlone (s : SerialSession) : Prop where
  reads : ∀ d ws q, .readStarted d ws q ∈ s.log → d.duplexMode = .halfDuplex → ws = [] ∧ q = []
  writes : ∀ op d rs, .writeStarted op d rs ∈ s.log → d.duplexMode = .halfDuplex → rs = []

namespace StartsAlone
variable {s s' : SerialSession}

theorem append (h : StartsAlone s) {es : List (Event State (List UInt8) (List UInt8))}
    (hl : s'.log = s.log ++ es) (hes : ∀ e ∈ es, e.isStart = false) : StartsAlone s' := by
  constructor
  · intro d ws q he hm
    rw [hl] at he
    rcases List.mem_append.1 he with he | he
    · exact h.reads d ws q he hm
    · cases hes _ he
  · intro op d rs he hm
    rw [hl] at he
    rcases List.mem_append.1 he with he | he
    · exact h.writes op d rs he hm
    · cases hes _ he

theorem act (ha : Act hooks s s') (hk : Kept s) (h : StartsAlone s) : StartsAlone s' := by
  cases ha with
  | members | setHandler | enable | disable => exact ⟨h.reads, h.writes⟩
  | push | notify | readDone => exact h.append rfl (by simp [Event.isStart])
  | startRead op hs =>
    constructor
    · intro d ws q he hm
      rcases List.mem_append.1 he with he | he
      · exact h.reads d ws q he hm
      · obtain ⟨rfl, rfl, rfl⟩ : d = s.derived ∧ ws = s.writes ∧ q = s.writeQueue := by
          simpa [Session.markReadStarted] using he
        obtain ⟨hw, hq⟩ := (canStartRead_eq_true.1 hs).2.2.2 hm
        exact ⟨hk.mirrored.writes_nil.2 hw, hq⟩
    · intro op d rs he hm
      rcases List.mem_append.1 he with he | he
      · exact h.writes op d rs he hm
      · simp at he
  | startWrite q bytes hs hq =>
    constructor
    · intro d ws q he hm
      rcases List.mem_append.1 he with he | he
      · exact h.reads d ws q he hm
      · simp at he
    · intro op d rs he hm
      rcases List.mem_append.1 he with he | he
      · exact h.writes op d rs he hm
      · obtain ⟨-, rfl, rfl⟩ : _ ∧ d = s.derived ∧ rs = s.reads := by
          simpa [Session.markWriteStarted] using he
        exact hk.mirrored.reads_nil.2 ((canStartWrite_eq_true.1 hs).2.2.2 hm).1
  | close =>
    unfold Session.shutOnce
    split_ifs
    · exact h.append rfl (by simp [Event.isStart])
    · exact h.append rfl (by simp [Event.isStart])
  | writeDone k op hk =>
    rw [Session.consumeWrite_eq]
    exact h.append rfl (by simp [Event.isStart])
  | writeFailed k op e hk =>
    have h' : StartsAlone (s.writeDone k op (some e)) := h.append rfl (by simp [Event.isStart])
    unfold Session.shutOnce
    split_ifs
    · exact h'.append rfl (by simp [Event.isStart])
    · exact h'.append rfl (by simp [Event.isStart])

end StartsAlone

theorem starts_alone {c : Kind.serial.Config} (h : Kind.serial.Reachable c) :
    StartsAlone c.state := by
  obtain ⟨s, hs, hr⟩ := h
  have hf := Kind.Created.fresh hs
  refine (hf.kept.acts_inv hooks_lawful (SessionClass.run_acts lawful hr) ?_
    fun hk ha h => h.act ha hk).2
  obtain ⟨d, rfl⟩ := hf
  constructor <;> intros <;> contradiction

/-- A read and a write are not in progress together. -/
def Exclusive (s : SerialSession) : Prop := s.readInProgress = true → s.writeInProgress = false

namespace Exclusive
variable {s : SerialSession}

theorem schedule (hm : Half s) (h : Exclusive s) : Exclusive (hooks.scheduleOperations s) := by
  have hs := scheduled s
  intro hr
  rcases hs.reading hr with hr | hw
  · rw [schedule_of_reading hm hr]; exact h hr
  · exact hw hm

theorem close (h : Exclusive s) : Exclusive (hooks.close s).1 := by
  obtain ⟨-, -, -, hr, hw⟩ := close_keeps s
  intro hr'
  rw [hw]; exact h (hr ▸ hr')

/-- Steps from half duplex to half duplex keep the directions apart. -/
theorem step {c c' : Kind.serial.Config} {l : Kind.serial.Label} (h : Exclusive c.state)
    (hm : Half c.state) (hs : Kind.serial.cls.program.step c l = some c') (hm' : Half c'.state) :
    Exclusive c'.state := by
  have he := step_effect hs
  generalize c'.state = s' at he hm'
  cases he with
  | setReadHandler | stopReading | config => exact h
  | startReading =>
    rcases hooks.startReading_eq c.state with ⟨-, he⟩ | ⟨-, he⟩ <;> rw [he]
    · exact h
    · exact Exclusive.schedule hm h
  | send m =>
    rcases hooks.enqueueWrite_eq c.state m with ⟨-, he⟩ | ⟨-, he⟩ <;> rw [he]
    · exact h
    · exact Exclusive.schedule hm h
  | close | readFailed => exact h.close
  | setDuplexMode mode =>
    -- the mode that is set is the mode afterwards
    have hm : Half { c.state with derived.duplexMode := mode } :=
      (scheduled { c.state with derived.duplexMode := mode }).mode.symm.trans hm'
    exact Exclusive.schedule hm h
  | read k ec data op b s hop hs =>
    have ht : Exclusive { c.state.readDone k ec data with derived.readBuffer := b } := by
      intro hr; cases hr
    rcases hs with rfl | rfl | ⟨ec', v, rfl⟩
    · exact ht.schedule hm
    · exact ht.close
    · exact ht
  | written k op hop =>
    rw [Session.consumeWrite_eq]
    exact Exclusive.schedule hm fun _ => rfl
  | writeFailed k op e hop => exact Exclusive.close fun _ => rfl
  | delivered => exact h.schedule hm

end Exclusive

/-- **Half-duplex exclusion.**  In half duplex a read is initiated only while no
    write is outstanding or queued, a write only while no read is outstanding;
    and a session that is in half duplex throughout never has both
    outstanding. -/
theorem half_duplex_exclusive :
    (∀ c, Kind.serial.Reachable c → StartsAlone c.state) ∧
    ∀ c, Kind.serial.ReachableBy (fun c _ => Half c.state) c → Half c.state →
      c.state.reads = [] ∨ c.state.writes = [] := by
  refine ⟨fun c h => starts_alone h, ?_⟩
  intro c h hm
  have hk := h.kept.mirrored
  have hx : Half c.state → Exclusive c.state := by
    obtain ⟨s, hs, hr⟩ := h
    induction hr with
    | refl =>
      obtain ⟨d, rfl⟩ := Kind.Created.fresh hs
      intro _ hr; cases hr
    | @step c₁ c₂ l hr hm₁ hl ih =>
      intro hm₂
      have hk₁ : Kind.serial.ReachableBy (fun c _ => Half c.state) c₁ := ⟨s, hs, hr⟩
      exact (ih hm₁ hk₁.kept.mirrored hm₁).step hm₁ hl hm₂
  cases hr : c.state.readInProgress with
  | false => exact Or.inl (hk.reads_nil.2 hr)
  | true => exact Or.inr (hk.writes_nil.2 (hx hm hr))

theorem half_duplex_exclusive_reading : ∃ c : Kind.serial.Config, c.state.reads ≠ [] ∧
    StartsAlone c.state ∧ (c.state.reads = [] ∨ c.state.writes = []) := by
  obtain ⟨s, hs⟩ : ∃ s, create none {} { duplexMode := .halfDuplex } = some s := ⟨_, rfl⟩
  have hm : Half s := by cases hs; rfl
  have hr : Kind.serial.ReachableBy (fun c _ => Half c.state) ⟨hooks.startReading s, []⟩ :=
    ⟨s, ⟨_, _, _, hs⟩, .step (l := .call .startReading) .refl hm rfl⟩
  refine ⟨_, ?_, half_duplex_exclusive.1 _ hr.reachable, half_duplex_exclusive.2 _ hr ?_⟩
  · cases hs; decide +kernel
  · cases hs; decide +kernel

/-! ## Writes behind reads -/

/-- What the cancel branch is for: in half duplex a queued message is being
    written, or the read it waits for was asked to abort. -/
def Served (s : SerialSession) : Prop :=
  Half s → s.closed = false → s.writeQueue ≠ [] →
    s.writes ≠ [] ∨ ∃ op ∈ s.reads, op.cancelRequested = true

instance (s : SerialSession) : Decidable (Served s) :=
  inferInstanceAs (Decidable (_ → _ → _ → _))

/-- A step that leaves a message behind a read: `send` while a read and no
    write is in progress, or the completion of a write with more to write
    while a read is in progress. -/
def ParksWrite (c : Kind.serial.Config) : Kind.serial.Label → Prop
  | .call (.send _) => Half c.state ∧ c.state.closed = false ∧ c.state.readInProgress = true ∧
      c.state.writeInProgress = false
  | .event (.write _ none) => Half c.state ∧ c.state.closed = false ∧
      c.state.readInProgress = true ∧ 2 ≤ c.state.writeQueue.length
  | _ => False

/-- An open session with messages in its queue is writing. -/
def Serving (s : SerialSession) : Prop :=
  s.closed = false → s.writeQueue ≠ [] → s.writeInProgress = true

namespace Serving
variable {s : SerialSession}

/-- `schedule_operations` starts the write, unless half duplex and a read
    prevent it. -/
theorem schedule (hp : s.derived.readPauseForWrite = false)
    (h : Half s → s.closed = false → s.readInProgress = true → s.writeQueue ≠ [] →
      s.writeInProgress = true) : Serving (hooks.scheduleOperations s) := by
  have hs := scheduled s
  intro hc hq
  rw [hs.closed] at hc
  rw [hs.queue] at hq
  rw [hs.writing]
  cases hw : s.writeInProgress with
  | true => rfl
  | false =>
    refine canStartWrite_eq_true.2 ⟨hw, hq, hc, fun hm => ⟨?_, hp⟩⟩
    refine Bool.eq_false_iff.2 fun hr => ?_
    have := h hm hc hr hq
    rw [hw] at this; cases this

theorem of_closed (hc : s.closed = true) : Serving s := by
  intro hc'
  rw [hc] at hc'; cases hc'

theorem step {c c' : Kind.serial.Config} {l : Kind.serial.Label} (h : Serving c.state)
    (hp : NeverPaused c.state) (hl : ¬ ParksWrite c l)
    (hs : Kind.serial.cls.program.step c l = some c') : Serving c'.state := by
  have he := step_effect hs
  have hclose (t : SerialSession) : Serving (hooks.close t).1 :=
    of_closed (Hooks.close_closed hooks_lawful t)
  generalize c'.state = s' at he
  cases he with
  | setReadHandler | stopReading | config => exact h
  | startReading =>
    rcases hooks.startReading_eq c.state with ⟨-, he⟩ | ⟨-, he⟩ <;> rw [he]
    · exact h
    · exact Serving.schedule hp.pause fun _ hc _ hq => h hc hq
  | send m =>
    rcases hooks.enqueueWrite_eq c.state m with ⟨-, he⟩ | ⟨-, he⟩ <;> rw [he]
    · exact h
    · refine Serving.schedule hp.pause fun hm hc hr _ => ?_
      by_contra hw
      exact hl ⟨hm, hc, hr, Bool.eq_false_iff.2 hw⟩
  | close | readFailed => exact hclose _
  | setDuplexMode mode => exact Serving.schedule hp.pause fun _ hc _ hq => h hc hq
  | read k ec data op b s hop hs =>
    rcases hs with rfl | rfl | ⟨ec', v, rfl⟩
    · exact Serving.schedule hp.pause fun _ hc _ hq => h hc hq
    · exact hclose _
    · exact h
  | written k op hop =>
    rw [Session.consumeWrite_eq]
    refine Serving.schedule hp.pause fun hm hc hr hq => absurd ⟨hm, hc, hr, ?_⟩ hl
    -- the queue has a message after the one just written
    have hq' : c.state.writeQueue.tail ≠ [] := hq
    rw [← List.length_pos_iff, List.length_tail] at hq'
    omega
  | writeFailed => exact hclose _
  | delivered => exact Serving.schedule hp.pause fun _ hc _ hq => h hc hq

end Serving

/-- The messages of the session wait, and no write is in progress. -/
structure Parked (s : SerialSession) : Prop where
  half : Half s
  isOpen : s.closed = false
  queue : s.writeQueue ≠ []
  idle : s.writeInProgress = false

/-- Nobody cancels the read that the messages wait for. -/
theorem Parked.not_served {s : SerialSession} (h : Parked s) (hm : Mirrored s)
    (hp : NeverPaused s) : ¬ Served s := by
  intro hs
  rcases hs h.half h.isOpen h.queue with hw | ⟨op, hop, hc⟩
  · exact hw (hm.writes_nil.2 h.idle)
  · rw [hp.reads op hop] at hc; cases hc

theorem ParksWrite.parked {c c' : Kind.serial.Config} {l : Kind.serial.Label}
    (hl : ParksWrite c l) (hs : Kind.serial.cls.program.step c l = some c') : Parked c'.state := by
  have he := step_effect hs
  generalize c'.state = s' at he
  cases he with
  | send m =>
    obtain ⟨hm, hc, hr, hw⟩ := hl
    unfold Hooks.enqueueWrite
    rw [if_neg (by simp [hc]), schedule_of_reading (s := c.state.pushBack m) hm hr]
    exact ⟨hm, hc, by simp [Session.pushBack], hw⟩
  | written k op hop =>
    obtain ⟨hm, hc, hr, hq⟩ := hl
    rw [Session.consumeWrite_eq,
      schedule_of_reading (s := { c.state.writeDone k op none with writeQueue := _ }) hm hr]
    refine ⟨hm, hc, ?_, rfl⟩
    show c.state.writeQueue.tail ≠ []
    rw [← List.length_pos_iff, List.length_tail]
    omega
  | _ => exact hl.elim

/-- The step stays on the idle strand. -/
theorem ParksWrite.idle {c c' : Kind.serial.Config} {l : Kind.serial.Label}
    (hl : ParksWrite c l) (hst : c.stack = [])
    (hs : Kind.serial.cls.program.step c l = some c') : c'.stack = [] := by
  rcases Strand.Program.step_cases hs with ⟨x, rfl, rfl⟩ | ⟨e, r, rfl, -, hr, rfl⟩ |
    ⟨f, st, rfl, -, -⟩
  · cases x with
    | send m => exact hst
    | _ => exact hl.elim
  · cases e with
    | write k ec =>
      cases ec with
      | none =>
        change cls.event (.write k none) c.state = some r at hr
        unfold SessionClass.event at hr
        dsimp only at hr
        split at hr
        · cases hr
        · cases hr; rfl
      | some e => exact hl.elim
    | _ => exact hl.elim
  · exact hl.elim

/-- Without a step that parks a write, an open session with messages in its
    queue is writing. -/
theorem serving {c : Kind.serial.Config}
    (h : Kind.serial.ReachableBy (fun c l => ¬ ParksWrite c l) c) : Serving c.state := by
  obtain ⟨s, hs, hr⟩ := h
  induction hr with
  | refl =>
    obtain ⟨d, rfl⟩ := Kind.Created.fresh hs
    intro _ hq; exact absurd rfl hq
  | @step c₁ c₂ l hr hl hstep ih =>
    have hr₁ : Kind.serial.ReachableBy (fun c l => ¬ ParksWrite c l) c₁ := ⟨s, hs, hr⟩
    exact ih.step (never_paused hr₁.reachable) hl hstep

/-- **When half duplex parks no write behind a read.**  In the runs without a
    step that parks a write, every queued message of an open session is being
    written whenever the strand is idle; a step that parks a write, taken on an
    idle strand, leaves it behind a read that nobody cancels. -/
theorem half_duplex_serves (c : Kind.serial.Config) (hst : c.stack = []) :
    (Kind.serial.ReachableBy (fun c l => ¬ ParksWrite c l) c →
      Served c.state ∧ (c.state.closed = false → c.state.writeQueue ≠ [] → c.state.writes ≠ [])) ∧
    ∀ l c', Kind.serial.Reachable c → ParksWrite c l →
      Kind.serial.cls.program.step c l = some c' → c'.stack = [] ∧ ¬ Served c'.state := by
  constructor
  · intro h
    have hw : c.state.closed = false → c.state.writeQueue ≠ [] → c.state.writes ≠ [] := by
      intro hc hq hn
      have := serving h hc hq
      rw [h.kept.mirrored.writes_nil.1 hn] at this; cases this
    exact ⟨fun _ hc hq => Or.inl (hw hc hq), hw⟩
  · intro l c' hr hl hs
    have hr' : Kind.serial.Reachable c' := hr.trans (.step .refl trivial hs)
    exact ⟨hl.idle hst hs, (hl.parked hs).not_served hr'.kept.mirrored (never_paused hr')⟩

theorem half_duplex_serves_send : ∃ c : Kind.serial.Config, Half c.state ∧
    c.state.writeQueue ≠ [] ∧ Served c.state := by
  obtain ⟨s, hs⟩ : ∃ s, create none {} { duplexMode := .halfDuplex } = some s := ⟨_, rfl⟩
  have hl : ¬ ParksWrite ⟨s, []⟩ (.call (.send [1])) := by
    rintro ⟨-, -, hr, -⟩
    cases hs; cases hr
  have hr : Kind.serial.ReachableBy (fun c l => ¬ ParksWrite c l) ⟨hooks.enqueueWrite [1] s, []⟩ :=
    ⟨s, ⟨_, _, _, hs⟩, .step (l := .call (.send [1])) .refl hl rfl⟩
  refine ⟨_, ?_, ?_, ((half_duplex_serves _ rfl).1 hr).1⟩
  · cases hs; decide +kernel
  · cases hs; decide +kernel

/-- A message sent while half duplex reads is parked. -/
theorem half_duplex_parks_send :
    ¬ ∀ c, Kind.serial.Reachable c → c.stack = [] → Served c.state := by
  intro h
  obtain ⟨c, hc, hp⟩ := Kind.exec_reachable (k := .serial)
    (create none {} { duplexMode := .halfDuplex }) [.call .startReading, .call (.send [1])]
    (fun c => c.stack.isEmpty && !decide (Served c.state)) (fun _ ht => ⟨_, _, _, ht⟩)
    (by decide +kernel)
  simp only [Bool.and_eq_true, List.isEmpty_iff, Bool.not_eq_true', decide_eq_false_iff_not] at hp
  exact hp.2 (h c hc hp.1)

end TransitSession.SerialSession
