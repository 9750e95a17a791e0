/-
  `apply_config`, and the read buffer.

  `apply_config` sets the port options one after the other, checks the buffer size
  last, and stores the duplex mode and resizes `read_buffer_` after that
  (`applyConfig_eq`).  So a call that fails leaves the options that it has set,
  and it is all or nothing if these had their values before
  (`applyConfig_all_or_nothing`).

  `set_read_buffer_size` leaves the buffer alone while a read is outstanding;
  `apply_config` does not, and this is all that resizes the buffer under a read
  (`read_buffer_stable`).
-/
import TransitSession.Delivery
import TransitSession.Reopening

namespace TransitSession.SerialSession

open Serial

/-! ## What `apply_config` does -/

/-- The options of a configuration. -/
def options (config : SerialPortConfig) : Port :=
  ⟨config.baudRate, config.characterSize, config.parity, config.stopBits, config.flowControl⟩

/-- The port after the first `n` options of `config` were set. -/
def setOptions (n : ℕ) (config : SerialPortConfig) (port : Port) : Port where
  baudRate := if 0 < n then config.baudRate else port.baudRate
  characterSize := if 1 < n then config.characterSize else port.characterSize
  parity := if 2 < n then config.parity else port.parity
  stopBits := if 3 < n then config.stopBits else port.stopBits
  flowControl := if 4 < n then config.flowControl else port.flowControl

/-- The error with which `apply_config` fails, and the number of options that it has
    set by then. -/
def failure (res : OptionResults) (config : SerialPortConfig) : Option (ℕ × Errc) :=
  match res.baudRate, res.characterSize, res.parity, res.stopBits, res.flowControl with
  | some e, _, _, _, _ => some (0, e)
  | none, some e, _, _, _ => some (1, e)
  | none, none, some e, _, _ => some (2, e)
  | none, none, none, some e, _ => some (3, e)
  | none, none, none, none, some e => some (4, e)
  | none, none, none, none, none =>
    if config.readBufferSize = 0 then some (5, .invalidArgument) else none

theorem applyConfig_eq (res : OptionResults) (config : SerialPortConfig) (s : SerialSession) :
    applyConfig res config s =
      match failure res config with
      | some (n, e) =>
        ({ s with derived.port := setOptions n config s.derived.port }, some e)
      | none =>
        ({ s with
            derived := { s.derived with
              port := options config
              duplexMode := config.duplexMode }.resize config.readBufferSize }, none) := by
  obtain ⟨baudRate, characterSize, parity, stopBits, flowControl⟩ := res
  unfold applyConfig failure
  cases baudRate with
  | some e => rfl
  | none =>
    cases characterSize with
    | some e => rfl
    | none =>
      cases parity with
      | some e => rfl
      | none =>
        cases stopBits with
        | some e => rfl
        | none =>
          cases flowControl with
          | some e => rfl
          | none =>
            by_cases hn : config.readBufferSize = 0
            · simp [hn, setOptions]
            · simp [hn, options]

@[simp] theorem resize_port (d : State) (n : ℕ) : (d.resize n).port = d.port := rfl

@[simp] theorem resize_duplexMode (d : State) (n : ℕ) :
    (d.resize n).duplexMode = d.duplexMode := rfl

@[simp] theorem length_resize (d : State) (n : ℕ) : (d.resize n).readBuffer.length = n := by
  simp only [State.resize, List.length_append, List.length_take, List.length_replicate]
  omega

/-! ## All or nothing -/

/-- A call that fails changes no port option, nor the duplex mode or the buffer; a
    call that succeeds gives all of them the values of `config`. -/
def AllOrNothing (res : OptionResults) (config : SerialPortConfig) (s : SerialSession) : Prop :=
  let r := applyConfig res config s
  (r.2 ≠ none → r.1.derived.port = s.derived.port ∧
      r.1.derived.duplexMode = s.derived.duplexMode ∧
      r.1.derived.readBuffer = s.derived.readBuffer) ∧
    (r.2 = none → r.1.derived.port = options config ∧
      r.1.derived.duplexMode = config.duplexMode ∧
      r.1.derived.readBuffer.length = config.readBufferSize)

/-- **`apply_config` is all or nothing** if the options it has set when it fails had
    the values of `config` before. -/
theorem applyConfig_all_or_nothing (res : OptionResults) (config : SerialPortConfig)
    (s : SerialSession) : AllOrNothing res config s ↔
      ∀ n e, failure res config = some (n, e) →
        setOptions n config s.derived.port = s.derived.port := by
  unfold AllOrNothing
  rw [applyConfig_eq]
  cases hf : failure res config with
  | none => simp
  | some f =>
    obtain ⟨n, e⟩ := f
    constructor
    · rintro ⟨h, -⟩ n' e' hn
      obtain ⟨rfl, rfl⟩ := Prod.mk.inj (Option.some.inj hn)
      exact (h (by intro he; cases he)).1
    · intro h
      exact ⟨fun _ => ⟨h n e rfl, rfl, rfl⟩, fun he => by cases he⟩

/-- The buffer size is checked when all five options are set. -/
theorem applyConfig_sets_options : ¬ ∀ (res : OptionResults) (config : SerialPortConfig)
    (s : SerialSession), s.derived.isOpen = true → AllOrNothing res config s := by
  intro h
  obtain ⟨s, hs⟩ : ∃ s, create none {} {} = some s := ⟨_, rfl⟩
  have := ((h {} { baudRate := 9600, readBufferSize := 0 } s (by cases hs; rfl)).1
    (by cases hs; intro he; cases he)).1
  cases hs
  cases this

/-! ## The buffer of an outstanding read -/

/-- The buffer has the size with which the read was initiated. -/
def SameSize (op : ReadOp) (d : State) : Prop := op.size = d.readBuffer.length

/-- The outstanding reads have a buffer of the size with which they were
    initiated. -/
abbrev Stable (s : SerialSession) : Prop := Fits SameSize s

/-- A call that resizes the buffer under a read: of `apply_config`, or of `open` on a
    port that was closed. -/
def Resizes (c : Kind.serial.Config) : Kind.serial.Label → Prop
  | .call (.derived (.applyConfig res config)) =>
    c.state.readInProgress = true ∧ (res = {} ∧ config.readBufferSize ≠ 0) ∧
      config.readBufferSize ≠ c.state.derived.readBuffer.length
  | .call (.derived (.open openEc res config)) =>
    c.state.readInProgress = true ∧ (c.state.derived.isOpen = false ∧ Opens openEc res config) ∧
      config.readBufferSize ≠ c.state.derived.readBuffer.length
  | _ => False

theorem failure_eq_none {res : OptionResults} {config : SerialPortConfig} :
    failure res config = none ↔ res = {} ∧ config.readBufferSize ≠ 0 := by
  rw [← applyConfig_ok res config construct, applyConfig_eq]
  cases failure res config with
  | none => simp
  | some f => simp

/-- `apply_config` resizes the buffer if it succeeds. -/
theorem applyConfig_buffer (res : OptionResults) (config : SerialPortConfig)
    (s : SerialSession) :
    (res = {} ∧ config.readBufferSize ≠ 0 ∧
      (applyConfig res config s).1.derived.readBuffer.length = config.readBufferSize) ∨
    (¬ (res = {} ∧ config.readBufferSize ≠ 0) ∧
      (applyConfig res config s).1.derived.readBuffer = s.derived.readBuffer) := by
  rw [applyConfig_eq]
  cases hf : failure res config with
  | none =>
    obtain ⟨hres, hn⟩ := failure_eq_none.1 hf
    exact Or.inl ⟨hres, hn, length_resize _ _⟩
  | some f =>
    refine Or.inr ⟨fun h => ?_, rfl⟩
    rw [failure_eq_none.2 h] at hf
    cases hf

/-- And so does `open`. -/
theorem open_buffer (openEc : ErrorCode) (res : OptionResults) (config : SerialPortConfig)
    (s : SerialSession) :
    ((s.derived.isOpen = false ∧ Opens openEc res config) ∧
      (s.open openEc res config).1.derived.readBuffer.length = config.readBufferSize) ∨
    (¬ (s.derived.isOpen = false ∧ Opens openEc res config) ∧
      (s.open openEc res config).1.derived.readBuffer = s.derived.readBuffer) := by
  have hok := applyConfig_ok res config { s with derived.isOpen := true }
  have hbuf := applyConfig_buffer res config { s with derived.isOpen := true }
  unfold SerialSession.open Opens
  cases ho : s.derived.isOpen with
  | true => simp
  | false =>
    cases openEc with
    | some e => simp
    | none =>
      rcases hbuf with ⟨hres, hn, hlen⟩ | ⟨hno, hb⟩
      · have hr := hok.2 ⟨hres, hn⟩
        exact Or.inl ⟨⟨rfl, rfl, hres, hn⟩, by simpa [hr] using hlen⟩
      · obtain ⟨e, hr⟩ := Option.ne_none_iff_exists'.1 (mt hok.1 hno)
        exact Or.inr ⟨fun h => hno h.2.2, by simpa [hr] using hb⟩

/-- A call that gives the buffer the size `n`, if `P`, keeps it stable unless the
    size changes under a read. -/
theorem stable_iff {s s' : SerialSession} {n : ℕ} {P : Prop} (hk : Kept s) (hs : Stable s)
    (hd : ∃ d, s' = { s with derived := d })
    (hbuf : (P ∧ s'.derived.readBuffer.length = n) ∨
      (¬ P ∧ s'.derived.readBuffer = s.derived.readBuffer)) :
    Stable s' ↔ ¬ (s.readInProgress = true ∧ P ∧ n ≠ s.derived.readBuffer.length) := by
  obtain ⟨d, rfl⟩ := hd
  cases hr : s.readInProgress with
  | false =>
    have hnil : s.reads = [] := hk.mirrored.reads_nil.2 hr
    refine iff_of_true (fun op hop => ?_) (by simp)
    rw [show ({ s with derived := d } : SerialSession).reads = [] from hnil] at hop
    cases hop
  | true =>
    have hne : s.reads ≠ [] := by
      intro hnil
      rw [hk.mirrored.reads_nil.1 hnil] at hr
      cases hr
    obtain ⟨op, hop⟩ := List.exists_mem_of_ne_nil _ hne
    have hsize : op.size = s.derived.readBuffer.length := hs op hop
    constructor
    · rintro h ⟨-, hp, hn⟩
      have hlen := (hbuf.resolve_right fun hb => hb.1 hp).2
      have hsize' : op.size = d.readBuffer.length := h op hop
      exact hn (hlen.symm.trans (hsize'.symm.trans hsize))
    · intro h op' hop'
      have hsize' : op'.size = s.derived.readBuffer.length := hs op' hop'
      rcases hbuf with ⟨hp, hlen⟩ | ⟨-, hb⟩
      · have hn : n = s.derived.readBuffer.length := by
          by_contra hn
          exact h ⟨rfl, hp, hn⟩
        exact hsize'.trans (hn.symm.trans hlen.symm)
      · exact hsize'.trans (congrArg List.length hb.symm)

theorem applyConfig_stable_iff (res : OptionResults) (config : SerialPortConfig)
    {c : Kind.serial.Config} (hk : Kept c.state) (hs : Stable c.state) :
    Stable (applyConfig res config c.state).1 ↔
      ¬ Resizes c (.call (.derived (.applyConfig res config))) := by
  refine stable_iff hk hs (applyConfig_members res config c.state) ?_
  rcases applyConfig_buffer res config c.state with ⟨hres, hn, hlen⟩ | h
  · exact Or.inl ⟨⟨hres, hn⟩, hlen⟩
  · exact Or.inr h

theorem open_stable_iff (openEc : ErrorCode) (res : OptionResults) (config : SerialPortConfig)
    {c : Kind.serial.Config} (hk : Kept c.state) (hs : Stable c.state) :
    Stable (SerialSession.open openEc res config c.state).1 ↔
      ¬ Resizes c (.call (.derived (.open openEc res config))) :=
  stable_iff hk hs (open_members openEc res config c.state) (open_buffer openEc res config c.state)

/-- `set_read_buffer_size` leaves the buffer of an outstanding read alone. -/
theorem setReadBufferSize_stable {n : ℕ} {s : SerialSession} (hk : Kept s) (hs : Stable s) :
    Stable (setReadBufferSize n s) := by
  unfold setReadBufferSize
  split_ifs with hn
  · exact hs
  · have hr : s.readInProgress = false := by
      simp only [Bool.or_eq_true, not_or, Bool.not_eq_true] at hn
      exact hn.1
    refine (stable_iff (P := True) hk hs ⟨_, rfl⟩ (Or.inl ⟨trivial, length_resize _ n⟩)).2 ?_
    simp [hr]

/-- A buffer that is not resized under a read receives all that is read. -/
theorem receives_stable : cls.Receives some SameSize fun c l => ¬ Resizes c l where
  doRead_fit {s} _ :=
    ⟨{ s.derived with readPauseForWrite := false }, ⟨s.derived.readBuffer.length, _, _⟩, rfl, rfl⟩
  doWrite_fit {s op} _ h := by
    show op.size = (doWrite s).derived.readBuffer.length
    unfold doWrite
    split
    · exact h
    · split_ifs <;> exact h
  closeTransport_fit h := h
  callDerived_fits {c x} hok hk h := by
    cases x with
    | «open» openEc res config => exact Or.inl ((open_stable_iff openEc res config hk h).2 hok)
    | applyConfig res config => exact Or.inl ((applyConfig_stable_iff res config hk h).2 hok)
    | setDuplexMode mode =>
      exact Or.inr ⟨{ c.state.derived with duplexMode := mode }, fun _ h => h, rfl⟩
    | setReadBufferSize n => exact Or.inl (setReadBufferSize_stable hk h)
  eventDerived_fit {e} := e.elim
  resumeDerived_fit {f} := f.elim
  onRead_payload {op data d s} hf hfill :=
    ⟨s.derived, Or.inl ⟨data, rfl, onRead_payload (Nat.le_of_eq hf) hfill⟩⟩

theorem run_stable {c : Kind.serial.Config}
    (h : Kind.serial.ReachableBy (fun c l => ¬ Resizes c l) c) : Stable c.state := by
  obtain ⟨s, hs, hr⟩ := h
  exact SessionClass.run_fits Kind.serial.lawful receives_stable hs.fresh hr

/-- **The read buffer is stable under an outstanding read**, and has room for all
    that a read transfers, until `apply_config` or `open` changes its size under a
    read; and then it is not. -/
theorem read_buffer_stable {c : Kind.serial.Config}
    (h : Kind.serial.ReachableBy (fun c l => ¬ Resizes c l) c) :
    Stable c.state ∧
      (∀ k ec data c', cls.program.step c (.event (.read k ec data)) = some c' →
        data.length ≤ c.state.derived.readBuffer.length) ∧
      ∀ l c', cls.program.step c l = some c' → (Stable c'.state ↔ ¬ Resizes c l) := by
  have hs := run_stable h
  refine ⟨hs, fun k ec data c' hstep => ?_, fun l c' hstep => ?_⟩
  · rcases Strand.Program.step_cases hstep with ⟨x, hl, -⟩ | ⟨e, r, hl, -, he, -⟩ |
      ⟨f, st, hl, -, -⟩
    · cases hl
    · cases hl
      obtain ⟨op, d, hop, hfill, -⟩ := SessionClass.event_read_eq he
      have hsize : op.size = c.state.derived.readBuffer.length :=
        hs op (List.mem_of_getElem? hop)
      change fill op data c.state.derived = some d at hfill
      simp only [fill, Option.ite_none_right_eq_some] at hfill
      exact hsize ▸ hfill.1
    · cases hl
  · constructor
    · intro hs' hre
      cases l with
      | call x =>
        cases x with
        | derived x =>
          rw [Strand.Program.step_call] at hstep
          obtain rfl := Option.some.inj hstep
          cases x with
          | «open» openEc res config =>
            exact (open_stable_iff openEc res config h.kept hs).1 hs' hre
          | applyConfig res config => exact (applyConfig_stable_iff res config h.kept hs).1 hs' hre
          | setDuplexMode | setReadBufferSize => exact hre
        | _ => exact hre
      | event | ret => exact hre
    · intro hl
      exact run_stable (h.trans (.step .refl hl hstep))

theorem read_buffer_stable_reading : ∃ c : Kind.serial.Config,
    c.state.reads = [⟨1024, 1, false⟩] ∧ Stable c.state := by
  obtain ⟨s, hs⟩ : ∃ s, create none {} {} = some s := ⟨_, rfl⟩
  have hr : Kind.serial.ReachableBy (fun c l => ¬ Resizes c l) ⟨hooks.startReading s, []⟩ :=
    ⟨s, ⟨_, _, _, hs⟩, .step (l := .call .startReading) .refl id rfl⟩
  refine ⟨_, ?_, (read_buffer_stable hr).1⟩
  cases hs
  decide +kernel

/-- `apply_config` makes the buffer smaller than the read that uses it. -/
theorem applyConfig_resizes_buffer :
    ¬ ∀ c : Kind.serial.Config, Kind.serial.Reachable c → Stable c.state := by
  intro h
  obtain ⟨c, hc, hp⟩ := Kind.exec_reachable (k := .serial) (create none {} {})
    [.call .startReading, .call (.derived (.applyConfig {} { readBufferSize := 64 }))]
    (fun c => decide (c.state.reads.any (·.size == 1024) ∧ c.state.derived.readBuffer.length = 64))
    (fun _ ht => ⟨_, _, _, ht⟩) (by decide +kernel)
  simp only [List.any_eq_true, beq_iff_eq, decide_eq_true_eq] at hp
  obtain ⟨⟨op, hop, hsize⟩, hlen⟩ := hp
  have : op.size = c.state.derived.readBuffer.length := h c hc op hop
  omega

/-- The buffer was not resized since the read was initiated, not even to the size that
    it had. -/
def Untouched (op : ReadOp) (d : State) : Prop := SameSize op d ∧ op.version = d.bufferVersion

/-- A call that resizes the buffer under a read, to whatever size. -/
def Touches (c : Kind.serial.Config) : Kind.serial.Label → Prop
  | .call (.derived (.applyConfig res config)) =>
    c.state.readInProgress = true ∧ res = {} ∧ config.readBufferSize ≠ 0
  | .call (.derived (.open openEc res config)) =>
    c.state.readInProgress = true ∧ c.state.derived.isOpen = false ∧ Opens openEc res config
  | _ => False

theorem applyConfig_untouched {res : OptionResults} {config : SerialPortConfig}
    (h : ¬ (res = {} ∧ config.readBufferSize ≠ 0)) (s : SerialSession) {op : ReadOp}
    (hop : Untouched op s.derived) : Untouched op (applyConfig res config s).1.derived := by
  rw [applyConfig_eq]
  cases hf : failure res config with
  | none => exact absurd (failure_eq_none.1 hf) h
  | some f => exact hop

theorem open_untouched {openEc : ErrorCode} {res : OptionResults} {config : SerialPortConfig}
    {s : SerialSession} (h : ¬ (s.derived.isOpen = false ∧ Opens openEc res config)) {op : ReadOp}
    (hop : Untouched op s.derived) : Untouched op (s.open openEc res config).1.derived := by
  unfold SerialSession.open
  split_ifs with ho hec
  · exact hop
  · exact hop
  · have hno : ¬ (res = {} ∧ config.readBufferSize ≠ 0) := fun hok =>
      h ⟨by simpa using ho, by simpa using hec, hok⟩
    have hap : Untouched op (applyConfig res config { s with derived.isOpen := true }).1.derived :=
      applyConfig_untouched hno _ hop
    dsimp only
    split_ifs <;> exact hap

/-- A call while no read is outstanding, or that leaves the buffer alone. -/
theorem fits_untouched {s s' : SerialSession} (hk : Kept s) (hs : Fits Untouched s)
    (hd : ∃ d, s' = { s with derived := d })
    (h : s.readInProgress = true → ∀ op, Untouched op s.derived → Untouched op s'.derived) :
    Fits Untouched s' := by
  obtain ⟨d, rfl⟩ := hd
  intro op hop
  cases hr : s.readInProgress with
  | true => exact h hr op (hs op hop)
  | false =>
    have hnil : s.reads = [] := hk.mirrored.reads_nil.2 hr
    rw [show ({ s with derived := d } : SerialSession).reads = [] from hnil] at hop
    cases hop

theorem receives_untouched : cls.Receives some Untouched fun c l => ¬ Touches c l where
  doRead_fit {s} _ := ⟨{ s.derived with readPauseForWrite := false },
    ⟨s.derived.readBuffer.length, s.derived.bufferVersion, _⟩, ⟨rfl, rfl⟩, rfl⟩
  doWrite_fit {s op} _ h := by
    show Untouched op (doWrite s).derived
    unfold doWrite
    split
    · exact h
    · split_ifs <;> exact h
  closeTransport_fit h := h
  callDerived_fits {c x} hok hk h := by
    cases x with
    | «open» openEc res config =>
      exact Or.inl (fits_untouched hk h (open_members openEc res config c.state)
        fun hr op hop => open_untouched (fun ho => hok ⟨hr, ho⟩) hop)
    | applyConfig res config =>
      exact Or.inl (fits_untouched hk h (applyConfig_members res config c.state)
        fun hr op hop => applyConfig_untouched (fun ho => hok ⟨hr, ho⟩) c.state hop)
    | setDuplexMode mode =>
      exact Or.inr ⟨{ c.state.derived with duplexMode := mode }, fun _ h => h, rfl⟩
    | setReadBufferSize n =>
      refine Or.inl ?_
      show Fits Untouched (setReadBufferSize n c.state)
      unfold setReadBufferSize
      split_ifs with hn
      · exact h
      · refine fits_untouched hk h ⟨_, rfl⟩ fun hr => ?_
        simp [hr] at hn
  eventDerived_fit {e} := e.elim
  resumeDerived_fit {f} := f.elim
  onRead_payload {op data d s} hf hfill :=
    ⟨s.derived, Or.inl ⟨data, rfl, onRead_payload (Nat.le_of_eq hf.1) hfill⟩⟩

/-- **The buffer is not resized at all under an outstanding read** as long as no
    `apply_config` or `open` succeeds under one. -/
theorem run_untouched {c : Kind.serial.Config}
    (h : Kind.serial.ReachableBy (fun c l => ¬ Touches c l) c) : Fits Untouched c.state := by
  obtain ⟨s, hs, hr⟩ := h
  exact SessionClass.run_fits Kind.serial.lawful receives_untouched hs.fresh hr

end TransitSession.SerialSession
