/-
  The read buffer of a serial session always has room.

  It starts with a size that is not zero, and nothing gives it the size zero:
  `apply_config` refuses it, and `set_read_buffer_size` ignores it (`roomy`).  So a read
  of a serial session can always transfer something.
-/
import TransitSession.Serial.Configuration
import TransitSession.Serial.HalfDuplex

namespace TransitSession

namespace SerialSession
open Serial

/-- The read buffer has room. -/
def Roomy (s : SerialSession) : Prop := s.derived.readBuffer.length ≠ 0

namespace Roomy
variable {s : SerialSession}

theorem schedule (h : Roomy s) : Roomy (hooks.scheduleOperations s) := by
  rw [Hooks.schedule_eq]
  rcases startWriting_eq s with ⟨hs, -⟩ | ⟨q, -, -, hs⟩ <;> rw [hs] <;> split_ifs <;> exact h

theorem close (h : Roomy s) : Roomy (hooks.close s).1 := by
  unfold Hooks.close Session.close
  dsimp only
  split_ifs <;> exact h

theorem applyConfig (h : Roomy s) (res : OptionResults) (config : SerialPortConfig) :
    Roomy (SerialSession.applyConfig res config s).1 := by
  unfold Roomy
  rcases applyConfig_buffer res config s with ⟨-, hn, hlen⟩ | ⟨-, hb⟩
  · rw [hlen]
    exact hn
  · rw [hb]
    exact h

theorem «open» (h : Roomy s) (openEc : ErrorCode) (res : OptionResults)
    (config : SerialPortConfig) : Roomy (s.open openEc res config).1 := by
  unfold Roomy
  rcases open_buffer openEc res config s with ⟨⟨-, -, -, hn⟩, hlen⟩ | ⟨-, hb⟩
  · rw [hlen]
    exact hn
  · rw [hb]
    exact h

theorem setReadBufferSize (h : Roomy s) (n : ℕ) : Roomy (SerialSession.setReadBufferSize n s) := by
  unfold SerialSession.setReadBufferSize
  split_ifs with hn
  · exact h
  · show (s.derived.resize n).readBuffer.length ≠ 0
    rw [length_resize]
    rintro rfl
    simp at hn

theorem onRead (h : Roomy s) (ec : ErrorCode) (n : ℕ) : Roomy (SerialSession.onRead ec n s).1 := by
  have hdone : Roomy s.markReadFinished := h
  unfold SerialSession.onRead
  dsimp only
  split_ifs
  · exact hdone.schedule
  · cases ec with
    | some e =>
      show Roomy (hooks.failRead e s.markReadFinished).1
      rcases hooks.failRead_eq s.markReadFinished e with ⟨g, -, he⟩ | ⟨-, he⟩ <;> rw [he]
      exacts [hdone, hdone.close]
    | none =>
      show Roomy (hooks.deliverRead (s.markReadFinished.derived.readBuffer.take n)
        s.markReadFinished).1
      rcases hooks.deliverRead_eq s.markReadFinished
        (s.markReadFinished.derived.readBuffer.take n) with ⟨g, he⟩ | he <;> rw [he]
      exacts [hdone, hdone.schedule]

theorem step {c c' : Kind.serial.Config} {l : Kind.serial.Label} (h : Roomy c.state)
    (hs : Kind.serial.cls.program.step c l = some c') : Roomy c'.state := by
  rcases Strand.Program.step_cases hs with ⟨x, rfl, rfl⟩ | ⟨e, r, rfl, -, hr, rfl⟩ |
    ⟨f, st, rfl, -, rfl⟩
  · cases x with
    | setReadHandler | stopReading => exact h
    | startReading =>
      show Roomy (hooks.startReading c.state)
      rcases hooks.startReading_eq c.state with ⟨-, he⟩ | ⟨-, he⟩ <;> rw [he]
      · exact h
      · exact Roomy.schedule h
    | send m =>
      show Roomy (hooks.enqueueWrite m c.state)
      rcases hooks.enqueueWrite_eq c.state m with ⟨-, he⟩ | ⟨-, he⟩ <;> rw [he]
      · exact h
      · exact Roomy.schedule h
    | close => exact h.close
    | derived x =>
      cases x with
      | «open» openEc res config => exact h.open openEc res config
      | applyConfig res config => exact h.applyConfig res config
      | setDuplexMode mode => exact Roomy.schedule h
      | setReadBufferSize n => exact h.setReadBufferSize n
  · cases e with
    | read k ec data =>
      obtain ⟨op, d, -, hfill, rfl⟩ := SessionClass.event_read_eq hr
      refine Roomy.onRead ?_ ec data.length
      have hlen : d.readBuffer.length = c.state.derived.readBuffer.length := by
        change fill op data c.state.derived = some d at hfill
        unfold fill at hfill
        split_ifs at hfill
        rw [← Option.some.inj hfill]
        show ((data ++ c.state.derived.readBuffer.drop data.length).take
          c.state.derived.readBuffer.length).length = _
        rw [List.length_take, List.length_append, List.length_drop]
        omega
      show d.readBuffer.length ≠ 0
      rw [hlen]
      exact h
    | write k ec =>
      change cls.event (.write k ec) c.state = some r at hr
      rcases SessionClass.event_cases lawful hr with ⟨_, _, _, _, _, he, -⟩ | ⟨k, op, he, -, rfl⟩ |
        ⟨k, op, e', he, -, rfl⟩ | ⟨_, he, -⟩
      · cases he
      · rw [Session.consumeWrite_eq]
        exact Roomy.schedule h
      · exact Roomy.close h
      · cases he
    | derived e => exact e.elim
  · cases f with
    | readError g => exact h.close
    | readValue g => exact h.schedule
    | derived f => exact f.elim

end Roomy

/-- **The read buffer of a serial session always has room.** -/
theorem roomy {c : Kind.serial.Config} (h : Kind.serial.Reachable c) : Roomy c.state := by
  obtain ⟨s, ⟨openEc, res, config, hs⟩, hr⟩ := h
  refine hr.inv (I := fun d => Roomy d.state) ?_ fun c₁ l c₂ h₁ _ hl => h₁.step hl
  have hconstruct : Roomy construct := by
    show (List.replicate defaultReadBufferSize (0 : UInt8)).length ≠ 0
    rw [List.length_replicate]
    decide
  have hopen := hconstruct.open openEc res config
  unfold create at hs
  dsimp only at hs
  split_ifs at hs
  rw [← Option.some.inj hs]
  exact hopen

end SerialSession

end TransitSession
