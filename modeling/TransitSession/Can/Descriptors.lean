/-
  The descriptors of a CAN session, over its whole life.

  `open` may be called again and again and may fail at any point, and the session may be
  closed in between; failed reads and writes close it, too, and so does a frame that
  cannot be encoded.  Each descriptor that the session obtains is closed once, before it
  obtains the next one, but for the one that its socket owns; a closed session owns none
  unless it was opened again (`descriptors_account`).
-/
import TransitSession.Opening
import TransitSession.Reopening

namespace TransitSession.CanSession
open Can

/-- The descriptors are still accounted for. -/
def KeepsAccount (s s' : CanSession) : Prop := s.io.Accounts [] → s'.io.Accounts []

theorem KeepsAccount.of_io {s s' : CanSession} (h : s'.io = s.io) : KeepsAccount s s' := by
  intro ha
  rw [h]
  exact ha

theorem closeTransport_io (s : CanSession) : (closeTransport s).1.io = s.io.close := by
  unfold closeTransport IoObject.close
  cases hfd : s.derived.fd with
  | none => simp [CanSession.io, hfd]
  | some fd => simp [CanSession.io, CanSession.logFd, hfd]

theorem hooks_keepAccount : hooks.Respects KeepsAccount where
  trans h h' := h' ∘ h
  core _ _ hd := .of_io (by unfold CanSession.io; rw [hd])
  doRead _ := .of_io rfl
  doWrite {s} _ := by
    show KeepsAccount s (doWrite s) ∨ doWrite s = (s.close closeTransport).1
    unfold doWrite
    cases s.currentWrite with
    | none => exact Or.inl (.of_io rfl)
    | some frame =>
      dsimp only
      cases encodeFrame s.derived.config.enableCanFd frame.message with
      | none => exact Or.inr rfl
      | some bytes => exact Or.inl (.of_io rfl)
  closeTransport {s} _ ha := by
    show (closeTransport s.shut).1.io.Accounts []
    rw [closeTransport_io]
    exact IoObject.Accounts.close ha

theorem onRead_keepsAccount (ec : ErrorCode) (n : ℕ) (s : CanSession) :
    KeepsAccount s (CanSession.onRead ec n s).1 := by
  have hdone : KeepsAccount s s.markReadFinished := .of_io rfl
  unfold CanSession.onRead
  cases ec with
  | some e => exact hooks_keepAccount.trans hdone (hooks_keepAccount.failRead e _)
  | none =>
    dsimp only
    generalize decodeFrame n s.markReadFinished.derived.readBuffer = r
    cases r with
    | error e => exact hooks_keepAccount.trans hdone (hooks_keepAccount.failRead e _)
    | ok frame =>
      have hread : KeepsAccount s { s.markReadFinished with derived.lastReadFrame := frame } :=
        .of_io rfl
      exact hooks_keepAccount.trans hread (hooks_keepAccount.deliverRead frame _)

theorem fill_io {op : ReadOp} {data : List UInt8} {d : Can.State} {s : CanSession}
    (h : CanSession.fill op data s.derived = some d) :
    CanSession.io { s with derived := d } = s.io := by
  have hmembers : d.fd = s.derived.fd ∧ d.descriptors = s.derived.descriptors := by
    unfold CanSession.fill at h
    split_ifs at h
    rw [← Option.some.inj h]
    exact ⟨Eq.refl s.derived.fd, Eq.refl s.derived.descriptors⟩
  exact congrArg₂ IoObject.mk hmembers.1 hmembers.2

theorem keepsAccount : cls.Respects KeepsAccount fun _ _ => True where
  toRespects := hooks_keepAccount
  setReadHandler _ := .of_io rfl
  fill h := .of_io (fill_io h)
  onRead := onRead_keepsAccount
  callDerived {c x} _ := by
    cases x with
    | «open» res config => exact fun ha => Opening.can_accounts res config ha
  eventDerived {e} := e.elim
  resumeDerived f := f.elim

/-- **Descriptors are accounted for**, in every run; and once a session is closed all of
    them are, unless it is opened again. -/
theorem descriptors_account {c : Kind.can.Config} (h : Kind.can.Reachable c) :
    IoObject.Accounts [] (CanSession.io c.state) ∧
      (Kind.can.ReachableBy (fun c l => ¬ Kind.can.Reopens c l) c → c.state.closed = true →
        ∃ fds : List ℕ, c.state.derived.descriptors =
          fds.flatMap fun fd => [.opened fd, .closed fd]) := by
  have hall : IoObject.Accounts [] (CanSession.io c.state) := by
    obtain ⟨s, ⟨res, config, hs⟩, hr⟩ := h
    refine hr.inv (I := fun d => IoObject.Accounts [] (CanSession.io d.state)) ?_
      fun c₁ l c₂ h₁ hl hs => SessionClass.step_respects keepsAccount hl hs h₁
    have hopen : (construct.open res config).1.io.Accounts [] :=
      Opening.can_accounts res config (IoObject.accounts_refl rfl)
    unfold create at hs
    dsimp only at hs
    split_ifs at hs
    obtain rfl := Option.some.inj hs
    exact hopen
  refine ⟨hall, fun hstays hclosed => ?_⟩
  have hshuts := Kind.shuts (k := .can) (by decide)
  have hfd : Kind.can.isOpen c.state.derived = false := by
    obtain ⟨s, hs, hr⟩ := hstays
    refine hr.inv (I := fun d => d.state.closed = true → Kind.can.isOpen d.state.derived = false)
      ?_ (fun c₁ l c₂ h₁ hl hs => (SessionClass.step_respects hshuts hl hs).closed h₁) hclosed
    obtain ⟨d, rfl⟩ := hs.fresh
    exact nofun
  obtain ⟨fds, hfds⟩ := hall
  refine ⟨fds, ?_⟩
  have hnone : c.state.derived.fd = none :=
    Option.isNone_iff_eq_none.1 (Option.isSome_eq_false_iff.1 hfd)
  simpa [CanSession.io, hnone] using hfds

/-- A session that was closed, and one that failed to open in between. -/
theorem descriptors_account_closed : ∃ c : Kind.can.Config,
    c.state.derived.descriptors = [.opened 3, .closed 3, .opened 4, .closed 4] ∧
      IoObject.Accounts [] (CanSession.io c.state) := by
  obtain ⟨s, hs⟩ : ∃ s, create { socket := .ok 3 } {} = some s := ⟨_, rfl⟩
  have hr : Kind.can.Reachable _ := ⟨s, ⟨_, _, hs⟩,
    .step (l := .call (.derived (.open { socket := .ok 4, bind := some (.system 98) } {})))
      (.step (l := .call .close) .refl trivial rfl) trivial rfl⟩
  refine ⟨_, ?_, (descriptors_account hr).1⟩
  cases hs
  rfl

end TransitSession.CanSession
