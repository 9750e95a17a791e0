/-
  What holds a session when it is finished.

  The closure that `do_accept` stores as the close handler of a session captures the
  session, and nothing takes it out of the slot again but another
  `set_close_handler`.  So a session that was closed and erased is released if and
  only if the last one stored a closure of the user that does not capture it, or none
  (`finished_released`).
-/
import Mathlib.Data.Set.Basic
import TransitSession.WebSocket.ActiveSessions

namespace TransitSession.WebSocket.Server

/-! ## Holders -/

/-- The closure captures the session. -/
def RefersTo (i : ℕ) : Closure → Prop
  | .call j _ | .event j _ | .erase j | .handOver j _ => j = i
  | _ => False

/-- What may hold a session: the set, a closure that is queued on a strand, the
    handler of an outstanding operation, and the closure in its own close handler. -/
inductive Holder where
  | activeSessions
  | queued (q : Closure)
  | read (op : ReadOp)
  | write (op : WriteOp (List UInt8))
  | handshake (handler : Option Callback)
  | closeHandler

def Holds (w : World) (i : ℕ) : Holder → Prop
  | .activeSessions => i ∈ w.shared.activeSessions
  | .queued q => (∃ s, q ∈ w.queue s) ∧ RefersTo i q
  | .read op => ∃ X, w.shared.sessions[i]? = some X ∧ op ∈ X.reads
  | .write op => ∃ X, w.shared.sessions[i]? = some X ∧ op ∈ X.writes
  | .handshake handler => ∃ X, w.shared.sessions[i]? = some X ∧
      handler ∈ X.derived.own.handshakes
  | .closeHandler => ∃ X h, w.shared.sessions[i]? = some X ∧
      X.derived.own.closeHandler = some h ∧ h.holdsSession = true

def holders (w : World) (i : ℕ) : Set Holder := {h | Holds w i h}

/-- The session is finished: `close_transport` and the closure that erases it have
    run, and no queued closure and no outstanding operation refers to it. -/
structure Finished (w : World) (i : ℕ) : Prop where
  closed : ∃ X, w.shared.sessions[i]? = some X ∧ X.derived.own.closeNotified = true
  erased : .erased i ∈ w.shared.log
  queued : ∀ s, ∀ q ∈ w.queue s, ¬ RefersTo i q
  idle : ∀ X, w.shared.sessions[i]? = some X →
    X.reads = [] ∧ X.writes = [] ∧ X.derived.own.handshakes = []

/-- What the closure stores in the close handler of session `i`. -/
def storesHandler (i : ℕ) (s : Server) : Option Closure → Option (Option Callback)
  | some (.call j (.derived (.setCloseHandler h))) =>
    if j = i ∧ s.sessions[i]?.isSome then some h else none
  | _ => none

/-- What the last `set_close_handler` on session `i` stored, in the run that took the
    steps `es`. -/
def lastStored (I : Iteration) (i : ℕ) (es : List (World × Label)) : Option (Option Callback) :=
  es.foldl (fun last e => (storesHandler i e.1.shared ((machine I).ran e.1 e.2)).or last) none

/-- The last `set_close_handler` on session `i` stored a closure that does not capture
    the session, or none. -/
def SlotReleased (I : Iteration) (i : ℕ) (es : List (World × Label)) : Prop :=
  ∃ h, lastStored I i es = some h ∧ h.any Callback.holdsSession = false

/-! ## The close handler of a session -/

/-- What is stored in the close handler of session `i`. -/
def closeHandlerOf (i : ℕ) (s : Server) : Option Callback :=
  s.sessions[i]?.bind fun X => X.derived.own.closeHandler

variable {I : Iteration} {i j : ℕ} {s s' : Server} {o : Option Closure} {g : Option ServerRest}
  {t t' : Tokens}

theorem closeHandlerOf_some {X : WebSocketServerSession} (h : s.sessions[i]? = some X) :
    closeHandlerOf i s = X.derived.own.closeHandler := by
  rw [closeHandlerOf, h]
  rfl

theorem storesHandler_part {h : Option Callback} (hs : storesHandler i s o = some h) :
    partOf o g = some (i, .call (.derived (.setCloseHandler h))) ∧ s.sessions[i]? ≠ none := by
  unfold storesHandler at hs
  split at hs
  · split_ifs at hs with hj
    cases hs
    obtain ⟨rfl, hX⟩ := hj
    exact ⟨rfl, Option.isSome_iff_ne_none.1 hX⟩
  · cases hs

/-- **The close handler is what was stored last.** -/
theorem LifeEffect.closeHandlerOf (he : LifeEffect i s s' t t' o g) :
    closeHandlerOf i s' = ((storesHandler i s o).or (some (closeHandlerOf i s))).join := by
  have hkeep (hs : s'.sessions[i]? = s.sessions[i]?) (hno : storesHandler i s o = none) :
      Server.closeHandlerOf i s' =
        ((storesHandler i s o).or (some (Server.closeHandlerOf i s))).join := by
    rw [hno, Server.closeHandlerOf, hs]
    rfl
  have hidle (hp : partOf o g = none) : storesHandler i s o = none := by
    refine Option.eq_none_iff_forall_ne_some.2 fun h hs => ?_
    have := (storesHandler_part (g := g) hs).1
    rw [hp] at this
    cases this
  cases he with
  | other hs hr ht hp =>
    refine hkeep hs (Option.eq_none_iff_forall_ne_some.2 fun h hst => ?_)
    obtain ⟨hpart, hX⟩ := storesHandler_part (g := g) hst
    exact hX (hp _ hpart)
  | accepted config hnone hs hr ht hp =>
    rw [hidle hp, closeHandlerOf_some hs, Server.closeHandlerOf, hnone]
    rfl
  | turn p X hp hX hX' hr hstart hhand herase =>
    rw [closeHandlerOf_some hX', closeHandlerOf_some hX]
    by_cases hset : ∃ h, p = .call (.derived (.setCloseHandler h))
    · obtain ⟨h, rfl⟩ := hset
      have ho := partOf_eq (q := .call i (.derived (.setCloseHandler h))) rfl hp
      subst ho
      simp only [storesHandler, hX, Option.isSome_some, and_self, if_true]
      rfl
    · have hno : storesHandler i s o = none := by
        refine Option.eq_none_iff_forall_ne_some.2 fun h hs => hset ⟨h, ?_⟩
        have hpart := (storesHandler_part (g := g) hs).1
        rw [hp] at hpart
        cases hpart
        rfl
      rw [hno]
      exact (WebSocketServerSession.part_turn p X).closeHandler fun h he => hset ⟨h, he⟩
  | erased ho hs ht hp =>
    subst hs
    exact hkeep rfl (hidle hp)
  | handed ho hs ht hp =>
    subst hs
    exact hkeep (by rw [handOver_sessions]) (hidle hp)

/-- A session is erased by a close handler that was stored in it. -/
theorem LifeEffect.stores (he : LifeEffect i s s' t t' o g) (hb : Balance i s t)
    (hm : .erased i ∈ s'.log ∨ t'.erase ≠ 0) :
    (.erased i ∈ s.log ∨ t.erase ≠ 0) ∨ Server.closeHandlerOf i s ≠ none := by
  cases he with
  | other hs hr ht hp | accepted config hnone hs hr ht hp =>
    rw [erased_mem hr.erased, ht] at hm
    exact Or.inl hm
  | turn p X hp hX hX' hr hstart hhand herase =>
    have hturn := WebSocketServerSession.part_turn p X
    rw [erased_mem hr.erased] at hm
    by_cases hfr : ServerFrame.erases ((p.run X).2.bind Frame.derived?) = 0
    · rw [hfr, Nat.add_zero] at herase
      rw [herase] at hm
      exact Or.inl hm
    · -- the close handler is called
      have herases := hturn.erases
      split_ifs at herases with hcond
      · refine Or.inr ?_
        rw [closeHandlerOf_some hX, hcond.2.2]
        exact Option.some_ne_none _
      · exact absurd herases hfr
  | erased ho hs ht hp =>
    subst ht
    exact Or.inl (Or.inr (Nat.succ_ne_zero _))
  | handed ho hs ht hp =>
    subst hs ht
    obtain ⟨X, hX, hins, hc, hact, hcount⟩ := hb.handing (Nat.succ_ne_zero _)
    rw [erased_mem (handOver_inserts hact).2.2.1] at hm
    exact Or.inl hm

/-! ## Runs -/

section
variable {w w' : World} {l : Label} {es : List (World × Label)} {v : View}

/-- What the close handler of the session says about the steps `es` that led here. -/
structure Stored (I : Iteration) (i : ℕ) (es : List (World × Label)) (v : View) (t : Tokens) :
    Prop where
  living : Living I i v t
  handler : closeHandlerOf i v.shared = (lastStored I i es).join
  erasing : .erased i ∈ v.shared.log ∨ t.erase ≠ 0 → lastStored I i es ≠ none

theorem Stored.idle (config : ServerConfig) :
    Stored I i [] ((Executor.World.idle { config := config } : World).view (machine I).home)
      ⟨0, 0, 0⟩ where
  living := .idle config
  handler := rfl
  erasing hm := by
    rcases hm with hm | hm
    · cases hm
    · exact absurd rfl hm

theorem lastStored_append (e : World × Label) : lastStored I i (es ++ [e]) =
    (storesHandler i e.1.shared ((machine I).ran e.1 e.2)).or (lastStored I i es) := by
  simp [lastStored]

theorem Stored.step (h : Stored I i es (w.view (machine I).home) t) (hw : Shaped I w)
    (hs : (machine I).step w l = some w') :
    ∃ t', Stored I i (es ++ [(w, l)]) (w'.view (machine I).home) t' := by
  obtain ⟨t', hl, he⟩ := h.living.step hw.nodup (Executor.step_view machine_lawful hw.held hs)
  refine ⟨t', hl, ?_, fun hm => ?_⟩
  · rw [he.closeHandlerOf, h.handler, lastStored_append]
    change ((storesHandler i w.shared ((machine I).ran w l)).or _).join = _
    cases storesHandler i w.shared ((machine I).ran w l) <;> rfl
  · rw [lastStored_append]
    have hlast : lastStored I i es ≠ none := by
      rcases he.stores h.living.balance hm with hm | hne
      · exact h.erasing hm
      · rintro hnone
        rw [h.handler, hnone] at hne
        exact hne rfl
    rw [ne_eq, Option.or_eq_none_iff]
    exact fun hno => hlast hno.2

theorem run_stored {config : ServerConfig}
    (h : Transition.Trace (machine I).step (Executor.World.idle { config := config }) es w)
    (i : ℕ) : Shaped I w ∧ ∃ t, Stored I i es (w.view (machine I).home) t := by
  refine h.inv (I := fun es w => Shaped I w ∧ ∃ t, Stored I i es (w.view (machine I).home) t)
    ⟨.idle config, _, .idle config⟩ fun es w₁ l w₂ ih hs => ?_
  obtain ⟨hw, t, ht⟩ := ih
  exact ⟨hw.step hs, ht.step hw hs⟩

/-- No closure that refers to a session is queued but on the strand of the server and
    on that of the session. -/
theorem queued_refers (held : Executor.Held (machine I) w) (hserver : w.queue .server = [])
    (hsession : w.queue (.session i) = []) : ∀ s, ∀ q ∈ w.queue s, ¬ RefersTo i q := by
  intro s q hq hrefers
  have hstrand : (machine I).strand q = s := held.queued s q hq
  cases q with
  | call j | event j =>
    obtain rfl : j = i := hrefers
    obtain rfl : s = .session j := hstrand.symm
    rw [hsession] at hq
    cases hq
  | erase | handOver =>
    obtain rfl : s = .server := hstrand.symm
    rw [hserver] at hq
    cases hq
  | setSessionHandler | start | stop | accepted => exact hrefers

/-- **A finished session is released** if and only if its close handler does not
    capture it any more. -/
theorem finished_released {config : ServerConfig}
    (h : Transition.Trace (machine I).step (Executor.World.idle { config := config }) es w)
    (hf : Finished w i) : holders w i = ∅ ↔ SlotReleased I i es := by
  obtain ⟨-, t, hl, hhandler, herasing⟩ := run_stored h i
  obtain ⟨last, hlast⟩ := Option.ne_none_iff_exists'.1 (herasing (Or.inl hf.erased))
  obtain ⟨X, hX, -⟩ := hf.closed
  change closeHandlerOf i w.shared = _ at hhandler
  rw [closeHandlerOf_some hX, hlast] at hhandler
  change _ = last at hhandler
  constructor
  · intro hempty
    refine ⟨last, hlast, ?_⟩
    by_contra hholds
    obtain ⟨h, rfl, hh⟩ := (Option.any_eq_true _ _).1 (Bool.not_eq_false _ ▸ hholds)
    have hmem : Holder.closeHandler ∈ holders w i := ⟨X, h, hX, hhandler, hh⟩
    rw [hempty] at hmem
    exact hmem
  · rintro ⟨last', hlast', hno⟩
    obtain rfl := Option.some.inj (hlast.symm.trans hlast')
    refine Set.eq_empty_of_forall_notMem fun holder hh => ?_
    cases holder with
    | activeSessions => exact (hl.balance.active.1 hh).2 hf.erased
    | queued q =>
      obtain ⟨⟨s, hq⟩, hrefers⟩ := hh
      exact hf.queued s q hq hrefers
    | read op =>
      obtain ⟨X, hX, hop⟩ := hh
      rw [(hf.idle X hX).1] at hop
      cases hop
    | write op =>
      obtain ⟨X, hX, hop⟩ := hh
      rw [(hf.idle X hX).2.1] at hop
      cases hop
    | handshake handler =>
      obtain ⟨X, hX, hop⟩ := hh
      rw [(hf.idle X hX).2.2] at hop
      cases hop
    | closeHandler =>
      obtain ⟨Y, h, hY, hh, hholds⟩ := hh
      rw [hX] at hY
      cases hY
      rw [← hhandler, hh] at hno
      simp [hholds] at hno

/-- The user closes a session, which is erased. -/
def closeAndErase : List Label :=
  [.post (.call 0 .close), .take 0 (.session 0), .step 0, .step 0, .step 0, .step 0]

/-- The user stores a close handler. -/
def storeHandler (h : Option Callback) : List Label :=
  [.post (.call 0 (.derived (.setCloseHandler h))), .take 0 (.session 0), .step 0]

/-- Nothing is left to do for the session 0, which was closed and erased. -/
def finished (w : World) : Bool :=
  resting w && (w.queue (.session 0)).isEmpty && decide (.erased 0 ∈ w.shared.log) &&
    (w.shared.sessions[0]?).any fun X => X.derived.own.closeNotified && X.reads.isEmpty &&
      X.writes.isEmpty && X.derived.own.handshakes.isEmpty

theorem finished_of (held : Executor.Held (machine I) w) (h : finished w = true) :
    Finished w 0 := by
  simp only [finished, resting, Bool.and_eq_true, List.isEmpty_iff, decide_eq_true_eq,
    Option.any_eq_true] at h
  obtain ⟨⟨⟨hrest, hqueue⟩, herased⟩, X, hX, ⟨⟨hclosed, hreads⟩, hwrites⟩, hhandshakes⟩ := h
  refine ⟨⟨X, hX, hclosed⟩, herased, queued_refers held hrest.1.1 hqueue, fun Y hY => ?_⟩
  rw [hX] at hY
  cases hY
  exact ⟨hreads, hwrites, hhandshakes⟩

/-- A session that was closed, and in which the user then stored a close handler that
    captures it, and one that does not. -/
theorem finished_released_cleared :
    (∃ w, Finished w 0 ∧ holders w 0 ≠ ∅) ∧ ∃ w, Finished w 0 ∧ holders w 0 = ∅ := by
  have hlast {ls : List Label} {h : Option Callback} (hl : lastStored inOrder 0
      (Transition.history (machine inOrder).step (Executor.World.idle {}) ls) = some h) :
      SlotReleased inOrder 0
          (Transition.history (machine inOrder).step (Executor.World.idle {}) ls) ↔
        h.any Callback.holdsSession = false := by
    constructor
    · rintro ⟨h', hl', hh⟩
      obtain rfl := Option.some.inj (hl.symm.trans hl')
      exact hh
    · exact fun hh => ⟨h, hl, hh⟩
  constructor
  · obtain ⟨w, hr, hp, -⟩ := exec_history (connect ++ handshake ++ closeAndErase ++
      storeHandler (some (.user 1 true))) finished (by decide +kernel) (by decide +kernel)
    have hf := finished_of (run_stored hr 0).1.held hp
    refine ⟨w, hf, fun hempty => ?_⟩
    have := (hlast (h := some (.user 1 true)) (by decide +kernel)).1
      ((finished_released hr hf).1 hempty)
    cases this
  · obtain ⟨w, hr, hp, -⟩ := exec_history (connect ++ handshake ++ closeAndErase ++
      storeHandler (some (.user 1 true)) ++ storeHandler (some (.user 2)))
      finished (by decide +kernel) (by decide +kernel)
    have hf := finished_of (run_stored hr 0).1.held hp
    exact ⟨w, hf, (finished_released hr hf).2
      ((hlast (h := some (.user 2)) (by decide +kernel)).2 rfl)⟩

/-- A session that the user only closes keeps itself. -/
theorem closed_session_kept : ¬ ∀ (I : Iteration) (config : ServerConfig) es w,
    Transition.Trace (machine I).step (Executor.World.idle { config := config }) es w →
    ∀ i, Finished w i → holders w i = ∅ := by
  intro h
  obtain ⟨w, hr, hp, -⟩ := exec_history (connect ++ handshake ++ closeAndErase)
    (fun w => finished w &&
      (w.shared.sessions[0]?).any fun X => X.derived.own.closeHandler = some .server)
    (by decide +kernel) (by decide +kernel)
  simp only [Bool.and_eq_true, Option.any_eq_true, decide_eq_true_eq] at hp
  obtain ⟨hf, X, hX, hserver⟩ := hp
  have hmem : Holder.closeHandler ∈ holders w 0 := ⟨X, .server, hX, hserver, rfl⟩
  rw [h inOrder {} _ w hr 0 (finished_of (run_stored hr 0).1.held hf)] at hmem
  exact hmem

end

end TransitSession.WebSocket.Server
