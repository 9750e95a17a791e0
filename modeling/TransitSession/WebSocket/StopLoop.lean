/-
  The loop of `WebSocketServer::stop` over the active sessions.

  The loop calls `close()` on each session.  If that closure runs inline, it
  calls the close handler that `do_accept` set, and the closure dispatched there
  erases the session from the set under the loop.  `closesInLoop` are the steps
  that do so; without them no loop has its set changed, and each visits every
  session of the set once (`stop_safe`).

  The invariant (`Tame`) is about the items above a loop on a stack: none of
  them will change the set.
-/
import TransitSession.WebSocket.ServerSteps

namespace TransitSession.WebSocket.Server

/-! ## Closing a session under a loop -/

def isLoop : ServerRest → Bool
  | .stopLoop _ _ _ => true
  | _ => false

/-- A loop of `stop()` is on the stack. -/
def hasLoop (st : List Item) : Bool := st.any fun it => it.frame?.any isLoop

/-- The closure will call the close handler of the server, for a session in the
    set. -/
def closesActive (q : Closure) (s : Server) : Bool :=
  match q with
  | .call i x =>
    match s.sessions[i]? with
    | none => false
    | some X => decide (i ∈ s.activeSessions) && WebSocketServerSession.closing x X &&
        !X.derived.own.closeNotified && X.derived.own.closeHandler = some .server
  | _ => false

/-- The thread `t` runs such a closure inline, in a loop. -/
def closesInline (I : Iteration) (w : World) (t : ℕ) (q : Closure) : Bool :=
  w.inline t ((machine I).strand q) && hasLoop (w.stack t) && closesActive q w.shared

/-- The step runs such a closure inline, in a loop. -/
def closesInLoop (I : Iteration) (w : World) : Label → Bool
  | .step t =>
    match w.stack t with
    | .dispatch q _ :: _ => closesInline I w t q
    | _ => false
  | .call t q => closesInline I w t q
  | _ => false

variable {I : Iteration} {w w' : World} {l : Label}

theorem isLoop_iff {f : ServerRest} : isLoop f = true ↔ ∃ e v r, f = .stopLoop e v r := by
  cases f <;> simp [isLoop]

theorem hasLoop_iff {st : List Item} :
    hasLoop st = true ↔ ∃ it ∈ st, ∃ e v r, it.frame? = some (.stopLoop e v r) := by
  simp only [hasLoop, List.any_eq_true, Option.any_eq_true, isLoop_iff]
  constructor
  · rintro ⟨it, hit, f, hf, e, v, r, rfl⟩
    exact ⟨it, hit, e, v, r, hf⟩
  · rintro ⟨it, hit, e, v, r, hf⟩
    exact ⟨it, hit, _, hf, e, v, r, rfl⟩

theorem hasLoop_stack {t : ℕ} :
    hasLoop (w.stack t) = true ↔ ∃ e v r, w.HasFrame t (.stopLoop e v r) := by
  rw [hasLoop_iff]
  constructor
  · rintro ⟨it, hit, e, v, r, hf⟩
    exact ⟨e, v, r, it, hit, hf⟩
  · rintro ⟨e, v, r, it, hit, hf⟩
    exact ⟨it, hit, e, v, r, hf⟩

theorem hasLoop_append {st st' : List Item} :
    hasLoop (st ++ st') = true ↔ hasLoop st = true ∨ hasLoop st' = true := by
  simp [hasLoop, List.any_append]

theorem hasLoop_cons (it : Item) {st : List Item} (h : hasLoop st = true) :
    hasLoop (it :: st) = true := by
  simp only [hasLoop, List.any_cons] at h ⊢
  rw [h, Bool.or_true]

/-! ## What lies above a loop -/

/-- A closure that will not change the set, unless it closes a session. -/
def TameClosure (active : List ℕ) : Closure → Prop
  | .erase i => i ∉ active
  | .handOver _ none | .event _ _ | .accepted _ _ => False
  | _ => True

def TameRest : ServerRest → Prop
  | .acceptStart _ _ | .session _ (.readError _) => False
  | _ => True

def TameItem (active : List ℕ) : Item → Prop
  | .dispatch q f => TameClosure active q ∧ TameRest f
  | .resume f | .user f => TameRest f
  | .release _ => True

def Tame (active : List ℕ) : List Item → Prop
  | [] => True
  | it :: st => (hasLoop (it :: st) = true → TameItem active it) ∧ Tame active st

/-- How a part of a closure ends above a loop. -/
def TameTail (active : List ℕ) : Tail → Prop
  | .done => True
  | .dispatch q f => TameClosure active q ∧ TameRest f
  | .user f => TameRest f

/-- User code that is called by a closure of session `i` above a loop. -/
def TameFrame (active : List ℕ) (i : ℕ) : Frame ServerFrame → Prop
  | .derived (.closeHandler h) | .derived (.startClosing h _ _) => h = .server → i ∉ active
  | .derived (.startHandler _ ec) => ec.isSome = true
  | _ => False

section
variable {active : List ℕ}

theorem Tame.append {st st' : List Item}
    (h : ∀ it ∈ st, hasLoop (st ++ st') = true → TameItem active it) (h' : Tame active st') :
    Tame active (st ++ st') := by
  induction st with
  | nil => exact h'
  | cons it st ih =>
    refine ⟨h it List.mem_cons_self, ih fun it' hit hl => ?_⟩
    exact h it' (List.mem_cons_of_mem _ hit) (hasLoop_cons it hl)

theorem Tame.of_noLoop {st : List Item} (h : hasLoop st = false) : Tame active st := by
  induction st with
  | nil => trivial
  | cons it st ih =>
    refine ⟨fun hl => absurd hl (by simp [h]), ih ?_⟩
    simp only [hasLoop, List.any_cons, Bool.or_eq_false_iff] at h
    exact h.2

theorem tame_frame {it : Item} {f : ServerRest} (h : TameItem active it)
    (hf : it.frame? = some f) : TameRest f := by
  cases it with
  | resume | user => cases hf; exact h
  | dispatch => cases hf; exact h.2
  | release => cases hf

theorem TameTail.items {r : Tail} (h : TameTail active r) :
    ∀ it ∈ (r.items : List Item), TameItem active it := by
  intro it hit
  cases r with
  | done => cases hit
  | dispatch | user =>
    rw [List.mem_singleton.1 hit]
    exact h

theorem tame_sessionTail {i : ℕ} {o : Option (Frame ServerFrame)}
    (h : ∀ f, o = some f → TameFrame active i f) : TameTail active (sessionTail i o) := by
  cases o with
  | none => trivial
  | some f =>
    have hf := h f rfl
    rcases f with _ | _ | g
    · exact hf.elim
    · exact hf.elim
    · rcases g with ⟨_ | _⟩ | ⟨_ | _, _, _⟩ | ⟨_ | _, ec⟩
      · exact ⟨hf rfl, trivial⟩
      · exact trivial
      · exact ⟨hf rfl, trivial⟩
      · exact trivial
      · cases ec with
        | none => cases hf
        | some e => exact ⟨trivial, trivial⟩
      · exact trivial

theorem tame_onSession {i : ℕ}
    {part : WebSocketServerSession → WebSocketServerSession × Option (Frame ServerFrame)}
    {s : Server}
    (h : ∀ X f, s.sessions[i]? = some X → (part X).2 = some f → TameFrame active i f) :
    TameTail active (s.onSession i part).2 := by
  unfold onSession
  split
  · trivial
  · next X hX => exact tame_sessionTail fun f hf => h X f hX hf

theorem tame_stopLoop (entry visited : List ℕ) (s : Server) (rest : List ℕ) :
    TameTail active (s.stopLoop entry visited rest).2 := by
  cases rest with
  | nil => trivial
  | cons i rest => exact ⟨trivial, trivial⟩

theorem tame_notify {ec : ErrorCode} {session : Option ℕ} {s : Server} {rest : ServerRest}
    {next : Server → Server} (hr : TameRest rest) :
    TameTail active (s.notifySession ec session rest next).2 := by
  unfold notifySession
  split_ifs
  exacts [hr, trivial]

end

/-! ## Closures above a loop -/

/-- The calls above a loop, unless they close a session in the set. -/
theorem call_tame {i : ℕ} {x : Call (List UInt8) WebSocketServerSession.DerivedCall} {s : Server}
    (hc : closesActive (.call i x) s = false) {X : WebSocketServerSession} {f : Frame ServerFrame}
    (hX : s.sessions[i]? = some X) (hf : (WebSocketServerSession.cls.call x X).2 = some f) :
    TameFrame s.activeSessions i f := by
  rcases WebSocketServerSession.call_frame hf with ⟨hx, h, hh, hf⟩ | ⟨h, e, rfl⟩
  · have hactive : h = .server → i ∉ s.activeSessions := by
      rintro rfl hi
      rw [WebSocketServerSession.closeTransport_calls] at hh
      split_ifs at hh with hn
      simp [closesActive, hX, hi, hx, hh, hn] at hc
    rcases hf with rfl | ⟨handler, e, rfl⟩ <;> exact hactive
  · rfl

/-- What is left of a session's closure above a loop. -/
theorem session_tame {active : List ℕ} {i : ℕ} {g f : Frame ServerFrame}
    {X : WebSocketServerSession} (hg : TameRest (.session i g))
    (hf : (WebSocketServerSession.cls.resume g X).2 = some f) :
    TameFrame active i f := by
  rcases g with _ | _ | ⟨_ | ⟨_, handler, e⟩ | _⟩
  · exact hg.elim
  · cases hf
  · cases hf
  · obtain ⟨h, -, rfl⟩ := Option.map_eq_some_iff.1 hf
    rfl
  · cases hf

theorem callable_tame {q : Closure} {s : Server} (hc : callable q s = true) (active : List ℕ) :
    TameClosure active q := by
  cases q with
  | setSessionHandler | start | stop | call => trivial
  | accepted | erase | handOver | event => cases hc

/-- A closure that may change the set is not one of the user's. -/
theorem Changes.not_callable {q : Closure} (h : Changes q) (s : Server) : callable q s = false := by
  cases q with
  | erase | handOver => rfl
  | _ => exact h.elim

theorem Changes.strand {q : Closure} (h : Changes q) : (machine I).strand q = .server := by
  cases q with
  | erase | handOver => rfl
  | _ => exact h.elim

theorem Changes.tame {q : Closure} (h : Changes q) {active : List ℕ}
    (ht : TameClosure active q) : ∃ i, q = .erase i ∧ i ∉ active := by
  cases q with
  | erase i => exact ⟨i, rfl, ht⟩
  | handOver i ec =>
    cases ec with
    | none => exact ht.elim
    | some e => exact h.elim
  | _ => exact h.elim

theorem run_tame {q : Closure} {s : Server} (hq : TameClosure s.activeSessions q)
    (hc : closesActive q s = false) : TameTail s.activeSessions ((machine I).run q s).2 := by
  cases q with
  | setSessionHandler | start | erase => trivial
  | stop => exact tame_stopLoop _ _ _ _
  | accepted | event => exact hq.elim
  | handOver i ec => exact tame_notify trivial
  | call i x => exact tame_onSession fun X f hX hf => call_tame hc hX hf

theorem resume_tame {active : List ℕ} {f : ServerRest} {s : Server} (hf : TameRest f) :
    TameTail active ((machine I).resume f s).2 := by
  cases f with
  | stopLoop => exact tame_stopLoop _ _ _ _
  | acceptStart => exact hf.elim
  | acceptNext | acceptFailed | handOverEnd => trivial
  | session i g => exact tame_onSession fun X f _ h => session_tame hf h

/-! ## The invariant of the loops -/

/-- The stack of one thread changes. -/
theorem tame_update {active : List ℕ} {ths : ℕ → List Item} {t : ℕ} {st : List Item}
    (hst : Tame active st) (h : ∀ t, Tame active (ths t)) :
    ∀ t', Tame active (Function.update ths t st t') :=
  (Function.forall_update_iff ths fun _ st => Tame active st).2 ⟨hst, fun t' _ => h t'⟩

/-- The thread `t` enters `q` above `below`. -/
theorem tame_enter {t : ℕ} {s : StrandId} {q : Closure} {below : List Item} {w₀ : World}
    (hw : w₀.shared = w.shared) (hst : w₀.stack = w.stack)
    (h : ∀ t, Tame w.shared.activeSessions (w.stack t))
    (hq : hasLoop below = true →
      TameClosure w.shared.activeSessions q ∧ closesActive q w.shared = false)
    (hb : Tame w.shared.activeSessions below) :
    ∀ t', Tame w.shared.activeSessions (((machine I).enter w₀ t s q below).stack t') := by
  simp only [Executor.Machine.enter, hw, hst]
  refine tame_update ?_ h
  have hrel : Tame w.shared.activeSessions
      ((if w₀.holder s = some t then [] else [.release s]) ++ below) := by
    split_ifs
    · exact hb
    · exact ⟨fun _ => trivial, hb⟩
  refine Tame.append (fun it hit hl => ?_) hrel
  suffices hq' : TameClosure w.shared.activeSessions q ∧ closesActive q w.shared = false from
    (run_tame hq'.1 hq'.2).items it hit
  rcases hasLoop_append.1 hl with hl | hl
  · -- the closure is `stop()`
    obtain ⟨it', hit', e, v, r, hf⟩ := hasLoop_iff.1 hl
    obtain ⟨rfl, -⟩ := run_loop (Executor.Tail.frame?_items hit' hf)
    exact ⟨trivial, rfl⟩
  · rcases hasLoop_append.1 hl with hl | hl
    · split_ifs at hl <;> cases hl
    · exact hq hl

/-- The thread `t` goes on with `f`, which was in the item `it`. -/
theorem tame_goOn {t : ℕ} {f : ServerRest} {it : Item} {st : List Item}
    (h : ∀ t, Tame w.shared.activeSessions (w.stack t)) (hst : w.stack t = it :: st)
    (hf : it.frame? = some f) :
    ∀ t', Tame w.shared.activeSessions (((machine I).goOn w t f st).stack t') := by
  have ht := h t
  rw [hst] at ht
  refine tame_update ?_ h
  refine Tame.append (fun it' hit hl => ?_) ht.2
  suffices hf' : TameRest f from (resume_tame hf').items it' hit
  rcases hasLoop_append.1 hl with hl | hl
  · obtain ⟨it₁, hit₁, e, v, r, hf₁⟩ := hasLoop_iff.1 hl
    obtain ⟨v', r', rfl, -⟩ := resume_loop (Executor.Tail.frame?_items hit₁ hf₁)
    trivial
  · exact tame_frame (ht.1 (hasLoop_cons it hl)) hf

/-- The thread `t` dispatches `q` and has `below` left. -/
theorem tame_dispatch {t : ℕ} {q : Closure} {below : List Item}
    (h : ∀ t, Tame w.shared.activeSessions (w.stack t))
    (hb : Tame w.shared.activeSessions below)
    (hq : hasLoop below = true → TameClosure w.shared.activeSessions q)
    (hc : w.inline t ((machine I).strand q) = true → hasLoop below = true →
      closesActive q w.shared = false) :
    ∀ t', Tame w.shared.activeSessions (((machine I).dispatch w t q below).stack t') := by
  unfold Executor.Machine.dispatch
  split_ifs with hi
  · exact tame_enter rfl rfl h (fun hl => ⟨hq hl, hc hi hl⟩) hb
  · exact tame_update hb h

/-- The loops after a step: the set is that at their entry, unless the step
    changes it under a loop. -/
theorem entry_of_step (h : Executor.Held (machine I) w) (hb : ¬ Broken w)
    (hs : (machine I).step w l = some w') {t : ℕ} {e v r : List ℕ}
    (hf : w'.HasFrame t (.stopLoop e v r)) :
    w.shared.activeSessions = e ∧ (hasLoop (w.stack t) = true ∨
      w'.shared.activeSessions = w.shared.activeSessions) := by
  have hold {e v r} (hf : w.HasFrame t (.stopLoop e v r)) :
      w.shared.activeSessions = e ∧ (hasLoop (w.stack t) = true ∨
        w'.shared.activeSessions = w.shared.activeSessions) := by
    refine ⟨?_, Or.inl (hasLoop_stack.2 ⟨e, v, r, hf⟩)⟩
    by_contra hne
    exact hb ⟨t, e, v, r, hf, hne⟩
  cases step_effect h hs with
  | quiet _ hl | start _ hl | handOver _ _ _ _ hl | stopped _ _ _ _ _ hl =>
    obtain ⟨v', r', hf, -⟩ := hl t e v r hf
    exact hold hf
  | stop t' hw hl =>
    rcases hl t e v r hf with hf | ⟨-, rfl, -⟩
    · exact hold hf
    · refine ⟨rfl, Or.inr ?_⟩
      rw [hw]
      exact (stop_log w.shared).2.1

/-- The loops have their set unchanged, and what lies above them is tame. -/
structure LoopsSafe (I : Iteration) (w : World) : Prop where
  held : Executor.Held (machine I) w
  unbroken : ¬ Broken w
  tame : ∀ t, Tame w.shared.activeSessions (w.stack t)

namespace LoopsSafe

theorem idle (config : ServerConfig) :
    LoopsSafe I (Executor.World.idle { config := config }) where
  held := .idle _
  unbroken := by
    rintro ⟨t, e, v, r, ⟨it, hit, -⟩, -⟩
    cases hit
  tame _ := trivial

/-- No step changes the set under a loop. -/
theorem active (h : LoopsSafe I w) (hs : (machine I).step w l = some w') {t : ℕ}
    (hl : hasLoop (w.stack t) = true) : w'.shared.activeSessions = w.shared.activeSessions := by
  cases Executor.Machine.step_effect h.held hs with
  | stay hw hf => rw [hw]
  | complete e q he hf =>
    obtain ⟨n, hn⟩ := complete_server he
    rw [hn]
  | resume t' f hf hx => rw [hx.shared]; exact resume_active f _
  | run t' q hr hx =>
    rw [hx.shared]
    by_cases hq : Changes q
    swap
    · exact run_active hq _
    -- the strand of the server is held by the loop
    have hstrand : (machine I).strand q = .server := hq.strand
    obtain ⟨e, v, r, it, hit, hf⟩ := hasLoop_stack.1 hl
    have hh : w.holder .server = some t := h.held.frame hit hf
    cases hr with
    | take t' q rest hst hn hqueue => rw [hstrand, hh] at hn; cases hn
    | call t' q f st hst hc hi => exact absurd hc (by simp [machine, hq.not_callable])
    | dispatch t' q f st hst hi =>
      obtain rfl : t = t' := by simpa [Executor.World.inline, hstrand, hh] using hi
      have ht := h.tame t
      rw [hst] at ht hl
      obtain ⟨i, rfl, hmem⟩ := hq.tame (ht.1 hl).1
      exact List.erase_of_not_mem hmem

/-- The loops of `w'` are over the set. -/
theorem loops (h : LoopsSafe I w) (hs : (machine I).step w l = some w') {t : ℕ} {e v r : List ℕ}
    (hf : w'.HasFrame t (.stopLoop e v r)) :
    w.shared.activeSessions = e ∧ w'.shared.activeSessions = w.shared.activeSessions := by
  obtain ⟨he, hl | ha⟩ := entry_of_step h.held h.unbroken hs hf
  exacts [⟨he, h.active hs hl⟩, ⟨he, ha⟩]

theorem tame_stack (h : LoopsSafe I w) (hs : (machine I).step w l = some w')
    (hg : closesInLoop I w l = false) : ∀ t, Tame w.shared.activeSessions (w'.stack t) := by
  cases Executor.Machine.step_cases hs with
  | post | complete => exact h.tame
  | take t s q rest hst hh hq => exact tame_enter rfl rfl h.tame (by simp [hasLoop]) trivial
  | resume t f st hst | ret t f st hst => exact tame_goOn h.tame hst rfl
  | release t s st hst =>
    have ht := h.tame t
    rw [hst] at ht
    exact tame_update ht.2 h.tame
  | dispatch t q f st hst =>
    have ht := h.tame t
    rw [hst] at ht
    have hb : Tame w.shared.activeSessions (.resume f :: st) := ⟨fun hl => (ht.1 hl).2, ht.2⟩
    refine tame_dispatch h.tame hb (fun hl => (ht.1 hl).1) fun hi hl => ?_
    have hl : hasLoop (.dispatch q f :: st) = true := hl
    simpa [closesInLoop, closesInline, hst, hi, hl] using hg
  | call t q f st hst hc =>
    have ht := h.tame t
    rw [hst] at ht
    refine tame_dispatch h.tame ht (fun _ => callable_tame hc _) fun hi hl => ?_
    simpa [closesInLoop, closesInline, hst, hi, hl] using hg

theorem step (h : LoopsSafe I w) (hs : (machine I).step w l = some w')
    (hg : closesInLoop I w l = false) : LoopsSafe I w' where
  held := h.held.step machine_lawful hs
  unbroken := by
    rintro ⟨t, e, v, r, hf, hne⟩
    obtain ⟨he, ha⟩ := h.loops hs hf
    exact hne (ha.trans he)
  tame t := by
    cases hl : hasLoop (w'.stack t) with
    | false => exact Tame.of_noLoop hl
    | true =>
      obtain ⟨e, v, r, hf⟩ := hasLoop_stack.1 hl
      rw [(h.loops hs hf).2]
      exact h.tame_stack hs hg t

end LoopsSafe

/-! ## What the loop is safe under -/

/-- The loops over the active sessions are well defined, and each visits every
    session of the set once. -/
structure StopSafe (w : World) : Prop where
  /-- under a loop, the set is that at its entry -/
  unchanged : ∀ t e v r, w.HasFrame t (.stopLoop e v r) → w.shared.activeSessions = e
  /-- a loop has the sessions left that it has not visited -/
  visits : ∀ t e v r, w.HasFrame t (.stopLoop e v r) → e.Nodup ∧ (v ++ r).Perm e
  /-- a loop that has ended has visited all -/
  visited : ∀ e v, .stopped e v ∈ w.shared.log → e.Nodup ∧ v.Perm e

theorem Shaped.stopSafe (h : Shaped I w) (hb : ¬ Broken w) : StopSafe w where
  unchanged t e v r hf := by
    by_contra hne
    exact hb ⟨t, e, v, r, hf, hne⟩
  visits t e v r hf := by
    obtain ⟨hn, hv⟩ := h.loops t e v r hf
    exact ⟨hn, hv ▸ I.perm e⟩
  visited e v hm := by
    obtain ⟨hn, rfl⟩ := h.stopped e v hm
    exact ⟨hn, I.perm e⟩

theorem StopSafe.unbroken (h : StopSafe w) : ¬ Broken w := by
  rintro ⟨t, e, v, r, hf, hne⟩
  exact hne (h.unchanged t e v r hf)

/-- A run without `closesInLoop` is well defined. -/
theorem loopsSafe_of_run {config : ServerConfig}
    (hr : Transition.Run (machine I).step (fun w l => closesInLoop I w l = false)
      (Executor.World.idle { config := config }) w) : LoopsSafe I w :=
  hr.inv (.idle config) fun _ _ _ h hg hs => h.step hs hg

/-- The closure calls the close handler of the server. -/
theorem run_closes {q : Closure} {s : Server} (hc : closesActive q s = true) :
    ∃ i f, i ∈ s.activeSessions ∧ (machine I).strand q = .session i ∧
      ((machine I).run q s).2 = .dispatch (.erase i) (.session i f) := by
  cases q with
  | call i x =>
    unfold closesActive at hc
    dsimp only at hc
    split at hc
    · cases hc
    · next X hX =>
      simp only [Bool.and_eq_true, decide_eq_true_eq, Bool.not_eq_eq_eq_not, Bool.not_true] at hc
      obtain ⟨⟨⟨hi, hx⟩, hn⟩, hh⟩ := hc
      have hcalls : (WebSocketServerSession.closeTransportCalls X).2 = some .server := by
        rw [WebSocketServerSession.closeTransport_calls, hn, hh]; rfl
      obtain ⟨f, hf, hf'⟩ := WebSocketServerSession.call_closes hx hcalls
      refine ⟨i, f, hi, rfl, ?_⟩
      show (s.onSession i (WebSocketServerSession.cls.call x)).2 = _
      unfold onSession
      rw [hX]
      dsimp only
      rw [hf]
      rcases hf' with rfl | ⟨handler, e, rfl⟩ <;> rfl
  | _ => cases hc

/-- Such a closure, run inline above a loop: the next step of the thread changes
    the set under the loop. -/
theorem dispatch_breaks (h : Executor.Held (machine I) w) (hb : ¬ Broken w) {t : ℕ} {q : Closure}
    {below : List Item} (hc : closesInline I w t q = true) (hl : hasLoop below = true)
    (hf : ∀ f, (∃ it ∈ below, it.frame? = some f) → w.HasFrame t f) :
    ((machine I).dispatch w t q below).shared.activeSessions = w.shared.activeSessions ∧
    ∃ w', (machine I).step ((machine I).dispatch w t q below) (.step t) = some w' ∧
      Broken w' := by
  simp only [closesInline, Bool.and_eq_true] at hc
  obtain ⟨⟨hin, hlw⟩, hc⟩ := hc
  obtain ⟨i, f, hi, hstrand, htail⟩ : ∃ i f, i ∈ w.shared.activeSessions ∧
      (machine I).strand q = .session i ∧
      ((machine I).run q w.shared).2 = .dispatch (.erase i) (.session i f) := run_closes hc
  have hq : ¬ Changes q := by
    intro hq
    rw [hq.strand] at hstrand
    cases hstrand
  obtain ⟨it, hit, e, v, r, hloop⟩ := hasLoop_iff.1 hl
  have he : w.shared.activeSessions = e := by
    by_contra hne
    exact hb ⟨t, e, v, r, hf _ ⟨it, hit, hloop⟩, hne⟩
  -- the loop holds the strand of the server
  have hserver : w.holder .server = some t := by
    obtain ⟨it', hit', hloop'⟩ := hf _ ⟨it, hit, hloop⟩
    exact h.frame hit' hloop'
  have hdisp : (machine I).dispatch w t q below = (machine I).enter w t (.session i) q below := by
    unfold Executor.Machine.dispatch
    rw [if_pos hin, hstrand]
  rw [hdisp]
  refine ⟨run_active hq _, ?_⟩
  have hactive : ((machine I).enter w t (.session i) q below).shared.activeSessions =
      w.shared.activeSessions := run_active hq _
  have hst : ∃ rel : List Item, ((machine I).enter w t (.session i) q below).stack t =
      .dispatch (.erase i) (.session i f) :: (rel ++ below) := by
    refine ⟨if w.holder (.session i) = some t then [] else [.release (.session i)], ?_⟩
    simp [Executor.Machine.enter, htail, Executor.Tail.items]
  have hhold : ((machine I).enter w t (.session i) q below).holder .server = some t := by
    simp [Executor.Machine.enter, hserver]
  generalize (machine I).enter w t (.session i) q below = w₁ at hactive hst hhold ⊢
  obtain ⟨rel, hst⟩ := hst
  refine ⟨_, by simp only [Executor.Machine.step, hst]; rfl, ?_⟩
  have hin₁ : w₁.inline t ((machine I).strand (.erase i)) = true := by
    simp [Executor.World.inline, machine, hhold]
  unfold Executor.Machine.dispatch
  rw [if_pos hin₁]
  refine ⟨t, e, v, r, ⟨it, ?_, hloop⟩, ?_⟩
  · simp [Executor.Machine.enter, hit]
  · show w₁.shared.activeSessions.erase i ≠ e
    rw [hactive, ← he]
    intro heq
    have hlen := List.length_erase_of_mem hi
    have hpos := List.length_pos_of_mem hi
    rw [heq] at hlen
    omega

/-- A step that closes a session under a loop: the next one of its thread
    changes the set. -/
theorem closesInLoop_breaks (h : Executor.Held (machine I) w) (hb : ¬ Broken w)
    (hg : closesInLoop I w l = true) (hs : (machine I).step w l = some w') :
    w'.shared.activeSessions = w.shared.activeSessions ∧
    ∃ t w'', l.thread = some t ∧ (machine I).step w' (.step t) = some w'' ∧ Broken w'' := by
  have hframes {t : ℕ} {it it' : Item} {st : List Item} (hst : w.stack t = it :: st)
      (hit : it'.frame? = it.frame?) (f : ServerRest) :
      (∃ it₁ ∈ it' :: st, it₁.frame? = some f) → w.HasFrame t f := by
    rintro ⟨it₁, hmem, hf⟩
    rcases List.mem_cons.1 hmem with rfl | hmem
    · exact ⟨it, by simp [hst], by rw [← hit, hf]⟩
    · exact ⟨it₁, by simp [hst, hmem], hf⟩
  cases Executor.Machine.step_cases hs with
  | post | complete | take | release | ret => simp_all [closesInLoop]
  | resume t f st hst => simp [closesInLoop, hst] at hg
  | dispatch t q f st hst =>
    have hc : closesInline I w t q = true := by simpa [closesInLoop, hst] using hg
    have hl : hasLoop (.resume f :: st) = true := by
      simp only [closesInline, Bool.and_eq_true, hst] at hc
      exact hc.1.2
    obtain ⟨ha, w'', hs', hb'⟩ := dispatch_breaks h hb hc hl (hframes hst rfl)
    exact ⟨ha, t, w'', rfl, hs', hb'⟩
  | call t q f st hst hcall =>
    have hc : closesInline I w t q = true := hg
    have hl : hasLoop (.user f :: st) = true := by
      simp only [closesInline, Bool.and_eq_true, hst] at hc
      exact hc.1.2
    obtain ⟨ha, w'', hs', hb'⟩ := dispatch_breaks h hb hc hl (hframes hst rfl)
    exact ⟨ha, t, w'', rfl, hs', hb'⟩

/-- **The loop of `stop()` is safe as long as no step closes a session under
    it.**  After such a step, the next one of its thread changes the set under the loop. -/
theorem stop_safe (I : Iteration) :
    (∀ w, ReachableBy I (fun w l => closesInLoop I w l = false) w → StopSafe w) ∧
    ∀ w l w', Reachable I w → StopSafe w → closesInLoop I w l = true →
      (machine I).step w l = some w' →
      ∃ t w'', l.thread = some t ∧ (machine I).step w' (.step t) = some w'' ∧
        Reachable I w'' ∧ ¬ StopSafe w'' := by
  constructor
  · rintro w ⟨config, hr⟩
    have hsafe := loopsSafe_of_run (hr.mono fun _ _ h => h.2)
    exact Shaped.stopSafe (ReachableBy.shaped ⟨config, hr⟩) hsafe.unbroken
  · intro w l w' hr hw hg hs
    have hb := hw.unbroken
    obtain ⟨ha, t, w'', ht, hs', hb''⟩ := closesInLoop_breaks hr.shaped.held hb hg hs
    refine ⟨t, w'', ht, hs', ?_, fun h => h.unbroken hb''⟩
    have hb' : ¬ Broken w' := by
      rintro ⟨t', e, v, r, hf, hne⟩
      exact hne (ha.trans (entry_of_step hr.shaped.held hb hs hf).1)
    obtain ⟨config, hr⟩ := hr
    exact ⟨config, (hr.step ⟨hb, trivial⟩ hs).step ⟨hb', trivial⟩ hs'⟩

/-! ## Runs that stop a server -/

/-- Start a server and accept a connection; its handshake is outstanding. -/
def connect : List Label :=
  [.post (.setSessionHandler (some 0)), .take 0 .server, .step 0,
    .post .start, .take 0 .server, .step 0,
    .complete (.accept none none), .take 0 .server, .step 0, .step 0, .step 0, .step 0, .step 0,
    .step 0, .step 0]

/-- The handshake completes, and the session is handed over. -/
def handshake : List Label :=
  [.complete (.session 0 (.derived ⟨0, none⟩)), .take 0 (.session 0), .step 0, .ret 0,
    .step 0, .step 0, .step 0]

/-- A run without `closesInLoop`, computed. -/
theorem exec_reachableBy (ok : World → Label → Bool) (ls : List Label) (p : World → Bool)
    (h : (Transition.exec (Transition.guarded (fun w l => !closesInLoop inOrder w l && ok w l)
      (machine inOrder).step) (Executor.World.idle {}) ls).any p = true) :
    ∃ w, ReachableBy inOrder (fun w l => closesInLoop inOrder w l = false ∧ ok w l = true) w ∧
      p w = true := by
  obtain ⟨w, hw, hp⟩ := (Option.any_eq_true _ _).1 h
  have hr : Transition.Run (machine inOrder).step
      (fun w l => closesInLoop inOrder w l = false ∧ ok w l = true) (Executor.World.idle {}) w :=
    (Transition.exec_run hw).of_guarded.mono fun _ _ h => by simpa using h
  refine ⟨w, ⟨{}, ?_⟩, hp⟩
  rcases hr.first Broken with hr | ⟨w', hr', hb⟩
  · exact hr
  · exact absurd hb (loopsSafe_of_run (hr'.mono fun _ _ h => h.2.1)).unbroken

/-- A session whose strand is busy, and one whose strand is idle. -/
theorem stop_safe_busy :
    (∃ w, .stopped [0] [0] ∈ w.shared.log ∧ StopSafe w) ∧
    ∃ w, Reachable inOrder w ∧ ¬ StopSafe w := by
  constructor
  · obtain ⟨w, hr, hw⟩ := exec_reachableBy (fun _ _ => true) (connect ++ handshake ++
      [.post (.call 0 (.setReadHandler (some 1))), .take 1 (.session 0),
        .post .stop, .take 0 .server, .step 0, .step 0])
      (fun w => decide (.stopped [0] [0] ∈ w.shared.log)) (by decide +kernel)
    exact ⟨w, by simpa using hw, (stop_safe inOrder).1 w (hr.mono fun _ _ h => h.1)⟩
  · obtain ⟨w, hr, hw⟩ := exec_reachableBy (fun _ _ => true)
      (connect ++ handshake ++ [.post .stop, .take 0 .server])
      (fun w => closesInLoop inOrder w (.step 0) && ((machine inOrder).step w (.step 0)).isSome)
      (by decide +kernel)
    simp only [Bool.and_eq_true, Option.isSome_iff_exists] at hw
    obtain ⟨hg, w', hs⟩ := hw
    obtain ⟨t, w'', -, -, hr'', hw''⟩ := (stop_safe inOrder).2 w _ w' hr.reachable
      ((stop_safe inOrder).1 w (hr.mono fun _ _ h => h.1)) hg hs
    exact ⟨w'', hr'', hw''⟩

/-- A session whose strand is idle: its close handler erases it from the set
    under the loop. -/
theorem stop_erases_in_loop : ¬ ∀ (I : Iteration) w, Reachable I w → StopSafe w := by
  intro h
  obtain ⟨w, hw, hp⟩ := (Option.any_eq_true (fun w : World =>
      w.shared.activeSessions = [] &&
        (w.stack 0).any fun it => it.frame? = some (.stopLoop [0] [0] []))
    (Transition.exec (machine inOrder).step (Executor.World.idle {})
      (connect ++ handshake ++ [.post .stop, .take 0 .server, .step 0, .step 0]))).1
    (by decide +kernel)
  simp only [Bool.and_eq_true, decide_eq_true_eq, List.any_eq_true] at hp
  obtain ⟨hactive, it, hit, hf⟩ := hp
  rcases (Transition.exec_run hw).first Broken with hr | ⟨w', hr', hb⟩
  · exact (h _ w ⟨{}, hr⟩).unbroken ⟨0, _, _, _, ⟨it, hit, hf⟩, by simp [hactive]⟩
  · exact (h _ w' ⟨{}, hr'⟩).unbroken hb

end TransitSession.WebSocket.Server
