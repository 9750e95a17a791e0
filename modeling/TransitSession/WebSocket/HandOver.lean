/-
  The hand-over of the sessions of a server.

  For each accepted connection one thing at a time goes on to invoke
  `session_handler_`: the closure of `do_accept`, the handshake that it has
  initiated, the start handler, or the closure that this dispatches to the strand of
  the server.  With the invocations themselves they add up to one, in every run
  (`Handing.once`).

  The set gets the session in the closure that hands it over, before the handler is
  invoked; up to then only `do_accept` uses the session, so nothing erases it and
  nothing reads from it or writes to it.
-/
import TransitSession.WebSocket.Release

namespace TransitSession.WebSocket

/-! ## What is owed to the start handler -/

/-- The part goes on to call the start handler of `do_accept`. -/
def Part.owes : Part → ℕ
  | .call (.derived (.start (some .server) _)) => 1
  | .resume (.derived (.startClosing _ (some .server) _)) => 1
  | _ => 0

/-- The start handler of `do_accept` is called, or will be after the close handler. -/
def ServerFrame.owes : Option ServerFrame → ℕ
  | some (.startHandler .server _) | some (.startClosing _ (some .server) _) => 1
  | _ => 0

theorem Part.owes_core {p : Part} (h : p.OfCore) : p.owes = 0 := by
  cases p with
  | call x | event x | resume x =>
    cases x with
    | derived => exact h.elim
    | _ => rfl

theorem Part.owes_start (handler : Option Callback) (nd : ErrorCode) :
    (Part.call (.derived (.start handler nd))).owes =
      if handler = some .server then 1 else 0 := by
  rcases handler with _ | _ | _ <;> rfl

theorem ServerFrame.owes_handler (handler : Option Callback) (ec : ErrorCode) :
    ServerFrame.owes (handler.map fun h => .startHandler h ec) =
      if handler = some .server then 1 else 0 := by
  rcases handler with _ | _ | _ <;> rfl

theorem ServerMembers.owes_fails (m : ServerMembers) (handler : Option Callback) (e : Errc) :
    ServerFrame.owes (m.fails handler e) = if handler = some .server then 1 else 0 := by
  unfold fails
  cases m.calls with
  | none => exact ServerFrame.owes_handler handler _
  | some h => rcases handler with _ | _ | _ <;> rfl

/-- **A call of `start` ends in a call of its handler**: it is outstanding as a
    handshake until then. -/
theorem Turn.owes {m m' : ServerMembers} {p : Part} {fr : Option ServerFrame}
    (h : Turn m p m' fr) : m'.shaking + ServerFrame.owes fr = m.shaking + p.owes := by
  cases h with
  | keeps p hp =>
    rw [Part.owes_core hp]
    rfl
  | closes p hp =>
    rw [Part.owes_core hp]
    cases m.calls <;> rfl
  | setCloseHandler | stray => rfl
  | start handler nd =>
    rw [Part.owes_start]
    simp [ServerMembers.shaking, ServerFrame.owes, List.count_singleton]
  | startFails handler nd e =>
    rw [Part.owes_start, m.owes_fails]
    rfl
  | shakes k handler hk =>
    rw [ServerFrame.owes_handler]
    exact ServerMembers.count_eraseIdx hk
  | shakeFails k handler e hk =>
    rw [m.owes_fails]
    exact ServerMembers.count_eraseIdx hk
  | failed h handler e =>
    rw [ServerFrame.owes_handler]
    rcases handler with _ | _ | _ <;> rfl
  | returns f hf =>
    cases f with
    | startClosing h handler e => exact absurd rfl (hf h handler e)
    | _ => rfl

namespace Server

variable {I : Iteration} {i j : ℕ} {s s' : Server} {q : Closure} {f : ServerRest}

/-- What goes on to invoke `session_handler_` for the session. -/
def handingWeight (I : Iteration) (i : ℕ) : Executor.Weight (machine I) where
  closure
    | .call j x => if j = i then (Part.call x).owes else 0
    | .handOver j _ => if j = i then 1 else 0
    | _ => 0
  frame
    | .acceptStart j _ => if j = i then 1 else 0
    | .session j f => if j = i then (Part.resume f).owes else 0
    | _ => 0
  callable q s h := by
    cases q with
    | call j x =>
      have hx : (Part.call x).owes = 0 := by
        cases x with
        | derived x =>
          cases x with
          | start handler nd =>
            rcases handler with _ | _ | _
            · rfl
            · cases h
            · rfl
          | setCloseHandler => rfl
        | _ => rfl
      simp [hx]
    | handOver => cases h
    | _ => rfl

/-- What goes on to invoke it for a session that failed to start. -/
def failingWeight (I : Iteration) (i : ℕ) : Executor.Weight (machine I) where
  closure
    | .handOver j (some _) => if j = i then 1 else 0
    | _ => 0
  frame _ := 0
  callable q s h := by
    cases q with
    | handOver => cases h
    | _ => rfl

/-- What the members of the server owe: the session is not accepted yet, or its
    handshake is outstanding. -/
def due (i : ℕ) (s : Server) : ℕ :=
  match s.sessions[i]? with
  | none => 1
  | some X => X.derived.own.shaking

/-- The closure invokes `session_handler_` for the session. -/
def handsOver (i : ℕ) : Option Closure → Bool
  | some (.handOver j _) => decide (j = i)
  | _ => false

theorem due_some {X : WebSocketServerSession} (hX : s.sessions[i]? = some X) :
    due i s = X.derived.own.shaking := by
  unfold due
  rw [hX]

theorem due_none (hX : s.sessions[i]? = none) : due i s = 1 := by
  unfold due
  rw [hX]

theorem due_congr (h : s'.sessions[i]? = s.sessions[i]?) : due i s' = due i s := by
  unfold due
  rw [h]

theorem sessionTail_owes (fr : Option (Frame ServerFrame)) :
    (handingWeight I i).tail (sessionTail j fr) =
      if j = i then ServerFrame.owes (fr.bind Frame.derived?) else 0 := by
  unfold sessionTail
  split
  · simp [Executor.Weight.tail, ServerFrame.owes]
  · next f =>
    rcases f with _ | _ | (_ | _) | ⟨_ | _, _ | _ | _, _⟩ | (_ | _) <;>
      simp [Executor.Weight.tail, ServerFrame.owes, Frame.derived?, handingWeight, Part.owes]

/-- A part of a closure of a session passes on what it owes. -/
theorem part_owes {p : Part} (hX : s.sessions[i]? = none → j = i → p.owes = 0) :
    (handingWeight I i).tail (s.onSession j p.run).2 + due i (s.onSession j p.run).1 =
      (if j = i then p.owes else 0) + due i s := by
  cases hY : s.sessions[j]? with
  | none =>
    rw [onSession_none hY]
    split_ifs with hj
    · rw [hX (hj ▸ hY) hj]
      rfl
    · rfl
  | some Y =>
    rw [onSession_tail hY, sessionTail_owes]
    by_cases hj : j = i
    · subst hj
      have howes := (WebSocketServerSession.part_turn p Y).owes
      have hY' : (s.onSession j p.run).1.sessions[j]? = some (p.run Y).1 := by
        rw [onSession_get hY, if_pos rfl]
      rw [if_pos rfl, if_pos rfl, due_some hY, due_some hY']
      omega
    · rw [if_neg hj, if_neg hj, due_congr (onSession_ne hj)]

theorem notify_owes {ec : ErrorCode} {session : Option ℕ} {rest : ServerRest}
    {next : Server → Server} (hr : (handingWeight I i).frame rest = 0) :
    (handingWeight I i).tail (s.notifySession ec session rest next).2 = 0 := by
  unfold notifySession
  split_ifs
  · exact hr
  · rfl

theorem stopLoop_owes (entry visited : List ℕ) (s : Server) (rest : List ℕ) :
    (handingWeight I i).tail (s.stopLoop entry visited rest).2 = 0 := by
  cases rest with
  | nil => rfl
  | cons j rest => simp [stopLoop, handingWeight, Executor.Weight.tail, Part.owes]

/-- A closure of the server that does not accept the session owes nothing, and invokes
    `session_handler_` if it owed that. -/
theorem run_owes_other (hq : q.part? = none) (ha : Accepts q s → s.sessions.length ≠ i) :
    (handingWeight I i).tail ((machine I).run q s).2 + (handsOver i (some q)).toNat =
      (handingWeight I i).closure q := by
  cases q with
  | setSessionHandler | start | erase => rfl
  | stop => exact stopLoop_owes _ _ _ _
  | accepted ec nd =>
    show (handingWeight I i).tail (s.onAccept ec nd).2 + 0 = 0
    unfold onAccept
    split_ifs with hst
    · rfl
    · cases ec with
      | some e => exact notify_owes rfl
      | none =>
        have hlen := ha ⟨nd, rfl, by simpa using hst⟩
        simp [handingWeight, Executor.Weight.tail, Part.owes, hlen]
  | handOver j ec =>
    show (handingWeight I i).tail (s.handOver j ec).2 + (decide (j = i)).toNat = _
    unfold Server.handOver
    rw [notify_owes rfl, Nat.zero_add]
    by_cases hj : j = i <;> simp [handingWeight, hj]
  | call | event => cases hq

/-- **What a closure owes** is passed on, or is an invocation of `session_handler_`. -/
theorem run_owes (hX : s.sessions[i]? = none → (handingWeight I i).closure q = 0) :
    (handingWeight I i).tail ((machine I).run q s).2 + due i ((machine I).run q s).1 +
      (handsOver i (some q)).toNat = (handingWeight I i).closure q + due i s := by
  cases hq : q.part? with
  | some jp =>
    obtain ⟨j, p⟩ := jp
    have hclosure : (handingWeight I i).closure q = if j = i then p.owes else 0 := by
      cases q with
      | call => cases hq; rfl
      | event => cases hq; exact (ite_self 0).symm
      | _ => cases hq
    have hno : (handsOver i (some q)).toNat = 0 := by
      cases q with
      | handOver => cases hq
      | _ => rfl
    rw [hclosure] at hX ⊢
    rw [run_part hq, hno, Nat.add_zero]
    exact part_owes fun hY hj => by simpa [hj] using hX hY
  | none =>
    by_cases ha : Accepts q s ∧ s.sessions.length = i
    · -- the session is created
      obtain ⟨ha, rfl⟩ := ha
      have hnew : ((machine I).run q s).1.sessions[s.sessions.length]? =
          some (WebSocketServerSession.create s.config) := by
        rw [onAccept_sessions ha]
        simp
      have hold : s.sessions[s.sessions.length]? = none := by simp
      rw [due_some hnew, due_none hold]
      obtain ⟨nd, rfl, hst⟩ := ha
      show (handingWeight I _).tail (s.onAccept none nd).2 + 0 + 0 = 0 + 1
      unfold onAccept
      simp [hst, handingWeight, Executor.Weight.tail, Part.owes]
    · have hother (h : Accepts q s) : s.sessions.length ≠ i := fun hi => ha ⟨h, hi⟩
      have howes := run_owes_other (I := I) hq hother
      rw [due_congr (run_sessions_get hq hother)]
      omega

theorem resume_owes (hX : s.sessions[i]? = none → (handingWeight I i).frame f = 0) :
    (handingWeight I i).tail ((machine I).resume f s).2 + due i ((machine I).resume f s).1 =
      (handingWeight I i).frame f + due i s := by
  cases hf : f.part? with
  | some jp =>
    obtain ⟨j, p⟩ := jp
    have hframe : (handingWeight I i).frame f = if j = i then p.owes else 0 := by
      cases f with
      | session => cases hf; rfl
      | _ => cases hf
    rw [hframe] at hX ⊢
    rw [resume_part hf]
    exact part_owes fun hY hj => by simpa [hj] using hX hY
  | none =>
    have hsame : ((machine I).resume f s).1.sessions[i]? = s.sessions[i]? := by
      rw [resume_sessions hf]
    rw [due_congr hsame]
    congr 1
    cases f with
    | stopLoop => exact stopLoop_owes _ _ _ _
    | acceptStart j nd => rfl
    | acceptNext | acceptFailed | handOverEnd => rfl
    | session => cases hf

/-! ## What a run did for a session -/

/-- The closure is the completion handler of an accept that succeeded while `started_`
    is set, for the connection of session `i`. -/
def creates (i : ℕ) (s : Server) : Option Closure → Bool
  | some (.accepted none _) => s.started && decide (s.sessions.length = i)
  | _ => false

def Accepted (I : Iteration) (i : ℕ) (es : List (World × Label)) : Prop :=
  ∃ e ∈ es, creates i e.1.shared ((machine I).ran e.1 e.2) = true

/-- `start` of session `i` goes on to the handshake: `tcp_no_delay` is set, or not
    asked for. -/
def setsOption (i : ℕ) (s : Server) : Option Closure → Bool
  | some (.call j (.derived (.start (some .server) nd))) => decide (j = i) &&
      (s.sessions[i]?).any fun X =>
        !WebSocketServerSession.closing (.derived (.start (some .server) nd)) X
  | _ => false

def OptionSet (I : Iteration) (i : ℕ) (es : List (World × Label)) : Prop :=
  ∃ e ∈ es, setsOption i e.1.shared ((machine I).ran e.1 e.2) = true

/-- The closures that ran for the hand-over of session `i`. -/
def handOvers (I : Iteration) (i : ℕ) (es : List (World × Label)) : ℕ :=
  es.countP fun e => handsOver i ((machine I).ran e.1 e.2)

/-- How often `session_handler_` was invoked for session `i`. -/
def invocations (I : Iteration) (i : ℕ) (es : List (World × Label)) : ℕ :=
  es.countP fun e => handsOver i ((machine I).ran e.1 e.2) && e.1.shared.sessionHandler.isSome

/-- The closure hands a session over. -/
def isHandOver : Option Closure → Bool
  | some (.handOver _ _) => true
  | _ => false

/-- `session_handler_` is installed whenever a session is handed over. -/
def Installed (I : Iteration) (es : List (World × Label)) : Prop :=
  ∀ e ∈ es, isHandOver ((machine I).ran e.1 e.2) = true →
    e.1.shared.sessionHandler.isSome = true

/-- The rest of a closure is about the session. -/
def RestRefersTo (i : ℕ) : ServerRest → Prop
  | .acceptStart j _ | .session j _ => j = i
  | _ => False

/-- No closure of the session waits or runs, and none of its handshakes is
    outstanding. -/
structure Quiescent (w : World) (i : ℕ) : Prop where
  queued : ∀ s, ∀ q ∈ w.queue s, ¬ RefersTo i q
  dispatched : ∀ t q f, .dispatch q f ∈ w.stack t → ¬ RefersTo i q
  running : ∀ t, ∀ it ∈ w.stack t, ∀ f, it.frame? = some f → ¬ RestRefersTo i f
  handshakes : ∀ X, w.shared.sessions[i]? = some X → X.derived.own.handshakes = []

/-- A read or a write was initiated on the stream of the session. -/
def Initiated (X : WebSocketServerSession) : Prop :=
  ∃ ev ∈ X.log, (∃ m ws q, ev = .readStarted m ws q) ∨ ∃ op m rs, ev = .writeStarted op m rs

/-- What the step `e`, taken after the steps `es`, hands over: `session_handler_` is
    invoked with the session if and only if its handshake succeeded, and the session
    is inserted first. -/
structure HandsOver (I : Iteration) (i : ℕ) (es : List (World × Label)) (e : World × Label)
    (session : Option ℕ) : Prop where
  own : ∀ j, session = some j → j = i
  succeeded : session ≠ none ↔ Succeeded I i es ∧ OptionSet I i es
  log : ∃ ec w', (machine I).step e.1 e.2 = some w' ∧
    w'.shared.log = e.1.shared.log ++ (session.map .inserted).toList ++ [.handed ec session]

theorem creates_accepts {o : Option Closure} (h : creates i s o = true) :
    ∃ q, o = some q ∧ Accepts q s ∧ s.sessions.length = i := by
  unfold creates at h
  split at h
  · next nd =>
    rw [Bool.and_eq_true, decide_eq_true_eq] at h
    exact ⟨_, rfl, ⟨nd, rfl, h.1⟩, h.2⟩
  · cases h

theorem handsOver_closure {o : Option Closure} (h : handsOver i o = true) :
    ∃ ec, o = some (.handOver i ec) := by
  unfold handsOver at h
  split at h
  · next j ec =>
    obtain rfl := of_decide_eq_true h
    exact ⟨ec, rfl⟩
  · cases h

theorem accepted_append {es : List (World × Label)} (e : World × Label) :
    Accepted I i (es ++ [e]) ↔ Accepted I i es ∨
      creates i e.1.shared ((machine I).ran e.1 e.2) = true :=
  Transition.exists_append e

theorem optionSet_append {es : List (World × Label)} (e : World × Label) :
    OptionSet I i (es ++ [e]) ↔ OptionSet I i es ∨
      setsOption i e.1.shared ((machine I).ran e.1 e.2) = true :=
  Transition.exists_append e

theorem handOvers_append {es : List (World × Label)} (e : World × Label) :
    handOvers I i (es ++ [e]) =
      handOvers I i es + (handsOver i ((machine I).ran e.1 e.2)).toNat := by
  unfold handOvers
  rw [List.countP_append, List.countP_singleton]
  cases handsOver i ((machine I).ran e.1 e.2) <;> rfl

theorem Installed.handler {es : List (World × Label)} (h : Installed I es) {e : World × Label}
    (he : e ∈ es) (hh : handsOver i ((machine I).ran e.1 e.2) = true) :
    e.1.shared.sessionHandler.isSome = true := by
  obtain ⟨ec, hran⟩ := handsOver_closure hh
  refine h e he ?_
  rw [hran]
  rfl

/-- With a handler installed, each of these closures invokes it. -/
theorem Installed.invocations {es : List (World × Label)} (h : Installed I es) :
    invocations I i es = handOvers I i es := by
  refine List.countP_congr fun e he => ?_
  rw [Bool.and_eq_true]
  exact ⟨And.left, fun hh => ⟨hh, h.handler he hh⟩⟩

/-- What a run did for the session, and what goes on. -/
structure Handing (I : Iteration) (i : ℕ) (es : List (World × Label)) (v : View) (t : Tokens)
    (n : ℕ) : Prop where
  living : Living I i v t
  owed : (handingWeight I i).Total v n
  once : n + due i v.shared + handOvers I i es = 1
  succeeded : Succeeded I i es ↔ .inserted i ∈ v.shared.log ∨ t.hand ≠ 0
  inserted : .inserted i ∈ v.shared.log → handOvers I i es ≠ 0
  accepted : Accepted I i es → v.shared.sessions[i]? ≠ none
  option : Succeeded I i es → OptionSet I i es
  /-- up to the insertion the session does nothing but its handshake -/
  fresh : .inserted i ∉ v.shared.log → ∀ X, v.shared.sessions[i]? = some X →
    X.log = [] ∧ (X.derived.own.handshakes ≠ [] → OptionSet I i es)

section
variable {v v' : View} {l : Label} {o : Option Closure} {g : Option ServerRest} {t t' : Tokens}
  {es : List (World × Label)} {n : ℕ}

/-- One step keeps what is owed, with the invocations, at one. -/
theorem owed_step (h : (handingWeight I i).Total v n) {k : ℕ}
    (honce : n + due i v.shared + k = 1)
    (he : Executor.Weight.Effect (machine I) v v' l o g) :
    ∃ n', (handingWeight I i).Total v' n' ∧
      n' + due i v'.shared + (k + (handsOver i o).toNat) = 1 := by
  have hzero {a : ℕ} (ha : a ≤ n) (hX : v.shared.sessions[i]? = none) : a = 0 := by
    rw [due_none hX] at honce
    omega
  cases he with
  | stay hsh hm =>
    obtain ⟨-, n', h', hn⟩ := hm _ n h
    refine ⟨n', h', ?_⟩
    rw [hsh]
    show n' + _ + (k + 0) = 1
    omega
  | complete e q hl hc hm =>
    obtain ⟨-, n', h', hn⟩ := hm _ n h
    refine ⟨n', h', ?_⟩
    have hq : (handingWeight I i).closure q = 0 := by
      rcases complete_cases hc with ⟨ec, nd, -, -, -, rfl⟩ | ⟨j, e', X, r, -, -, -, -, rfl⟩ <;> rfl
    have hsame : due i v'.shared = due i v.shared := by
      obtain ⟨m, hsh⟩ := complete_server hc
      exact due_congr (by rw [hsh])
    rw [hsame]
    show n' + _ + (k + 0) = 1
    omega
  | run q hsh hm =>
    obtain ⟨hle, n', h', hn⟩ := hm _ n h
    have howes := run_owes (I := I) (q := q) fun hX => hzero hle hX
    refine ⟨n', h', ?_⟩
    rw [hsh]
    omega
  | resume it f hit hf hsh hm =>
    obtain ⟨hle, n', h', hn⟩ := hm _ n h
    have howes := resume_owes (I := I) (f := f) fun hX => hzero hle hX
    refine ⟨n', h', ?_⟩
    rw [hsh]
    show n' + _ + (k + 0) = 1
    omega

/-- A `start` that fails initiates no handshake. -/
theorem start_fails {handler : Option Callback} {nd : ErrorCode} {X : WebSocketServerSession}
    (hc : WebSocketServerSession.closing (.derived (.start handler nd)) X = true) :
    (WebSocketServerSession.start handler nd X).1.derived.own = X.derived.own.notified := by
  simp only [WebSocketServerSession.closing, Bool.and_eq_true, Option.isSome_iff_exists] at hc
  obtain ⟨hnd, e, rfl⟩ := hc
  have hfail : WebSocketServerSession.start handler (some e) X =
      WebSocketServerSession.failStart handler e X := by
    unfold WebSocketServerSession.start
    simp [hnd]
  rw [hfail]
  exact (WebSocketServerSession.failStart_own handler e X).1

/-- The first handshake is initiated by a `start` that does not fail. -/
theorem initiates {p : Part} {X : WebSocketServerSession} (hp : p.Inner)
    (hX : X.derived.own.handshakes = []) (h : (p.run X).1.derived.own.handshakes ≠ []) :
    ∃ nd, p = .call (.derived (.start (some .server) nd)) ∧
      WebSocketServerSession.closing (.derived (.start (some .server) nd)) X = false := by
  have hturn := WebSocketServerSession.part_turn p X
  generalize hm : (p.run X).1.derived.own = m at h hturn
  generalize (p.run X).2.bind Frame.derived? = fr at hturn
  cases hturn with
  | keeps p hc | closes p hc => exact absurd hc hp.not_core
  | setCloseHandler | startFails | stray | failed | returns => exact absurd hX h
  | shakes k handler hk | shakeFails k handler e hk =>
    rw [hX] at hk
    cases hk
  | start handler nd =>
    have hserver : handler = some .server := by
      rcases handler with _ | _ | _
      · exact hp.elim
      · rfl
      · exact hp.elim
    subst hserver
    refine ⟨nd, rfl, Bool.eq_false_iff.2 fun hc => ?_⟩
    have hfail : (WebSocketServerSession.start (some .server) nd X).1.derived.own = _ :=
      start_fails hc
    replace hm : (WebSocketServerSession.start (some .server) nd X).1.derived.own = _ := hm
    rw [hm] at hfail
    refine h ?_
    rw [hfail]
    exact hX

/-- Up to its insertion, the session does nothing but its handshake. -/
theorem Handing.fresh_step (h : Handing I i es v t n)
    (hs : Executor.View.Step (machine I) v l o g v')
    (he : LifeEffect i v.shared v'.shared t t' o g) (hi : .inserted i ∉ v'.shared.log)
    {X : WebSocketServerSession} (hX : v'.shared.sessions[i]? = some X) :
    X.log = [] ∧ (X.derived.own.handshakes ≠ [] →
      OptionSet I i es ∨ setsOption i v.shared o = true) := by
  have hins : .inserted i ∉ v.shared.log := fun hm => hi (he.inserted hm)
  have hkeep (hsame : v'.shared.sessions[i]? = v.shared.sessions[i]?) : X.log = [] ∧
      (X.derived.own.handshakes ≠ [] → OptionSet I i es ∨ setsOption i v.shared o = true) :=
    (h.fresh hins X (hsame ▸ hX)).imp_right fun hopt hne => Or.inl (hopt hne)
  cases he with
  | other hsess => exact hkeep hsess
  | accepted config hnone hsess =>
    rw [hsess] at hX
    obtain rfl := Option.some.inj hX
    exact ⟨rfl, fun hne => absurd rfl hne⟩
  | turn p Y hp hY hY' =>
    rw [hY'] at hX
    obtain rfl := Option.some.inj hX
    have hinner := (h.living.unseen hins).inner hs hp
    obtain ⟨⟨d, hd⟩, -⟩ := hinner.members Y
    obtain ⟨hlog, hopt⟩ := h.fresh hins Y hY
    refine ⟨by rw [hd]; exact hlog, fun hne => ?_⟩
    by_cases hsh : Y.derived.own.handshakes = []
    · obtain ⟨nd, rfl, hc⟩ := initiates hinner hsh hne
      have ho : o = some (.call i (.derived (.start (some .server) nd))) := partOf_eq rfl hp
      refine Or.inr ?_
      rw [ho]
      simp [setsOption, hY, hc]
    · exact Or.inl (hopt hsh)
  | erased ho hsh =>
    refine hkeep ?_
    rw [hsh]
    rfl
  | handed ho hsh =>
    refine hkeep ?_
    rw [hsh, handOver_sessions]

/-- A session is inserted by the closure that hands it over. -/
theorem LifeEffect.inserts (he : LifeEffect i s s' t t' o g) (h : .inserted i ∈ s'.log) :
    .inserted i ∈ s.log ∨ handsOver i o = true := by
  cases he with
  | other _ hr | accepted _ _ _ hr | turn _ _ _ _ _ hr => exact Or.inl (hr.inserted.1 h)
  | erased _ hs =>
    rw [hs] at h
    exact Or.inl (by simpa [Server.erase] using h)
  | handed ho =>
    rw [ho]
    exact Or.inr (by simp [handsOver])

end

section
variable {w w' : World} {l : Label} {t : Tokens} {es : List (World × Label)} {n : ℕ}

theorem Handing.idle (config : ServerConfig) :
    Handing I i [] ((Executor.World.idle { config := config } : World).view (machine I).home)
      ⟨0, 0, 0⟩ 0 where
  living := .idle config
  owed := .idle _
  once := rfl
  succeeded := (Recorded.idle (I := I) config).succeeded
  inserted hm := by cases hm
  accepted := by
    rintro ⟨e, he, -⟩
    cases he
  option := by
    rintro ⟨e, he, -⟩
    cases he
  fresh _ X hX := by cases hX

/-- **One step of the hand-over.** -/
theorem Handing.step (h : Handing I i es (w.view (machine I).home) t n) (hw : Shaped I w)
    (hs : (machine I).step w l = some w') :
    ∃ t' n', Handing I i (es ++ [(w, l)]) (w'.view (machine I).home) t' n' := by
  have hv := Executor.step_view machine_lawful hw.held hs
  have hb := h.living.balance
  obtain ⟨t', hl, he⟩ := h.living.step hw.nodup hv
  obtain ⟨n', howed, honce⟩ := owed_step h.owed h.once (Executor.Weight.step_effect hv)
  have hfresh : .inserted i ∉ w.shared.log → ∀ X, w.shared.sessions[i]? = some X →
      ∀ h ∈ X.derived.own.handshakes, h = some .server :=
    fun hi X hX => ((h.living.unseen hi).fresh X hX).2.2
  have hsucceeded := he.shaken hb hfresh
  refine ⟨t', n', hl, howed, ?_, ?_, fun hm => ?_, fun ha => ?_, fun hsucc => ?_, fun hi X hX => ?_⟩
  · rw [handOvers_append]
    exact honce
  · rw [succeeded_append, h.succeeded]
    exact hsucceeded.symm
  · rw [handOvers_append]
    rcases he.inserts hm with hm | ho
    · have := h.inserted hm
      omega
    · rw [ho]
      exact Nat.succ_ne_zero _
  · rw [accepted_append] at ha
    rcases ha with ha | ha
    · exact he.created (h.accepted ha)
    · obtain ⟨q, ho, hacc, rfl⟩ := creates_accepts ha
      show w'.shared.sessions[w.shared.sessions.length]? ≠ none
      rw [Executor.Machine.ran_shared ho hs, onAccept_sessions hacc]
      simp
  · rw [optionSet_append]
    rw [succeeded_append] at hsucc
    rcases hsucc with hsucc | hsh
    · exact Or.inl (h.option hsucc)
    · by_cases hins : .inserted i ∈ w.shared.log
      · exact Or.inl (h.option (h.succeeded.2 (Or.inl hins)))
      · obtain ⟨k, X, handler, -, hX, hk⟩ := shakes_part (g := w.resumed l) hsh
        refine Or.inl ((h.fresh hins X hX).2 ?_)
        exact List.ne_nil_of_mem (List.mem_of_getElem? hk)
  · rw [optionSet_append]
    exact h.fresh_step hv he hi hX

theorem run_handing {config : ServerConfig}
    (h : Transition.Trace (machine I).step (Executor.World.idle { config := config }) es w)
    (i : ℕ) : Shaped I w ∧ ∃ t n, Handing I i es (w.view (machine I).home) t n := by
  refine h.inv (I := fun es w => Shaped I w ∧ ∃ t n, Handing I i es (w.view (machine I).home) t n)
    ⟨.idle config, _, _, .idle config⟩ fun es w₁ l w₂ ih hs => ?_
  obtain ⟨hw, t, n, ht⟩ := ih
  exact ⟨hw.step hs, ht.step hw hs⟩

/-- No closure that owes an invocation waits or runs. -/
theorem Quiescent.owed (h : Quiescent w i)
    (hn : (handingWeight I i).Total (w.view (machine I).home) n) : n = 0 := by
  by_contra hne
  have hclosure {q : Closure} (hq : (handingWeight I i).closure q ≠ 0) : RefersTo i q := by
    cases q with
    | call j | handOver j =>
      by_contra hj
      exact hq (if_neg hj)
    | _ => exact absurd rfl hq
  have hframe {f : ServerRest} (hf : (handingWeight I i).frame f ≠ 0) : RestRefersTo i f := by
    cases f with
    | acceptStart j | session j =>
      by_contra hj
      exact hf (if_neg hj)
    | _ => exact absurd rfl hf
  rcases hn.exists hne with ⟨s, q, hq, hw⟩ | ⟨s, it, hit, hw⟩
  · exact h.queued s q hq (hclosure hw)
  · obtain ⟨t, hit⟩ := Executor.items_stack hit
    cases it with
    | release => exact hw rfl
    | resume f | user f => exact h.running t _ hit f rfl (hframe hw)
    | dispatch q f =>
      rcases Nat.eq_zero_or_pos ((handingWeight I i).closure q) with hq | hq
      · refine h.running t _ hit f rfl (hframe fun hf => hw ?_)
        show _ + _ = 0
        rw [hq, hf]
      · exact h.dispatched t q f hit (hclosure (Nat.pos_iff_ne_zero.1 hq))

/-- The weight of the closure that a step runs. -/
theorem ran_weight (hw : Shaped I w) (hs : (machine I).step w l = some w')
    (hran : (machine I).ran w l = some q) {W : Executor.Weight (machine I)}
    (h : W.Total (w.view (machine I).home) n) : W.closure q ≤ n := by
  have hv := Executor.step_view machine_lawful hw.held hs
  rw [hran] at hv
  have he := Executor.Weight.step_effect hv
  generalize w.resumed l = g at he
  cases he with
  | run q hsh hm => exact (hm W n h).1

/-- **A session is handed over with success if and only if its handshake
    succeeded.** -/
theorem Handing.outcome (h : Handing I i es (w.view (machine I).home) t n) (hw : Shaped I w)
    (hs : (machine I).step w l = some w') {ec : ErrorCode}
    (hran : (machine I).ran w l = some (.handOver i ec)) : ec = none ↔ Succeeded I i es := by
  have honce := h.once
  have howed := ran_weight hw hs hran h.owed
  have hone : (handingWeight I i).closure (.handOver i ec) = 1 := if_pos rfl
  rw [h.succeeded]
  constructor
  · rintro rfl
    have hhand := ran_weight hw hs hran h.living.tokens.hand
    have hone : (handWeight I i).closure (.handOver i none) = 1 := if_pos rfl
    exact Or.inr (by omega)
  · rintro (hi | hhand)
    · have := h.inserted hi
      omega
    · cases ec with
      | none => rfl
      | some e =>
        -- both hand-overs would be pending
        have hclosures (q : Closure) : (handWeight I i).closure q +
            (failingWeight I i).closure q ≤ (handingWeight I i).closure q := by
          cases q with
          | handOver j ec => cases ec <;> simp [handWeight, failingWeight, handingWeight]
          | _ => exact Nat.zero_le _
        obtain ⟨m, hm, hle⟩ :=
          h.owed.add_le hclosures (fun f => Nat.zero_le _) h.living.tokens.hand
        have hfail := ran_weight hw hs hran hm
        have hone : (failingWeight I i).closure (.handOver i (some e)) = 1 := if_pos rfl
        omega

/-- The closure inserts a session that is not in the set, and invokes the handler. -/
theorem handOver_handed {ec : ErrorCode} (hh : s.sessionHandler.isSome = true)
    (hi : ec = none → i ∉ s.activeSessions) : ∃ session : Option ℕ,
      (∀ j, session = some j → j = i) ∧ (session ≠ none ↔ ec = none) ∧
      (s.handOver i ec).1.log =
        s.log ++ (session.map .inserted).toList ++ [.handed ec session] := by
  cases ec with
  | some e =>
    refine ⟨none, nofun, by simp, ?_⟩
    show (s.notifySession (some e) none .handOverEnd id).1.log = _
    unfold notifySession
    rw [if_pos hh]
    simp [Server.emit]
  | none =>
    refine ⟨some i, fun j hj => (Option.some.inj hj).symm, by simp, ?_⟩
    have hins : s.insert i = { s with
        activeSessions := s.activeSessions ++ [i], log := s.log ++ [.inserted i] } :=
      if_neg (hi rfl)
    show ((s.insert i).notifySession none (some i) .handOverEnd id).1.log = _
    rw [hins]
    unfold notifySession
    rw [if_pos hh]
    simp [Server.emit]

theorem Handing.hands (h : Handing I i es (w.view (machine I).home) t n) (hw : Shaped I w)
    (hs : (machine I).step w l = some w') (hran : handsOver i ((machine I).ran w l) = true)
    (hh : w.shared.sessionHandler.isSome = true) :
    ∃ session, HandsOver I i es (w, l) session := by
  obtain ⟨ec, hran⟩ := handsOver_closure hran
  have hout := h.outcome hw hs hran
  have hactive : ec = none → i ∉ w.shared.activeSessions := by
    rintro rfl
    have hhand := ran_weight hw hs hran h.living.tokens.hand
    have hone : (handWeight I i).closure (.handOver i none) = 1 := if_pos rfl
    obtain ⟨X, -, -, -, hact, -⟩ := h.living.balance.handing (t := t) (by omega)
    exact hact
  obtain ⟨session, hown, hec, hlog⟩ := handOver_handed hh hactive
  refine ⟨session, hown, ?_, ec, w', hs, ?_⟩
  · rw [hec, hout]
    exact ⟨fun hsucc => ⟨hsucc, h.option hsucc⟩, And.left⟩
  · rw [Executor.Machine.ran_shared hran hs]
    exact hlog

/-- A session whose handshake succeeded is inserted before it is erased. -/
theorem Handing.erases (h : Handing I i es (w.view (machine I).home) t n) (hw : Shaped I w)
    (hs : (machine I).step w l = some w') (hran : (machine I).ran w l = some (.erase i))
    (hsucc : Succeeded I i es) : .inserted i ∈ w.shared.log := by
  rcases h.succeeded.1 hsucc with hi | hhand
  · exact hi
  · obtain ⟨X, hX, -, hc, -, -⟩ := h.living.balance.handing hhand
    have herasing := h.living.balance.erasing
    rw [closings_some hX, hc, Bool.toNat_false] at herasing
    have herase := ran_weight hw hs hran h.living.tokens.erase
    have hone : (eraseWeight I i).closure (.erase i) = 1 := if_pos rfl
    omega

/-- **Each accepted connection is handed over once, and in order.** -/
theorem handed_over_once {config : ServerConfig}
    (h : Transition.Trace (machine I).step (Executor.World.idle { config := config }) es w)
    (hinst : Installed I es) (i : ℕ) :
    invocations I i es ≤ 1 ∧
    (Accepted I i es → Quiescent w i → invocations I i es = 1) ∧
    (∀ es₀ e es₁, es = es₀ ++ e :: es₁ → handsOver i ((machine I).ran e.1 e.2) = true →
      ∃ session, HandsOver I i es₀ e session) ∧
    (∀ es₀ e es₁, es = es₀ ++ e :: es₁ → (machine I).ran e.1 e.2 = some (.erase i) →
      Succeeded I i es₀ → .inserted i ∈ e.1.shared.log) ∧
    ∀ X, w.shared.sessions[i]? = some X → Initiated X → Succeeded I i es := by
  obtain ⟨-, t, n, hi⟩ := run_handing h i
  have honce := hi.once
  rw [hinst.invocations]
  refine ⟨by omega, fun ha hq => ?_, ?_, ?_, fun X hX => ?_⟩
  · obtain ⟨X, hX⟩ := Option.ne_none_iff_exists'.1 (hi.accepted ha)
    have howed := hq.owed hi.owed
    rw [due_some hX, ServerMembers.shaking, hq.handshakes X hX, List.count_nil] at honce
    omega
  · rintro es₀ e es₁ rfl hran
    obtain ⟨h₀, w₁, hs⟩ := h.split
    obtain ⟨hw₀, t₀, n₀, hi₀⟩ := run_handing h₀ i
    exact hi₀.hands hw₀ hs hran (hinst.handler (by simp) hran)
  · rintro es₀ e es₁ rfl hran hsucc
    obtain ⟨h₀, w₁, hs⟩ := h.split
    obtain ⟨hw₀, t₀, n₀, hi₀⟩ := run_handing h₀ i
    exact hi₀.erases hw₀ hs hran hsucc
  · rintro ⟨ev, hev, -⟩
    refine hi.succeeded.2 (Or.inl ?_)
    by_contra hins
    rw [(hi.fresh hins X hX).1] at hev
    cases hev

/-- A connection whose session was handed over, and that nothing is pending for. -/
theorem handed_over_once_open : ∃ es w,
    Transition.Trace (machine inOrder).step (Executor.World.idle {}) es w ∧
    invocations inOrder 0 es = 1 := by
  obtain ⟨w, hr, hp, hst⟩ := exec_history (connect ++ handshake)
    (fun w => resting w && (w.queue (.session 0)).isEmpty &&
      (w.shared.sessions[0]?).any fun X => X.derived.own.handshakes.isEmpty)
    (by decide +kernel) (by decide +kernel)
  simp only [Bool.and_eq_true, Option.any_eq_true, List.isEmpty_iff] at hp
  obtain ⟨⟨hrest, hqueue⟩, X, hX, hshakes⟩ := hp
  have hstack := resting_stack hrest hst
  have hserver : w.queue .server = [] := by
    simp only [resting, Bool.and_eq_true, List.isEmpty_iff] at hrest
    exact hrest.1.1
  have hinst : Installed inOrder (Transition.history (machine inOrder).step
      (Executor.World.idle {}) (connect ++ handshake)) := by
    have hall : (Transition.history (machine inOrder).step (Executor.World.idle {})
        (connect ++ handshake)).all (fun e => !isHandOver ((machine inOrder).ran e.1 e.2) ||
          e.1.shared.sessionHandler.isSome) = true := by
      decide +kernel
    intro e he hh
    have := List.all_eq_true.1 hall e he
    rw [hh] at this
    exact this
  have hacc : Accepted inOrder 0 (Transition.history (machine inOrder).step
      (Executor.World.idle {}) (connect ++ handshake)) := by
    have hany : (Transition.history (machine inOrder).step (Executor.World.idle {})
        (connect ++ handshake)).any (fun e =>
          creates 0 e.1.shared ((machine inOrder).ran e.1 e.2)) = true := by
      decide +kernel
    exact List.any_eq_true.1 hany
  refine ⟨_, w, hr, (handed_over_once hr hinst 0).2.1 hacc ?_⟩
  refine ⟨queued_refers (run_handing hr 0).1.held hserver hqueue, fun t q f hit => ?_,
    fun t it hit => ?_, fun Y hY => ?_⟩
  · rw [hstack t] at hit
    cases hit
  · rw [hstack t] at hit
    cases hit
  · rw [hX] at hY
    cases hY
    exact hshakes

end

end Server

end TransitSession.WebSocket
