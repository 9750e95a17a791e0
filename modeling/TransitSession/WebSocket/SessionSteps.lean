/-
  What the closures of a server do to its sessions.

  A closure of a session, or what is left of one, runs a `Part` on it; all other
  closures leave the sessions as they are, except that the completion handler of
  an accept may add one (`run_sessions`, `resume_sessions`).
-/
import TransitSession.Lib.Strands
import TransitSession.WebSocket.ServerSteps

namespace TransitSession.WebSocket

open WebSocketServerSession (DerivedCall Handshake)

/-- A part of a closure of a session. -/
inductive Part where
  | call (x : Call (List UInt8) DerivedCall)
  | event (e : Completion Handshake)
  | resume (f : Frame ServerFrame)

def Part.run : Part → WebSocketServerSession → WebSocketServerSession × Option (Frame ServerFrame)
  | .call x, X => WebSocketServerSession.cls.call x X
  | .event e, X => (WebSocketServerSession.cls.event e X).getD (X, none)
  | .resume f, X => WebSocketServerSession.cls.resume f X

/-- The session that a closure is about, and what it runs on it. -/
def Closure.part? : Closure → Option (ℕ × Part)
  | .call i x => some (i, .call x)
  | .event i e => some (i, .event e)
  | _ => none

def ServerRest.part? : ServerRest → Option (ℕ × Part)
  | .session i f => some (i, .resume f)
  | _ => none

namespace Server

/-- The worlds of the runs, from a server that was just created, whose steps all
    meet `ok`. -/
def RunsTo (I : Iteration) (ok : World → Label → Prop) (w : World) : Prop :=
  ∃ config, Transition.Run (machine I).step ok (Executor.World.idle { config := config }) w

variable {I : Iteration} {w w' : World} {l : Label} {ok : World → Label → Prop}

theorem RunsTo.held (h : RunsTo I ok w) : Executor.Held (machine I) w := by
  obtain ⟨config, hr⟩ := h
  exact Executor.Machine.run_held machine_lawful (.idle _) hr

/-- What the completion of an operation does. -/
theorem complete_cases {e : Completed} {s s' : Server} {q : Closure}
    (h : (machine I).complete e s = some (s', q)) :
    (∃ ec nd, e = .accept ec nd ∧ s.accepts ≠ 0 ∧ s' = { s with accepts := s.accepts - 1 } ∧
      q = .accepted ec nd) ∨
    ∃ i e' X r, e = .session i e' ∧ s.sessions[i]? = some X ∧
      WebSocketServerSession.cls.event e' X = some r ∧ s' = s ∧ q = .event i e' := by
  cases e with
  | accept ec nd =>
    simp only [machine] at h
    split_ifs at h with ha
    obtain ⟨hs, hq⟩ := Prod.mk.inj (Option.some.inj h)
    exact Or.inl ⟨ec, nd, rfl, ha, hs.symm, hq.symm⟩
  | session i e' =>
    simp only [machine] at h
    cases hX : s.sessions[i]? with
    | none => simp [hX] at h
    | some X =>
      simp only [hX] at h
      obtain ⟨r, hr, he⟩ := Option.map_eq_some_iff.1 h
      obtain ⟨hs, hq⟩ := Prod.mk.inj he
      exact Or.inr ⟨i, e', X, r, rfl, hX, hr, hs.symm, hq.symm⟩

/-! ## Closures of sessions -/

section
variable {i j : ℕ} {p : Part} {s : Server} {x : WebSocketServerSession}

theorem run_part {q : Closure} (hq : q.part? = some (i, p)) :
    (machine I).run q s = s.onSession i p.run := by
  cases q with
  | call | event =>
    cases hq
    rfl
  | _ => cases hq

theorem resume_part {f : ServerRest} (hf : f.part? = some (i, p)) :
    (machine I).resume f s = s.onSession i p.run := by
  cases f with
  | session =>
    cases hf
    rfl
  | _ => cases hf

/-- The sessions after a part of a closure of session `i`. -/
theorem onSession_get (hx : s.sessions[j]? = some x) :
    (s.onSession i p.run).1.sessions[j]? = some (if i = j then (p.run x).1 else x) := by
  unfold onSession
  by_cases hij : i = j
  · subst hij
    obtain ⟨hlt, -⟩ := List.getElem?_eq_some_iff.1 hx
    simp only [hx, if_true]
    exact List.getElem?_set_self hlt
  · cases hi : s.sessions[i]? with
    | none => simp [hx, hij]
    | some y => simp [List.getElem?_set_ne hij, hx, hij]

theorem onSession_length : (s.onSession i p.run).1.sessions.length = s.sessions.length := by
  unfold onSession
  split
  · rfl
  · exact List.length_set

theorem onSession_none (hx : s.sessions[i]? = none) : s.onSession i p.run = (s, .done) := by
  unfold onSession
  rw [hx]

theorem onSession_tail (hx : s.sessions[i]? = some x) :
    (s.onSession i p.run).2 = sessionTail i (p.run x).2 := by
  unfold onSession
  rw [hx]

/-- The other sessions stay as they are. -/
theorem onSession_ne (hij : i ≠ j) :
    (s.onSession i p.run).1.sessions[j]? = s.sessions[j]? := by
  cases hx : s.sessions[j]? with
  | some x => rw [onSession_get hx, if_neg hij]
  | none =>
    rw [List.getElem?_eq_none_iff] at hx ⊢
    rw [onSession_length]
    exact hx

/-- A part of a closure of session `i` goes on as a closure of session `i`. -/
theorem onSession_rest {f : ServerRest} (h : (s.onSession i p.run).2.frame? = some f) :
    ∃ x g, s.sessions[i]? = some x ∧ (p.run x).2 = some g ∧ f = .session i g := by
  cases hi : s.sessions[i]? with
  | none =>
    rw [onSession_none hi] at h
    cases h
  | some x =>
    rw [onSession_tail hi] at h
    cases hp : (p.run x).2 with
    | none => simp [hp, sessionTail, Executor.Tail.frame?] at h
    | some g =>
      refine ⟨x, g, rfl, hp, ?_⟩
      rw [hp] at h
      unfold sessionTail at h
      dsimp only at h
      split at h <;> exact (Option.some.inj h).symm

/-! ## Closures of the server -/

theorem notifySession_sessions (ec : ErrorCode) (session : Option ℕ) (s : Server)
    (rest : ServerRest) {next : Server → Server} (hn : (next s).sessions = s.sessions) :
    (s.notifySession ec session rest next).1.sessions = s.sessions := by
  unfold notifySession
  split_ifs
  exacts [rfl, hn]

theorem acceptAgain_sessions (e : Errc) (s : Server) :
    (s.acceptAgain e).sessions = s.sessions := by
  unfold acceptAgain
  split_ifs <;> rfl

theorem insert_sessions (i : ℕ) (s : Server) : (s.insert i).sessions = s.sessions := by
  unfold insert
  split_ifs <;> rfl

theorem stopLoop_sessions (entry visited : List ℕ) (s : Server) (rest : List ℕ) :
    (s.stopLoop entry visited rest).1.sessions = s.sessions := by
  cases rest <;> rfl

/-- The closure adds the session that was accepted. -/
def Accepts (q : Closure) (s : Server) : Prop := ∃ nd, q = .accepted none nd ∧ s.started = true

theorem onAccept_sessions {q : Closure} (hq : Accepts q s) :
    ((machine I).run q s).1.sessions =
      s.sessions ++ [WebSocketServerSession.create s.config] := by
  obtain ⟨nd, rfl, hs⟩ := hq
  show (s.onAccept none nd).1.sessions = _
  unfold onAccept
  rw [hs]
  rfl

/-- **A closure of the server leaves the sessions as they are**, or adds the one
    that was accepted. -/
theorem run_sessions {q : Closure} (hq : q.part? = none) (ha : ¬ Accepts q s) :
    ((machine I).run q s).1.sessions = s.sessions := by
  cases q with
  | setSessionHandler | erase => rfl
  | start =>
    show s.start.sessions = _
    unfold start
    split_ifs <;> rfl
  | stop => exact stopLoop_sessions _ _ _ _
  | accepted ec nd =>
    show (s.onAccept ec nd).1.sessions = _
    unfold onAccept
    split_ifs with hs
    · rfl
    · cases ec with
      | some e => exact notifySession_sessions _ _ _ _ (acceptAgain_sessions e s)
      | none => exact absurd ⟨nd, rfl, by simpa using hs⟩ ha
  | handOver i ec =>
    cases ec with
    | some e => exact notifySession_sessions _ _ _ _ rfl
    | none =>
      show ((s.insert i).notifySession none (some i) .handOverEnd id).1.sessions = _
      rw [notifySession_sessions _ _ _ _ rfl, insert_sessions]
  | call | event => cases hq

theorem run_get {q : Closure} (hq : q.part? = none) (hx : s.sessions[j]? = some x) :
    ((machine I).run q s).1.sessions[j]? = some x := by
  by_cases ha : Accepts q s
  · obtain ⟨hlt, -⟩ := List.getElem?_eq_some_iff.1 hx
    rw [onAccept_sessions ha, List.getElem?_append_left hlt, hx]
  · rw [run_sessions hq ha, hx]

theorem resume_sessions {f : ServerRest} (hf : f.part? = none) :
    ((machine I).resume f s).1.sessions = s.sessions := by
  cases f with
  | stopLoop => exact stopLoop_sessions _ _ _ _
  | acceptStart | acceptNext | handOverEnd => rfl
  | acceptFailed e => exact acceptAgain_sessions e s
  | session => cases hf

end

/-! ## What closures dispatch -/

/-- The closures that closures dispatch, and what is left of those then. -/
inductive Dispatches : Closure → ServerRest → Prop where
  | close (i entry visited rest) : Dispatches (.call i .close) (.stopLoop entry visited rest)
  | setCloseHandler (i nd) :
      Dispatches (.call i (.derived (.setCloseHandler (some .server)))) (.acceptStart i nd)
  | start (i nd) : Dispatches (.call i (.derived (.start (some .server) nd))) .acceptNext
  | erase (i f) : Dispatches (.erase i) (.session i f)
  | handOver (i ec) : Dispatches (.handOver i ec) (.session i (.derived (.startHandler .server ec)))

section
variable {q q' : Closure} {f f' : ServerRest} {s : Server}

theorem sessionTail_dispatches {i : ℕ} {o : Option (Frame ServerFrame)}
    (h : sessionTail i o = .dispatch q f) : Dispatches q f := by
  unfold sessionTail at h
  split at h
  · cases h
  · split at h <;> cases h
    · exact .erase i _
    · exact .erase i _
    · exact .handOver i _

theorem onSession_dispatches {i : ℕ} {p : Part} (h : (s.onSession i p.run).2 = .dispatch q f) :
    Dispatches q f := by
  unfold onSession at h
  split at h
  · cases h
  · exact sessionTail_dispatches h

theorem notifySession_dispatches {ec : ErrorCode} {session : Option ℕ} {rest : ServerRest}
    {next : Server → Server} : (s.notifySession ec session rest next).2 ≠ .dispatch q f := by
  unfold notifySession
  split_ifs <;> nofun

theorem stopLoop_dispatches {entry visited rest : List ℕ}
    (h : (s.stopLoop entry visited rest).2 = .dispatch q f) : Dispatches q f := by
  cases rest with
  | nil => cases h
  | cons i rest =>
    cases h
    exact .close i _ _ _

theorem run_dispatches (h : ((machine I).run q' s).2 = .dispatch q f) : Dispatches q f := by
  cases q' with
  | setSessionHandler | start | erase => cases h
  | stop => exact stopLoop_dispatches h
  | accepted ec nd =>
    replace h : (s.onAccept ec nd).2 = .dispatch q f := h
    unfold onAccept at h
    split_ifs at h
    cases ec with
    | some e => exact absurd h notifySession_dispatches
    | none =>
      cases h
      exact .setCloseHandler _ nd
  | handOver i ec => exact absurd h notifySession_dispatches
  | call i x => exact onSession_dispatches (p := .call x) h
  | event i e => exact onSession_dispatches (p := .event e) h

theorem resume_dispatches (h : ((machine I).resume f' s).2 = .dispatch q f) : Dispatches q f := by
  cases f' with
  | stopLoop => exact stopLoop_dispatches h
  | acceptStart i nd =>
    cases h
    exact .start i nd
  | acceptNext | acceptFailed | handOverEnd => cases h
  | session i g => exact onSession_dispatches (p := .resume g) h

end

/-- The item, if it is about to dispatch a closure, is one of those. -/
def Wired (it : Item) : Prop := ∀ q f, it = .dispatch q f → Dispatches q f

theorem wired_release (s : StrandId) : Wired (.release s) := by
  intro q f he
  cases he

theorem wired_resume (f : ServerRest) : Wired (.resume f) := by
  intro q g he
  cases he

theorem wired_items {r : Tail} (h : ∀ q f, r = .dispatch q f → Dispatches q f) :
    ∀ it ∈ (r.items : List Item), Wired it := by
  intro it hit q f he
  cases r with
  | done => cases hit
  | user g =>
    rw [List.mem_singleton.1 hit] at he
    cases he
  | dispatch q' f' =>
    rw [List.mem_singleton.1 hit] at he
    cases he
    exact h q f rfl

abbrev View := Executor.View Server StrandId Closure ServerRest

/-- What closures are about to dispatch is always one of those. -/
theorem wired_step {v v' : View} {o : Option Closure} {g : Option ServerRest}
    (h : v.Everywhere (fun _ => True) Wired) (hs : Executor.View.Step (machine I) v l o g v') :
    v'.Everywhere (fun _ => True) Wired :=
  h.step hs wired_release (fun _ _ => trivial) (fun _ _ _ _ => trivial)
    (fun _ f _ => wired_resume f) (fun _ _ _ _ => trivial)
    (fun _ _ _ => wired_items fun _ _ => run_dispatches)
    (fun _ _ _ _ => wired_items fun _ _ => resume_dispatches)

end Server

end TransitSession.WebSocket
