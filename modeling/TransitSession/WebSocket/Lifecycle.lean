/-
  The life of a session, in the closures of the server and in those of the session.

  `do_accept` creates a session, stores a close handler in it and starts it; the
  handshake is initiated and completes; the start handler hands the session over,
  which inserts it into `active_sessions_`; `close_transport` calls the close
  handler, which erases it.  Up to the insertion there is one token for this
  (`Tokens`, `stage`).

  * `SameRecord`: what the server remembers of a session, which other closures leave
    as it is;
  * `LifeEffect`: what one step does to one session;
  * `Balance`: how the closures, the members and the record of a session fit.
-/
import TransitSession.WebSocket.Turns

namespace TransitSession.WebSocket.Server

variable {I : Iteration} {i j : ℕ} {s s' : Server}

/-! ## Tokens -/

/-- What goes on to call `start` on the session. -/
def startWeight (I : Iteration) (i : ℕ) : Executor.Weight (machine I) where
  closure
    | .call j x => if j = i then (Part.call x).starts else 0
    | _ => 0
  frame
    | .acceptStart j _ => if j = i then 1 else 0
    | _ => 0
  callable q s h := by
    cases q with
    | call j x =>
      have hx : (Part.call x).starts = 0 := by
        cases x with
        | derived x =>
          cases x with
          | start handler nd =>
            rcases handler with _ | _ | _
            · rfl
            · cases h
            · rfl
          | setCloseHandler => rfl
        | _ => rfl
      simp [hx]
    | _ => rfl

/-- What inserts the session. -/
def handWeight (I : Iteration) (i : ℕ) : Executor.Weight (machine I) where
  closure
    | .handOver j none => if j = i then 1 else 0
    | _ => 0
  frame _ := 0
  callable q s h := by
    cases q with
    | handOver => cases h
    | _ => rfl

/-- What erases the session. -/
def eraseWeight (I : Iteration) (i : ℕ) : Executor.Weight (machine I) where
  closure
    | .erase j => if j = i then 1 else 0
    | _ => 0
  frame _ := 0
  callable q s h := by
    cases q with
    | erase => cases h
    | _ => rfl

/-- The closures that go on to start a session, to insert it and to erase it. -/
@[ext] structure Tokens where
  start : ℕ
  hand : ℕ
  erase : ℕ

/-- These are the closures about session `i`. -/
structure Tokens.Of (I : Iteration) (i : ℕ) (t : Tokens) (v : View) : Prop where
  start : (startWeight I i).Total v t.start
  hand : (handWeight I i).Total v t.hand
  erase : (eraseWeight I i).Total v t.erase

theorem Tokens.Of.moves {t : Tokens} {v v' : View} (h : t.Of I i v)
    {a b : Executor.Weight (machine I) → ℕ}
    (hm : ∀ W : Executor.Weight (machine I), W.Moves v v' (a W) (b W)) :
    ∃ t' : Tokens, t'.Of I i v' ∧ t'.start + a (startWeight I i) = t.start + b (startWeight I i) ∧
      t'.hand + a (handWeight I i) = t.hand + b (handWeight I i) ∧
      t'.erase + a (eraseWeight I i) = t.erase + b (eraseWeight I i) := by
  obtain ⟨-, n₁, h₁, e₁⟩ := hm _ _ h.start
  obtain ⟨-, n₂, h₂, e₂⟩ := hm _ _ h.hand
  obtain ⟨-, n₃, h₃, e₃⟩ := hm _ _ h.erase
  exact ⟨⟨n₁, n₂, n₃⟩, ⟨h₁, h₂, h₃⟩, e₁, e₂, e₃⟩

theorem sessionTail_start (fr : Option (Frame ServerFrame)) :
    (startWeight I i).tail (sessionTail j fr) = 0 := by
  unfold sessionTail
  split
  · rfl
  · split <;> rfl

theorem sessionTail_hand (fr : Option (Frame ServerFrame)) :
    (handWeight I i).tail (sessionTail j fr) =
      if j = i then ServerFrame.hands (fr.bind Frame.derived?) else 0 := by
  unfold sessionTail
  split
  · simp [Executor.Weight.tail, ServerFrame.hands]
  · next f =>
    rcases f with _ | _ | (_ | _) | (_ | _) | ⟨_ | _, _ | _⟩ <;>
      simp [Executor.Weight.tail, ServerFrame.hands, Frame.derived?, handWeight]

theorem sessionTail_erase (fr : Option (Frame ServerFrame)) :
    (eraseWeight I i).tail (sessionTail j fr) =
      if j = i then ServerFrame.erases (fr.bind Frame.derived?) else 0 := by
  unfold sessionTail
  split
  · simp [Executor.Weight.tail, ServerFrame.erases]
  · next f =>
    rcases f with _ | _ | (_ | _) | (_ | _) | ⟨_ | _, _ | _⟩ <;>
      simp [Executor.Weight.tail, ServerFrame.erases, Frame.derived?, eraseWeight]

/-! ## The record of a session -/

/-- What the history and the set say about session `i` is the same. -/
structure SameRecord (i : ℕ) (s s' : Server) : Prop where
  inserted : .inserted i ∈ s'.log ↔ .inserted i ∈ s.log
  erased : s'.log.count (.erased i) = s.log.count (.erased i)
  handed : s'.HandedTo i ↔ s.HandedTo i
  active : i ∈ s'.activeSessions ↔ i ∈ s.activeSessions

/-- The event is one of session `i`. -/
def About (i : ℕ) (ev : ServerEvent) : Prop :=
  ev = .inserted i ∨ ev = .erased i ∨ ev = .handed none (some i)

namespace SameRecord

theorem append {l : List ServerEvent} (hl : s'.log = s.log ++ l) (he : ∀ e ∈ l, ¬ About i e)
    (ha : i ∈ s'.activeSessions ↔ i ∈ s.activeSessions) : SameRecord i s s' := by
  have hmem {e : ServerEvent} (hi : About i e) : e ∈ s'.log ↔ e ∈ s.log := by
    rw [hl, List.mem_append]
    constructor
    · rintro (h | h)
      · exact h
      · exact absurd hi (he e h)
    · exact Or.inl
  refine ⟨hmem (Or.inl rfl), ?_, hmem (Or.inr (Or.inr rfl)), ha⟩
  rw [hl, List.count_append, List.count_eq_zero_of_not_mem (a := .erased i) (l := l), Nat.add_zero]
  exact fun h => he _ h (Or.inr (Or.inl rfl))

theorem silent (hl : s'.log = s.log) (ha : s'.activeSessions = s.activeSessions) :
    SameRecord i s s' :=
  append (l := []) (by simpa using hl) (by simp) (by rw [ha])

theorem refl (s : Server) : SameRecord i s s := silent rfl rfl

theorem emit {e : ServerEvent} (he : ¬ About i e) (s : Server) : SameRecord i s (s.emit e) :=
  append rfl (by simpa using he) Iff.rfl

theorem trans {s'' : Server} (h : SameRecord i s s') (h' : SameRecord i s' s'') :
    SameRecord i s s'' :=
  ⟨h'.inserted.trans h.inserted, h'.erased.trans h.erased, h'.handed.trans h.handed,
    h'.active.trans h.active⟩

theorem doAccept (s : Server) : SameRecord i s s.doAccept :=
  append rfl (by simp [About]) Iff.rfl

theorem acceptAgain (e : Errc) (s : Server) : SameRecord i s (s.acceptAgain e) := by
  unfold Server.acceptAgain
  split_ifs
  · exact doAccept s
  · exact refl s

theorem notify {ec : ErrorCode} {session : Option ℕ} {rest : ServerRest} {next : Server → Server}
    (hev : ¬ About i (.handed ec session)) (h : SameRecord i s (next s)) :
    SameRecord i s (s.notifySession ec session rest next).1 := by
  unfold notifySession
  split_ifs
  · exact emit hev s
  · exact h

theorem stopLoop (entry visited : List ℕ) (s : Server) (rest : List ℕ) :
    SameRecord i s (s.stopLoop entry visited rest).1 := by
  cases rest with
  | nil => exact emit (by simp [About]) s
  | cons j rest => exact refl s

theorem onSession (p : Part) (s : Server) : SameRecord i s (s.onSession j p.run).1 := by
  obtain ⟨ss, hs⟩ := onSession_server j p.run s
  rw [hs]
  exact silent rfl rfl

theorem insert (hij : j ≠ i) (s : Server) : SameRecord i s (s.insert j) := by
  unfold Server.insert
  split_ifs
  · exact refl s
  · refine append (l := [.inserted j]) rfl (by simp [About, hij]) ?_
    simp [Ne.symm hij]

/-- Only its own closures write the record of a session. -/
theorem run {q : Closure} (he : q ≠ .erase i) (hh : q ≠ .handOver i none) (s : Server) :
    SameRecord i s ((machine I).run q s).1 := by
  cases q with
  | setSessionHandler => exact silent rfl rfl
  | start =>
    show SameRecord i s s.start
    unfold Server.start
    split_ifs
    · exact refl s
    · exact append (l := [.started, .accepting s.acceptorOpen])
        (by simp [Server.doAccept, Server.emit]) (by simp [About]) Iff.rfl
  | stop =>
    show SameRecord i s (Server.stopLoop _ _ _ _).1
    refine SameRecord.trans ?_ (stopLoop _ _ _ _)
    exact append (l := [.stopping]) rfl (by simp [About]) Iff.rfl
  | accepted ec nd =>
    show SameRecord i s (s.onAccept ec nd).1
    unfold onAccept
    split_ifs
    · exact refl s
    · cases ec with
      | some e => exact notify (by simp [About]) (acceptAgain e s)
      | none => exact silent rfl rfl
  | erase j =>
    have hij : j ≠ i := fun h => he (by rw [h])
    refine append (l := [.erased j]) rfl (by simp [About, hij]) ?_
    exact List.mem_erase_of_ne (Ne.symm hij)
  | handOver j ec =>
    cases ec with
    | some e => exact notify (by simp [About]) (refl s)
    | none =>
      have hij : j ≠ i := fun h => hh (by rw [h])
      exact (insert hij s).trans (notify (by simp [About, hij]) (refl _))
  | call j x => exact onSession (.call x) s
  | event j e => exact onSession (.event e) s

theorem resume (f : ServerRest) (s : Server) : SameRecord i s ((machine I).resume f s).1 := by
  cases f with
  | stopLoop => exact stopLoop _ _ _ _
  | acceptStart | handOverEnd => exact refl s
  | acceptNext => exact doAccept s
  | acceptFailed e => exact acceptAgain e s
  | session j f => exact onSession (.resume f) s

end SameRecord

/-! ## Steps of a session -/

/-- The part that a step runs, and the session. -/
def partOf (o : Option Closure) (g : Option ServerRest) : Option (ℕ × Part) :=
  (o.bind Closure.part?).or (g.bind ServerRest.part?)

@[simp] theorem partOf_run (q : Closure) : partOf (some q) none = q.part? := by simp [partOf]

@[simp] theorem partOf_resume (f : ServerRest) : partOf none (some f) = f.part? := by
  simp [partOf]

/-- A call or a completion handler is a part of no other closure. -/
theorem partOf_eq {q : Closure} {o : Option Closure} {g : Option ServerRest} {p : ℕ × Part}
    (hq : q.part? = some p) (h : partOf o g = some p) : o = some q := by
  rcases Option.or_eq_some_iff.1 h with h | ⟨-, h⟩
  · obtain ⟨q', rfl, hq'⟩ := Option.bind_eq_some_iff.1 h
    cases q with
    | call =>
      cases hq
      cases q' with
      | call =>
        cases hq'
        rfl
      | _ => cases hq'
    | event =>
      cases hq
      cases q' with
      | event =>
        cases hq'
        rfl
      | _ => cases hq'
    | _ => cases hq
  · obtain ⟨f, rfl, hf⟩ := Option.bind_eq_some_iff.1 h
    cases f with
    | session =>
      cases hf
      cases q <;> cases hq
    | _ => cases hf

/-- What one step does to session `i`. -/
inductive LifeEffect (i : ℕ) (s s' : Server) (t t' : Tokens) (o : Option Closure)
    (g : Option ServerRest) : Prop where
  /-- nothing; the part that it runs is not one of the session -/
  | other : s'.sessions[i]? = s.sessions[i]? → SameRecord i s s' → t' = t →
      (∀ p, partOf o g = some (i, p) → s.sessions[i]? = none) → LifeEffect i s s' t t' o g
  /-- the session was accepted -/
  | accepted (config : ServerConfig) : s.sessions[i]? = none →
      s'.sessions[i]? = some (WebSocketServerSession.create config) → SameRecord i s s' →
      t' = { t with start := t.start + 1 } → partOf o g = none → LifeEffect i s s' t t' o g
  | turn (p : Part) (X : WebSocketServerSession) : partOf o g = some (i, p) →
      s.sessions[i]? = some X → s'.sessions[i]? = some (p.run X).1 → SameRecord i s s' →
      t'.start + p.starts = t.start →
      t'.hand = t.hand + ServerFrame.hands ((p.run X).2.bind Frame.derived?) →
      t'.erase = t.erase + ServerFrame.erases ((p.run X).2.bind Frame.derived?) →
      LifeEffect i s s' t t' o g
  | erased : o = some (.erase i) → s' = s.erase i → t = { t' with erase := t'.erase + 1 } →
      partOf o g = none → LifeEffect i s s' t t' o g
  | handed : o = some (.handOver i none) → s' = (s.handOver i none).1 →
      t = { t' with hand := t'.hand + 1 } → partOf o g = none → LifeEffect i s s' t t' o g

section
variable {v v' : View} {l : Label} {o : Option Closure} {g : Option ServerRest} {t t' : Tokens}

theorem handOver_sessions (i : ℕ) (s : Server) : (s.handOver i none).1.sessions = s.sessions := by
  show ((s.insert i).notifySession none (some i) .handOverEnd id).1.sessions = _
  rw [notifySession_sessions _ _ _ _ rfl, insert_sessions]

/-- A session is not forgotten. -/
theorem LifeEffect.created (he : LifeEffect i s s' t t' o g) (h : s.sessions[i]? ≠ none) :
    s'.sessions[i]? ≠ none := by
  cases he with
  | other hs => rwa [hs]
  | accepted _ _ hs | turn _ _ _ _ hs =>
    rw [hs]
    simp
  | erased _ hs =>
    rw [hs]
    exact h
  | handed _ hs =>
    rw [hs, handOver_sessions]
    exact h

theorem LifeEffect.inserted (he : LifeEffect i s s' t t' o g) (h : .inserted i ∈ s.log) :
    .inserted i ∈ s'.log := by
  cases he with
  | other _ hr | accepted _ _ _ hr | turn _ _ _ _ _ hr => exact hr.inserted.2 h
  | erased _ hs =>
    rw [hs]
    exact List.mem_append_left _ h
  | handed _ hs =>
    obtain ⟨⟨es, hl, -⟩, -⟩ := handOver_log i s
    rw [hs, hl]
    exact List.mem_append_left _ (List.mem_append_left _ h)

/-- A part of a closure of session `j` runs. -/
theorem LifeEffect.part {p : Part} (hp : partOf o g = some (j, p))
    (hs : s' = (s.onSession j p.run).1)
    (hstart : t'.start + (if j = i then p.starts else 0) = t.start +
      (startWeight I i).tail (s.onSession j p.run).2)
    (hhand : t'.hand = t.hand + (handWeight I i).tail (s.onSession j p.run).2)
    (herase : t'.erase = t.erase + (eraseWeight I i).tail (s.onSession j p.run).2)
    (hnone : s.sessions[i]? = none → t.start = 0) : LifeEffect i s s' t t' o g := by
  subst hs
  cases hX : s.sessions[j]? with
  | none =>
    rw [onSession_none hX] at hstart hhand herase ⊢
    have hidle (W : Executor.Weight (machine I)) : W.tail (.done : Tail) = 0 := rfl
    rw [hidle] at hstart hhand herase
    have hcost : (if j = i then p.starts else 0) = 0 := by
      split_ifs at hstart ⊢ with hj
      · have := hnone (hj ▸ hX)
        omega
      · rfl
    refine .other rfl (.refl s) ?_ fun q hq => ?_
    · ext
      · omega
      · exact hhand
      · exact herase
    · rw [hp] at hq
      cases hq
      exact hX
  | some X =>
    rw [onSession_tail hX, sessionTail_start] at hstart
    rw [onSession_tail hX, sessionTail_hand] at hhand
    rw [onSession_tail hX, sessionTail_erase] at herase
    by_cases hj : j = i
    · subst hj
      rw [if_pos rfl] at hstart hhand herase
      refine .turn p X hp hX ?_ (.onSession p s) hstart hhand herase
      rw [onSession_get hX, if_pos rfl]
    · rw [if_neg hj] at hstart hhand herase
      refine .other (onSession_ne hj) (.onSession p s) (Tokens.ext hstart hhand herase) ?_
      intro q hq
      rw [hp] at hq
      cases hq
      exact absurd rfl hj

theorem stopLoop_idle (entry visited : List ℕ) (s : Server) (rest : List ℕ) :
    (startWeight I i).tail (s.stopLoop entry visited rest).2 = 0 ∧
      (handWeight I i).tail (s.stopLoop entry visited rest).2 = 0 ∧
      (eraseWeight I i).tail (s.stopLoop entry visited rest).2 = 0 := by
  cases rest with
  | nil => exact ⟨rfl, rfl, rfl⟩
  | cons j rest =>
    refine ⟨?_, rfl, rfl⟩
    simp [stopLoop, startWeight, Executor.Weight.tail, Part.starts]

/-- The weights of a part of a closure of the server that does not accept session
    `i`. -/
theorem run_idle {q : Closure} (hq : q.part? = none) (ha : Accepts q s → s.sessions.length ≠ i) :
    (startWeight I i).tail ((machine I).run q s).2 = 0 ∧
      (handWeight I i).tail ((machine I).run q s).2 = 0 ∧
      (eraseWeight I i).tail ((machine I).run q s).2 = 0 := by
  have hnotify {ec : ErrorCode} {session : Option ℕ} {rest : ServerRest} {next : Server → Server}
      {s : Server} (W : Executor.Weight (machine I)) (hr : W.frame rest = 0) :
      W.tail (s.notifySession ec session rest next).2 = 0 := by
    unfold notifySession
    split_ifs
    · exact hr
    · rfl
  cases q with
  | setSessionHandler | start | erase => exact ⟨rfl, rfl, rfl⟩
  | stop => exact stopLoop_idle _ _ _ _
  | accepted ec nd =>
    show (startWeight I i).tail (s.onAccept ec nd).2 = 0 ∧
      (handWeight I i).tail (s.onAccept ec nd).2 = 0 ∧
      (eraseWeight I i).tail (s.onAccept ec nd).2 = 0
    unfold onAccept
    split_ifs with hst
    · exact ⟨rfl, rfl, rfl⟩
    · cases ec with
      | some e => exact ⟨hnotify _ rfl, hnotify _ rfl, hnotify _ rfl⟩
      | none =>
        have hlen := ha ⟨nd, rfl, by simpa using hst⟩
        exact ⟨by simp [startWeight, Executor.Weight.tail, Part.starts, hlen], rfl, rfl⟩
  | handOver j ec => exact ⟨hnotify _ rfl, hnotify _ rfl, hnotify _ rfl⟩
  | call | event => cases hq

/-- What is left of a closure of the server passes the token of session `i` on. -/
theorem resume_idle {f : ServerRest} (hf : f.part? = none) :
    (startWeight I i).tail ((machine I).resume f s).2 = (startWeight I i).frame f ∧
      (handWeight I i).tail ((machine I).resume f s).2 = 0 ∧
      (eraseWeight I i).tail ((machine I).resume f s).2 = 0 := by
  cases f with
  | stopLoop => exact stopLoop_idle _ _ _ _
  | acceptStart j nd => exact ⟨rfl, rfl, rfl⟩
  | acceptNext | acceptFailed | handOverEnd => exact ⟨rfl, rfl, rfl⟩
  | session => cases hf

/-- The session is created. -/
theorem LifeEffect.create {q : Closure} (hq : q.part? = none) (ha : Accepts q s)
    (hi : s.sessions.length = i)
    (hstart : t'.start + (startWeight I i).closure q =
      t.start + (startWeight I i).tail ((machine I).run q s).2)
    (hhand : t'.hand + (handWeight I i).closure q =
      t.hand + (handWeight I i).tail ((machine I).run q s).2)
    (herase : t'.erase + (eraseWeight I i).closure q =
      t.erase + (eraseWeight I i).tail ((machine I).run q s).2) :
    LifeEffect i s ((machine I).run q s).1 t t' (some q) none := by
  subst hi
  have hsessions := onAccept_sessions (I := I) ha
  obtain ⟨nd, rfl, hst⟩ := ha
  have hrun : (machine I).run (.accepted none nd) s = ({ s with
      sessions := s.sessions ++ [WebSocketServerSession.create s.config] },
      .dispatch (.call s.sessions.length (.derived (.setCloseHandler (some .server))))
        (.acceptStart s.sessions.length nd)) := by
    show s.onAccept none nd = _
    unfold onAccept
    rw [hst]
    rfl
  refine .accepted s.config (by simp) (by rw [hsessions]; simp) ?_ ?_ (by rw [partOf_run, hq])
  · rw [hrun]
    exact .silent rfl rfl
  · rw [hrun] at hstart hhand herase
    ext
    · simpa [startWeight, Executor.Weight.tail, Part.starts] using hstart
    · exact hhand
    · exact herase

/-- The other closures of the server leave the session as it is. -/
theorem run_sessions_get {q : Closure} (hq : q.part? = none)
    (ha : Accepts q s → s.sessions.length ≠ i) :
    ((machine I).run q s).1.sessions[i]? = s.sessions[i]? := by
  cases hX : s.sessions[i]? with
  | some X => exact run_get hq hX
  | none =>
    by_cases hacc : Accepts q s
    · have hlen := ha hacc
      rw [List.getElem?_eq_none_iff] at hX
      rw [onAccept_sessions hacc, List.getElem?_eq_none_iff, List.length_append,
        List.length_singleton]
      omega
    · rw [run_sessions hq hacc, hX]

theorem closure_idle {q : Closure} (hq : q.part? = none) (he : q ≠ .erase i)
    (hh : q ≠ .handOver i none) :
    (startWeight I i).closure q = 0 ∧ (handWeight I i).closure q = 0 ∧
      (eraseWeight I i).closure q = 0 := by
  cases q with
  | erase j => exact ⟨rfl, rfl, if_neg fun hj => he (by rw [hj])⟩
  | handOver j ec =>
    cases ec with
    | none => exact ⟨rfl, if_neg fun hj => hh (by rw [hj]), rfl⟩
    | some e => exact ⟨rfl, rfl, rfl⟩
  | call | event => cases hq
  | _ => exact ⟨rfl, rfl, rfl⟩

/-- A closure of the server runs. -/
theorem LifeEffect.run {q : Closure} (hq : q.part? = none)
    (hstart : t'.start + (startWeight I i).closure q =
      t.start + (startWeight I i).tail ((machine I).run q s).2)
    (hhand : t'.hand + (handWeight I i).closure q =
      t.hand + (handWeight I i).tail ((machine I).run q s).2)
    (herase : t'.erase + (eraseWeight I i).closure q =
      t.erase + (eraseWeight I i).tail ((machine I).run q s).2) :
    LifeEffect i s ((machine I).run q s).1 t t' (some q) none := by
  have hpart : partOf (some q) none = none := by rw [partOf_run, hq]
  by_cases ha : Accepts q s ∧ s.sessions.length = i
  · exact .create hq ha.1 ha.2 hstart hhand herase
  have hother (h : Accepts q s) : s.sessions.length ≠ i := fun hi => ha ⟨h, hi⟩
  obtain ⟨h₁, h₂, h₃⟩ := run_idle (I := I) hq hother
  rw [h₁] at hstart
  rw [h₂] at hhand
  rw [h₃] at herase
  by_cases he : q = .erase i
  · subst he
    refine .erased rfl rfl ?_ hpart
    ext
    · exact hstart.symm
    · exact hhand.symm
    · simpa [eraseWeight] using herase.symm
  by_cases hh : q = .handOver i none
  · subst hh
    refine .handed rfl rfl ?_ hpart
    ext
    · exact hstart.symm
    · simpa [handWeight] using hhand.symm
    · exact herase.symm
  obtain ⟨c₁, c₂, c₃⟩ := closure_idle (I := I) hq he hh
  refine .other (run_sessions_get hq hother) (.run he hh s) (Tokens.ext ?_ ?_ ?_) fun p hp => ?_
  · omega
  · omega
  · omega
  · rw [hpart] at hp
    cases hp

/-- A part of a closure costs the token that it starts with. -/
theorem closure_part {q : Closure} {p : Part} (hq : q.part? = some (j, p)) :
    (startWeight I i).closure q = (if j = i then p.starts else 0) ∧
      (handWeight I i).closure q = 0 ∧ (eraseWeight I i).closure q = 0 := by
  cases q with
  | call =>
    cases hq
    exact ⟨rfl, rfl, rfl⟩
  | event =>
    cases hq
    exact ⟨(ite_self 0).symm, rfl, rfl⟩
  | _ => cases hq

theorem frame_part {f : ServerRest} {p : Part} (hf : f.part? = some (j, p)) :
    (startWeight I i).frame f = if j = i then p.starts else 0 := by
  cases f with
  | session =>
    cases hf
    exact (ite_self 0).symm
  | _ => cases hf

/-- **What one step does to a session.** -/
theorem life_effect (ht : t.Of I i v) (hnone : v.shared.sessions[i]? = none → t.start = 0)
    (he : Executor.Weight.Effect (machine I) v v' l o g) :
    ∃ t', t'.Of I i v' ∧ LifeEffect i v.shared v'.shared t t' o g := by
  cases he with
  | stay hsh hm =>
    obtain ⟨t', ht', h₁, h₂, h₃⟩ := ht.moves hm
    exact ⟨t', ht', .other (by rw [hsh]) (hsh ▸ .refl _) (Tokens.ext h₁ h₂ h₃) nofun⟩
  | complete e q hl hc hm =>
    obtain ⟨t', ht', h₁, h₂, h₃⟩ := ht.moves hm
    refine ⟨t', ht', .other ?_ ?_ ?_ nofun⟩
    · obtain ⟨n, hn⟩ := complete_server hc
      rw [hn]
    · obtain ⟨n, hn⟩ := complete_server hc
      rw [hn]
      exact .silent rfl rfl
    · rcases complete_cases hc with ⟨ec, nd, -, -, -, rfl⟩ | ⟨j, e', X, r, -, -, -, -, rfl⟩
      · exact Tokens.ext h₁ h₂ h₃
      · exact Tokens.ext h₁ h₂ h₃
  | run q hsh hm =>
    obtain ⟨t', ht', h₁, h₂, h₃⟩ := ht.moves hm
    refine ⟨t', ht', ?_⟩
    cases hq : q.part? with
    | none =>
      rw [hsh]
      exact .run hq h₁ h₂ h₃
    | some jp =>
      obtain ⟨j, p⟩ := jp
      have hpart : partOf (some q) none = some (j, p) := by rw [partOf_run, hq]
      rw [run_part hq] at hsh h₁ h₂ h₃
      obtain ⟨c₁, c₂, c₃⟩ := closure_part (I := I) (i := i) hq
      rw [c₁] at h₁
      rw [c₂] at h₂
      rw [c₃] at h₃
      exact .part hpart hsh h₁ h₂ h₃ hnone
  | resume it f hit hf hsh hm =>
    obtain ⟨t', ht', h₁, h₂, h₃⟩ := ht.moves hm
    refine ⟨t', ht', ?_⟩
    cases hq : f.part? with
    | none =>
      have hpart : partOf none (some f) = none := by rw [partOf_resume, hq]
      refine .other ?_ ?_ ?_ fun p hp => ?_
      · rw [hsh, resume_sessions hq]
      · rw [hsh]
        exact .resume f _
      · obtain ⟨e₁, e₂, e₃⟩ := resume_idle (I := I) (i := i) (s := v.shared) hq
        exact Tokens.ext (Nat.add_right_cancel (h₁.trans (congrArg _ e₁)))
          (h₂.trans (congrArg _ e₂)) (h₃.trans (congrArg _ e₃))
      · rw [hpart] at hp
        cases hp
    | some jp =>
      obtain ⟨j, p⟩ := jp
      have hpart : partOf none (some f) = some (j, p) := by rw [partOf_resume, hq]
      rw [resume_part hq] at hsh h₁ h₂ h₃
      rw [frame_part hq] at h₁
      exact .part hpart hsh h₁ h₂ h₃ hnone

end

/-! ## The balance of a session -/

/-- How far the session is: the token is not in a closure before the session is
    created, during the handshake, and when the session was inserted or closed. -/
def stage (i : ℕ) (s : Server) : ℕ :=
  match s.sessions[i]? with
  | none => 1
  | some X => X.derived.own.shaking +
      if .inserted i ∈ s.log ∨ X.derived.own.closeNotified = true then 1 else 0

/-- `close_transport` has run for the session. -/
def closings (i : ℕ) (s : Server) : ℕ :=
  match s.sessions[i]? with
  | none => 0
  | some X => X.derived.own.closeNotified.toNat

/-- The closures of a session, its members and its record fit. -/
structure Balance (i : ℕ) (s : Server) (t : Tokens) : Prop where
  /-- there is one token -/
  token : t.start + t.hand + stage i s = 1
  /-- a session is erased at most once, after it was closed -/
  erasing : t.erase + s.log.count (.erased i) ≤ closings i s
  born : .inserted i ∈ s.log → s.sessions[i]? ≠ none
  active : i ∈ s.activeSessions ↔ .inserted i ∈ s.log ∧ .erased i ∉ s.log

section
variable {t t' : Tokens} {o : Option Closure} {g : Option ServerRest}

theorem stage_done {X : WebSocketServerSession} (hX : s.sessions[i]? = some X)
    (h : .inserted i ∈ s.log ∨ X.derived.own.closeNotified = true) :
    stage i s = X.derived.own.shaking + 1 := by
  unfold stage
  simp only [hX, h, if_true]

theorem stage_shaking {X : WebSocketServerSession} (hX : s.sessions[i]? = some X)
    (h : .inserted i ∉ s.log) (hc : X.derived.own.closeNotified = false) :
    stage i s = X.derived.own.shaking := by
  unfold stage
  simp [hX, h, hc]

theorem stage_none (hX : s.sessions[i]? = none) : stage i s = 1 := by
  unfold stage
  rw [hX]

theorem closings_some {X : WebSocketServerSession} (hX : s.sessions[i]? = some X) :
    closings i s = X.derived.own.closeNotified.toNat := by
  unfold closings
  rw [hX]

theorem closings_none (hX : s.sessions[i]? = none) : closings i s = 0 := by
  unfold closings
  rw [hX]

theorem stage_congr (hs : s'.sessions[i]? = s.sessions[i]?)
    (hl : .inserted i ∈ s'.log ↔ .inserted i ∈ s.log) : stage i s' = stage i s := by
  unfold stage
  rw [hs]
  simp only [hl]

theorem closings_congr (hs : s'.sessions[i]? = s.sessions[i]?) : closings i s' = closings i s := by
  unfold closings
  rw [hs]

theorem erased_mem (h : s'.log.count (.erased i) = s.log.count (.erased i)) :
    .erased i ∈ s'.log ↔ .erased i ∈ s.log := by
  rw [← List.count_pos_iff, ← List.count_pos_iff, h]

/-- The record of the session is the same. -/
theorem SameRecord.active_iff (h : SameRecord i s s')
    (ha : i ∈ s.activeSessions ↔ .inserted i ∈ s.log ∧ .erased i ∉ s.log) :
    i ∈ s'.activeSessions ↔ .inserted i ∈ s'.log ∧ .erased i ∉ s'.log := by
  rw [h.active, h.inserted, erased_mem h.erased]
  exact ha

/-- The hand-over of a session that was not inserted yet. -/
theorem handOver_inserts (hi : i ∉ s.activeSessions) :
    (s.handOver i none).1.sessions = s.sessions ∧
    .inserted i ∈ (s.handOver i none).1.log ∧
    (s.handOver i none).1.log.count (.erased i) = s.log.count (.erased i) ∧
    i ∈ (s.handOver i none).1.activeSessions := by
  have hins : s.insert i = { s with
      activeSessions := s.activeSessions ++ [i], log := s.log ++ [.inserted i] } := if_neg hi
  show ((s.insert i).notifySession none (some i) .handOverEnd id).1.sessions = _ ∧
    .inserted i ∈ ((s.insert i).notifySession none (some i) .handOverEnd id).1.log ∧
    ((s.insert i).notifySession none (some i) .handOverEnd id).1.log.count (.erased i) = _ ∧
    i ∈ ((s.insert i).notifySession none (some i) .handOverEnd id).1.activeSessions
  rw [hins]
  unfold notifySession
  split_ifs <;> simp [Server.emit, List.count_append]

/-- **A session that is closed is erased**, unless its close handler is another one
    then. -/
theorem LifeEffect.erasing (he : LifeEffect i s s' t t' o g)
    (hi : t.hand ≠ 0 → i ∉ s.activeSessions) : ∃ n,
    t'.erase + s'.log.count (.erased i) + n + closings i s =
      t.erase + s.log.count (.erased i) + closings i s' ∧
    (n ≠ 0 → ∃ p X, partOf o g = some (i, p) ∧ s.sessions[i]? = some X ∧
      X.derived.own.closeNotified = false ∧ (p.run X).1.derived.own.closeNotified = true ∧
      X.derived.own.closeHandler ≠ some .server) := by
  cases he with
  | other hs hr ht hp =>
    refine ⟨0, ?_, fun h => absurd rfl h⟩
    rw [ht, hr.erased, closings_congr hs, Nat.add_zero]
  | accepted config hnone hs hr ht hp =>
    refine ⟨0, ?_, fun h => absurd rfl h⟩
    have hopen : closings i s' = 0 := closings_some hs
    rw [ht, hr.erased, closings_none hnone, hopen]
  | turn p X hp hX hX' hr hstart hhand herase =>
    have hturn := WebSocketServerSession.part_turn p X
    have herases := hturn.erases
    rw [closings_some hX, closings_some hX', hr.erased, herase, herases]
    cases hc : X.derived.own.closeNotified with
    | true =>
      refine ⟨0, ?_, fun h => absurd rfl h⟩
      rw [hturn.closeNotified hc]
      simp
    | false =>
      cases hc' : (p.run X).1.derived.own.closeNotified with
      | false =>
        refine ⟨0, ?_, fun h => absurd rfl h⟩
        simp
      | true =>
        by_cases hh : X.derived.own.closeHandler = some .server
        · refine ⟨0, ?_, fun h => absurd rfl h⟩
          simp only [hh, and_self, if_true, Bool.toNat_true, Bool.toNat_false]
          omega
        · refine ⟨1, ?_, fun _ => ⟨p, X, hp, hX, hc, hc', hh⟩⟩
          simp only [hh, and_false, if_false, Bool.toNat_true, Bool.toNat_false]
          omega
  | erased ho hs ht hp =>
    refine ⟨0, ?_, fun h => absurd rfl h⟩
    have hclosings : closings i (s.erase i) = closings i s := closings_congr rfl
    have hcount : (s.erase i).log.count (.erased i) = s.log.count (.erased i) + 1 := by
      simp [Server.erase, List.count_append]
    rw [ht, hs, hclosings, hcount]
    show t'.erase + _ + 0 + _ = t'.erase + 1 + _ + _
    omega
  | handed ho hs ht hp =>
    refine ⟨0, ?_, fun h => absurd rfl h⟩
    have hhand : t.hand ≠ 0 := by
      rw [ht]
      exact Nat.succ_ne_zero _
    obtain ⟨hsess, -, hcount, -⟩ := handOver_inserts (hi hhand)
    have hclosings : closings i (s.handOver i none).1 = closings i s :=
      closings_congr (by rw [hsess])
    rw [ht, hs, hcount, hclosings, Nat.add_zero]

/-- A session that is about to be inserted was neither inserted nor closed. -/
theorem Balance.handing (h : Balance i s t) (ht : t.hand ≠ 0) : ∃ X, s.sessions[i]? = some X ∧
    .inserted i ∉ s.log ∧ X.derived.own.closeNotified = false ∧ i ∉ s.activeSessions ∧
    s.log.count (.erased i) = 0 := by
  have htoken := h.token
  have herasing := h.erasing
  cases hX : s.sessions[i]? with
  | none =>
    rw [stage_none hX] at htoken
    omega
  | some X =>
    have hno : ¬ (.inserted i ∈ s.log ∨ X.derived.own.closeNotified = true) := by
      intro hyes
      rw [stage_done hX hyes] at htoken
      omega
    rw [not_or, Bool.not_eq_true] at hno
    refine ⟨X, rfl, hno.1, hno.2, fun hi => hno.1 (h.active.1 hi).1, ?_⟩
    rw [closings_some hX, hno.2, Bool.toNat_false] at herasing
    omega

/-- A part of a closure of the session keeps its token. -/
theorem stage_turn {p : Part} {X : WebSocketServerSession} (hX : s.sessions[i]? = some X)
    (hX' : s'.sessions[i]? = some (p.run X).1) (hins : .inserted i ∈ s'.log ↔ .inserted i ∈ s.log)
    (hstart : t'.start + p.starts = t.start)
    (hhand : t'.hand = t.hand + ServerFrame.hands ((p.run X).2.bind Frame.derived?))
    (hinner : .inserted i ∉ s.log → p.Inner ∧ ∀ h ∈ X.derived.own.handshakes, h = some .server)
    (htoken : t.start + t.hand + stage i s = 1) : t'.start + t'.hand + stage i s' = 1 := by
  have hturn := WebSocketServerSession.part_turn p X
  obtain ⟨d, hd, hshaking, hclosed⟩ := hturn.shaking
  by_cases hi : .inserted i ∈ s.log
  · rw [stage_done hX (Or.inl hi)] at htoken
    rw [stage_done hX' (Or.inl (hins.2 hi))]
    omega
  have hi' : .inserted i ∉ s'.log := fun hm => hi (hins.1 hm)
  obtain ⟨hp, hshakes⟩ := hinner hi
  obtain ⟨-, hfail⟩ := hturn.inner hp hshakes
  cases hc : X.derived.own.closeNotified with
  | true =>
    rw [stage_done hX (Or.inr hc)] at htoken
    rw [stage_done hX' (Or.inr (hturn.closeNotified hc))]
    omega
  | false =>
    rw [stage_shaking hX hi hc] at htoken
    cases hc' : (p.run X).1.derived.own.closeNotified with
    | true =>
      -- `start` or the handshake fails
      have := hfail hc hc'
      rw [stage_done hX' (Or.inr hc')]
      omega
    | false =>
      have hd0 : d ≠ 1 := by
        intro h1
        rw [hclosed h1] at hc'
        cases hc'
      rw [stage_shaking hX' hi' hc']
      omega

/-- **The balance is kept** by every step of the session; `hinner`: a session that
    was not inserted yet does what `do_accept` makes it do. -/
theorem Balance.step (h : Balance i s t) (he : LifeEffect i s s' t t' o g)
    (hn : s.activeSessions.Nodup)
    (hinner : .inserted i ∉ s.log → ∀ p X, partOf o g = some (i, p) → s.sessions[i]? = some X →
      p.Inner ∧ ∀ h ∈ X.derived.own.handshakes, h = some .server) : Balance i s' t' := by
  have htoken := h.token
  have herasing : t'.erase + s'.log.count (.erased i) ≤ closings i s' := by
    obtain ⟨n, hn, -⟩ := he.erasing fun ht => (h.handing ht).choose_spec.2.2.2.1
    have := h.erasing
    omega
  cases he with
  | other hs hr ht hp =>
    refine ⟨?_, herasing, ?_, hr.active_iff h.active⟩
    · rw [ht, stage_congr hs hr.inserted]
      exact htoken
    · rw [hs, hr.inserted]
      exact h.born
  | accepted config hnone hs hr ht hp =>
    have hins : .inserted i ∉ s'.log := fun hm => h.born (hr.inserted.1 hm) hnone
    have hstage : stage i s' = 0 := stage_shaking hs hins rfl
    rw [stage_none hnone] at htoken
    refine ⟨?_, herasing, fun hm => absurd hm hins, hr.active_iff h.active⟩
    rw [ht, hstage]
    show t.start + 1 + t.hand + 0 = 1
    omega
  | turn p X hp hX hX' hr hstart hhand herase =>
    refine ⟨?_, herasing, fun _ hno => ?_, hr.active_iff h.active⟩
    · exact stage_turn hX hX' hr.inserted hstart hhand (fun hi => hinner hi p X hp hX) htoken
    · rw [hX'] at hno
      cases hno
  | erased ho hs ht hp =>
    subst hs ht
    have hmem : .inserted i ∈ (s.erase i).log ↔ .inserted i ∈ s.log := by
      simp [Server.erase]
    have hstage : stage i (s.erase i) = stage i s := stage_congr rfl hmem
    refine ⟨?_, herasing, fun hm => h.born (hmem.1 hm), ?_⟩
    · rw [hstage]
      exact htoken
    · refine iff_of_false hn.not_mem_erase ?_
      rintro ⟨-, hno⟩
      exact hno (by simp [Server.erase])
  | handed ho hs ht hp =>
    subst hs ht
    obtain ⟨X, hX, hins, hc, hact, hcount⟩ := h.handing (Nat.succ_ne_zero _)
    obtain ⟨hsess, hins', hcount', hact'⟩ := handOver_inserts hact
    have hX' : (s.handOver i none).1.sessions[i]? = some X := by rw [hsess, hX]
    rw [stage_shaking hX hins hc] at htoken
    refine ⟨?_, herasing, fun _ hno => ?_, iff_of_true hact' ⟨hins', ?_⟩⟩
    · rw [stage_done hX' (Or.inl hins')]
      change t'.start + (t'.hand + 1) + _ = 1 at htoken
      omega
    · rw [hX'] at hno
      cases hno
    · rw [← List.count_eq_zero, hcount', hcount]

end

end TransitSession.WebSocket.Server
