/-
  The accept loop of `WebSocketServer`.

  An accept is outstanding from `async_accept` until its completion handler
  runs, and the handler goes on to the next one unless the server was stopped.
  So there is one token of the loop: an accept that is outstanding, or a closure
  that has yet to call `do_accept` (`rearms`).  The token is `Balanced` against
  `started_` and the acceptor.

  `stop()` closes the acceptor for good, while `start()` and the handler do not
  look at it; `keepsAccepting` are the steps on which that does not matter.
-/
import TransitSession.WebSocket.SessionSteps
import TransitSession.WebSocket.StopLoop

namespace TransitSession.WebSocket.Server

/-! ## Well-formed loops -/

def isAccepted : Closure → Bool
  | .accepted _ _ => true
  | _ => false

/-- The closure goes on to call `do_accept`. -/
def rearms : ServerRest → Bool
  | .acceptStart _ _ | .acceptNext => true
  | .acceptFailed e => decide (e ≠ .operationAborted)
  | _ => false

/-- The accepts that were initiated and whose completion handlers have not run. -/
def outstanding (w : World) : ℕ := w.shared.accepts + (w.queue .server).countP isAccepted

/-- The accept loop is well formed. -/
structure LoopOk (w : World) : Prop where
  /-- no accept was initiated on an acceptor that was not open -/
  onOpen : .accepting false ∉ w.shared.log
  atMostOne : outstanding w ≤ 1
  /-- no closure of the server is running -/
  waiting : w.holder .server = none → w.shared.started = true →
    w.shared.acceptorOpen = true ∧ outstanding w = 1

/-- The step neither starts the server on an acceptor that was closed, nor stops
    it while a closure goes on to `do_accept`, nor runs the completion handler of
    an accept that was aborted although the server is started. -/
structure KeepsAccepting (I : Iteration) (w : World) (l : Label) : Prop where
  start : (machine I).ran w l = some .start →
    w.shared.started = true ∨ w.shared.acceptorOpen = true
  stop : (machine I).ran w l = some .stop → ∀ t f, w.HasFrame t f → rearms f = false
  abort : ∀ nd, (machine I).ran w l = some (.accepted (some .operationAborted) nd) →
    w.shared.started = false

/-! ## Parts of closures -/

/-- The part of the closure neither starts nor stops the server, nor initiates an
    accept. -/
structure KeepsLoop (s s' : Server) : Prop where
  started : s'.started = s.started
  acceptorOpen : s'.acceptorOpen = s.acceptorOpen
  accepts : s'.accepts = s.accepts
  log : ∀ b, .accepting b ∈ s'.log → .accepting b ∈ s.log

namespace KeepsLoop
variable {s s' : Server}

theorem refl (s : Server) : KeepsLoop s s := ⟨rfl, rfl, rfl, fun _ => id⟩

theorem emit (s : Server) {ev : ServerEvent} (hev : ∀ b, ev ≠ .accepting b) :
    KeepsLoop s (s.emit ev) := by
  refine ⟨rfl, rfl, rfl, fun b hb => ?_⟩
  rcases List.mem_append.1 hb with hb | hb
  · exact hb
  · exact absurd (List.mem_singleton.1 hb).symm (hev b)

theorem trans {s'' : Server} (h : KeepsLoop s s') (h' : KeepsLoop s' s'') : KeepsLoop s s'' :=
  ⟨h'.started.trans h.started, h'.acceptorOpen.trans h.acceptorOpen, h'.accepts.trans h.accepts,
    fun b hb => h.log b (h'.log b hb)⟩

theorem onSession (i : ℕ) (p : Part) (s : Server) : KeepsLoop s (s.onSession i p.run).1 := by
  obtain ⟨ss, hs⟩ := onSession_server i p.run s
  rw [hs]
  exact ⟨rfl, rfl, rfl, fun _ => id⟩

theorem insert (i : ℕ) (s : Server) : KeepsLoop s (s.insert i) := by
  unfold Server.insert
  split_ifs
  · exact refl s
  · refine ⟨rfl, rfl, rfl, fun b hb => ?_⟩
    simpa using hb

theorem notify {ec : ErrorCode} {session : Option ℕ} {rest : ServerRest} {next : Server → Server}
    (h : KeepsLoop s (next s)) : KeepsLoop s (s.notifySession ec session rest next).1 := by
  unfold notifySession
  split_ifs
  · exact emit s (by simp)
  · exact h

theorem stopLoop (entry visited : List ℕ) (s : Server) (rest : List ℕ) :
    KeepsLoop s (s.stopLoop entry visited rest).1 := by
  cases rest with
  | nil => exact emit s (by simp)
  | cons i rest => exact refl s

end KeepsLoop

/-- The token of the loop, in closures. -/
def loopWeight (I : Iteration) : Executor.Weight (machine I) where
  closure q := if isAccepted q then 1 else 0
  frame f := if rearms f then 1 else 0
  callable q s h := by
    cases q with
    | accepted => cases h
    | _ => rfl

variable {I : Iteration} {s : Server}

theorem sessionTail_weight (i : ℕ) (o : Option (Frame ServerFrame)) :
    (loopWeight I).tail (sessionTail i o) = 0 := by
  unfold sessionTail
  split
  · rfl
  · split <;> rfl

theorem onSession_weight (i : ℕ) (p : Part) (s : Server) :
    (loopWeight I).tail (s.onSession i p.run).2 = 0 := by
  unfold onSession
  split
  · rfl
  · exact sessionTail_weight _ _

theorem notify_weight {ec : ErrorCode} {session : Option ℕ} {rest : ServerRest}
    {next : Server → Server} (h : rearms rest = false) :
    (loopWeight I).tail (s.notifySession ec session rest next).2 = 0 := by
  unfold notifySession
  split_ifs
  · show (if rearms rest then 1 else 0) = 0
    rw [h]
    rfl
  · rfl

theorem stopLoop_weight (entry visited : List ℕ) (s : Server) (rest : List ℕ) :
    (loopWeight I).tail (s.stopLoop entry visited rest).2 = 0 := by
  cases rest <;> rfl

theorem rearms_items {r : Tail} (hr : (loopWeight I).tail r = 0) :
    ∀ it ∈ (r.items : List Item), ∀ f, it.frame? = some f → rearms f = false := by
  intro it hit f hf
  have hw : (loopWeight I).frame f = 0 := by
    cases r with
    | done => cases hit
    | dispatch q g | user g =>
      rw [List.mem_singleton.1 hit] at hf
      cases hf
      simp only [Executor.Weight.tail] at hr
      omega
  simpa [loopWeight] using hw

/-- The closures of the loop are those of `start()`, of `stop()` and the
    completion handlers of accepts. -/
theorem run_keeps {q : Closure} (hstart : q ≠ .start) (hstop : q ≠ .stop)
    (ha : isAccepted q = false) (s : Server) :
    KeepsLoop s ((machine I).run q s).1 ∧ (loopWeight I).tail ((machine I).run q s).2 = 0 := by
  cases q with
  | setSessionHandler => exact ⟨⟨rfl, rfl, rfl, fun _ => id⟩, rfl⟩
  | start => exact absurd rfl hstart
  | stop => exact absurd rfl hstop
  | accepted => cases ha
  | erase i =>
    refine ⟨⟨rfl, rfl, rfl, fun b hb => ?_⟩, rfl⟩
    simpa [machine, Server.erase] using hb
  | handOver i ec =>
    cases ec with
    | some e => exact ⟨.notify (.refl s), notify_weight rfl⟩
    | none => exact ⟨(KeepsLoop.insert i s).trans (.notify (.refl _)), notify_weight rfl⟩
  | call i x => exact ⟨.onSession i (.call x) s, onSession_weight i (.call x) s⟩
  | event i e => exact ⟨.onSession i (.event e) s, onSession_weight i (.event e) s⟩

/-- The completion handler of an accept drops the token if the server was stopped,
    hands it to what is left of it, or initiates another accept. -/
theorem onAccept_loop (ec nd : ErrorCode) (s : Server) :
    (s.started = false ∧ s.onAccept ec nd = (s, .done)) ∨
    s.started = true ∧
      (KeepsLoop s (s.onAccept ec nd).1 ∧ (loopWeight I).tail (s.onAccept ec nd).2 = 1 ∨
        s.onAccept ec nd = (s.doAccept, .done) ∨ ec = some .operationAborted) := by
  unfold onAccept
  cases hs : s.started with
  | false => exact Or.inl ⟨rfl, rfl⟩
  | true =>
    refine Or.inr ⟨rfl, ?_⟩
    cases ec with
    | none => exact Or.inl ⟨⟨hs.symm, rfl, rfl, fun _ => id⟩, rfl⟩
    | some e =>
      by_cases he : e = .operationAborted
      · exact Or.inr (Or.inr (by rw [he]))
      · simp only [Bool.not_true, Bool.false_eq_true, if_false]
        unfold notifySession
        split_ifs
        · refine Or.inl ⟨.emit s (by simp), ?_⟩
          show (if rearms (.acceptFailed e) then 1 else 0) = 1
          simp [rearms, he]
        · refine Or.inr (Or.inl ?_)
          unfold acceptAgain
          rw [if_pos he]

theorem resume_loop_frame (f : ServerRest) (s : Server) :
    rearms f = false ∧ KeepsLoop s ((machine I).resume f s).1 ∧
      (loopWeight I).tail ((machine I).resume f s).2 = 0 ∨
    rearms f = true ∧ (KeepsLoop s ((machine I).resume f s).1 ∧
        (loopWeight I).tail ((machine I).resume f s).2 = 1 ∨
      (machine I).resume f s = (s.doAccept, .done)) := by
  cases f with
  | stopLoop entry visited rest =>
    exact Or.inl ⟨rfl, .stopLoop entry visited s rest, stopLoop_weight entry visited s rest⟩
  | acceptStart i nd => exact Or.inr ⟨rfl, Or.inl ⟨.refl s, rfl⟩⟩
  | acceptNext => exact Or.inr ⟨rfl, Or.inr rfl⟩
  | acceptFailed e =>
    by_cases he : e = .operationAborted
    · subst he
      exact Or.inl ⟨rfl, .refl s, rfl⟩
    · refine Or.inr ⟨by simp [rearms, he], Or.inr ?_⟩
      show (s.acceptAgain e, _) = _
      unfold acceptAgain
      rw [if_pos he]
  | handOverEnd => exact Or.inl ⟨rfl, .refl s, rfl⟩
  | session i g =>
    exact Or.inl ⟨rfl, .onSession i (.resume g) s, onSession_weight i (.resume g) s⟩

/-! ## The invariant -/

/-- What `started_` and the acceptor say about the number of tokens. -/
def Balanced (s : Server) (n : ℕ) : Prop :=
  (s.started = true → s.acceptorOpen = true ∧ s.accepts + n = 1) ∧
  (s.started = false → s.acceptorOpen = true → s.accepts + n = 0) ∧ s.accepts + n ≤ 1

/-- The invariant of the loop: on the token, and on closures. -/
structure Looping (I : Iteration) (v : View) : Prop where
  balanced : ∃ n, (loopWeight I).Total v n ∧ Balanced v.shared n
  log : .accepting false ∉ v.shared.log
  wired : v.Everywhere (fun _ => True) Wired
  /-- once the acceptor is closed, no closure goes on to `do_accept` -/
  running : v.shared.acceptorOpen = false →
    v.Everywhere (fun _ => True) fun it => ∀ f, it.frame? = some f → rearms f = false

/-- What a step does to the loop. -/
inductive LoopEffect (s s' : Server) (n n' : ℕ) : Option Closure → Prop where
  | keeps (o) : KeepsLoop s s' → n' = n → LoopEffect s s' n n' o
  /-- an accept completes -/
  | completed (o) : s.accepts ≠ 0 → s' = { s with accepts := s.accepts - 1 } → n' = n + 1 →
      LoopEffect s s' n n' o
  /-- the server was stopped -/
  | dropped (o) : s.started = false → s' = s → n' + 1 = n → LoopEffect s s' n n' o
  /-- the token is an accept again -/
  | next (o) : (s.started = true ∨ s.acceptorOpen = true) → s' = s.doAccept → n' + 1 = n →
      LoopEffect s s' n n' o
  | start : s.started = false → s' = doAccept (emit { s with started := true } .started) →
      n' = n → LoopEffect s s' n n' (some .start)
  | stop : s'.started = false → s'.acceptorOpen = false → s'.accepts = s.accepts →
      (∀ b, .accepting b ∈ s'.log → .accepting b ∈ s.log) → n' = n →
      LoopEffect s s' n n' (some .stop)

variable {v v' : View} {l : Label} {o : Option Closure} {g : Option ServerRest} {n n' : ℕ}

theorem LoopEffect.ofStart (s : Server) : LoopEffect s s.start n n (some .start) := by
  cases hst : s.started with
  | true =>
    have hs : s.start = s := by
      unfold Server.start
      rw [if_pos hst]
    rw [hs]
    exact .keeps _ (.refl s) rfl
  | false =>
    refine .start hst ?_ rfl
    unfold Server.start
    rw [if_neg (by simp [hst])]

theorem LoopEffect.ofStop (s : Server) : LoopEffect s (s.stop I).1 n n (some .stop) := by
  have hk : KeepsLoop _ (s.stop I).1 := .stopLoop _ _ _ _
  refine .stop hk.started hk.acceptorOpen hk.accepts ?_ rfl
  intro b hb
  simpa [Server.emit] using hk.log b hb

/-- A completion handler of an accept. -/
theorem LoopEffect.ofAccept {ec nd : ErrorCode}
    (habort : ec = some .operationAborted → s.started = false)
    (hn : n' + 1 = n + (loopWeight I).tail (s.onAccept ec nd).2) :
    LoopEffect s (s.onAccept ec nd).1 n n' (some (.accepted ec nd)) := by
  rcases onAccept_loop (I := I) ec nd s with ⟨hst, he⟩ | ⟨hst, ⟨hk, hw⟩ | he | rfl⟩
  · rw [he] at hn ⊢
    exact .dropped _ hst rfl hn
  · exact .keeps _ hk (by omega)
  · rw [he] at hn ⊢
    exact .next _ (Or.inl hst) rfl hn
  · rw [habort rfl] at hst
    cases hst

/-- A closure runs. -/
theorem LoopEffect.ofRun {q : Closure}
    (habort : ∀ nd, q = .accepted (some .operationAborted) nd → s.started = false)
    (hn : n' + (loopWeight I).closure q = n + (loopWeight I).tail ((machine I).run q s).2) :
    LoopEffect s ((machine I).run q s).1 n n' (some q) := by
  by_cases hstart : q = .start
  · subst hstart
    obtain rfl : n' = n := hn
    exact .ofStart s
  by_cases hstop : q = .stop
  · subst hstop
    have hw : (loopWeight I).tail (s.stop I).2 = 0 := stopLoop_weight _ _ _ _
    change n' + 0 = n + (loopWeight I).tail (s.stop I).2 at hn
    obtain rfl : n' = n := by omega
    exact .ofStop s
  cases ha : isAccepted q with
  | false =>
    obtain ⟨hk, hw⟩ := run_keeps (I := I) hstart hstop ha s
    have hq : (loopWeight I).closure q = 0 := by simp [loopWeight, ha]
    exact .keeps _ hk (by omega)
  | true =>
    cases q with
    | accepted ec nd => exact .ofAccept (fun hec => habort nd (by rw [hec])) hn
    | _ => cases ha

theorem Looping.effect (h : Looping I v) (hs : Executor.View.Step (machine I) v l o g v')
    (habort : ∀ nd, o = some (.accepted (some .operationAborted) nd) →
      v.shared.started = false) :
    ∃ n n', Balanced v.shared n ∧ (loopWeight I).Total v' n' ∧
      LoopEffect v.shared v'.shared n n' o := by
  obtain ⟨n, ht, hb⟩ := h.balanced
  obtain ⟨n', ht', hw⟩ := ht.step hs
  refine ⟨n, n', hb, ht', ?_⟩
  cases hw with
  | stay hsh hn => exact .keeps o (hsh ▸ .refl _) hn
  | complete e q hl hc hn =>
    rcases complete_cases hc with ⟨ec, nd, -, ha, hsh, rfl⟩ | ⟨i, e', X, r, -, -, -, hsh, rfl⟩
    · exact .completed o ha hsh hn
    · exact .keeps o (hsh ▸ .refl _) hn
  | run q ho hsh hle hn =>
    subst ho
    rw [hsh]
    exact .ofRun (fun nd hq => habort nd (by rw [hq])) hn
  | resume it f hit hf hsh hle hn =>
    rcases resume_loop_frame (I := I) f v.shared with ⟨hr, hk, hw⟩ | ⟨hr, ⟨hk, hw⟩ | he⟩
    · have hfr : (loopWeight I).frame f = 0 := by simp [loopWeight, hr]
      exact .keeps o (hsh ▸ hk) (by omega)
    · have hfr : (loopWeight I).frame f = 1 := by simp [loopWeight, hr]
      exact .keeps o (hsh ▸ hk) (by omega)
    · have hfr : (loopWeight I).frame f = 1 := by simp [loopWeight, hr]
      rw [he] at hsh hn
      refine .next o (Or.inr ?_) hsh ?_
      · by_contra hcl
        have hno := (h.running (by simpa using hcl)).items _ it hit f hf
        rw [hr] at hno
        cases hno
      · rw [hfr] at hn
        exact hn

namespace LoopEffect
variable {s' : Server}

theorem balanced (he : LoopEffect s s' n n' o) (hb : Balanced s n)
    (hstart : o = some .start → s.started = true ∨ s.acceptorOpen = true) : Balanced s' n' := by
  obtain ⟨hrun, hidle, hle⟩ := hb
  cases he with
  | keeps o hk hn =>
    unfold Balanced
    rw [hk.started, hk.acceptorOpen, hk.accepts, hn]
    exact ⟨hrun, hidle, hle⟩
  | completed o ha hs hn =>
    subst hs
    have hsum : s.accepts - 1 + n' = s.accepts + n := by omega
    exact ⟨fun hs => ⟨(hrun hs).1, hsum.trans (hrun hs).2⟩, fun hs ho => hsum.trans (hidle hs ho),
      hsum ▸ hle⟩
  | dropped o hst hs hn =>
    subst hs
    refine ⟨fun hs => ?_, fun hs ho => ?_, by omega⟩
    · rw [hst] at hs
      cases hs
    · have := hidle hs ho
      omega
  | next o hok hs hn =>
    subst hs
    have hsum : s.accepts + 1 + n' = s.accepts + n := by omega
    exact ⟨fun hs => ⟨(hrun hs).1, hsum.trans (hrun hs).2⟩, fun hs ho => hsum.trans (hidle hs ho),
      hsum ▸ hle⟩
  | start hst hs hn =>
    subst hs
    have ho : s.acceptorOpen = true := (hstart rfl).resolve_left (by simp [hst])
    have h0 := hidle hst ho
    refine ⟨fun _ => ⟨ho, ?_⟩, nofun, ?_⟩
    · show s.accepts + 1 + n' = 1
      omega
    · show s.accepts + 1 + n' ≤ 1
      omega
  | stop hst ho ha hl hn =>
    unfold Balanced
    rw [hst, ho, ha, hn]
    exact ⟨nofun, nofun, hle⟩

/-- Accepts are initiated on the open acceptor. -/
theorem log (he : LoopEffect s s' n n' o) (hb : Balanced s n)
    (hstart : o = some .start → s.started = true ∨ s.acceptorOpen = true)
    (hlog : .accepting false ∉ s.log) : .accepting false ∉ s'.log := by
  cases he with
  | keeps o hk hn => exact fun hm => hlog (hk.log false hm)
  | completed o ha hs hn | dropped o hst hs hn =>
    subst hs
    exact hlog
  | next o hok hs hn =>
    subst hs
    have ho : s.acceptorOpen = true := hok.elim (fun hs => (hb.1 hs).1) id
    simpa [doAccept, ho] using hlog
  | start hst hs hn =>
    subst hs
    have ho : s.acceptorOpen = true := (hstart rfl).resolve_left (by simp [hst])
    simpa [doAccept, emit, ho] using hlog
  | stop hst ho ha hl hn => exact fun hm => hlog (hl false hm)

/-- Only `stop()` closes the acceptor, and nothing opens it. -/
theorem acceptorOpen (he : LoopEffect s s' n n' o) :
    s'.acceptorOpen = s.acceptorOpen ∨ o = some .stop ∧ s'.acceptorOpen = false := by
  cases he with
  | keeps o hk hn => exact Or.inl hk.acceptorOpen
  | completed o ha hs hn | dropped o hst hs hn | next o hok hs hn | start hst hs hn =>
    rw [hs]
    exact Or.inl rfl
  | stop hst ho ha hl hn => exact Or.inr ⟨rfl, ho⟩

end LoopEffect

theorem Looping.idle (config : ServerConfig) :
    Looping I ((Executor.World.idle { config := config } : World).view (machine I).home) where
  balanced := by
    refine ⟨0, .idle _, ?_⟩
    show Balanced { config := config } 0
    exact ⟨nofun, fun _ _ => rfl, Nat.zero_le _⟩
  log := List.not_mem_nil
  wired := .idle _
  running _ := .idle _

/-- **The invariant is kept**, by the steps that keep accepting. -/
theorem Looping.step (h : Looping I v) (hs : Executor.View.Step (machine I) v l o g v')
    (hstart : o = some .start → v.shared.started = true ∨ v.shared.acceptorOpen = true)
    (hstop : o = some .stop → ∀ s, ∀ it ∈ v.items s, ∀ f, it.frame? = some f → rearms f = false)
    (habort : ∀ nd, o = some (.accepted (some .operationAborted) nd) →
      v.shared.started = false) : Looping I v' := by
  obtain ⟨n, n', hb, ht', he⟩ := h.effect hs habort
  refine ⟨⟨n', ht', he.balanced hb hstart⟩, he.log hb hstart h.log, wired_step h.wired hs, ?_⟩
  intro hc
  -- the acceptor was closed before, or `stop()` closes it now
  have hcl : v.shared.acceptorOpen = false ∨ o = some .stop := by
    rcases he.acceptorOpen with ha | ⟨ha, -⟩
    exacts [Or.inl (ha ▸ hc), Or.inr ha]
  have hrun : v.Everywhere (fun _ => True) fun it => ∀ f, it.frame? = some f →
      rearms f = false := hcl.elim h.running fun hst => ⟨fun _ _ _ => trivial, hstop hst⟩
  refine hrun.step hs (fun s f hf => ?_) (fun _ _ => trivial) (fun _ _ _ _ => trivial)
    (fun q f hd => hd) (fun _ _ _ _ => trivial) (fun q ho _ => rearms_items (I := I) ?_)
    (fun it f hf hit => rearms_items (I := I) ?_)
  · cases hf
  · by_cases hstart : q = .start
    · rw [hstart]
      rfl
    by_cases hstop : q = .stop
    · rw [hstop]
      exact stopLoop_weight _ _ _ _
    cases ha : isAccepted q with
    | false => exact (run_keeps hstart hstop ha v.shared).2
    | true =>
      have hclosed : v.shared.acceptorOpen = false :=
        hcl.resolve_right fun hs => hstop (Option.some.inj (ho.symm.trans hs))
      cases q with
      | accepted ec nd =>
        rcases onAccept_loop (I := I) ec nd v.shared with ⟨-, he⟩ | ⟨hst, -⟩
        · show (loopWeight I).tail (v.shared.onAccept ec nd).2 = 0
          rw [he]
          rfl
        · rw [(hb.1 hst).1] at hclosed
          cases hclosed
      | _ => cases ha
  · rcases resume_loop_frame (I := I) f v.shared with ⟨-, -, hw⟩ | ⟨hr, -⟩
    · exact hw
    · rw [hit f hf] at hr
      cases hr

/-! ## Runs -/

theorem sum_accepted (qs : List Closure) :
    (qs.map (loopWeight I).closure).sum = qs.countP isAccepted := by
  induction qs with
  | nil => rfl
  | cons q qs ih =>
    rw [List.map_cons, List.sum_cons, List.countP_cons, ih, Nat.add_comm]
    rfl

variable {w : World}

/-- The token is on the strand of the server. -/
theorem session_load (held : Executor.Held (machine I) w) {i : ℕ}
    (hw : ∀ it ∈ (w.view (machine I).home).items (.session i), Wired it) :
    (loopWeight I).load (w.view (machine I).home) (.session i) = 0 := by
  have hframe {f : ServerRest} (hf : (machine I).home f = .session i) :
      (loopWeight I).frame f = 0 := by
    cases f with
    | session => rfl
    | _ => cases hf
  refine Nat.add_eq_zero_iff.2 ⟨List.sum_eq_zero ?_, List.sum_eq_zero ?_⟩
  · intro n hn
    obtain ⟨q, hq, rfl⟩ := List.mem_map.1 hn
    have hs := held.queued (.session i) q hq
    cases q with
    | call | event => rfl
    | _ => cases hs
  · intro n hn
    obtain ⟨it, hit, rfl⟩ := List.mem_map.1 hn
    have hs := Executor.items_strand hit
    cases it with
    | resume f | user f => exact hframe hs
    | dispatch q f =>
      show (loopWeight I).closure q + (loopWeight I).frame f = 0
      rw [hframe hs]
      cases hw _ hit q f rfl <;> rfl
    | release => rfl

/-- The loop is well formed where the invariant holds. -/
theorem Looping.ok (held : Executor.Held (machine I) w)
    (h : Looping I (w.view (machine I).home)) : LoopOk w := by
  obtain ⟨n, ht, hb⟩ := h.balanced
  have hqueue := sum_accepted (I := I) (w.queue .server)
  refine ⟨h.log, ?_, fun hidle hst => ?_⟩
  · have hload : (w.queue .server).countP isAccepted ≤ n := by
      rw [← hqueue]
      exact (Nat.le_add_right _ _).trans (ht.load_le .server)
    have hsum : w.shared.accepts + n ≤ 1 := hb.2.2
    unfold outstanding
    omega
  · obtain ⟨ho, hsum⟩ := hb.1 hst
    refine ⟨ho, ?_⟩
    have hload : n = (w.queue .server).countP isAccepted := by
      rw [ht.single .server fun s hs => ?_, ← hqueue]
      · show _ + ((Executor.itemsOf _ w.holder w.stack .server).map _).sum = _
        rw [Executor.itemsOf_none _ hidle]
        rfl
      · cases s with
        | server => exact absurd rfl hs
        | session i => exact session_load held (h.wired.items _)
    rw [hload] at hsum
    exact hsum

/-- **The accept loop stays well formed**, in the runs whose steps keep accepting. -/
theorem accept_loop (h : RunsTo I (KeepsAccepting I) w) : LoopOk w := by
  obtain ⟨config, hr⟩ := h
  obtain ⟨held, hl⟩ := hr.inv
    (I := fun w => Executor.Held (machine I) w ∧ Looping I (w.view (machine I).home))
    ⟨.idle _, .idle config⟩ fun w₁ l w₂ h hok hs => by
      refine ⟨h.1.step machine_lawful hs, h.2.step (Executor.step_view machine_lawful h.1 hs)
        hok.start (fun hstop s it hit f hf => ?_) hok.abort⟩
      obtain ⟨t, ht⟩ := Executor.items_stack hit
      exact hok.stop hstop t f ⟨it, ht, hf⟩
  exact hl.ok held

/-- The step runs no `stop()`, no `start()` on a closed acceptor and no accept that was
    aborted. -/
def acceptsOn (w : World) (l : Label) : Bool :=
  match (machine inOrder).ran w l with
  | some .start => w.shared.acceptorOpen
  | some .stop | some (.accepted (some .operationAborted) _) => false
  | _ => true

theorem acceptsOn_ok (h : acceptsOn w l = true) : KeepsAccepting inOrder w l := by
  unfold acceptsOn at h
  constructor
  · intro hran
    rw [hran] at h
    exact Or.inr h
  · intro hran
    rw [hran] at h
    cases h
  · intro nd hran
    rw [hran] at h
    cases h

/-- A connection was accepted, and the next accept is outstanding. -/
theorem accept_loop_started : ∃ w : World, w.shared.sessions.length = 1 ∧
    w.shared.log.count (.accepting true) = 2 ∧ LoopOk w ∧ outstanding w = 1 := by
  obtain ⟨w, hw, hp⟩ := (Option.any_eq_true (fun w : World =>
      decide (w.holder .server = none ∧ w.shared.started = true ∧ w.shared.sessions.length = 1 ∧
        w.shared.log.count (.accepting true) = 2))
    (Transition.exec (Transition.guarded acceptsOn (machine inOrder).step)
      (Executor.World.idle {}) connect)).1 (by decide +kernel)
  obtain ⟨hfree, hstarted, hsessions, hlog⟩ := of_decide_eq_true hp
  have hok := accept_loop ⟨{}, (Transition.exec_run hw).of_guarded.mono fun _ _ => acceptsOn_ok⟩
  exact ⟨w, hsessions, hlog, hok, (hok.waiting hfree hstarted).2⟩

/-- `stop()` and `start()`: an accept is initiated on the acceptor that is closed. -/
theorem restart_accepts_closed : ¬ ∀ (I : Iteration) w, Reachable I w → LoopOk w := by
  intro h
  obtain ⟨w, hr, hw⟩ := exec_reachableBy (fun _ _ => true)
    [.post .start, .take 0 .server, .step 0, .post .stop, .take 0 .server, .step 0,
      .post .start, .take 0 .server]
    (fun w => decide (.accepting false ∈ w.shared.log)) (by decide +kernel)
  exact (h _ w hr.reachable).onOpen (of_decide_eq_true hw)

end TransitSession.WebSocket.Server
