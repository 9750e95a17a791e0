/-
  The invariant of the sessions of a server.

  Up to its insertion, nobody but `do_accept` has used a session (`Private`): the
  user was not handed it, and `stop()` does not find it in the set.  So the balance
  of the session is kept in every run (`Living.step`).
-/
import TransitSession.WebSocket.Lifecycle

namespace TransitSession.WebSocket.Server

variable {I : Iteration} {i j : ℕ} {s s' : Server}

/-! ## Sessions that were not handed over -/

/-- The closure does at most to session `i` what `do_accept` makes it do. -/
def InnerTo (i : ℕ) (q : Closure) : Prop := ∀ p, q.part? = some (i, p) → p.Inner

/-- So does what is left of it, which is not going to close the session either. -/
def InnerRest (i : ℕ) (f : ServerRest) : Prop :=
  (∀ p, f.part? = some (i, p) → p.Inner) ∧ ∀ e v r, f = .stopLoop e v r → i ∉ r

def InnerItem (i : ℕ) (it : Item) : Prop :=
  (∀ q f, it = .dispatch q f → InnerTo i q) ∧ ∀ f, it.frame? = some f → InnerRest i f

/-- Only `do_accept` has used the session. -/
structure Private (i : ℕ) (v : View) : Prop where
  handed : ¬ v.shared.HandedTo i
  active : i ∉ v.shared.activeSessions
  fresh : ∀ X, v.shared.sessions[i]? = some X → X.reads = [] ∧ X.writes = [] ∧
    ∀ h ∈ X.derived.own.handshakes, h = some .server
  closures : v.Everywhere (InnerTo i) (InnerItem i)

theorem callable_handed {x : Call (List UInt8) WebSocketServerSession.DerivedCall}
    (h : callable (.call i x) s = true) : s.HandedTo i := by
  unfold callable at h
  split at h
  · next he => cases he
  · next he => cases he
  · next he => cases he
  · cases h
  · cases h
  · next he =>
    cases he
    exact of_decide_eq_true h
  · cases h

theorem callable_inner {q : Closure} (hi : ¬ s.HandedTo i) (h : callable q s = true) :
    InnerTo i q := by
  intro p hp
  cases q with
  | call j x =>
    cases hp
    exact absurd (callable_handed h) hi
  | event => cases h
  | _ => cases hp

section
variable {v v' : View} {l : Label} {o : Option Closure} {g : Option ServerRest} {p : Part}

/-- The parts that run of a session that was not handed over. -/
theorem Private.inner (h : Private i v) (hs : Executor.View.Step (machine I) v l o g v')
    (hp : partOf o g = some (i, p)) : p.Inner := by
  have hclosure {q : Closure} (hp : partOf (some q) none = some (i, p)) (hq : InnerTo i q) :
      p.Inner := by
    rw [partOf_run] at hp
    exact hq p hp
  have hrest {f : ServerRest} (hp : partOf none (some f) = some (i, p)) (hf : InnerRest i f) :
      p.Inner := by
    rw [partOf_resume] at hp
    exact hf.1 p hp
  cases hs with
  | post | complete | later | callLater | release => cases hp
  | take t q rest hi hq =>
    exact hclosure hp (h.closures.queue _ q (by rw [hq]; exact List.mem_cons_self))
  | dispatch t q f st hi =>
    have hit := h.closures.items ((machine I).home f) (.dispatch q f)
      (by rw [hi]; exact List.mem_cons_self)
    exact hclosure hp (hit.1 q f rfl)
  | call t q f st hi hc => exact hclosure hp (callable_inner h.handed hc)
  | resume t f st hi =>
    have hit := h.closures.items ((machine I).home f) (.resume f)
      (by rw [hi]; exact List.mem_cons_self)
    exact hrest hp (hit.2 f rfl)
  | ret t f st hi =>
    have hit := h.closures.items ((machine I).home f) (.user f)
      (by rw [hi]; exact List.mem_cons_self)
    exact hrest hp (hit.2 f rfl)

/-! ### The closures that they leave -/

theorem inner_done : ∀ it ∈ ((.done : Tail).items : List Item), InnerItem i it := by
  intro it hit
  cases hit

theorem inner_user {f : ServerRest} (hf : InnerRest i f) :
    ∀ it ∈ ((.user f : Tail).items : List Item), InnerItem i it := by
  intro it hit
  rw [List.mem_singleton.1 hit]
  refine ⟨fun q f' he => ?_, fun f' hf' => ?_⟩
  · cases he
  · cases hf'
    exact hf

theorem inner_dispatch {q : Closure} {f : ServerRest} (hq : InnerTo i q) (hf : InnerRest i f) :
    ∀ it ∈ ((.dispatch q f : Tail).items : List Item), InnerItem i it := by
  intro it hit
  rw [List.mem_singleton.1 hit]
  refine ⟨fun q' f' he => ?_, fun f' hf' => ?_⟩
  · cases he
    exact hq
  · cases hf'
    exact hf

/-- What is left of a closure of the server other than the loop of `stop()`. -/
theorem innerRest_of {f : ServerRest} (hf : f.part? = none) (hl : ∀ e v r, f ≠ .stopLoop e v r) :
    InnerRest i f := by
  refine ⟨fun p hp => ?_, fun e v r he => absurd he (hl e v r)⟩
  rw [hf] at hp
  cases hp

theorem stopLoop_inner (entry visited : List ℕ) (s : Server) {rest : List ℕ} (hi : i ∉ rest) :
    ∀ it ∈ ((s.stopLoop entry visited rest).2.items : List Item), InnerItem i it := by
  cases rest with
  | nil => exact inner_done
  | cons j rest =>
    rw [List.mem_cons, not_or] at hi
    obtain ⟨hj, hr⟩ := hi
    refine inner_dispatch (fun p hp => ?_) ⟨nofun, fun e v r he => ?_⟩
    · cases hp
      exact absurd rfl hj
    · cases he
      exact hr

theorem notify_inner {ec : ErrorCode} {session : Option ℕ} {rest : ServerRest}
    {next : Server → Server} (hr : InnerRest i rest) :
    ∀ it ∈ ((s.notifySession ec session rest next).2.items : List Item), InnerItem i it := by
  unfold notifySession
  split_ifs
  · exact inner_user hr
  · exact inner_done

theorem onSession_inner (hp : j = i → p.Inner) :
    ∀ it ∈ ((s.onSession j p.run).2.items : List Item), InnerItem i it := by
  unfold onSession
  cases hX : s.sessions[j]? with
  | none => exact inner_done
  | some X =>
    show ∀ it ∈ ((sessionTail j (p.run X).2).items : List Item), InnerItem i it
    cases hf : (p.run X).2 with
    | none => exact inner_done
    | some f =>
      have hrest : InnerRest i (.session j f) := by
        refine ⟨fun p' hp' => ?_, nofun⟩
        cases hp'
        exact (hp rfl).frame hf
      unfold sessionTail
      dsimp only
      split
      · exact inner_dispatch nofun hrest
      · exact inner_dispatch nofun hrest
      · exact inner_dispatch nofun hrest
      · exact inner_user hrest

theorem run_inner {q : Closure} (ha : i ∉ s.activeSessions) (hq : InnerTo i q) :
    ∀ it ∈ (((machine I).run q s).2.items : List Item), InnerItem i it := by
  cases q with
  | setSessionHandler | start | erase => exact inner_done
  | stop =>
    refine stopLoop_inner _ _ _ ?_
    rw [(I.perm s.activeSessions).mem_iff]
    exact ha
  | accepted ec nd =>
    show ∀ it ∈ ((s.onAccept ec nd).2.items : List Item), InnerItem i it
    unfold onAccept
    split_ifs
    · exact inner_done
    · cases ec with
      | some e => exact notify_inner (innerRest_of rfl nofun)
      | none =>
        refine inner_dispatch (fun p hp => ?_) (innerRest_of rfl nofun)
        cases hp
        exact trivial
  | handOver j ec => exact notify_inner (innerRest_of rfl nofun)
  | call j x => exact onSession_inner (p := .call x) fun hj => hq _ (by rw [← hj]; rfl)
  | event j e => exact onSession_inner (p := .event e) fun hj => hq _ (by rw [← hj]; rfl)

theorem resume_inner {f : ServerRest} (hf : InnerRest i f) :
    ∀ it ∈ (((machine I).resume f s).2.items : List Item), InnerItem i it := by
  cases f with
  | stopLoop e v r => exact stopLoop_inner _ _ _ (hf.2 e v r rfl)
  | acceptStart j nd =>
    refine inner_dispatch (fun p hp => ?_) (innerRest_of rfl nofun)
    cases hp
    exact trivial
  | acceptNext | acceptFailed | handOverEnd => exact inner_done
  | session j f => exact onSession_inner (p := .resume f) fun hj => hf.1 _ (by rw [← hj]; rfl)

/-- The closures of a session that is not handed over stay its own. -/
theorem Private.closures_step (h : Private i v)
    (hs : Executor.View.Step (machine I) v l o g v') :
    v'.Everywhere (InnerTo i) (InnerItem i) := by
  have hresume {f : ServerRest} (hf : InnerRest i f) : InnerItem i (.resume f) := by
    refine ⟨fun q f' he => ?_, fun f' hf' => ?_⟩
    · cases he
    · cases hf'
      exact hf
  have hrel (s : StrandId) : InnerItem i (.release s) := by
    refine ⟨fun q f he => ?_, fun f hf => ?_⟩
    · cases he
    · cases hf
  refine h.closures.step hs hrel (fun q => callable_inner h.handed)
    (fun e s q hc => ?_) (fun q f hd => hresume (hd.2 f rfl))
    (fun q f hd _ => hd.1 q f rfl) (fun q _ hq => run_inner h.active ?_)
    (fun it f hf hit => resume_inner (hit.2 f hf))
  · rcases complete_cases hc with ⟨ec, nd, -, -, -, rfl⟩ | ⟨j, e', X, r, -, hX, hr, -, rfl⟩
    · intro p hp
      cases hp
    · intro p hp
      cases hp
      obtain ⟨hreads, hwrites, -⟩ := h.fresh X hX
      cases e' with
      | read k ec data => simp [SessionClass.event, hreads] at hr
      | write k ec => simp [SessionClass.event, hwrites] at hr
      | derived e' => exact trivial
  · rcases hq with hq | ⟨f, hq⟩
    · exact hq
    · exact hq.1 q f rfl

/-! ## The invariant -/

variable {t : Tokens}

/-- The invariant of session `i`, which has the tokens `t`. -/
structure Living (I : Iteration) (i : ℕ) (v : View) (t : Tokens) : Prop where
  tokens : t.Of I i v
  balance : Balance i v.shared t
  unseen : .inserted i ∉ v.shared.log → Private i v

theorem Living.idle (config : ServerConfig) :
    Living I i ((Executor.World.idle { config := config } : World).view (machine I).home)
      ⟨0, 0, 0⟩ where
  tokens := ⟨.idle _, .idle _, .idle _⟩
  balance := by
    refine ⟨rfl, Nat.zero_le _, ?_, ?_⟩
    · intro hm
      cases hm
    · refine iff_of_false (fun hm => ?_) (fun hm => ?_)
      · cases hm
      · cases hm.1
  unseen _ := by
    refine ⟨fun hm => ?_, fun hm => ?_, fun X hX => ?_, .idle _⟩
    · cases hm
    · cases hm
    · cases hX

/-- Before it is handed over, the session is as `do_accept` makes it. -/
theorem Private.step {t' : Tokens} (h : Private i v)
    (hs : Executor.View.Step (machine I) v l o g v')
    (he : LifeEffect i v.shared v'.shared t t' o g) (hi : .inserted i ∉ v'.shared.log) :
    Private i v' := by
  have hclosures := h.closures_step hs
  cases he with
  | other hsess hr ht hp =>
    refine ⟨fun hm => h.handed (hr.handed.1 hm), fun hm => h.active (hr.active.1 hm), ?_, hclosures⟩
    intro X hX
    rw [hsess] at hX
    exact h.fresh X hX
  | accepted config hnone hsess hr ht hp =>
    refine ⟨fun hm => h.handed (hr.handed.1 hm), fun hm => h.active (hr.active.1 hm), ?_, hclosures⟩
    intro X hX
    rw [hsess] at hX
    obtain rfl := Option.some.inj hX
    exact ⟨rfl, rfl, nofun⟩
  | turn p X hp hX hX' hr hstart hhand herase =>
    refine ⟨fun hm => h.handed (hr.handed.1 hm), fun hm => h.active (hr.active.1 hm), ?_, hclosures⟩
    intro Y hY
    rw [hX'] at hY
    obtain rfl := Option.some.inj hY
    obtain ⟨hreads, hwrites, hshakes⟩ := h.fresh X hX
    have hinner := h.inner hs hp
    obtain ⟨⟨d, hd⟩, -⟩ := hinner.members X
    refine ⟨?_, ?_, ((WebSocketServerSession.part_turn p X).inner hinner hshakes).1⟩
    · rw [hd]
      exact hreads
    · rw [hd]
      exact hwrites
  | erased ho hsh ht hp =>
    rw [hsh] at hi
    have hlog : (v.shared.erase i).log = v.shared.log ++ [.erased i] := rfl
    refine ⟨fun hm => h.handed ?_, fun hm => h.active ?_, ?_, hclosures⟩
    · rw [hsh] at hm
      simpa [HandedTo, hlog] using hm
    · rw [hsh] at hm
      exact List.mem_of_mem_erase hm
    · intro X hX
      rw [hsh] at hX
      exact h.fresh X hX
  | handed ho hsh ht hp =>
    rw [hsh] at hi
    exact absurd (handOver_inserts h.active).2.1 hi

/-- **The invariant is kept.** -/
theorem Living.step (h : Living I i v t) (hn : v.shared.activeSessions.Nodup)
    (hs : Executor.View.Step (machine I) v l o g v') :
    ∃ t', Living I i v' t' ∧ LifeEffect i v.shared v'.shared t t' o g := by
  have hnone : v.shared.sessions[i]? = none → t.start = 0 := by
    intro hX
    have htoken := h.balance.token
    rw [stage_none hX] at htoken
    omega
  obtain ⟨t', ht', he⟩ := life_effect h.tokens hnone (Executor.Weight.step_effect hs)
  refine ⟨t', ⟨ht', h.balance.step he hn fun hi p X hp hX => ?_, fun hi => ?_⟩, he⟩
  · exact ⟨(h.unseen hi).inner hs hp, ((h.unseen hi).fresh X hX).2.2⟩
  · exact (h.unseen fun hm => hi (he.inserted hm)).step hs he hi

end

end TransitSession.WebSocket.Server
