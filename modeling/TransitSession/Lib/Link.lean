/-
  Two parties joined by a reliable channel in each direction.

  A `Party` is a transition system that hands values to a channel and takes values
  from one.  A `Net` is a pair of them with what is in flight; a step is one of either
  party, and one that takes values takes them from the front of its channel.

  * `conserved`: what one party has handed over is what the other one has taken,
    followed by what is in flight;
  * `run_left`, `run_right`: a run of the two is a run of each;
  * `everything_arrives`: in the end, if the parties go on taking;
  * `run_map`, `behaviour_map`: a pair of which each runs as another party does;
  * `wire`: the party that hands back what it takes.
-/
import TransitSession.Lib.Behaviour
import Mathlib.Data.List.Infix

namespace Link

variable {C₁ C₂ L₁ L₂ M : Type}

/-- A transition system at the ends of two channels. -/
structure Party (C L M : Type) where
  next : C → L → Option C
  /-- what a step takes from the channel -/
  takes : L → List M
  /-- what has been taken so far -/
  taken : C → List M
  /-- what has been handed over so far -/
  sent : C → List M
  taken_next : ∀ {c l c'}, next c l = some c' → taken c' = taken c ++ takes l
  sent_next : ∀ {c l c'}, next c l = some c' → sent c <+: sent c'

/-- The parties, and what is in flight between them, oldest first. -/
structure Net (C₁ C₂ M : Type) where
  left : C₁
  right : C₂
  toRight : List M
  toLeft : List M

/-- Two parties that have not exchanged anything. -/
def Net.start (a : C₁) (b : C₂) : Net C₁ C₂ M := ⟨a, b, [], []⟩

/-- The values `xs` leave the channel, if they are at its front. -/
def take [DecidableEq M] (xs channel : List M) : Option (List M) :=
  if xs <+: channel then some (channel.drop xs.length) else none

theorem take_eq [DecidableEq M] {xs channel rest : List M} (h : take xs channel = some rest) :
    channel = xs ++ rest := by
  simp only [take, Option.ite_none_right_eq_some, Option.some.injEq] at h
  obtain ⟨⟨ys, rfl⟩, rfl⟩ := h
  rw [List.drop_left]

theorem take_append [DecidableEq M] (xs rest : List M) : take xs (xs ++ rest) = some rest := by
  simp [take]

/-- What a party hands over on the way from `c` to `c'`. -/
def Party.puts {C L : Type} (P : Party C L M) (c c' : C) : List M :=
  (P.sent c').drop (P.sent c).length

theorem Party.sent_puts {C L : Type} (P : Party C L M) {c c' : C} {l : L}
    (h : P.next c l = some c') : P.sent c' = P.sent c ++ P.puts c c' := by
  obtain ⟨ys, hys⟩ := P.sent_next h
  rw [puts, ← hys, List.drop_left]

theorem Party.puts_eq_nil {C L : Type} (P : Party C L M) {c c' : C} (h : P.sent c' = P.sent c) :
    P.puts c c' = [] := by
  rw [puts, h, List.drop_length]

variable [DecidableEq M] (A : Party C₁ L₁ M) (B : Party C₂ L₂ M)

/-- One step of either party. -/
def step (n : Net C₁ C₂ M) : L₁ ⊕ L₂ → Option (Net C₁ C₂ M)
  | .inl l => (A.next n.left l).bind fun a => (take (A.takes l) n.toLeft).map fun rest =>
      { n with left := a, toLeft := rest, toRight := n.toRight ++ A.puts n.left a }
  | .inr l => (B.next n.right l).bind fun b => (take (B.takes l) n.toRight).map fun rest =>
      { n with right := b, toRight := rest, toLeft := n.toLeft ++ B.puts n.right b }

variable {A B} {n n' : Net C₁ C₂ M} {ok : Net C₁ C₂ M → L₁ ⊕ L₂ → Prop}

theorem step_left {l : L₁} (h : step A B n (.inl l) = some n') :
    ∃ a rest, A.next n.left l = some a ∧ n.toLeft = A.takes l ++ rest ∧
      n' = { n with left := a, toLeft := rest, toRight := n.toRight ++ A.puts n.left a } := by
  obtain ⟨a, ha, h⟩ := Option.bind_eq_some_iff.1 h
  obtain ⟨rest, hr, he⟩ := Option.map_eq_some_iff.1 h
  exact ⟨a, rest, ha, take_eq hr, he.symm⟩

theorem step_right {l : L₂} (h : step A B n (.inr l) = some n') :
    ∃ b rest, B.next n.right l = some b ∧ n.toRight = B.takes l ++ rest ∧
      n' = { n with right := b, toRight := rest, toLeft := n.toLeft ++ B.puts n.right b } := by
  obtain ⟨b, hb, h⟩ := Option.bind_eq_some_iff.1 h
  obtain ⟨rest, hr, he⟩ := Option.map_eq_some_iff.1 h
  exact ⟨b, rest, hb, take_eq hr, he.symm⟩

/-- A step of the party on the right. -/
theorem step_right_of {l : L₂} {b : C₂} {rest : List M} (hb : B.next n.right l = some b)
    (hr : n.toRight = B.takes l ++ rest) : step A B n (.inr l) =
      some { n with right := b, toRight := rest, toLeft := n.toLeft ++ B.puts n.right b } := by
  simp only [step, hb, Option.bind_some, hr, take_append, Option.map_some]

/-! ## The other way round -/

/-- The same two parties, seen from the other side. -/
def Net.swap (n : Net C₁ C₂ M) : Net C₂ C₁ M := ⟨n.right, n.left, n.toLeft, n.toRight⟩

theorem step_swap {l : L₁ ⊕ L₂} (h : step A B n l = some n') :
    step B A n.swap l.swap = some n'.swap := by
  cases l with
  | inl l =>
    obtain ⟨a, rest, ha, hr, rfl⟩ := step_left h
    exact step_right_of (A := B) (n := n.swap) ha hr
  | inr l =>
    obtain ⟨b, rest, hb, hr, rfl⟩ := step_right h
    show ((B.next n.right l).bind fun b => (take (B.takes l) n.toRight).map fun rest => _) = _
    rw [hb, hr, Option.bind_some, take_append]
    rfl

theorem run_swap {ok' : Net C₂ C₁ M → L₂ ⊕ L₁ → Prop}
    (hok : ∀ n l, ok n l → ok' n.swap l.swap) (h : Transition.Run (step A B) ok n n') :
    Transition.Run (step B A) ok' n.swap n'.swap := by
  induction h with
  | refl => exact .refl
  | step _ hl hs ih => exact ih.step (hok _ _ hl) (step_swap hs)

/-- What was handed over on either side arrived on the other or is in flight. -/
structure Conserved (A : Party C₁ L₁ M) (B : Party C₂ L₂ M) (n : Net C₁ C₂ M) : Prop where
  toRight : A.sent n.left = B.taken n.right ++ n.toRight
  toLeft : B.sent n.right = A.taken n.left ++ n.toLeft

theorem Conserved.step {l : L₁ ⊕ L₂} (h : Conserved A B n) (hs : step A B n l = some n') :
    Conserved A B n' := by
  cases l with
  | inl l =>
    obtain ⟨a, rest, ha, hrest, rfl⟩ := step_left hs
    refine ⟨?_, ?_⟩
    · rw [A.sent_puts ha, h.toRight, List.append_assoc]
    · show B.sent n.right = A.taken a ++ rest
      rw [A.taken_next ha, List.append_assoc, ← hrest, h.toLeft]
  | inr l =>
    obtain ⟨b, rest, hb, hrest, rfl⟩ := step_right hs
    refine ⟨?_, ?_⟩
    · show A.sent n.left = B.taken b ++ rest
      rw [B.taken_next hb, List.append_assoc, ← hrest, h.toRight]
    · rw [B.sent_puts hb, h.toLeft, List.append_assoc]

/-- **Nothing is lost, duplicated or overtaken between the parties.** -/
theorem conserved (h : Transition.Run (step A B) ok n n') (h₀ : Conserved A B n) :
    Conserved A B n' :=
  h.inv h₀ fun _ _ _ h _ hs => h.step hs

/-- A run of the two is a run of the one on the left. -/
theorem run_left {okA : C₁ → L₁ → Prop} (hok : ∀ n l, ok n (.inl l) → okA n.left l)
    (h : Transition.Run (step A B) ok n n') : Transition.Run A.next okA n.left n'.left := by
  induction h with
  | refl => exact .refl
  | @step n₁ n₂ l _ hl hs ih =>
    cases l with
    | inl l =>
      obtain ⟨a, rest, ha, -, rfl⟩ := step_left hs
      exact ih.step (hok _ l hl) ha
    | inr l =>
      obtain ⟨b, rest, -, -, rfl⟩ := step_right hs
      exact ih

theorem run_right {okB : C₂ → L₂ → Prop} (hok : ∀ n l, ok n (.inr l) → okB n.right l)
    (h : Transition.Run (step A B) ok n n') : Transition.Run B.next okB n.right n'.right := by
  induction h with
  | refl => exact .refl
  | @step n₁ n₂ l _ hl hs ih =>
    cases l with
    | inl l =>
      obtain ⟨a, rest, -, -, rfl⟩ := step_left hs
      exact ih
    | inr l =>
      obtain ⟨b, rest, hb, -, rfl⟩ := step_right hs
      exact ih.step (hok _ l hl) hb

/-! ## Behaviours -/

/-- The party on the left has a behaviour of its own. -/
theorem behaviour_left {tr : ℕ → Net C₁ C₂ M} {okA : C₁ → L₁ → Prop}
    (hok : ∀ n l, ok n (.inl l) → okA n.left l) (h : Transition.Behaviour (step A B) ok tr) :
    Transition.Behaviour A.next okA fun t => (tr t).left := by
  intro t
  dsimp only
  rcases h t with he | ⟨l | l, hl, hs⟩
  · exact Or.inl (congrArg Net.left he)
  · obtain ⟨a, rest, ha, -, he⟩ := step_left hs
    rw [he]
    exact Or.inr ⟨l, hok _ l hl, ha⟩
  · obtain ⟨b, rest, -, -, he⟩ := step_right hs
    rw [he]
    exact Or.inl rfl

theorem behaviour_swap {tr : ℕ → Net C₁ C₂ M} {ok' : Net C₂ C₁ M → L₂ ⊕ L₁ → Prop}
    (hok : ∀ n l, ok n l → ok' n.swap l.swap) (h : Transition.Behaviour (step A B) ok tr) :
    Transition.Behaviour (step B A) ok' fun t => (tr t).swap := by
  intro t
  rcases h t with he | ⟨l, hl, hs⟩
  · exact Or.inl (congrArg Net.swap he)
  · exact Or.inr ⟨l.swap, hok _ l hl, step_swap hs⟩

/-- What the party on the left hands over grows. -/
theorem sent_grows (h : Transition.Run (step A B) ok n n') : A.sent n.left <+: A.sent n'.left := by
  have hrun : Transition.Run A.next (fun _ _ => True) n.left n'.left :=
    run_left (fun _ _ _ => trivial) h
  exact hrun.inv (I := fun c => A.sent n.left <+: A.sent c) List.prefix_rfl
    fun _ _ _ hc _ hs => hc.trans (A.sent_next hs)

/-- What the party on the right takes grows. -/
theorem taken_grows (h : Transition.Run (step A B) ok n n') :
    B.taken n.right <+: B.taken n'.right := by
  have hrun : Transition.Run B.next (fun _ _ => True) n.right n'.right :=
    run_right (fun _ _ _ => trivial) h
  exact hrun.inv (I := fun c => B.taken n.right <+: B.taken c) List.prefix_rfl
    fun _ _ _ hc _ hs => hc.trans ⟨_, (B.taken_next hs).symm⟩

/-- **Everything arrives**, if again and again the party on the right takes something later
    on should anything be in flight. -/
theorem everything_arrives {tr : ℕ → Net C₁ C₂ M} (h : Transition.Behaviour (step A B) ok tr)
    (hc : ∀ t, Conserved A B (tr t))
    (htakes : ∀ t, ∃ t₁ ≥ t, (tr t₁).toRight ≠ [] →
      ∃ t' ≥ t₁, (B.taken (tr t₁).right).length < (B.taken (tr t').right).length) (t : ℕ) :
    ∃ t' ≥ t, A.sent (tr t).left <+: B.taken (tr t').right := by
  have hsent {t t' : ℕ} (ht : t ≤ t') := sent_grows (h.run ht)
  have htaken {t t' : ℕ} (ht : t ≤ t') := taken_grows (h.run ht)
  obtain ⟨t', ht', hle⟩ : ∃ t' ≥ t,
      (A.sent (tr t).left).length ≤ (B.taken (tr t').right).length := by
    refine Transition.rises fun t₀ ht₀ hlt => ?_
    obtain ⟨t₁, ht₁, hflight⟩ := htakes t₀
    rcases List.eq_nil_or_concat (tr t₁).toRight with hnil | ⟨ms, m, hms⟩
    · have hall := (hc t₁).toRight
      rw [hnil, List.append_nil] at hall
      refine ⟨t₁, ht₁, hlt.trans_le ?_⟩
      rw [← hall]
      exact (hsent (ht₀.trans ht₁)).length_le
    · obtain ⟨t₂, ht₂, hrose⟩ := hflight (by simp [hms])
      exact ⟨t₂, ht₁.trans ht₂, (htaken ht₁).length_le.trans_lt hrose⟩
  refine ⟨t', ht', List.prefix_of_prefix_length_le (hsent ht') ?_ hle⟩
  rw [(hc t').toRight]
  exact List.prefix_append _ _

/-! ## Parties seen through a map -/

section
variable {C₁' C₂' L₁' L₂' : Type}

/-- Through `f`, the party `A` runs as `A'` does; `g` names the steps. -/
structure Party.RunsAs {C C' L L' : Type} (A : Party C L M) (A' : Party C' L' M) (f : C → C')
    (g : C → L → L') : Prop where
  next : ∀ {c l c'}, A.next c l = some c' → A'.next (f c) (g c l) = some (f c')
  takes : ∀ c l, A'.takes (g c l) = A.takes l
  sent : ∀ c, A'.sent (f c) = A.sent c

omit [DecidableEq M] in
theorem Party.RunsAs.refl {C L : Type} (A : Party C L M) : A.RunsAs A id fun _ l => l :=
  ⟨id, fun _ _ => rfl, fun _ => rfl⟩

omit [DecidableEq M] in
theorem Party.RunsAs.puts {C C' L L' : Type} {A : Party C L M} {A' : Party C' L' M} {f : C → C'}
    {g : C → L → L'} (h : A.RunsAs A' f g) (c c' : C) : A'.puts (f c) (f c') = A.puts c c' := by
  rw [Party.puts, Party.puts, h.sent, h.sent]

def Net.map (f₁ : C₁ → C₁') (f₂ : C₂ → C₂') (n : Net C₁ C₂ M) : Net C₁' C₂' M :=
  ⟨f₁ n.left, f₂ n.right, n.toRight, n.toLeft⟩

/-- The names of the steps of a pair. -/
def relabel (g₁ : C₁ → L₁ → L₁') (g₂ : C₂ → L₂ → L₂') (n : Net C₁ C₂ M) :
    L₁ ⊕ L₂ → L₁' ⊕ L₂'
  | .inl l => .inl (g₁ n.left l)
  | .inr l => .inr (g₂ n.right l)

variable {A' : Party C₁' L₁' M} {B' : Party C₂' L₂' M} {f₁ : C₁ → C₁'} {f₂ : C₂ → C₂'}
  {g₁ : C₁ → L₁ → L₁'} {g₂ : C₂ → L₂ → L₂'} (hA : A.RunsAs A' f₁ g₁) (hB : B.RunsAs B' f₂ g₂)
include hA hB

theorem step_map {l : L₁ ⊕ L₂} (h : step A B n l = some n') :
    step A' B' (n.map f₁ f₂) (relabel g₁ g₂ n l) = some (n'.map f₁ f₂) := by
  cases l with
  | inl l =>
    obtain ⟨a, rest, ha, hr, rfl⟩ := step_left h
    simp only [step, relabel, Net.map, hA.next ha, hA.takes, hA.puts, Option.bind_some, hr,
      take_append, Option.map_some]
  | inr l =>
    obtain ⟨b, rest, hb, hr, rfl⟩ := step_right h
    simp only [step, relabel, Net.map, hB.next hb, hB.takes, hB.puts, Option.bind_some, hr,
      take_append, Option.map_some]

variable {ok' : Net C₁' C₂' M → L₁' ⊕ L₂' → Prop}

theorem run_map (hok : ∀ n₁ l n₂, Transition.Run (step A B) ok n n₁ → ok n₁ l →
      step A B n₁ l = some n₂ → ok' (n₁.map f₁ f₂) (relabel g₁ g₂ n₁ l))
    (h : Transition.Run (step A B) ok n n') :
    Transition.Run (step A' B') ok' (n.map f₁ f₂) (n'.map f₁ f₂) := by
  induction h with
  | refl => exact .refl
  | step hr hl hs ih => exact ih.step (hok _ _ _ hr hl hs) (step_map hA hB hs)

theorem behaviour_map {tr : ℕ → Net C₁ C₂ M} (hok : ∀ t l n, ok (tr t) l →
      step A B (tr t) l = some n → ok' ((tr t).map f₁ f₂) (relabel g₁ g₂ (tr t) l))
    (h : Transition.Behaviour (step A B) ok tr) :
    Transition.Behaviour (step A' B') ok' fun t => (tr t).map f₁ f₂ := by
  intro t
  rcases h t with he | ⟨l, hl, hs⟩
  · exact Or.inl (congrArg (Net.map f₁ f₂) he)
  · exact Or.inr ⟨_, hok t l _ hl hs, step_map hA hB hs⟩

end

/-! ## Loops -/

/-- A wire, which hands over what it takes. -/
def wire (M : Type) : Party (List M) M M where
  next c m := some (c ++ [m])
  takes m := [m]
  taken := id
  sent := id
  taken_next h := (Option.some.inj h).symm
  sent_next h := ⟨_, Option.some.inj h⟩

omit [DecidableEq M] in
/-- **On a loop a party takes what it has handed over itself.** -/
theorem Conserved.looped {n : Net C₁ (List M) M} (h : Conserved A (wire M) n) :
    A.sent n.left = A.taken n.left ++ (n.toLeft ++ n.toRight) := by
  have hback : n.right = A.taken n.left ++ n.toLeft := h.toLeft
  rw [h.toRight, ← List.append_assoc, ← hback]
  rfl

/-- **Everything comes back on a loop**, if the wire carries what it is given and the party
    takes what comes back. -/
theorem everything_returns {tr : ℕ → Net C₁ (List M) M}
    {ok : Net C₁ (List M) M → L₁ ⊕ M → Prop}
    (h : Transition.Behaviour (step A (wire M)) ok tr) (hc : ∀ t, Conserved A (wire M) (tr t))
    (hcarries : ∀ t, (tr t).toRight ≠ [] →
      ∃ t' ≥ t, ∃ m, step A (wire M) (tr t') (.inr m) = some (tr (t' + 1)))
    (htakes : ∀ t, ∃ t₁ ≥ t, (tr t₁).toLeft ≠ [] →
      ∃ t' ≥ t₁, (A.taken (tr t₁).left).length < (A.taken (tr t').left).length) (t : ℕ) :
    ∃ t' ≥ t, A.sent (tr t).left <+: A.taken (tr t').left := by
  have hwire (t₀ : ℕ) (hflight : (tr t₀).toRight ≠ []) : ∃ t' ≥ t₀,
      ((wire M).taken (tr t₀).right).length < ((wire M).taken (tr t').right).length := by
    obtain ⟨t', ht', m, hs⟩ := hcarries t₀ hflight
    obtain ⟨b, rest, hb, -, he⟩ := step_right hs
    have hle := (taken_grows (h.run ht')).length_le
    refine ⟨t' + 1, by omega, ?_⟩
    rw [he, (wire M).taken_next hb, List.length_append]
    exact Nat.lt_of_le_of_lt hle (Nat.lt_succ_self _)
  obtain ⟨t₁, ht₁, hcarried⟩ :=
    everything_arrives h hc (fun t₀ => ⟨t₀, Nat.le_refl t₀, hwire t₀⟩) t
  have hswap : Transition.Behaviour (step (wire M) A) (fun _ _ => True) fun t => (tr t).swap :=
    behaviour_swap (fun _ _ _ => trivial) h
  obtain ⟨t', ht', hback⟩ := everything_arrives hswap
    (fun t => ⟨(hc t).toLeft, (hc t).toRight⟩) htakes t₁
  exact ⟨t', ht₁.trans ht', hcarried.trans hback⟩

end Link
