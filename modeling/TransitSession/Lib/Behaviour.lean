/-
  Behaviours: the states of a transition system, time after time.

  From one time to the next there is a step, or nothing happens; so a part of a system
  has a behaviour while the other parts take their steps.

  * `Behaviour.run`: between two times there is a run;
  * `Behaviour.map`: a behaviour as one of another system;
  * `behaviour_settled`: the behaviour of a run that ends;
  * `rises`: a measure that rises again and again below a bound reaches it.
-/
import TransitSession.Lib.Transition
import Mathlib.Data.List.Chain
import Mathlib.Data.List.GetD

namespace Transition

variable {C L : Type} {next : C → L → Option C} {ok : C → L → Prop} {tr : ℕ → C}

/-- The states of an execution whose steps all meet `ok`. -/
def Behaviour (next : C → L → Option C) (ok : C → L → Prop) (tr : ℕ → C) : Prop :=
  ∀ t, tr (t + 1) = tr t ∨ ∃ l, ok (tr t) l ∧ next (tr t) l = some (tr (t + 1))

theorem Behaviour.mono {ok' : C → L → Prop} (h : Behaviour next ok tr)
    (hok : ∀ c l, ok c l → ok' c l) : Behaviour next ok' tr :=
  fun t => (h t).imp_right fun ⟨l, hl, hs⟩ => ⟨l, hok _ l hl, hs⟩

/-- A behaviour whose steps are each one of another system, or none. -/
theorem Behaviour.map {D L' : Type} {next' : D → L' → Option D} {ok' : D → L' → Prop} {f : C → D}
    (hf : ∀ c l c', ok c l → next c l = some c' →
      f c' = f c ∨ ∃ l', ok' (f c) l' ∧ next' (f c) l' = some (f c'))
    (h : Behaviour next ok tr) : Behaviour next' ok' fun t => f (tr t) := by
  intro t
  rcases h t with he | ⟨l, hl, hs⟩
  · exact Or.inl (congrArg f he)
  · exact hf _ l _ hl hs

theorem Behaviour.run (h : Behaviour next ok tr) {t t' : ℕ} (ht : t ≤ t') :
    Run next ok (tr t) (tr t') := by
  induction ht with
  | refl => exact .refl
  | @step t' _ ih =>
    rcases h t' with he | ⟨l, hl, hs⟩
    · rw [he]
      exact ih
    · exact ih.step hl hs

/-! ## Executions that end -/

/-- The states `cs`, and `c` ever after. -/
def settled (cs : List C) (c : C) (t : ℕ) : C := cs.getD t c

theorem settled_mem {cs : List C} {c : C} {i t : ℕ} (h : i ≤ t) :
    settled cs c t ∈ cs.drop i ++ [c] := by
  unfold settled
  rcases Nat.lt_or_ge t cs.length with hlt | hge
  · rw [List.getD_eq_getElem _ _ hlt]
    refine List.mem_append_left _ (List.mem_drop_iff_getElem.2 ⟨t - i, by omega, ?_⟩)
    congr 1
    omega
  · rw [List.getD_eq_default _ _ hge]
    exact List.mem_append_right _ (List.mem_singleton_self c)

theorem settled_get {cs : List C} {c : C} {t : ℕ} (h : t < (cs ++ [c]).length) :
    settled cs c t = (cs ++ [c])[t] := by
  rw [List.length_append, List.length_singleton] at h
  unfold settled
  rcases Nat.lt_or_ge t cs.length with hlt | hge
  · rw [List.getD_eq_getElem _ _ hlt, List.getElem_append_left hlt]
  · rw [List.getD_eq_default _ _ hge, List.getElem_append_right hge, List.getElem_singleton]

/-- A run along `cs` to `c`, which lasts. -/
theorem behaviour_settled {cs : List C} {c : C}
    (h : (cs ++ [c]).IsChain fun a b => ∃ l, ok a l ∧ next a l = some b) :
    Behaviour next ok (settled cs c) := by
  intro t
  rcases Nat.lt_or_ge t cs.length with hlt | hge
  · right
    have hlt' : t + 1 < (cs ++ [c]).length := by
      rw [List.length_append, List.length_singleton]
      omega
    rw [settled_get (Nat.lt_of_succ_lt hlt'), settled_get hlt']
    exact List.isChain_iff_getElem.1 h t hlt'
  · left
    rw [settled, settled, List.getD_eq_default _ _ hge, List.getD_eq_default _ _ (by omega)]

/-! ## Measures -/

/-- A measure that rises again and again while it is below `N` reaches `N`. -/
theorem rises {μ : ℕ → ℕ} {N t₀ : ℕ} (h : ∀ t ≥ t₀, μ t < N → ∃ t' ≥ t, μ t < μ t') :
    ∃ t ≥ t₀, N ≤ μ t := by
  suffices hall : ∀ t ≥ t₀, ∃ t' ≥ t, N ≤ μ t' from hall t₀ (Nat.le_refl t₀)
  intro t ht
  induction hd : N - μ t using Nat.strongRecOn generalizing t with
  | _ d ih =>
    rcases Nat.lt_or_ge (μ t) N with hlt | hge
    · obtain ⟨t₁, ht₁, hμ⟩ := h t ht hlt
      obtain ⟨t', ht', hN⟩ := ih (N - μ t₁) (by omega) t₁ (Nat.le_trans ht ht₁) rfl
      exact ⟨t', Nat.le_trans ht₁ ht', hN⟩
    · exact ⟨t, Nat.le_refl t, hge⟩

end Transition
