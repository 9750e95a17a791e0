/-
  The outbox: what a sender with one write in flight is for.

  Messages are accepted, written one at a time and in order, and the write of a
  message starts only after the write before it has finished; a failed write or
  a shutdown ends the sending.  `Box` is the state of such a sender, with its
  bounds as fields, and `Runs tr b` says that the operations `tr` lead from the
  empty outbox to `b`.

  * `Runs.starts`: the writes started are the first `b.started` accepted
    messages, in order (so they are a prefix, and none is started twice);
  * `Runs.finish_before_start`: a write starts after the one before it finished.
-/
import Mathlib.Data.List.Basic
import Mathlib.Data.List.Nodup
import Mathlib.Data.List.Infix
import Mathlib.Data.List.Range

namespace Outbox

variable {M : Type}

/-- The operations of a sender; `k` is the position of a message in the order
    of acceptance. -/
inductive Op (M : Type) where
  | accept (k : ℕ) (m : M)
  | start (k : ℕ) (m : M)
  | finish (k : ℕ) (m : M)
  | fail (k : ℕ)
  | shut

/-- The state of a sender. -/
@[ext] structure Box (M : Type) where
  accepted : List M
  started : ℕ
  finished : ℕ
  /-- the write in flight has failed -/
  failed : Bool
  shut : Bool
  finished_le : finished ≤ started
  started_le : started ≤ finished + 1
  started_le_length : started ≤ accepted.length
  failed_shut : failed = true → shut = true

namespace Box

def empty : Box M := ⟨[], 0, 0, false, false, le_rfl, Nat.zero_le _, le_rfl, by simp⟩

def accept (b : Box M) (m : M) : Box M :=
  { b with
    accepted := b.accepted ++ [m]
    started_le_length := by
      have := b.started_le_length
      simp only [List.length_append, List.length_singleton]; omega }

def start (b : Box M) (h : b.started = b.finished) (hl : b.started < b.accepted.length) : Box M :=
  { b with
    started := b.started + 1
    finished_le := by omega
    started_le := by omega
    started_le_length := hl }

def finish (b : Box M) (h : b.finished < b.started) : Box M :=
  { b with
    finished := b.finished + 1
    finished_le := h
    started_le := by have := b.started_le; omega }

def fail (b : Box M) : Box M :=
  { b with failed := true, shut := true, failed_shut := fun _ => rfl }

def close (b : Box M) : Box M :=
  { b with shut := true, failed_shut := fun _ => rfl }

/-- The accepted messages with their positions. -/
def entries (b : Box M) : List (M × ℕ) := b.accepted.zipIdx

@[simp] theorem length_entries (b : Box M) : b.entries.length = b.accepted.length := by
  simp [entries]

/-- The messages whose write has not finished. -/
def waiting (b : Box M) : List (M × ℕ) := b.entries.drop b.finished

end Box

/-- The operations `tr` lead from the empty outbox to `b`. -/
inductive Runs : List (Op M) → Box M → Prop where
  | nil : Runs [] .empty
  | accept {tr b} (m : M) : Runs tr b → b.shut = false →
      Runs (tr ++ [.accept b.accepted.length m]) (b.accept m)
  | start {tr b m} (h : b.started = b.finished) (hl : b.started < b.accepted.length) :
      Runs tr b → b.shut = false → b.accepted[b.started] = m →
      Runs (tr ++ [.start b.started m]) (b.start h hl)
  | finish {tr b m} (h : b.finished < b.started) : Runs tr b → b.failed = false →
      b.accepted[b.finished]? = some m →
      Runs (tr ++ [.finish b.finished m]) (b.finish h)
  | fail {tr b} (h : b.finished < b.started) : Runs tr b → b.failed = false →
      Runs (tr ++ [.fail b.finished]) b.fail
  | shut {tr b} : Runs tr b → Runs (tr ++ [.shut]) b.close

/-! ## What was accepted, started and finished -/

def Op.accepted? : Op M → Option (M × ℕ)
  | .accept k m => some (m, k)
  | _ => none

def Op.started? : Op M → Option (M × ℕ)
  | .start k m => some (m, k)
  | _ => none

def Op.finished? : Op M → Option (M × ℕ)
  | .finish k m => some (m, k)
  | _ => none

/-- The messages accepted along a trace, with their positions. -/
def accepts (tr : List (Op M)) : List (M × ℕ) := tr.filterMap Op.accepted?

/-- The messages whose write was started along a trace, with their positions. -/
def starts (tr : List (Op M)) : List (M × ℕ) := tr.filterMap Op.started?

/-- The messages whose write finished along a trace, with their positions. -/
def finishes (tr : List (Op M)) : List (M × ℕ) := tr.filterMap Op.finished?

namespace Runs
variable {tr : List (Op M)} {b : Box M}

theorem accepts_eq (h : Runs tr b) : accepts tr = b.entries := by
  induction h with
  | nil => rfl
  | accept m _ _ ih =>
    simp only [accepts] at ih
    simp [accepts, Op.accepted?, ih, Box.entries, Box.accept, List.zipIdx_append]
  | start | finish | fail | shut =>
    simp_all [accepts, Op.accepted?, Box.entries, Box.start, Box.finish, Box.fail, Box.close]

/-- **The writes started are the first accepted messages, in order.** -/
theorem starts_eq (h : Runs tr b) : starts tr = b.entries.take b.started := by
  induction h with
  | nil => rfl
  | @accept tr b m _ _ ih =>
    have hl := b.started_le_length
    simp only [starts, List.filterMap_append, Box.entries, Box.accept] at ih ⊢
    rw [ih, List.zipIdx_append, List.take_append_of_le_length (by simpa using hl)]
    simp [Op.started?]
  | @start tr b m hf hl _ _ hm ih =>
    simp only [starts, List.filterMap_append, Box.entries, Box.start] at ih ⊢
    rw [ih, List.take_succ_eq_append_getElem (by simpa using hl)]
    simp [Op.started?, hm]
  | finish | fail | shut =>
    simp_all [starts, Op.started?, Box.entries, Box.finish, Box.fail, Box.close]

/-- The writes finished are the first accepted messages, in order. -/
theorem finishes_eq (h : Runs tr b) : finishes tr = b.entries.take b.finished := by
  induction h with
  | nil => rfl
  | @accept tr b m _ _ ih =>
    have hl := b.finished_le.trans b.started_le_length
    simp only [finishes, List.filterMap_append, Box.entries, Box.accept] at ih ⊢
    rw [ih, List.zipIdx_append, List.take_append_of_le_length (by simpa using hl)]
    simp [Op.finished?]
  | @finish tr b m hlt _ _ hm ih =>
    obtain ⟨hl, hm⟩ := List.getElem?_eq_some_iff.1 hm
    simp only [finishes, List.filterMap_append, Box.entries, Box.finish] at ih ⊢
    rw [ih, List.take_succ_eq_append_getElem (by simpa using hl)]
    simp [Op.finished?, hm]
  | start | fail | shut =>
    simp_all [finishes, Op.finished?, Box.entries, Box.start, Box.fail, Box.close]

theorem mem_finish (h : Runs tr b) {k : ℕ} (hk : k < b.finished) : ∃ m, Op.finish k m ∈ tr := by
  have hl : k < b.entries.length := by
    have := b.finished_le; have := b.started_le_length; simp; omega
  have hmem : b.entries[k] ∈ finishes tr := by
    rw [h.finishes_eq]; exact List.mem_take_iff_getElem.2 ⟨k, by omega, rfl⟩
  obtain ⟨op, hop, he⟩ := List.mem_filterMap.1 hmem
  cases op with
  | finish k' m =>
    simp only [Op.finished?, Option.some.injEq, Box.entries, List.getElem_zipIdx,
      Prod.mk.injEq] at he
    obtain ⟨-, rfl⟩ := he
    exact ⟨m, by simpa using hop⟩
  | accept | start | fail | shut => cases he

/-- The trace of a prefix is a trace. -/
theorem prefix_runs (h : Runs tr b) {pre : List (Op M)} (hp : pre <+: tr) : ∃ b', Runs pre b' := by
  induction h with
  | nil => exact ⟨_, by rw [List.prefix_nil.1 hp]; exact .nil⟩
  | accept m h hs ih =>
    rcases List.prefix_concat_iff.1 hp with rfl | hp
    exacts [⟨_, .accept m h hs⟩, ih hp]
  | start hf hl h hs hm ih =>
    rcases List.prefix_concat_iff.1 hp with rfl | hp
    exacts [⟨_, .start hf hl h hs hm⟩, ih hp]
  | finish hf h hs hm ih =>
    rcases List.prefix_concat_iff.1 hp with rfl | hp
    exacts [⟨_, .finish hf h hs hm⟩, ih hp]
  | fail hf h hs ih =>
    rcases List.prefix_concat_iff.1 hp with rfl | hp
    exacts [⟨_, .fail hf h hs⟩, ih hp]
  | shut h ih =>
    rcases List.prefix_concat_iff.1 hp with rfl | hp
    exacts [⟨_, .shut h⟩, ih hp]

/-- **A write starts after the one before it finished.** -/
theorem finish_before_start (h : Runs tr b) {pre post : List (Op M)} {k : ℕ} {m : M}
    (he : tr = pre ++ .start (k + 1) m :: post) : ∃ m', .finish k m' ∈ pre := by
  obtain ⟨b', h'⟩ := h.prefix_runs (⟨post, by simp [he]⟩ : pre ++ [.start (k + 1) m] <+: tr)
  generalize hq : pre ++ [Op.start (k + 1) m] = q at h'
  cases h' with
  | start hf _ h' _ _ =>
    obtain ⟨rfl, he⟩ := List.append_inj' hq rfl
    simp only [List.cons.injEq, Op.start.injEq] at he
    exact h'.mem_finish (by omega)
  | nil => simp at hq
  | accept | finish | fail | shut =>
    obtain ⟨-, he⟩ := List.append_inj' hq rfl
    cases he

end Runs

end Outbox
