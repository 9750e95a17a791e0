/-
  The timeout of the benchmarks.

  While a benchmark runs its session, `timeout_thread` looks at `completed` again and
  again.  It ends when that is set; when the time is over before, it says so, sets `failed`
  and `completed` itself and closes the session.  `main` sets `completed` when `run()` has
  returned, be it that nothing was left to do.  Nothing resets the two variables, so what is
  read is what any of the three has set (`Program.failed`, `Program.completed`).  The clock is
  not modelled: at any look the time may be over.  Nor is `stop()` of the `io_context`, which
  is called when `completed` has been set: more may run here after it.

  * `Program.step`: a step of the session, of the other end of its connection, of the
    thread or of `main`;
  * `Running.net`, `Executing.net`: the session and the other end run as they do without
    the thread, which calls `close()` at most once;
  * `Running.ends`: if a benchmark has completed while `main` is in `run()`, its read handler
    has completed it, or the time was over;
  * `Executing.inRun`: `main` is in `run()` as long as there is something left to do.
-/
import TransitSession.Example.SerialBenchmark

namespace TransitSession.Benchmark

/-- Where `timeout_thread` stands. -/
inductive TimeoutThread where
  /-- in its loop -/
  | waiting
  /-- it found `completed` set, and ended -/
  | left
  /-- it found `completed` not set and the time over -/
  | expired
  /-- it has set `failed` -/
  | failed
  /-- it has set `completed` -/
  | completed
  /-- it has posted `close()`, and ended -/
  | posted
  /-- its `close()` has run -/
  | closed
deriving DecidableEq

namespace TimeoutThread

def setsFailed : TimeoutThread → Bool
  | .failed | .completed | .posted | .closed => true
  | _ => false

def setsCompleted : TimeoutThread → Bool
  | .completed | .posted | .closed => true
  | _ => false

theorem failed_of_completed {d : TimeoutThread} (h : d.setsCompleted = true) :
    d.setsFailed = true := by
  cases d <;> first | rfl | cases h

end TimeoutThread

/-- The variables of a benchmark, with those that all benchmarks have. -/
class Variables (U : Type) where
  progress : U → Progress

instance : Variables Progress := ⟨fun u => u⟩

instance : Variables SerialProgress := ⟨SerialProgress.progress⟩

/-- A benchmark, the other end of its connection, and its `timeout_thread`. -/
structure Program (k : Kind) (U C₂ M' : Type) where
  net : Link.Net (App.Config k U) C₂ M'
  thread : TimeoutThread := .waiting
  /-- what the thread has said on `std::cerr` -/
  complaint : Option Complaint := none
  /-- `run()` has returned, and `main` has set `completed` -/
  returned : Bool := false

namespace Program
variable {k : Kind} {U C₂ L₂ M' : Type} [Variables U]

/-- The variables that the read handler has set. -/
def progress (p : Program k U C₂ M') : Progress := Variables.progress p.net.left.own

/-- `failed.load()` -/
def failed (p : Program k U C₂ M') : Bool := p.progress.failed || p.thread.setsFailed

/-- `completed.load()` -/
def completed (p : Program k U C₂ M') : Bool :=
  p.progress.completed || p.thread.setsCompleted || p.returned

/-- No user code runs, and no operation is outstanding. -/
def outOfWork (p : Program k U C₂ M') : Bool :=
  p.net.left.stack.isEmpty && p.net.left.state.reads.isEmpty && p.net.left.state.writes.isEmpty

inductive Label (k : Kind) (L₂ : Type) where
  /-- a step of the session or of the other end -/
  | net (l : App.Label k ⊕ L₂)
  /-- a step of `timeout_thread`; that it sleeps is none -/
  | thread
  /-- the `close()` that it has posted -/
  | close
  /-- `run()` returns, as nothing is left to do, and `main` sets `completed`; if that is set
      already, this changes nothing -/
  | runReturns

variable [DecidableEq M']

def step (A : Link.Party (App.Config k U) (App.Label k) M') (E : Link.Party C₂ L₂ M')
    (p : Program k U C₂ M') : Label k L₂ → Option (Program k U C₂ M')
  | .net l => (Link.step A E p.net l).map fun n => { p with net := n }
  | .thread =>
    match p.thread with
    | .waiting => some { p with thread := if p.completed then .left else .expired }
    | .expired => some { p with
        thread := .failed
        complaint := some (.timeout p.progress.receivedCount) }
    | .failed => some { p with thread := .completed }
    | .completed => some { p with thread := .posted }
    | _ => none
  | .close =>
    if p.thread = .posted then
      (Link.step A E p.net (.inl (.call .close))).map fun n =>
        { p with net := n, thread := .closed }
    else none
  | .runReturns =>
    if p.completed = false ∧ p.outOfWork = true then some { p with returned := true } else none

end Program

section
variable {k : Kind} {U C₂ L₂ M' : Type}

/-- Nothing is called from outside, and the other end takes its steps as `right` allows. -/
def Program.Allowed (right : C₂ → L₂ → Prop) (p : Program k U C₂ M') : Program.Label k L₂ → Prop
  | .net (.inl l) => App.Outside (fun _ _ => False) p.net.left l
  | .net (.inr l) => right p.net.right l
  | _ => True

variable [Variables U] [DecidableEq M'] {A : Link.Party (App.Config k U) (App.Label k) M'}
  {E : Link.Party C₂ L₂ M'} {right : C₂ → L₂ → Prop} {p p' : Program k U C₂ M'}

/-- The thread takes no part in the connection but by its `close()`. -/
theorem Program.step_net {l : Program.Label k L₂} (hl : p.Allowed right l)
    (h : p.step A E l = some p') :
    p'.net = p.net ∨ ∃ l', Steps right p.net l' ∧ Link.step A E p.net l' = some p'.net := by
  cases l with
  | net l =>
    obtain ⟨n, hn, rfl⟩ := Option.map_eq_some_iff.1 h
    refine Or.inr ⟨l, ?_, hn⟩
    cases l with
    | inl l =>
      cases l with
      | call x => exact hl.elim
      | _ => trivial
    | inr l => exact hl
  | thread =>
    left
    rcases p with ⟨n, d, x, r⟩
    cases d <;> cases h <;> rfl
  | close =>
    simp only [Program.step, Option.ite_none_right_eq_some] at h
    obtain ⟨n, hn, rfl⟩ := Option.map_eq_some_iff.1 h.2
    exact Or.inr ⟨.inl (.call .close), rfl, hn⟩
  | runReturns =>
    simp only [Program.step, Option.ite_none_right_eq_some] at h
    obtain rfl := Option.some.inj h.2
    exact Or.inl rfl

/-- `run()` does not return as long as there is something left to do. -/
theorem Program.step_inRun {l : Program.Label k L₂} (h : p.step A E l = some p')
    (hr : p.returned = false) (hwork : p.completed = false → p.outOfWork = false) :
    p'.returned = false := by
  cases l with
  | net l =>
    obtain ⟨n, -, rfl⟩ := Option.map_eq_some_iff.1 h
    exact hr
  | thread =>
    rcases p with ⟨n, d, x, r⟩
    cases d <;> cases h <;> exact hr
  | close =>
    simp only [Program.step, Option.ite_none_right_eq_some] at h
    obtain ⟨n, -, rfl⟩ := Option.map_eq_some_iff.1 h.2
    exact hr
  | runReturns =>
    simp only [Program.step, Option.ite_none_right_eq_some] at h
    obtain ⟨⟨hc, hout⟩, -⟩ := h
    rw [hwork hc] at hout
    cases hout

/-- The thread has set `failed` only after it said that the time is over. -/
def Program.Reported (p : Program k U C₂ M') : Prop :=
  p.thread.setsFailed = true → ∃ n, p.complaint = some (.timeout n)

theorem Program.Reported.step {l : Program.Label k L₂} (hr : p.Reported)
    (h : p.step A E l = some p') : p'.Reported := by
  cases l with
  | net l =>
    obtain ⟨n, -, rfl⟩ := Option.map_eq_some_iff.1 h
    exact hr
  | thread =>
    rcases p with ⟨n, d, x, r⟩
    cases d with
    | waiting =>
      cases h
      dsimp only [Program.Reported]
      split_ifs <;> exact Bool.noConfusion
    | expired =>
      cases h
      exact fun _ => ⟨_, rfl⟩
    | failed =>
      cases h
      exact fun _ => hr rfl
    | completed =>
      cases h
      exact fun _ => hr rfl
    | _ => cases h
  | close =>
    simp only [Program.step, Option.ite_none_right_eq_some] at h
    obtain ⟨n, -, rfl⟩ := Option.map_eq_some_iff.1 h.2
    refine fun _ => hr ?_
    rw [h.1]
    rfl
  | runReturns =>
    simp only [Program.step, Option.ite_none_right_eq_some] at h
    obtain rfl := Option.some.inj h.2
    exact hr

variable {m : Option k.Value} {u : U} {b : C₂}

/-- The states of the runs of a benchmark with its `timeout_thread`: the strand first runs
    the closures that `main` posts. -/
def Program.Running (A : Link.Party (App.Config k U) (App.Label k) M') (E : Link.Party C₂ L₂ M')
    (m : Option k.Value) (u : U) (b : C₂) (right : C₂ → L₂ → Prop)
    (p : Program k U C₂ M') : Prop :=
  ∃ s n₀, k.Created s ∧
    Transition.exec (Link.step A E) (.start ⟨s, [], u⟩ b) ((posted m).map .inl) = some n₀ ∧
    Transition.Run (Program.step A E) (Program.Allowed right) { net := n₀ } p

namespace Program.Running
variable (h : Program.Running A E m u b right p)
include h

theorem net : Benchmark.Running A E m u b right p.net := by
  obtain ⟨s, n₀, hs, hposted, hr⟩ := h
  exact ⟨s, n₀, hs, hposted, hr.map fun _ _ _ hl hstep => Program.step_net hl hstep⟩

theorem reported : p.Reported := by
  obtain ⟨s, n₀, -, -, hr⟩ := h
  exact hr.inv Bool.noConfusion fun _ _ _ hc _ hstep => hc.step hstep

/-- A benchmark that has completed while `main` is in `run()` either timed out, or did so by
    its read handler. -/
theorem ends (hr : p.returned = false) (hc : p.completed = true) :
    (∃ n, p.complaint = some (.timeout n)) ∨
      p.progress.completed = true ∧ p.failed = p.progress.failed := by
  cases hfail : p.thread.setsFailed with
  | true => exact Or.inl (h.reported hfail)
  | false =>
    have hnot : p.thread.setsCompleted = false := by
      cases hset : p.thread.setsCompleted with
      | false => rfl
      | true => exact absurd (TimeoutThread.failed_of_completed hset) (by simp [hfail])
    refine Or.inr ⟨?_, ?_⟩
    · rwa [Program.completed, hnot, hr, Bool.or_false, Bool.or_false] at hc
    · rw [Program.failed, hfail, Bool.or_false]

end Program.Running

/-! ## Executions -/

/-- The states of an execution of a benchmark and the other end of its connection. -/
structure Executing (A : Link.Party (App.Config k U) (App.Label k) M') (E : Link.Party C₂ L₂ M')
    (m : Option k.Value) (u : U) (b : C₂) (right : C₂ → L₂ → Prop)
    (tr : ℕ → Link.Net (App.Config k U) C₂ M') : Prop where
  runs : Running A E m u b right (tr 0)
  steps : Transition.Behaviour (Link.step A E) (Steps right) tr

omit [Variables U] in
theorem Executing.runs_at {tr : ℕ → Link.Net (App.Config k U) C₂ M'}
    (h : Executing A E m u b right tr) (t : ℕ) : Running A E m u b right (tr t) := by
  obtain ⟨s, n₀, hs, hposted, hr⟩ := h.runs
  exact ⟨s, n₀, hs, hposted, hr.trans (h.steps.run (Nat.zero_le t))⟩

/-- The same, with the `timeout_thread`, from a time at which `main` is in `run()`. -/
structure Program.Executing (A : Link.Party (App.Config k U) (App.Label k) M')
    (E : Link.Party C₂ L₂ M') (m : Option k.Value) (u : U) (b : C₂) (right : C₂ → L₂ → Prop)
    (tr : ℕ → Program k U C₂ M') : Prop where
  runs : Program.Running A E m u b right (tr 0)
  inRun₀ : (tr 0).returned = false
  steps : Transition.Behaviour (Program.step A E) (Program.Allowed right) tr

namespace Program.Executing
variable {tr : ℕ → Program k U C₂ M'} (h : Program.Executing A E m u b right tr)
include h

theorem net : Benchmark.Executing A E m u b right fun t => (tr t).net where
  runs := h.runs.net
  steps := h.steps.map fun _ _ _ hl hs => Program.step_net hl hs

theorem runs_at (t : ℕ) : Program.Running A E m u b right (tr t) := by
  obtain ⟨s, n₀, hs, hposted, hr⟩ := h.runs
  exact ⟨s, n₀, hs, hposted, hr.trans (h.steps.run (Nat.zero_le t))⟩

theorem inRun (hwork : ∀ t, (tr t).completed = false → (tr t).outOfWork = false) (t : ℕ) :
    (tr t).returned = false := by
  induction t with
  | zero => exact h.inRun₀
  | succ t ih =>
    rcases h.steps t with he | ⟨l, -, hs⟩
    · rw [he]
      exact ih
    · exact Program.step_inRun hs ih (hwork t)

end Program.Executing

end

/-- The time is over before the reply comes. -/
example : ∃ p : Program .can Progress (List (List UInt8)) (List UInt8),
    Program.Running (app (canPlan { samples := 1 })).party (Link.wire (List UInt8))
      (sendNext (canPlan { samples := 1 }) {}).1 (sendNext (canPlan { samples := 1 }) {}).2 []
      (fun _ _ => True) p ∧
    p.failed = true ∧ p.completed = true ∧ p.net.left.state.closed = true ∧
    p.complaint = some (.timeout 0) ∧ p.progress.completed = false := by
  obtain ⟨s, hs⟩ : ∃ s, CanSession.create { socket := .ok 3 } {} = some s := ⟨_, rfl⟩
  refine ⟨_, ⟨s, _, ⟨_, _, hs⟩, by cases hs; rfl,
    .step (l := .close) (.step (l := .thread) (.step (l := .thread) (.step (l := .thread)
      (.step (l := .thread) .refl trivial (by rfl)) trivial (by rfl)) trivial (by rfl)) trivial
      (by rfl)) trivial (by rfl)⟩, ?_, ?_, ?_, ?_, ?_⟩ <;> rfl

end TransitSession.Benchmark
