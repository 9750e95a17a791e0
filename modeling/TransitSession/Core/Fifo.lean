/-
  Writing is first in, first out and exactly once, for every session class.

  `Fifo` states it over the history of a session: the messages pushed, the
  writes initiated and the writes completed.  A session that refines the outbox
  has it (`Refines.fifo`).
-/
import TransitSession.Core.Invariants

namespace TransitSession

variable {D R W C E F : Type}

/-- First in, first out, exactly once.  `s.pushed` are the messages that
    `enqueue_write` pushed, `s.startedWrites` those whose write was initiated,
    `s.completedWrites` those whose write completed without error. -/
structure Fifo (s : Session D R W) : Prop where
  /-- the positions number the messages pushed -/
  positions : s.pushed.map Queued.pos = List.range s.pushed.length
  starts_prefix : s.startedWrites <+: s.pushed
  starts_once : (s.startedWrites.map Queued.pos).Nodup
  /-- the write at a position is initiated after the one before it completed -/
  in_order : ∀ {pre post op d reads j}, s.log = pre ++ .writeStarted op d reads :: post →
    op.element.pos = j + 1 → ∃ op', .writeCompleted op' none ∈ pre ∧ op'.element.pos = j
  /-- an open session has completed or still queues what was pushed -/
  balance : s.closed = false → s.pushed = s.completedWrites ++ s.writeQueue
  /-- in an open session the write outstanding is that of the front element -/
  inFlight : s.closed = false → s.writeInProgress = true →
    ∃ op, s.writes = [op] ∧ s.writeQueue.head? = some op.element

theorem Queued.entry_injective : Function.Injective (Queued.entry (W := W)) :=
  fun _ _ h => Queued.entry_inj.1 h

namespace Refines
variable {s : Session D R W} {b : Outbox.Box W}

theorem pushed_entries (h : Refines s b) : s.pushed.map Queued.entry = b.entries :=
  s.accepts_ops.symm.trans h.runs.accepts_eq

theorem started_entries (h : Refines s b) :
    s.startedWrites = s.pushed.take b.started := by
  have := s.starts_ops.symm.trans h.runs.starts_eq
  rw [← h.pushed_entries, ← List.map_take] at this
  exact Queued.entry_injective.list_map this

theorem completed_entries (h : Refines s b) :
    s.completedWrites = s.pushed.take b.finished := by
  have := s.finishes_ops.symm.trans h.runs.finishes_eq
  rw [← h.pushed_entries, ← List.map_take] at this
  exact Queued.entry_injective.list_map this

theorem waiting_entries (h : Refines s b) (hc : s.closed = false) :
    s.writeQueue = s.pushed.drop b.finished := by
  have := h.queue hc
  rw [Outbox.Box.waiting, ← h.pushed_entries, ← List.map_drop] at this
  exact Queued.entry_injective.list_map this

theorem positions (h : Refines s b) :
    s.pushed.map Queued.pos = List.range s.pushed.length := by
  have : s.pushed.map Queued.pos = (s.pushed.map Queued.entry).map Prod.snd := by
    rw [List.map_map]; rfl
  rw [this, h.pushed_entries, h.pushed_length, Outbox.Box.entries, List.zipIdx_map_snd,
    List.range_eq_range']

/-- A write is initiated after the one before it completed. -/
theorem in_order (h : Refines s b) {pre post : List (Event D R W)} {op : WriteOp W} {d : D}
    {reads : List ReadOp} {j : ℕ} (hl : s.log = pre ++ .writeStarted op d reads :: post)
    (hj : op.element.pos = j + 1) :
    ∃ op', .writeCompleted op' none ∈ pre ∧ op'.element.pos = j := by
  have ho : s.ops = pre.filterMap Event.op? ++
      .start (j + 1) op.element.message :: post.filterMap Event.op? := by
    simp [Session.ops, hl, Event.op?, hj]
  obtain ⟨m, hm⟩ := h.runs.finish_before_start ho
  obtain ⟨e, he, hop⟩ := List.mem_filterMap.1 hm
  cases e with
  | writeCompleted op' ec =>
    cases ec with
    | none => cases hop; exact ⟨op', he, rfl⟩
    | some e => cases hop
  | _ => cases hop

/-- In an open session the write outstanding is that of the front element. -/
theorem flight_front (h : Refines s b) (hc : s.closed = false) {op : WriteOp W}
    (hop : op ∈ s.writes) : s.writeQueue.head? = some op.element := by
  have := congrArg List.head? (h.queue hc)
  rw [List.head?_map, Outbox.Box.waiting, List.head?_drop, (h.flight op hop).2.2,
    Option.map_eq_some_iff] at this
  obtain ⟨q, hq, he⟩ := this
  rw [hq, Queued.entry_inj.1 he]

theorem fifo (h : Refines s b) (hm : Mirrored s) : Fifo s where
  positions := h.positions
  starts_prefix := by rw [h.started_entries]; exact List.take_prefix _ _
  starts_once := by
    rw [h.started_entries, List.map_take, h.positions]
    exact (List.nodup_range).sublist (List.take_sublist _ _)
  in_order := h.in_order
  balance hc := by
    rw [h.completed_entries, h.waiting_entries hc, List.take_append_drop]
  inFlight hc hw := by
    obtain ⟨op, hop⟩ := List.length_eq_one_iff.1 (hm.writes.trans (by simp [hw]))
    exact ⟨op, hop, h.flight_front hc (by simp [hop])⟩

end Refines

theorem Kept.fifo {s : Session D R W} (h : Kept s) : Fifo s := by
  obtain ⟨b, hb⟩ := h.refines
  exact hb.fifo h.mirrored

end TransitSession
