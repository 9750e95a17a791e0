/-
  The serial benchmark (example/serial_benchmark.cpp).

  A serial line delivers bytes, cut anywhere, so the read handler collects them in
  `pending_response` and takes as many replies off its front as there are.  On a line
  whose other end echoes what it gets, it never takes one for out of order
  (`serial_in_time`).
-/
import TransitSession.Example.Benchmark

namespace TransitSession

namespace Benchmark

variable {C D F : Type}

/-- The messages of the benchmark; each reply is read from `payload_size` bytes. -/
def serialPlan (o : Options) : Plan (List UInt8) where
  samples := o.samples
  positive := o.positive
  message := makePayload o.payloadSize
  reading data := .sequence (sequenceOf data)

/-- The variables of `main`. -/
structure SerialProgress where
  progress : Progress := {}
  pendingResponse : List UInt8 := []
deriving DecidableEq

/-- The loop of the read handler, for at most `fuel` replies. -/
def takeReplies (o : Options) : ℕ → SerialProgress → List (Call (List UInt8) C) × SerialProgress
  | 0, u => ([], u)
  | fuel + 1, u =>
    if u.pendingResponse.length < o.payloadSize then ([], u)
    else
      let actual := sequenceOf u.pendingResponse
      let pending := u.pendingResponse.drop o.payloadSize
      let p := u.progress
      if actual ≠ p.expectedSequence then
        ([.close], ⟨p.fail (.outOfOrder p.expectedSequence actual), pending⟩)
      else
        let p := { p with receivedCount := p.receivedCount + 1 }
        if o.samples ≤ p.receivedCount then ([.close], ⟨{ p with completed := true }, pending⟩)
        else
          let r := sendNext (serialPlan o) p
          let rest := takeReplies o fuel ⟨r.2, pending⟩
          (r.1.toList.map .send ++ rest.1, rest.2)

/-- The read handler, given a value.  Every turn of the loop takes bytes, so there are not
    more turns than bytes. -/
def onBytes (o : Options) (data : List UInt8) (u : SerialProgress) :
    List (Call (List UInt8) C) × SerialProgress :=
  let pending := u.pendingResponse ++ data
  takeReplies o pending.length ⟨u.progress, pending⟩

/-- The read handler, given the error or the value that the session tells. -/
def serialBody (o : Options) : Frame F → Session D (List UInt8) (List UInt8) → SerialProgress →
    List (Call (List UInt8) C) × SerialProgress
  | .readError _, s, u =>
    ([.close], { u with progress := u.progress.fail (.readError (s.told.getLast?.bind Prod.fst)) })
  | .readValue _, s, u =>
    match s.told.getLast? with
    | none => ([], u)
    | some p => onBytes o p.2 u
  | .derived _, _, u => ([], u)

def serialApp (o : Options) : App .serial SerialProgress := ⟨serialBody o⟩

variable {o : Options}

/-- The loop ends because the bytes do not make up a reply. -/
theorem takeReplies_ends (fuel : ℕ) (u : SerialProgress) (h : u.pendingResponse.length ≤ fuel) :
    (takeReplies (C := C) o fuel u).2.pendingResponse.length < o.payloadSize ∨
      Call.close ∈ (takeReplies (C := C) o fuel u).1 := by
  have hsize := o.fits
  induction fuel generalizing u with
  | zero =>
    refine Or.inl ?_
    show u.pendingResponse.length < _
    omega
  | succ fuel ih =>
    unfold takeReplies
    dsimp only
    split_ifs with hshort
    · exact Or.inl hshort
    · exact Or.inr (List.mem_singleton.2 rfl)
    · exact Or.inr (List.mem_singleton.2 rfl)
    · refine (ih _ ?_).imp id fun hclose => List.mem_append_right _ hclose
      rw [List.length_drop]
      omega

theorem takeReplies_short (fuel : ℕ) {u : SerialProgress}
    (h : u.pendingResponse.length < o.payloadSize) :
    takeReplies (C := C) o fuel u = ([], u) := by
  cases fuel with
  | zero => rfl
  | succ fuel =>
    unfold takeReplies
    rw [if_pos h]

/-- The one reply that is awaited has arrived. -/
theorem takeReplies_reply {fuel n : ℕ} {p : Progress} (hfuel : 0 < fuel)
    (hsent : p.sentCount = n + 1) (hreceived : p.receivedCount = n)
    (hexpected : p.expectedSequence = BitVec.ofNat 32 n) :
    o.samples ≤ n + 1 ∧
      takeReplies (C := C) o fuel ⟨p, makePayload o.payloadSize (BitVec.ofNat 32 n)⟩ =
        ([.close], ⟨{ p with receivedCount := n + 1, completed := true }, []⟩) ∨
    n + 1 < o.samples ∧
      takeReplies (C := C) o fuel ⟨p, makePayload o.payloadSize (BitVec.ofNat 32 n)⟩ =
        ([.send (makePayload o.payloadSize (BitVec.ofNat 32 (n + 1)))],
          ⟨{ p with
              receivedCount := n + 1
              expectedSequence := BitVec.ofNat 32 (n + 1)
              sentCount := n + 2 }, []⟩) := by
  have hsize := o.fits
  have hlen := makePayload_length o (BitVec.ofNat 32 n)
  have hseq : sequenceOf (makePayload o.payloadSize (BitVec.ofNat 32 n)) = BitVec.ofNat 32 n :=
    sequenceOf_bytes (List.prefix_append _ _)
  have hdrop : (makePayload o.payloadSize (BitVec.ofNat 32 n)).drop o.payloadSize = [] :=
    List.drop_eq_nil_iff.2 hlen.le
  obtain ⟨fuel, rfl⟩ := Nat.exists_eq_succ_of_ne_zero hfuel.ne'
  unfold takeReplies
  dsimp only
  rw [if_neg (by omega), hseq, if_neg (by simp [hexpected]), hreceived, hdrop]
  by_cases hs : o.samples ≤ n + 1
  · exact Or.inl ⟨hs, by rw [if_pos hs]⟩
  · refine Or.inr ⟨Nat.lt_of_not_le hs, ?_⟩
    rw [if_neg hs, takeReplies_short fuel (by rw [List.length_nil]; omega), sendNext, hsent,
      if_neg (show ¬ (serialPlan o).samples ≤ n + 1 from hs)]
    rfl

theorem takeReplies_replies (fuel : ℕ) (u : SerialProgress) :
    ∀ x ∈ (takeReplies (C := C) o fuel u).1, x.isReply := by
  induction fuel generalizing u with
  | zero => exact nofun
  | succ fuel ih =>
    intro x hx
    unfold takeReplies at hx
    dsimp only at hx
    split_ifs at hx
    · cases hx
    · rw [List.mem_singleton.1 hx]
      trivial
    · rw [List.mem_singleton.1 hx]
      trivial
    · rcases List.mem_append.1 hx with hx | hx
      · obtain ⟨m, -, rfl⟩ := List.mem_map.1 hx
        trivial
      · exact ih _ x hx

theorem serialBody_value (f : Handler) (s : Session D (List UInt8) (List UInt8))
    (data : List UInt8) (u : SerialProgress) :
    serialBody (C := C) (F := F) o (.readValue f) (s.emit (.notified none data)) u =
      onBytes o data u := by
  simp only [serialBody, Session.told_emit, List.getLast?_concat]

/-- The bytes that were received are the replies so far and `pending_response`, which is
    the beginning of the reply that is awaited. -/
structure InStep (o : Options) (c : App.Config .serial SerialProgress) : Prop where
  sends : Sends ((serialPlan o).messages c.own.progress.sentCount) c.state c.stack
  punctual : Punctual (serialPlan o) c.own.progress
  stream : c.state.delivered.flatten =
    ((serialPlan o).messages c.own.progress.receivedCount).flatten ++ c.own.pendingResponse
  short : c.own.pendingResponse.length < o.payloadSize
  next : c.own.pendingResponse <+:
    makePayload o.payloadSize (BitVec.ofNat 32 c.own.progress.receivedCount)

namespace InStep
variable {s : Session Kind.serial.Members (List UInt8) (List UInt8)} {u : SerialProgress}
  {data : List UInt8} {f : Frame Kind.serial.DerivedFrame}

theorem messages_flatten_succ (o : Options) (n : ℕ) :
    ((serialPlan o).messages (n + 1)).flatten =
      ((serialPlan o).messages n).flatten ++ makePayload o.payloadSize (BitVec.ofNat 32 n) := by
  rw [messages_succ, List.flatten_append, List.flatten_singleton]
  rfl

/-- Bytes arrive: they do not make up a reply yet, or they are the rest of the one that is
    awaited. -/
theorem bytes (h : InStep o ⟨s, [], u⟩)
    (hreply : s.delivered.flatten ++ data <+:
      ((serialPlan o).messages u.progress.sentCount).flatten) :
    (u.pendingResponse ++ data).length < o.payloadSize ∧
      u.pendingResponse ++ data <+:
        makePayload o.payloadSize (BitVec.ofNat 32 u.progress.receivedCount) ∨
    u.progress.sentCount = u.progress.receivedCount + 1 ∧
      u.pendingResponse ++ data =
        makePayload o.payloadSize (BitVec.ofNat 32 u.progress.receivedCount) := by
  have hsize := o.fits
  have hwindow : u.progress.sentCount =
      min (u.progress.receivedCount + 1) o.samples := h.punctual.window
  have hbound : u.progress.receivedCount ≤ o.samples := h.punctual.bound
  have hstream : s.delivered.flatten =
      ((serialPlan o).messages u.progress.receivedCount).flatten ++ u.pendingResponse := h.stream
  rw [hstream, List.append_assoc] at hreply
  rcases Nat.lt_or_ge u.progress.receivedCount o.samples with hlt | hge
  · have hsent : u.progress.sentCount = u.progress.receivedCount + 1 := by omega
    rw [hsent, messages_flatten_succ, List.prefix_append_right_inj] at hreply
    rcases Nat.lt_or_ge (u.pendingResponse ++ data).length o.payloadSize with hshort | hlong
    · exact Or.inl ⟨hshort, hreply⟩
    · refine Or.inr ⟨hsent, hreply.eq_of_length_le ?_⟩
      rw [makePayload_length]
      exact hlong
  · -- every reply has arrived
    have hsent : u.progress.sentCount = u.progress.receivedCount := by omega
    have hnil : u.pendingResponse ++ data <+: [] := by
      rw [hsent] at hreply
      rw [← List.prefix_append_right_inj, List.append_nil]
      exact hreply
    rw [List.prefix_nil] at hnil
    rw [hnil]
    exact Or.inl ⟨by rw [List.length_nil]; omega, List.nil_prefix⟩

theorem value (h : InStep o ⟨s, [], u⟩)
    (hreply : s.delivered.flatten ++ data <+:
      ((serialPlan o).messages u.progress.sentCount).flatten) :
    InStep o ⟨s.emit (.notified none data),
      [(f, (onBytes (C := Kind.serial.DerivedCall) o data u).1)],
      (onBytes (C := Kind.serial.DerivedCall) o data u).2⟩ := by
  have hsize := o.fits
  have hsends : Sends (F := Kind.serial.DerivedFrame) (C := Kind.serial.DerivedCall)
    ((serialPlan o).messages u.progress.sentCount) s [] := h.sends
  have hpunctual : Punctual (serialPlan o) u.progress := h.punctual
  have hstream : s.delivered.flatten =
      ((serialPlan o).messages u.progress.receivedCount).flatten ++ u.pendingResponse := h.stream
  have hdelivered : (s.emit (.notified none data)).delivered.flatten =
      ((serialPlan o).messages u.progress.receivedCount).flatten ++
        (u.pendingResponse ++ data) := by
    have hd : (s.emit (.notified none data)).delivered = s.delivered ++ [data] :=
      s.delivered_emit none data
    rw [hd, List.flatten_append, hstream, List.append_assoc, List.flatten_singleton]
  unfold onBytes
  rcases h.bytes hreply with ⟨hshort, hnext⟩ | ⟨hsent, hpending⟩
  · rw [takeReplies_short _ hshort]
    exact ⟨hsends.told_quiet rfl, hpunctual, hdelivered, hshort, hnext⟩
  · rw [hpending] at hdelivered ⊢
    rw [← messages_flatten_succ] at hdelivered
    have hexpected : u.progress.expectedSequence = BitVec.ofNat 32 u.progress.receivedCount := by
      rw [hpunctual.expected, hsent, Nat.add_sub_cancel]
    have hfuel : 0 < (makePayload o.payloadSize
        (BitVec.ofNat 32 u.progress.receivedCount)).length := by
      rw [makePayload_length]
      omega
    rcases takeReplies_reply (C := Kind.serial.DerivedCall) hfuel hsent rfl hexpected with
      ⟨hs, he⟩ | ⟨hs, he⟩ <;> rw [he]
    · refine ⟨hsends.told_quiet rfl, hpunctual.completed hsent rfl hs, ?_, ?_, List.nil_prefix⟩
      · rw [List.append_nil]
        exact hdelivered
      · show ([] : List UInt8).length < _
        rw [List.length_nil]
        omega
    · refine ⟨?_, hpunctual.next rfl hs, ?_, ?_, List.nil_prefix⟩
      · show Sends ((serialPlan o).messages (u.progress.receivedCount + 2)) _ _
        rw [messages_succ, ← hsent]
        exact hsends.told rfl
      · rw [List.append_nil]
        exact hdelivered
      · show ([] : List UInt8).length < _
        rw [List.length_nil]
        omega

/-- **Every step is in step**, if the bytes that are told are the beginning of those that
    were sent. -/
theorem step {c c' : App.Config .serial SerialProgress} {l : App.Label .serial}
    (h : InStep o c) (hl : ∀ x, l = .call x → Outside x)
    (hreply : c'.state.delivered.flatten <+: c'.state.messages.flatten)
    (hs : (serialApp o).step Kind.serial.cls.program c l = some c') : InStep o c' := by
  have hquiet : ∀ x, l = .call x → x.message? = none := by
    intro x hx
    rw [hl x hx]
    rfl
  rcases Sends.exchange (B := serialApp o) (fun _ _ _ => rfl) hquiet
    (step_exchange Kind.serial.lawful hs) h.sends with
    ⟨hsends, htold, hown⟩ | ⟨f, s, ec, value, hsends, htold, rfl⟩
  · have hdelivered := Session.delivered_of_told htold
    rw [← hown] at hsends
    refine ⟨hsends, hown ▸ h.punctual, ?_, hown ▸ h.short, hown ▸ h.next⟩
    rw [hown, hdelivered]
    exact h.stream
  · have hdelivered := Session.delivered_of_told htold
    have hlast : InStep o ⟨s, [], c.own⟩ :=
      ⟨hsends, h.punctual, by rw [hdelivered]; exact h.stream, h.short, h.next⟩
    rw [Strand.UserCode.enter_some]
    cases ec with
    | some e =>
      refine ⟨hsends.told_quiet rfl, h.punctual.readError _, ?_, h.short, h.next⟩
      have hd : (s.emit (.notified (some e) value)).delivered = s.delivered :=
        (s.delivered_emit (some e) value).trans (List.append_nil _)
      rw [hd]
      exact hlast.stream
    | none =>
      rw [Strand.UserCode.enter_state] at hreply
      have hmessages : (s.emit (.notified none value)).messages = s.messages := by
        unfold Session.messages
        rw [Session.pushed_emit]
      have hd : (s.emit (.notified none value)).delivered = s.delivered ++ [value] :=
        s.delivered_emit none value
      have hbytes : s.delivered.flatten ++ value <+: s.messages.flatten := by
        rw [hmessages, hd, List.flatten_append, List.flatten_singleton] at hreply
        exact hreply
      have hvalue := hlast.value (f := .readValue f) (hbytes.trans hsends.initial.flatten)
      rw [← serialBody_value (F := Kind.serial.DerivedFrame) f s value c.own] at hvalue
      exact hvalue

end InStep

theorem serialBody_replies (f : Frame Kind.serial.DerivedFrame)
    (s : Session Kind.serial.Members (List UInt8) (List UInt8)) (u : SerialProgress) :
    ∀ x ∈ ((serialApp o).body f s u).1, x.isReply := by
  intro x hx
  cases f with
  | readError =>
    rw [List.mem_singleton.1 hx]
    trivial
  | readValue =>
    simp only [serialApp, serialBody] at hx
    split at hx
    · cases hx
    · exact takeReplies_replies _ _ x hx
  | derived => cases hx

section
variable {u : SerialProgress}
  {n : Link.Net (App.Config .serial SerialProgress) (List UInt8) UInt8}
  {s : Session Kind.serial.Members (List UInt8) (List UInt8)} (hs : Kind.serial.Created s)
  (hr : Transition.Run (Link.step (serialApp o).stream (Link.wire UInt8))
    (Attending fun _ _ => True) (.start ⟨s, [], u⟩ []) n)
include hs hr

theorem serial_receiving : Kind.serial.ReachableBy Kind.serial.Receiving n.left.program :=
  App.ReachableBy.receiving (B := serialApp o) serialBody_replies (fun _ _ hx => hx)
    ⟨s, hs, Link.run_left (fun _ _ hl => hl) hr⟩

/-- The bytes that the benchmark is told are the beginning of those it has sent. -/
theorem serial_replies : n.left.state.delivered.flatten <+: n.left.state.messages.flatten := by
  have hc : Link.Conserved (serialApp o).stream (Link.wire UInt8) n := by
    refine Link.conserved hr ?_
    obtain ⟨d, rfl⟩ := hs.fresh
    exact ⟨rfl, rfl⟩
  have hleft := serial_receiving hs hr
  exact (Kind.toldBytes hleft.onStrand hleft hc.looped).initial

end

/-- The states of the runs of the serial benchmark, on a line that echoes what it gets. -/
def SerialRuns (o : Options)
    (n : Link.Net (App.Config .serial SerialProgress) (List UInt8) UInt8) : Prop :=
  Running (serialApp o).stream (Link.wire UInt8) (sendNext (serialPlan o) {}).1
    ⟨(sendNext (serialPlan o) {}).2, []⟩ [] (fun _ _ => True) n

namespace SerialRuns
variable {n : Link.Net (App.Config .serial SerialProgress) (List UInt8) UInt8}
  (h : SerialRuns o n)
include h

theorem running : Running (serialApp o).stream (Link.wire UInt8)
    (some (makePayload o.payloadSize 0)) ⟨{ sentCount := 1 }, []⟩ [] (fun _ _ => True) n := by
  have hfirst : sendNext (serialPlan o) {} =
      (some (makePayload o.payloadSize 0), { sentCount := 1 }) :=
    sendNext_first (k := .serial) (P := serialPlan o)
  unfold SerialRuns at h
  rwa [hfirst] at h

theorem inStep : InStep o n.left := by
  refine h.running.inv rfl (fun _ _ _ => rfl)
    (T := fun c => c.state.delivered.flatten <+: c.state.messages.flatten)
    (fun s n hs hr => serial_replies hs hr) (fun c hsends htold hown => ?_)
    fun c l c' hc hT hl hs => hc.step hl hT hs
  have hsize := o.fits
  have hnone : c.state.delivered = [] := by
    rw [Session.delivered_eq, htold]
    rfl
  refine ⟨?_, ?_, ?_, ?_, ?_⟩ <;> rw [hown]
  · exact hsends
  · exact .first
  · rw [hnone]
    rfl
  · show ([] : List UInt8).length < _
    rw [List.length_nil]
    omega
  · exact List.nil_prefix

end SerialRuns

/-- **The serial benchmark is in time.**  On a line that echoes what it gets, whatever the
    pieces that the bytes arrive in, it never takes a reply for one that is out of order:
    the bytes received are the replies to its messages, in order, and the beginning of
    one more. -/
theorem serial_in_time {o : Options}
    {n : Link.Net (App.Config .serial SerialProgress) (List UInt8) UInt8}
    (h : Running (serialApp o).stream (Link.wire UInt8) (sendNext (serialPlan o) {}).1
      ⟨(sendNext (serialPlan o) {}).2, []⟩ [] (fun _ _ => True) n) : InStep o n.left :=
  SerialRuns.inStep h

set_option maxRecDepth 8000 in
/-- A benchmark of one sample, whose reply arrives in two pieces. -/
theorem serial_in_time_one :
    ∃ n : Link.Net (App.Config .serial SerialProgress) (List UInt8) UInt8,
      n.left.own.progress.completed = true ∧ n.left.own.progress.failed = false ∧
      InStep { payloadSize := 4, samples := 1 } n.left := by
  obtain ⟨s, hs⟩ : ∃ s, SerialSession.create none {} { readBufferSize := 4 } = some s := ⟨_, rfl⟩
  have hr : Running (serialApp { payloadSize := 4, samples := 1 }).stream (Link.wire UInt8)
      (sendNext (serialPlan { payloadSize := 4, samples := 1 }) {}).1
      ⟨(sendNext (serialPlan { payloadSize := 4, samples := 1 }) {}).2, []⟩ []
      (fun _ _ => True) _ :=
    ⟨s, _, ⟨_, _, _, hs⟩, by cases hs; rfl,
      .step (l := .inl (.event (.read 0 none [0, 0, 0])))
      (.step (l := .inl .proceed)
      (.step (l := .inl (.event (.read 0 none [0])))
      (.step (l := .inr 0)
      (.step (l := .inr 0)
      (.step (l := .inr 0)
      (.step (l := .inr 0) .refl
        trivial (by rfl)) trivial (by rfl)) trivial (by rfl)) trivial (by rfl))
        trivial (by rfl)) trivial (by rfl)) trivial (by rfl)⟩
  refine ⟨_, ?_, ?_, serial_in_time hr⟩
  · rfl
  · rfl

end Benchmark

end TransitSession
