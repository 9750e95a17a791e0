/-
  The slots of stored handlers while the handlers run.

  A frame is a call of what is in a slot (`InSlot`), and the slot has the same
  function object (`SameSlot`) until the call returns, unless a setter of the slot
  runs inline in the call (`Overwrites`).  A setter destroys the object that the
  slot held, also where it stores a copy of it: the handler is passed by value.
-/
import TransitSession.Core.Members
import TransitSession.Core.Notifications
import TransitSession.Sessions

namespace TransitSession

variable {D R W C E F : Type}

/-! ## The close handler -/

namespace WebSocketServerSession
open WebSocket

/-- The slot of the close handler holds the same function object in both states. -/
def SameCloseHandler (s s' : WebSocketServerSession) : Prop :=
  s'.derived.own.closeHandler = s.derived.own.closeHandler ∧
    s'.derived.own.closeHandlerVersion = s.derived.own.closeHandlerVersion

theorem closeTransportCalls_closeHandler (s : WebSocketServerSession) :
    SameCloseHandler s (closeTransportCalls s).1 := by
  unfold closeTransportCalls
  split_ifs <;> exact ⟨rfl, rfl⟩

theorem failStart_closeHandler (handler : Option Callback) (e : Errc)
    (s : WebSocketServerSession) : SameCloseHandler s (failStart handler e s).1 := by
  have h := closeTransportCalls_closeHandler s
  unfold failStart
  rcases hr : closeTransportCalls s with ⟨s', _ | g⟩ <;> rw [hr] at h <;> exact h

theorem start_closeHandler (handler : Option Callback) (noDelayEc : ErrorCode)
    (s : WebSocketServerSession) : SameCloseHandler s (start handler noDelayEc s).1 := by
  unfold start
  dsimp only
  split
  · exact failStart_closeHandler handler _ s
  · split_ifs <;> exact ⟨rfl, rfl⟩

theorem hooks_closeHandler : hooks.Respects SameCloseHandler where
  trans h h' := ⟨h'.1.trans h.1, h'.2.trans h.2⟩
  core _ _ hd := by
    unfold SameCloseHandler
    rw [hd]
    exact ⟨rfl, rfl⟩
  doRead _ := ⟨rfl, rfl⟩
  doWrite {s} _ := by
    refine Or.inl ?_
    show SameCloseHandler s (StreamSession.doWrite s)
    unfold StreamSession.doWrite
    split <;> exact ⟨rfl, rfl⟩
  closeTransport {s} _ := closeTransportCalls_closeHandler s.shut

/-- **Only `set_close_handler` writes the close handler.** -/
theorem keeps_closeHandler : cls.Respects SameCloseHandler
    fun _ l => ∀ g, l ≠ .call (.derived (.setCloseHandler g)) where
  toRespects := hooks_closeHandler
  setReadHandler _ := ⟨rfl, rfl⟩
  fill h := by
    obtain rfl := Option.some.inj h
    exact ⟨rfl, rfl⟩
  onRead ec n s := by
    cases ec with
    | some e => exact hooks_closeHandler.failRead e s.markReadFinished
    | none =>
      exact hooks_closeHandler.deliverRead (StreamSession.copyMessage n s.markReadFinished)
        { s.markReadFinished with derived.readBuffer := s.derived.readBuffer.drop n }
  callDerived {c x} hok := by
    cases x with
    | start handler noDelayEc => exact start_closeHandler handler noDelayEc c.state
    | setCloseHandler g => exact absurd rfl (hok g)
  eventDerived {e s r} hr := by
    change eventDerived e s = some r at hr
    unfold eventDerived at hr
    split at hr
    · cases hr
    · obtain rfl := Option.some.inj hr
      cases e.ec with
      | some ec => exact failStart_closeHandler _ ec _
      | none => exact ⟨rfl, rfl⟩
  resumeDerived f s := by cases f <;> exact ⟨rfl, rfl⟩

/-- An assignment stores another object, of whatever handler. -/
theorem setCloseHandler_not_same (g : Option Callback) (s : WebSocketServerSession) :
    ¬ SameCloseHandler s (setCloseHandler g s) :=
  fun h => Nat.succ_ne_self _ h.2

end WebSocketServerSession

/-! ## Frames and slots -/

/-- The read handler that a frame is a call of. -/
def Frame.readHandler? : Frame F → Option Handler
  | .readError h | .readValue h => some h
  | .derived _ => none

/-- The close handler that a frame is a call of. -/
def WebSocket.ServerFrame.closeHandler? : WebSocket.ServerFrame → Option WebSocket.Callback
  | .closeHandler h | .startClosing h _ _ => some h
  | .startHandler _ _ => none

namespace WebSocketServerSession
open WebSocket

/-- The close handler that a part of a closure calls is in its slot. -/
def CallsSlot (r : WebSocketServerSession × Option (Frame ServerFrame)) : Prop :=
  ∀ g h, r.2 = some (.derived g) → g.closeHandler? = some h →
    r.1.derived.own.closeHandler = some h

theorem close_callsSlot (s : WebSocketServerSession) : CallsSlot (cls.close s) := by
  intro g h hg hh
  replace hg : (cls.call .close s).2 = some (.derived g) := hg
  rw [close_calls, closeTransport_calls] at hg
  have hs := hooks_closeHandler.close s
  split_ifs at hg
  · cases hg
  · obtain ⟨h', hh', he⟩ := Option.map_eq_some_iff.1 hg
    cases he
    cases hh
    exact hs.1.trans hh'

theorem callStartHandler_callsSlot (handler : Option Callback) (ec : ErrorCode)
    (s : WebSocketServerSession) : CallsSlot (callStartHandler handler ec s) := by
  intro g h hg hh
  obtain ⟨h', -, he⟩ := Option.map_eq_some_iff.1 hg
  cases he
  cases hh

theorem failStart_callsSlot (handler : Option Callback) (e : Errc) (s : WebSocketServerSession) :
    CallsSlot (failStart handler e s) := by
  intro g h hg hh
  have hs := failStart_closeHandler handler e s
  rw [failStart_calls, closeTransport_calls] at hg
  rcases Option.or_eq_some_iff.1 hg with hg | ⟨-, hg⟩
  · split_ifs at hg
    · cases hg
    · obtain ⟨h', hh', he⟩ := Option.map_eq_some_iff.1 hg
      cases he
      cases hh
      exact hs.1.trans hh'
  · obtain ⟨h', -, he⟩ := Option.map_eq_some_iff.1 hg
    cases he
    cases hh

theorem start_callsSlot (handler : Option Callback) (noDelayEc : ErrorCode)
    (s : WebSocketServerSession) : CallsSlot (start handler noDelayEc s) := by
  unfold start
  dsimp only
  split
  · exact failStart_callsSlot handler _ s
  · rintro g h ⟨⟩

theorem resumeDerived_callsSlot (f : ServerFrame) (s : WebSocketServerSession) :
    CallsSlot (resumeDerived f s) := by
  cases f with
  | closeHandler | startHandler => rintro g h ⟨⟩
  | startClosing _ handler e => exact callStartHandler_callsSlot handler _ s

theorem eventDerived_callsSlot {e : Handshake} {s : WebSocketServerSession}
    {r : WebSocketServerSession × Option (Frame ServerFrame)}
    (hr : eventDerived e s = some r) : CallsSlot r := by
  unfold eventDerived at hr
  split at hr
  · cases hr
  · obtain rfl := Option.some.inj hr
    cases e.ec with
    | some ec => exact failStart_callsSlot _ ec _
    | none => exact callStartHandler_callsSlot _ none _

end WebSocketServerSession

namespace Kind

/-- The function object that a frame of the derived class is a call of is in its
    slot. -/
def DerivedInSlot : (k : Kind) → k.Members → k.DerivedFrame → Prop
  | .webSocketServer, d, f => ∀ h, f.closeHandler? = some h → d.own.closeHandler = some h
  | _, _, _ => True

/-- The function object that a frame is a call of is in its slot. -/
def InSlot (k : Kind) (s : Session k.Members k.Value k.Value) : Frame k.DerivedFrame → Prop
  | .readError h | .readValue h => s.readHandler = some h
  | .derived f => k.DerivedInSlot s.derived f

/-- The slot that a frame of the derived class was called through holds the same
    function object in both states. -/
def SameDerivedSlot : (k : Kind) → (s s' : Session k.Members k.Value k.Value) →
    k.DerivedFrame → Prop
  | .webSocketServer, s, s', f =>
    ∀ h, f.closeHandler? = some h → WebSocketServerSession.SameCloseHandler s s'
  | _, _, _, _ => True

/-- The slot that a frame was called through holds the same function object in both
    states. -/
def SameSlot (k : Kind) (s s' : Session k.Members k.Value k.Value) : Frame k.DerivedFrame → Prop
  | .readError _ | .readValue _ => SameReadHandler s s'
  | .derived f => k.SameDerivedSlot s s' f

/-- The call assigns the slot that the frame was called through. -/
def ReplacesDerived : (k : Kind) → k.DerivedCall → k.DerivedFrame → Prop
  | .webSocketServer, .setCloseHandler _, f => ∃ g, f.closeHandler? = some g
  | _, _, _ => False

def Replaces (k : Kind) : Call k.Value k.DerivedCall → Frame k.DerivedFrame → Prop
  | .setReadHandler _, f => ∃ g, f.readHandler? = some g
  | .derived x, .derived f => k.ReplacesDerived x f
  | _, _ => False

/-- A setter replaces a function object that is running. -/
def Overwrites (k : Kind) (c : k.Config) : k.Label → Prop
  | .call x => ∃ f ∈ c.stack, k.Replaces x f
  | _ => False

/-- What was called through a slot is still in it. -/
def SlotsHeld (k : Kind) (c : k.Config) : Prop := ∀ f ∈ c.stack, k.InSlot c.state f

/-- The call that `f` goes on from is running, above the frames `below`. -/
def InCall (k : Kind) (f : Frame k.DerivedFrame) (below : List (Frame k.DerivedFrame))
    (c : k.Config) : Prop :=
  f :: below <:+ c.stack

variable {k : Kind} {s s' s'' : Session k.Members k.Value k.Value} {f : Frame k.DerivedFrame}

namespace SameSlot

theorem of_same (hr : SameReadHandler s s') (hc : ∀ g, k.SameDerivedSlot s s' g) :
    k.SameSlot s s' f := by
  cases f with
  | readError | readValue => exact hr
  | derived g => exact hc g

theorem refl (s : Session k.Members k.Value k.Value) (f : Frame k.DerivedFrame) :
    k.SameSlot s s f := by
  refine of_same (.refl s) fun g => ?_
  cases k with
  | serial | can | webSocket => trivial
  | webSocketServer => exact fun _ _ => ⟨rfl, rfl⟩

theorem trans (h : k.SameSlot s s' f) (h' : k.SameSlot s' s'' f) : k.SameSlot s s'' f := by
  cases f with
  | readError | readValue => exact SameReadHandler.trans h h'
  | derived g =>
    cases k with
    | serial | can | webSocket => trivial
    | webSocketServer =>
      exact fun a ha => WebSocketServerSession.hooks_closeHandler.trans (h a ha) (h' a ha)

/-- What is in the slot is still in it. -/
theorem inSlot (h : k.SameSlot s s' f) (hin : k.InSlot s f) : k.InSlot s' f := by
  cases f with
  | readError | readValue => exact h.1.trans hin
  | derived g =>
    cases k with
    | serial | can | webSocket => trivial
    | webSocketServer => exact fun a ha => (h a ha).1.trans (hin a ha)

end SameSlot

theorem call_derivedSameSlot (x : Call k.Value k.DerivedCall)
    (s : Session k.Members k.Value k.Value) (f : k.DerivedFrame) :
    k.SameDerivedSlot s (k.cls.call x s).1 f ↔ ¬ k.Replaces x (.derived f) := by
  cases k with
  | serial | can | webSocket => exact f.elim
  | webSocketServer =>
    by_cases hx : ∃ g, x = .derived (.setCloseHandler g)
    · obtain ⟨g, rfl⟩ := hx
      have hnot := WebSocketServerSession.setCloseHandler_not_same g s
      constructor
      · rintro h ⟨a, ha⟩
        exact hnot (h a ha)
      · exact fun h a ha => absurd ⟨a, ha⟩ h
    · have hs : WebSocketServerSession.SameCloseHandler s
          (Kind.webSocketServer.cls.call x s).1 := by
        refine SessionClass.call_respects WebSocketServerSession.keeps_closeHandler
          (c := ⟨s, []⟩) ?_
        rintro g ⟨⟩
        exact hx ⟨g, rfl⟩
      refine iff_of_true (fun _ _ => hs) ?_
      cases x with
      | derived x =>
        cases x with
        | start => exact id
        | setCloseHandler g => exact absurd ⟨g, rfl⟩ hx
      | setReadHandler g => rintro ⟨g', ⟨⟩⟩
      | _ => exact id

/-- **A call leaves a function object in its slot iff it does not assign the slot.** -/
theorem call_sameSlot (x : Call k.Value k.DerivedCall) (s : Session k.Members k.Value k.Value)
    (f : Frame k.DerivedFrame) : k.SameSlot s (k.cls.call x s).1 f ↔ ¬ k.Replaces x f := by
  cases f with
  | readError g | readValue g =>
    by_cases hx : ∃ g', x = .setReadHandler g'
    · obtain ⟨g', rfl⟩ := hx
      refine iff_of_false (SameReadHandler.not_set g' s) ?_
      exact not_not.2 ⟨g, rfl⟩
    · have hr : SameReadHandler s (k.cls.call x s).1 := by
        refine SessionClass.call_respects k.lawful.keeps_readHandler (c := ⟨s, []⟩) ?_
        rintro g' ⟨⟩
        exact hx ⟨g', rfl⟩
      refine iff_of_true hr ?_
      cases x with
      | setReadHandler g' => exact absurd ⟨g', rfl⟩ hx
      | _ => exact id
  | derived f => exact call_derivedSameSlot x s f

/-- Completion handlers do not assign slots. -/
theorem event_sameSlot {e : Completion k.DerivedEvent}
    {r : Session k.Members k.Value k.Value × Option (Frame k.DerivedFrame)}
    (hr : k.cls.event e s = some r) : k.SameSlot s r.1 f := by
  refine .of_same (SessionClass.event_respects k.lawful.keeps_readHandler hr) fun g => ?_
  cases k with
  | serial | can | webSocket => exact g.elim
  | webSocketServer =>
    exact fun _ _ => SessionClass.event_respects WebSocketServerSession.keeps_closeHandler hr

/-- Nor does what follows user code. -/
theorem resume_sameSlot (g : Frame k.DerivedFrame) (s : Session k.Members k.Value k.Value) :
    k.SameSlot s (k.cls.resume g s).1 f := by
  refine .of_same (SessionClass.resume_respects k.lawful.keeps_readHandler g s) fun f' => ?_
  cases k with
  | serial | can | webSocket => exact f'.elim
  | webSocketServer =>
    exact fun _ _ => SessionClass.resume_respects WebSocketServerSession.keeps_closeHandler g s

/-! ## New frames -/

/-- What a part of a closure calls is in its slot. -/
def CallsSlot (k : Kind) (r : Session k.Members k.Value k.Value × Option (Frame k.DerivedFrame)) :
    Prop :=
  ∀ f, r.2 = some f → k.InSlot r.1 f

theorem close_callsSlot (k : Kind) (s : Session k.Members k.Value k.Value) :
    k.CallsSlot (k.cls.close s) := by
  intro f hf
  obtain ⟨g, -, rfl⟩ := Option.map_eq_some_iff.1 hf
  cases k with
  | serial | can | webSocket => exact g.elim
  | webSocketServer => exact fun h => WebSocketServerSession.close_callsSlot s g h hf

theorem failRead_callsSlot (e : Errc) (s : Session k.Members k.Value k.Value) :
    k.CallsSlot (k.cls.failRead e s) := by
  rcases k.cls.failRead_eq s e with ⟨h, hh, he⟩ | ⟨-, he⟩ <;> rw [he]
  · rintro f ⟨⟩
    exact hh
  · exact k.close_callsSlot s

theorem deliverRead_callsSlot (value : k.Value) (s : Session k.Members k.Value k.Value) :
    k.CallsSlot (k.cls.deliverRead value s) := by
  unfold Hooks.deliverRead
  split
  · next h hh =>
    rintro f ⟨⟩
    exact hh
  · rintro f ⟨⟩

/-- User code that the closures of the derived class call. -/
theorem callsSlot_of_derived
    {r : Session k.Members k.Value k.Value × Option (Frame k.DerivedFrame)}
    (hm : ∀ f, r.2 = some f → ∃ g, f = .derived g)
    (hd : ∀ g, r.2 = some (.derived g) → k.DerivedInSlot r.1.derived g) : k.CallsSlot r := by
  intro f hf
  obtain ⟨g, rfl⟩ := hm f hf
  exact hd g hf

theorem call_callsSlot (x : Call k.Value k.DerivedCall)
    (s : Session k.Members k.Value k.Value) : k.CallsSlot (k.cls.call x s) := by
  refine callsSlot_of_derived (fun f => SessionClass.call_frames k.lawful) fun g hg => ?_
  cases k with
  | serial | can | webSocket => exact g.elim
  | webSocketServer =>
    intro h hh
    cases x with
    | close => exact WebSocketServerSession.close_callsSlot s g h hg hh
    | derived x =>
      cases x with
      | start handler noDelayEc =>
        exact WebSocketServerSession.start_callsSlot handler noDelayEc s g h hg hh
      | setCloseHandler => cases hg
    | _ => cases hg

theorem event_callsSlot {e : Completion k.DerivedEvent}
    {r : Session k.Members k.Value k.Value × Option (Frame k.DerivedFrame)}
    (hr : k.cls.event e s = some r) : k.CallsSlot r := by
  rcases SessionClass.event_cases k.lawful hr with ⟨n, ec, data, op, d, -, -, hread⟩ |
    ⟨n, op, -, -, rfl⟩ | ⟨n, op, e', -, -, rfl⟩ | ⟨e', rfl, hm⟩
  · cases hread with
    | resumed => rintro f ⟨⟩
    | failed _ d e' => exact failRead_callsSlot e' _
    | delivered d value => exact deliverRead_callsSlot value _
  · rintro f ⟨⟩
  · exact k.close_callsSlot _
  · refine callsSlot_of_derived hm.2 fun g hg => ?_
    cases k with
    | serial | can | webSocket => exact g.elim
    | webSocketServer =>
      exact fun h => WebSocketServerSession.eventDerived_callsSlot (s := s) hr g h hg

theorem resume_callsSlot (f : Frame k.DerivedFrame) (s : Session k.Members k.Value k.Value) :
    k.CallsSlot (k.cls.resume f s) := by
  refine callsSlot_of_derived (fun g => SessionClass.resume_frames k.lawful) fun g hg => ?_
  cases k with
  | serial | can | webSocket => exact g.elim
  | webSocketServer =>
    intro h hh
    cases f with
    | readError => exact WebSocketServerSession.close_callsSlot s g h hg hh
    | readValue => cases hg
    | derived f => exact WebSocketServerSession.resumeDerived_callsSlot f s g h hg hh

/-! ## Runs -/

/-- **A step leaves every function object that is running in its slot iff it is not
    a setter of one of these slots.** -/
theorem step_sameSlot {c c' : k.Config} {l : k.Label} (hs : k.cls.program.step c l = some c') :
    (∀ f ∈ c.stack, k.SameSlot c.state c'.state f) ↔ ¬ k.Overwrites c l := by
  rcases Strand.Program.step_cases hs with ⟨x, rfl, rfl⟩ | ⟨e, r, rfl, -, hr, rfl⟩ |
    ⟨g, st, rfl, -, rfl⟩
  · constructor
    · rintro h ⟨f, hf, hx⟩
      exact (call_sameSlot x c.state f).1 (h f hf) hx
    · exact fun hx f hf => (call_sameSlot x c.state f).2 fun hrep => hx ⟨f, hf, hrep⟩
  · exact iff_of_true (fun f _ => event_sameSlot hr) id
  · exact iff_of_true (fun f _ => resume_sameSlot g c.state) id

theorem step_slotsHeld {c c' : k.Config} {l : k.Label} (h : k.SlotsHeld c)
    (hok : ¬ k.Overwrites c l) (hs : k.cls.program.step c l = some c') : k.SlotsHeld c' := by
  have hsame := (step_sameSlot hs).2 hok
  have hold (f) (hf : f ∈ c.stack) : k.InSlot c'.state f := (hsame f hf).inSlot (h f hf)
  rcases Strand.Program.step_cases hs with ⟨x, -, rfl⟩ | ⟨e, r, -, -, hr, rfl⟩ |
    ⟨g, st, -, hst, rfl⟩ <;> intro f hf
  · rcases List.mem_append.1 hf with hf | hf
    · exact call_callsSlot x c.state f (Option.mem_toList.1 hf)
    · exact hold f hf
  · exact event_callsSlot hr f (Option.mem_toList.1 hf)
  · rcases List.mem_append.1 hf with hf | hf
    · exact resume_callsSlot g c.state f (Option.mem_toList.1 hf)
    · exact hold f (hst ▸ List.mem_cons_of_mem g hf)

/-- **As long as no setter assigns the slot of a function object that is running,
    every one of them is in its slot.** -/
theorem run_slotsHeld {c : k.Config} (h : k.ReachableBy (fun c l => ¬ k.Overwrites c l) c) :
    k.SlotsHeld c := by
  obtain ⟨s, -, hr⟩ := h
  refine hr.inv ?_ fun c₁ l c₂ h₁ hl hs => step_slotsHeld h₁ hl hs
  rintro f ⟨⟩

/-- **The slot holds the same function object until the call returns.** -/
theorem run_sameSlot {c c' : k.Config} {f : Frame k.DerivedFrame}
    {below : List (Frame k.DerivedFrame)}
    (h : k.Run (fun c l => ¬ k.Overwrites c l ∧ k.InCall f below c) c c') :
    k.SameSlot c.state c'.state f := by
  refine h.inv (I := fun d => k.SameSlot c.state d.state f) (.refl _ f) fun c₁ l c₂ h₁ hok hs => ?_
  exact h₁.trans ((step_sameSlot hs).2 hok.1 f (hok.2.subset List.mem_cons_self))

end Kind

end TransitSession
