/-
  The concrete session classes as one family, so that a property of all of them
  is one statement.

  A session comes out of `create` (`Kind.Created`) and runs from there with an
  idle strand; `Kind.Reachable` are the configurations of its runs, with any
  calls, completions and re-entrant handlers in any order.
-/
import TransitSession.Core.Invariants
import TransitSession.Serial.Session
import TransitSession.Can.Session
import TransitSession.WebSocket.Client
import TransitSession.WebSocket.ServerSession

namespace TransitSession

/-- The session classes built on `AsyncTransportSession`. -/
inductive Kind where
  | serial
  | can
  | webSocket
  | webSocketServer
deriving DecidableEq

namespace Kind

/-- The members of the derived class. -/
@[reducible] def Members : Kind → Type
  | .serial => Serial.State
  | .can => Can.State
  | .webSocket => WebSocket.State WebSocket.ClientMembers
  | .webSocketServer => WebSocket.State WebSocket.ServerMembers

/-- `ReadValue` and `WriteValue`. -/
@[reducible] def Value : Kind → Type
  | .can => Can.CanFrame
  | .serial | .webSocket | .webSocketServer => List UInt8

@[reducible] def DerivedCall : Kind → Type
  | .serial => SerialSession.DerivedCall
  | .can => CanSession.DerivedCall
  | .webSocket => WebSocketSession.DerivedCall
  | .webSocketServer => WebSocketServerSession.DerivedCall

@[reducible] def DerivedEvent : Kind → Type
  | .serial | .can | .webSocket => Empty
  | .webSocketServer => WebSocketServerSession.Handshake

@[reducible] def DerivedFrame : Kind → Type
  | .serial | .can | .webSocket => Empty
  | .webSocketServer => WebSocket.ServerFrame

instance : (k : Kind) → Inhabited k.Value
  | .can => inferInstanceAs (Inhabited Can.CanFrame)
  | .serial | .webSocket | .webSocketServer => inferInstanceAs (Inhabited (List UInt8))

def cls : (k : Kind) →
    SessionClass k.Members k.Value k.Value k.DerivedCall k.DerivedEvent k.DerivedFrame
  | .serial => SerialSession.cls
  | .can => CanSession.cls
  | .webSocket => WebSocketSession.cls
  | .webSocketServer => WebSocketServerSession.cls

theorem lawful : ∀ k : Kind, k.cls.Lawful
  | .serial => SerialSession.lawful
  | .can => CanSession.lawful
  | .webSocket => WebSocketSession.lawful
  | .webSocketServer => WebSocketServerSession.lawful

/-- The sessions that `create` returns. -/
def Created : (k : Kind) → Session k.Members k.Value k.Value → Prop
  | .serial, s => ∃ openEc res config, SerialSession.create openEc res config = some s
  | .can, s => ∃ res config, CanSession.create res config = some s
  | .webSocket, s => ∃ res config, WebSocketSession.create res config = some s
  | .webSocketServer, s => ∃ config, s = WebSocketServerSession.create config

theorem Created.fresh : ∀ {k : Kind} {s : Session k.Members k.Value k.Value},
    k.Created s → s.Fresh
  | .serial, _, ⟨_, _, _, h⟩ => SerialSession.create_derived h
  | .can, _, ⟨_, _, h⟩ => CanSession.create_derived h
  | .webSocket, _, ⟨_, _, h⟩ => WebSocketSession.create_derived h
  | .webSocketServer, _, ⟨_, h⟩ => ⟨_, h⟩

/-- A session and the user code that is running on its strand. -/
abbrev Config (k : Kind) :=
  Strand.Config (Session k.Members k.Value k.Value) (Frame k.DerivedFrame)

abbrev Label (k : Kind) := Strand.Label (Call k.Value k.DerivedCall) (Completion k.DerivedEvent)

/-- A run of a session whose steps all meet `ok`. -/
abbrev Run (k : Kind) (ok : k.Config → k.Label → Prop) : k.Config → k.Config → Prop :=
  k.cls.program.Run ok

/-- The configurations of the runs whose steps all meet `ok`. -/
def ReachableBy (k : Kind) (ok : k.Config → k.Label → Prop) (c : k.Config) : Prop :=
  ∃ s, k.Created s ∧ k.Run ok ⟨s, []⟩ c

/-- The configurations of all runs. -/
abbrev Reachable (k : Kind) (c : k.Config) : Prop := k.ReachableBy (fun _ _ => True) c

variable {k : Kind} {ok : k.Config → k.Label → Prop} {c c' : k.Config}

theorem ReachableBy.kept (h : k.ReachableBy ok c) : Kept c.state := by
  obtain ⟨s, hs, hr⟩ := h
  exact SessionClass.run_kept k.lawful hs.fresh hr

theorem ReachableBy.trans (h : k.ReachableBy ok c) (h' : k.Run ok c c') : k.ReachableBy ok c' := by
  obtain ⟨s, hs, hr⟩ := h
  exact ⟨s, hs, hr.trans h'⟩

theorem Created.reachable {s : Session k.Members k.Value k.Value} (h : k.Created s) :
    k.ReachableBy ok ⟨s, []⟩ := ⟨s, h, .refl⟩

theorem ReachableBy.step (h : k.ReachableBy ok c) (l : k.Label) (hok : ok c l)
    (hs : k.cls.program.step c l = some c') : k.ReachableBy ok c' :=
  h.trans (.step .refl hok hs)

/-- The run along `ls` of the session that `create` returned. -/
theorem exec_reachable (s : Option (Session k.Members k.Value k.Value)) (ls : List k.Label)
    (p : k.Config → Bool) (hs : ∀ t, s = some t → k.Created t)
    (h : (s.bind fun t => k.cls.program.exec ⟨t, []⟩ ls).any p = true) :
    ∃ c, k.Reachable c ∧ p c = true := by
  obtain ⟨c, hc, hp⟩ := (Option.any_eq_true _ _).1 h
  obtain ⟨t, ht, he⟩ := Option.bind_eq_some_iff.1 hc
  exact ⟨c, ⟨t, hs t ht, Transition.exec_run he⟩, hp⟩

theorem ReachableBy.reachable (h : k.ReachableBy ok c) : k.Reachable c := by
  obtain ⟨s, hs, hr⟩ := h
  exact ⟨s, hs, hr.mono fun _ _ _ => trivial⟩

end Kind

end TransitSession
