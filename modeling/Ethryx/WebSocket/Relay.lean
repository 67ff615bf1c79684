import Ethryx.Rpc
import Mathlib

/-!
# The relay between two sockets

`bridge_ws` runs two loops at once. A loop reads a message, sends it on and goes
back to reading; with mocking on, the loop that reads the client answers some
text frames itself, and both loops send to the client under one lock.

A sink takes a message or not, and a send whose flush fails has been taken
nevertheless. `drain_pair` may drop a loop wherever it stands once the other
has finished.
-/

namespace Relay

open Json Rpc

inductive Message where
  | text (t : Bytes)
  | binary (data : Bytes)
  | ping (data : Bytes)
  | pong (data : Bytes)
  | close (frame : Option (Nat × Bytes))
  deriving DecidableEq, Repr

def Message.isClose : Message → Bool
  | .close _ => true
  | _ => false

/-- The loops: client to upstream, upstream to client. -/
inductive Loop where
  | c2u
  | u2c
  deriving DecidableEq, Repr

def Loop.other : Loop → Loop
  | .c2u => .u2c
  | .u2c => .c2u

/-- What becomes of a message that was read. -/
inductive Action where
  | drop
  | answer (reply : Message)
  | pass
  deriving DecidableEq, Repr

/-- `forward` passes everything, as does the loop that reads the upstream. -/
def action (d : Deserializer) (mockEnabled : Bool) : Loop → Message → Action
  | .c2u, .text t =>
    if mockEnabled then
      match mockSyncing d t with
      | .silent => .drop
      | .reply r => .answer (.text r)
      | .forward => .pass
    else .pass
  | _, _ => .pass

/-- Where a loop stands. A message comes with whether it is a local reply. -/
inductive Pc where
  | reading
  /-- Waiting for the lock on the client's sink. -/
  | locking (m : Message) (reply : Bool)
  | sending (m : Message) (reply : Bool)
  /-- The sink has taken the message, the send has not returned. -/
  | flushing (m : Message) (reply : Bool)
  /-- One more read flushes the queued close acknowledgement. -/
  | closing
  | finished
  deriving DecidableEq, Repr

/-- A loop with what its reader has still to give. The stream may end in an
error: that stops the loop as the end does. -/
structure Side where
  input : List Message
  pc : Pc
  deriving DecidableEq, Repr

/-- Whether a send goes to the client's sink. -/
def Loop.toClient : Loop → Bool → Bool
  | .c2u, reply => reply
  | .u2c, _ => true

/-- Only with mocking on do two loops share a sink. -/
def begin (mockEnabled : Bool) (l : Loop) (m : Message) (reply : Bool) : Pc :=
  if mockEnabled && l.toClient reply then .locking m reply else .sending m reply

/-- Where a loop goes from a message that was read. -/
def dispatch (mockEnabled : Bool) (l : Loop) (m : Message) : Action → Pc
  | .drop => .reading
  | .answer r => begin mockEnabled l r true
  | .pass => begin mockEnabled l m false

/-- Where a loop goes when a send has returned. -/
def afterSend (m : Message) (reply ok : Bool) : Pc :=
  if !reply && m.isClose then .closing
  else if ok then .reading else .finished

structure State where
  side : Loop → Side
  /-- Who holds the lock on the client's sink. -/
  lock : Option Loop
  /-- What the upstream's sink has taken. -/
  upstream : List Message
  /-- What the client's sink has taken. -/
  client : List Message

namespace State

def set (s : State) (l : Loop) (σ : Side) : State := { s with side := Function.update s.side l σ }

def unlock (s : State) (l : Loop) : State :=
  { s with lock := if s.lock = some l then none else s.lock }

/-- The sink of a send takes a message. -/
def push (s : State) (l : Loop) (reply : Bool) (m : Message) : State :=
  if l.toClient reply then { s with client := s.client ++ [m] }
  else { s with upstream := s.upstream ++ [m] }

def start (streams : Loop → List Message) : State :=
  ⟨fun l => ⟨streams l, .reading⟩, none, [], []⟩

end State

/-- One step of either loop, or the cut of `drain_pair`. -/
inductive Step (d : Deserializer) (mockEnabled : Bool) : State → State → Prop where
  | read {s : State} (l : Loop) (m : Message) (rest : List Message)
      (h : s.side l = ⟨m :: rest, .reading⟩) :
      Step d mockEnabled s
        (s.set l ⟨rest, dispatch mockEnabled l m (action d mockEnabled l m)⟩)
  | ended {s : State} (l : Loop) (h : s.side l = ⟨[], .reading⟩) :
      Step d mockEnabled s (s.set l ⟨[], .finished⟩)
  | lock {s : State} (l : Loop) (m : Message) (reply : Bool) (input : List Message)
      (h : s.side l = ⟨input, .locking m reply⟩) (free : s.lock = none) :
      Step d mockEnabled s { s.set l ⟨input, .sending m reply⟩ with lock := some l }
  | accept {s : State} (l : Loop) (m : Message) (reply : Bool) (input : List Message)
      (h : s.side l = ⟨input, .sending m reply⟩) :
      Step d mockEnabled s ((s.set l ⟨input, .flushing m reply⟩).push l reply m)
  | reject {s : State} (l : Loop) (m : Message) (reply : Bool) (input : List Message)
      (h : s.side l = ⟨input, .sending m reply⟩) :
      Step d mockEnabled s ((s.set l ⟨input, afterSend m reply false⟩).unlock l)
  | flush {s : State} (l : Loop) (m : Message) (reply ok : Bool) (input : List Message)
      (h : s.side l = ⟨input, .flushing m reply⟩) :
      Step d mockEnabled s ((s.set l ⟨input, afterSend m reply ok⟩).unlock l)
  /-- The extra read takes one item, or times out. -/
  | closed {s : State} (l : Loop) (input rest : List Message)
      (h : s.side l = ⟨input, .closing⟩) (took : rest = input ∨ rest = input.tail) :
      Step d mockEnabled s (s.set l ⟨rest, .finished⟩)
  | cut {s : State} (l : Loop) (h : (s.side l.other).pc = .finished) :
      Step d mockEnabled s ((s.set l ⟨(s.side l).input, .finished⟩).unlock l)

inductive Reachable (d : Deserializer) (mockEnabled : Bool) (streams : Loop → List Message) :
    State → Prop where
  | start : Reachable d mockEnabled streams (.start streams)
  | next {s t : State} : Reachable d mockEnabled streams s → Step d mockEnabled s t →
      Reachable d mockEnabled streams t

end Relay
