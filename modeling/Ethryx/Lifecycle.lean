/-!
# Shutdown

`run_inner` from the moment its listeners are bound: the main task, the tasks it
spawns, the tasks these spawn, and the completion guards all of them hold. A
guard is a clone of the sender of one channel, whose receiver yields nothing
once every clone is dropped.

A task ends, its future is dropped, then its guard. An accept loop is the
exception: its guard goes before its listener, and the main task joins it. A
clone behind a shared `Connection` is counted in every task that shares it.
-/

namespace Lifecycle

abbrev Instant := Nat

inductive Kind where
  | acceptLoop
  | connection
  | request
  | relay
  | poller
  deriving DecidableEq, Repr

/-- A future runs, has ended, and is dropped with the sockets it owns. -/
inductive Phase where
  | live
  | finished
  | released
  deriving DecidableEq, Repr

structure Task where
  kind : Kind
  phase : Phase
  /-- Clones of the completion sender. -/
  guards : Nat
  /-- The shutdown deadline the task has been told. -/
  observed : Option Instant
  deriving DecidableEq, Repr

/-- Where `run_inner` waits. -/
inductive Main where
  | serving
  /-- `h.await` of an accept handle. -/
  | joinAccept (handle : Nat)
  | joinPoller
  /-- `drop(lifecycle)`. -/
  | dropping
  /-- `conn_rx.recv().await`. -/
  | draining
  | passed
  | returned
  deriving DecidableEq, Repr

structure State where
  main : Main
  tasks : List Task
  /-- Senders of the channel that are not dropped. -/
  senders : Nat
  /-- The value of the shutdown watch. -/
  published : Option Instant
  now : Instant
  deriving DecidableEq, Repr

/-- A fresh task that holds one guard. -/
def Kind.spawned (kind : Kind) : Task := ⟨kind, .live, 1, none⟩

/-- `acceptLoops` loops and perhaps a poller, which holds no guard. The tasks come
in the order of their handles. -/
def start (acceptLoops : Nat) (poller : Bool) (now : Instant) : State where
  main := .serving
  tasks := List.replicate acceptLoops Kind.acceptLoop.spawned ++
    if poller then [⟨.poller, .live, 0, none⟩] else []
  senders := acceptLoops + 1
  published := none
  now := now

/-- The tasks that start others: a connection those of its HTTP/2 requests, either
of them a relay. -/
def Kind.spawns : Kind → Kind → Bool
  | .acceptLoop, .connection => true
  | .connection, .request | .connection, .relay => true
  | .request, .request | .request, .relay => true
  | _, _ => false

/-- The tasks that `timeout_at` cancels. -/
def Kind.cancelled : Kind → Bool
  | .connection | .request | .relay => true
  | .acceptLoop | .poller => false

def State.setTask (s : State) (i : Nat) (t : Task) : State := { s with tasks := s.tasks.set i t }

section
variable (acceptLoops : Nat) (poller : Bool) (grace : Nat)

inductive Step : State → State → Prop where
  | tick {s : State} : Step s { s with now := s.now + 1 }
  /-- An accept, a request of a connection, an upgrade. -/
  | spawn {s : State} {i : Nat} {t : Task} (kind : Kind) (h : s.tasks[i]? = some t)
      (live : t.phase = .live) (may : t.kind.spawns kind = true)
      (accepting : t.kind = .acceptLoop → t.observed = none) :
      Step s { s with tasks := s.tasks ++ [kind.spawned], senders := s.senders + 1 }
  | clone {s : State} {i : Nat} {t : Task} (h : s.tasks[i]? = some t) (live : t.phase = .live)
      (held : 1 ≤ t.guards) :
      Step s { s.setTask i { t with guards := t.guards + 1 } with senders := s.senders + 1 }
  /-- Any clone but the last may go at any time. -/
  | dropClone {s : State} {i : Nat} {t : Task} (h : s.tasks[i]? = some t)
      (spare : 2 ≤ t.guards) :
      Step s { s.setTask i { t with guards := t.guards - 1 } with senders := s.senders - 1 }
  | observe {s : State} {i : Nat} {t : Task} {value : Instant} (h : s.tasks[i]? = some t)
      (live : t.phase = .live) (published : s.published = some value) :
      Step s (s.setTask i { t with observed := some value })
  /-- The watch is closed without a value: `unwrap_or_else(Instant::now)`. -/
  | observeClosed {s : State} {i : Nat} {t : Task} (h : s.tasks[i]? = some t)
      (live : t.phase = .live) (closed : s.main = .returned) (unset : s.published = none) :
      Step s (s.setTask i { t with observed := some s.now })
  /-- A task returns or panics. -/
  | complete {s : State} {i : Nat} {t : Task} (h : s.tasks[i]? = some t)
      (live : t.phase = .live) :
      Step s (s.setTask i { t with phase := .finished })
  | cancel {s : State} {i : Nat} {t : Task} {value : Instant} (h : s.tasks[i]? = some t)
      (live : t.phase = .live) (kind : t.kind.cancelled = true)
      (observed : t.observed = some value) (late : value ≤ s.now) :
      Step s (s.setTask i { t with phase := .finished })
  /-- The future goes, with the clones inside it; the last guard stays. -/
  | release {s : State} {i : Nat} {t : Task} (h : s.tasks[i]? = some t)
      (finished : t.phase = .finished) (last : t.guards ≤ 1)
      (loop : t.kind = .acceptLoop → t.guards = 0) :
      Step s (s.setTask i { t with phase := .released })
  /-- The last guard of a task goes after its future, that of an accept loop before. -/
  | dropGuard {s : State} {i : Nat} {t : Task} (h : s.tasks[i]? = some t)
      (last : t.guards = 1)
      (gone : t.phase = .released ∨ (t.kind = .acceptLoop ∧ t.phase = .finished)) :
      Step s { s.setTask i { t with guards := 0 } with senders := s.senders - 1 }
  /-- The shutdown signal: `send_replace(Some(now + grace))`. -/
  | signal {s : State} (serving : s.main = .serving) :
      Step s { s with main := .joinAccept 0, published := some (s.now + grace) }
  /-- A handle resolves once the task's future is dropped. -/
  | joinAccept {s : State} {handle : Nat} {t : Task} (at_ : s.main = .joinAccept handle)
      (lt : handle < acceptLoops) (h : s.tasks[handle]? = some t)
      (released : t.phase = .released) :
      Step s { s with main := .joinAccept (handle + 1) }
  | acceptsJoined {s : State} (at_ : s.main = .joinAccept acceptLoops) :
      Step s { s with main := .joinPoller }
  | joinPoller {s : State} (at_ : s.main = .joinPoller)
      (released : poller = true →
        ∃ t, s.tasks[acceptLoops]? = some t ∧ t.phase = .released) :
      Step s { s with main := .dropping }
  | dropMain {s : State} (at_ : s.main = .dropping) :
      Step s { s with main := .draining, senders := s.senders - 1 }
  | recv {s : State} (at_ : s.main = .draining) (empty : s.senders = 0) :
      Step s { s with main := .passed }
  | ret {s : State} (at_ : s.main = .passed) : Step s { s with main := .returned }

inductive Reachable : State → Prop where
  | start (now : Instant) : Reachable (start acceptLoops poller now)
  | next {s t : State} : Reachable s → Step acceptLoops poller grace s t → Reachable t

/-- Any number of steps. -/
inductive Steps : State → State → Prop where
  | refl (s : State) : Steps s s
  | next {s t u : State} : Steps s t → Step acceptLoops poller grace t u → Steps s u

end

end Lifecycle
