import Ethryx.Lifecycle
import Mathlib

/-!
# The process in time

The clock ticks in milliseconds. A task that can go on does so before the next tick;
an accept loop that sleeps after a failed accept hears of nothing. There is no telemetry
to shut down.

* `Drains`: what the process does of itself, and when it waits for the clock;
* `Timed.Step`: that, among what comes from outside;
* `reachable_process`: the timed process is a run of the untimed one.
-/

namespace Lifecycle

/-- `accept_loop` backs off that long after a failed accept. -/
def pause : Instant := 100

/-- The process, and when the accept loops that back off wake up. -/
structure Timed extends State where
  asleep : Nat → Option Instant

/-- The task is not in its pause. -/
def Timed.awake (s : Timed) (i : Nat) : Prop := ∀ wake, s.asleep i = some wake → wake ≤ s.now

section
variable (acceptLoops : Nat) (poller : Bool) (grace : Nat)

/-- What the process does of itself: a task hears of the deadline; a loop that has heard
of it ends, everything else is cancelled when it is due; what a task owns goes with
it, and the main task goes on. -/
inductive Acts (awake : Nat → Prop) : State → State → Prop where
  | observe {s : State} {i : Nat} {t : Task} {value : Instant} (h : s.tasks[i]? = some t)
      (live : t.phase = .live) (unheard : t.observed = none) (up : awake i)
      (published : s.published = some value) :
      Acts awake s (s.setTask i { t with observed := some value })
  /-- `accept_loop` and `poll_loop` return where they hear of it. -/
  | leave {s : State} {i : Nat} {t : Task} {value : Instant} (h : s.tasks[i]? = some t)
      (live : t.phase = .live) (kind : t.kind.cancelled = false)
      (observed : t.observed = some value) :
      Acts awake s (s.setTask i { t with phase := .finished })
  | cancel {s : State} {i : Nat} {t : Task} {value : Instant} (h : s.tasks[i]? = some t)
      (live : t.phase = .live) (kind : t.kind.cancelled = true)
      (observed : t.observed = some value) (late : value ≤ s.now) :
      Acts awake s (s.setTask i { t with phase := .finished })
  | dropClone {s : State} {i : Nat} {t : Task} (h : s.tasks[i]? = some t)
      (ended : t.phase ≠ .live) (spare : 2 ≤ t.guards) :
      Acts awake s { s.setTask i { t with guards := t.guards - 1 } with senders := s.senders - 1 }
  | release {s : State} {i : Nat} {t : Task} (h : s.tasks[i]? = some t)
      (finished : t.phase = .finished) (last : t.guards ≤ 1)
      (loop : t.kind = .acceptLoop → t.guards = 0) :
      Acts awake s (s.setTask i { t with phase := .released })
  | dropGuard {s : State} {i : Nat} {t : Task} (h : s.tasks[i]? = some t)
      (last : t.guards = 1)
      (gone : t.phase = .released ∨ (t.kind = .acceptLoop ∧ t.phase = .finished)) :
      Acts awake s { s.setTask i { t with guards := 0 } with senders := s.senders - 1 }
  | joinAccept {s : State} {handle : Nat} {t : Task} (at_ : s.main = .joinAccept handle)
      (lt : handle < acceptLoops) (h : s.tasks[handle]? = some t)
      (released : t.phase = .released) :
      Acts awake s { s with main := .joinAccept (handle + 1) }
  | acceptsJoined {s : State} (at_ : s.main = .joinAccept acceptLoops) :
      Acts awake s { s with main := .joinPoller }
  | joinPoller {s : State} (at_ : s.main = .joinPoller)
      (released : poller = true →
        ∃ t, s.tasks[acceptLoops]? = some t ∧ t.phase = .released) :
      Acts awake s { s with main := .dropping }
  | dropMain {s : State} (at_ : s.main = .dropping) :
      Acts awake s { s with main := .draining, senders := s.senders - 1 }
  | recv {s : State} (at_ : s.main = .draining) (empty : s.senders = 0) :
      Acts awake s { s with main := .passed }
  | ret {s : State} (at_ : s.main = .passed) : Acts awake s { s with main := .returned }

/-- What comes from outside: connections, requests and upgrades, their ends, and the signal. -/
inductive Peer (s : Timed) : State → Prop where
  | spawn {i : Nat} {t : Task} (kind : Kind) (h : s.tasks[i]? = some t)
      (live : t.phase = .live) (may : t.kind.spawns kind = true)
      (accepting : t.kind = .acceptLoop → t.observed = none ∧ s.asleep i = none) :
      Peer s { s.toState with
        tasks := s.tasks ++ [kind.spawned], senders := s.senders + 1 }
  | clone {i : Nat} {t : Task} (h : s.tasks[i]? = some t) (live : t.phase = .live)
      (held : 1 ≤ t.guards) (up : s.awake i) :
      Peer s { s.toState.setTask i { t with guards := t.guards + 1 } with
        senders := s.senders + 1 }
  | dropClone {i : Nat} {t : Task} (h : s.tasks[i]? = some t) (spare : 2 ≤ t.guards)
      (up : s.awake i) :
      Peer s { s.toState.setTask i { t with guards := t.guards - 1 } with
        senders := s.senders - 1 }
  | complete {i : Nat} {t : Task} (h : s.tasks[i]? = some t) (live : t.phase = .live)
      (up : s.awake i) :
      Peer s (s.toState.setTask i { t with phase := .finished })
  | signal (serving : s.main = .serving) :
      Peer s { s.toState with main := .joinAccept 0, published := some (s.now + grace) }

/-- The process goes on by itself, and where it cannot, the clock does, until
`run_inner` has returned. -/
inductive Drains : Timed → Timed → Prop where
  | act {s : Timed} {p : State} (h : Acts acceptLoops poller s.awake s.toState p) :
      Drains s { s with toState := p }
  | wait {s : Timed} (waits : s.main ≠ .returned)
      (idle : ∀ p, ¬ Acts acceptLoops poller s.awake s.toState p) :
      Drains s { s with now := s.now + 1 }

inductive Timed.Step : Timed → Timed → Prop where
  | own {s u : Timed} (h : Drains acceptLoops poller s u) : Timed.Step s u
  | peer {s : Timed} {p : State} (h : Peer grace s p) : Timed.Step s { s with toState := p }
  /-- An accept fails. The signal may have come since the loop asked for the deadline. -/
  | fail {s : Timed} {i : Nat} {t : Task} (h : s.tasks[i]? = some t)
      (loop : t.kind = .acceptLoop) (live : t.phase = .live) (unheard : t.observed = none)
      (selecting : s.asleep i = none) :
      Timed.Step s { s with asleep := Function.update s.asleep i (some (s.now + pause)) }
  /-- The pause is over, and the loop asks for the deadline before it accepts again. -/
  | resume {s : Timed} {i : Nat} (up : s.awake i) (unset : s.published = none) :
      Timed.Step s { s with asleep := Function.update s.asleep i none }

inductive Timed.Reachable : Timed → Prop where
  | start (now : Instant) : Timed.Reachable ⟨Lifecycle.start acceptLoops poller now, fun _ => none⟩
  | next {s u : Timed} : Timed.Reachable s → Timed.Step acceptLoops poller grace s u →
      Timed.Reachable u

end
section
variable {acceptLoops : Nat} {poller : Bool} {grace : Nat} {s u : Timed} {p : State}

/-! ## The untimed process -/

theorem Acts.step {s : State} {awake : Nat → Prop} (h : Acts acceptLoops poller awake s p) :
    Step acceptLoops poller grace s p := by
  cases h with
  | observe hi live _ _ published => exact .observe hi live published
  | leave hi live => exact .complete hi live
  | cancel hi live kind observed late => exact .cancel hi live kind observed late
  | dropClone hi _ spare => exact .dropClone hi spare
  | release hi finished last loop => exact .release hi finished last loop
  | dropGuard hi last gone => exact .dropGuard hi last gone
  | joinAccept at_ lt hi released => exact .joinAccept at_ lt hi released
  | acceptsJoined at_ => exact .acceptsJoined at_
  | joinPoller at_ released => exact .joinPoller at_ released
  | dropMain at_ => exact .dropMain at_
  | recv at_ empty => exact .recv at_ empty
  | ret at_ => exact .ret at_

theorem Peer.step (h : Peer grace s p) : Step acceptLoops poller grace s.toState p := by
  cases h with
  | spawn kind hi live may accepting =>
    exact .spawn kind hi live may fun loop => (accepting loop).1
  | clone hi live held => exact .clone hi live held
  | dropClone hi spare => exact .dropClone hi spare
  | complete hi live => exact .complete hi live
  | signal serving => exact .signal serving

end

end Lifecycle
