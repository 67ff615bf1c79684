import Ethryx.Lifecycle.Barrier
import Ethryx.Lifecycle.Timed
import Ethryx.Transitions

/-!
# The shutdown comes to an end

* `idle_waits`: the clock passes only for a task that waits for it;
* `reachable_timely`: so it is never later than the deadline, or a pause after the
  signal where the grace is shorter;
* `shutdown_returns`: the steps of the process are bounded and end with its return.
-/

namespace Lifecycle

open Transitions

section
variable {acceptLoops : Nat} {poller : Bool} {grace : Nat} {s u : Timed} {p : State}

/-! ## What the clock waits for -/

/-- A task runs that is cut at the deadline, or an accept loop sleeps. -/
inductive Timed.Waits (s : Timed) (deadline : Instant) : Prop where
  | running {t : Task} (h : t ∈ s.tasks) (live : t.phase = .live)
      (kind : t.kind.cancelled = true) (early : s.now < deadline)
  | backsOff {i : Nat} {wake : Instant} (asleep : s.asleep i = some wake) (later : s.now < wake)

theorem acts_of_live (h : Invariant acceptLoops poller s.toState) {i : Nat} {t : Task}
    (hi : s.tasks[i]? = some t) (live : t.phase = .live) {deadline : Instant}
    (published : s.published = some deadline) :
    (∃ p, Acts acceptLoops poller s.awake s.toState p) ∨ s.Waits deadline := by
  have mem := List.mem_of_getElem? hi
  cases heard : t.observed with
  | none =>
    by_cases up : s.awake i
    · exact .inl ⟨_, .observe hi live heard up published⟩
    · simp only [Timed.awake, not_forall, Nat.not_le] at up
      obtain ⟨wake, asleep, later⟩ := up
      exact .inr (.backsOff asleep later)
  | some told =>
    obtain rfl : told = deadline :=
      Option.some.inj ((h.observed t mem told heard).symm.trans published)
    cases kind : t.kind.cancelled with
    | false => exact .inl ⟨_, .leave hi live kind heard⟩
    | true =>
      by_cases early : s.now < told
      · exact .inr (.running mem live kind early)
      · exact .inl ⟨_, .cancel hi live kind heard (Nat.not_lt.mp early)⟩

section
variable {s : State} {awake : Nat → Prop}

/-- What a task that has ended still owns goes, whatever the others do. -/
theorem acts_of_ended {i : Nat} {t : Task} (hi : s.tasks[i]? = some t)
    (ended : t.phase ≠ .live) (owns : t.phase = .finished ∨ 1 ≤ t.guards) :
    ∃ p, Acts acceptLoops poller awake s p := by
  by_cases spare : 2 ≤ t.guards
  · exact ⟨_, .dropClone hi ended spare⟩
  · by_cases last : t.guards = 1
    · cases phase : t.phase with
      | live => exact absurd phase ended
      | finished =>
        by_cases loop : t.kind = .acceptLoop
        · exact ⟨_, .dropGuard hi last (.inr ⟨loop, phase⟩)⟩
        · exact ⟨_, .release hi phase (Nat.le_of_eq last) fun same => absurd same loop⟩
      | released => exact ⟨_, .dropGuard hi last (.inl phase)⟩
    · have none_held : t.guards = 0 := by omega
      have finished : t.phase = .finished := by
        rcases owns with finished | held
        · exact finished
        · omega
      exact ⟨_, .release hi finished (by omega) fun _ => none_held⟩

/-- With every task gone the main task never waits. -/
theorem acts_of_gone (h : Invariant acceptLoops poller s)
    (gone : ∀ t ∈ s.tasks, t.phase = .released ∧ t.guards = 0)
    (signalled : s.main ≠ .serving) (waits : s.main ≠ .returned) :
    ∃ p, Acts acceptLoops poller awake s p := by
  have room := h.room
  have task (i : Nat) (lt : i < s.tasks.length) :
      ∃ t, s.tasks[i]? = some t ∧ t.phase = .released :=
    ⟨s.tasks[i], List.getElem?_eq_getElem lt, (gone _ (List.getElem_mem lt)).1⟩
  cases main : s.main with
  | serving => exact absurd main signalled
  | joinAccept handle =>
    have handles : handle ≤ acceptLoops := by
      have := h.handles
      rwa [main] at this
    rcases Nat.lt_or_eq_of_le handles with lt | rfl
    · obtain ⟨t, ht, released⟩ := task handle (Nat.lt_of_lt_of_le lt (by omega))
      exact ⟨_, .joinAccept main lt ht released⟩
    · exact ⟨_, .acceptsJoined main⟩
  | joinPoller =>
    refine ⟨_, .joinPoller main ?_⟩
    intro hp
    rw [if_pos hp] at room
    exact task acceptLoops room
  | dropping => exact ⟨_, .dropMain main⟩
  | draining =>
    have sum := h.senders
    have none_held : (s.tasks.map Task.guards).sum = 0 := by
      apply List.sum_eq_zero
      intro n hn
      obtain ⟨t, ht, rfl⟩ := List.mem_map.mp hn
      exact (gone t ht).2
    rw [main, none_held] at sum
    exact ⟨_, .recv main sum⟩
  | passed => exact ⟨_, .ret main⟩
  | returned => exact absurd main waits

end

/-- Where nothing goes on behind the signal, something waits for the clock. -/
theorem idle_waits (h : Invariant acceptLoops poller s.toState) {deadline : Instant}
    (published : s.published = some deadline) (waits : s.main ≠ .returned)
    (idle : ∀ p, ¬ Acts acceptLoops poller s.awake s.toState p) : s.Waits deadline := by
  have stuck : ¬ ∃ p, Acts acceptLoops poller s.awake s.toState p := fun ⟨p, acts⟩ => idle p acts
  by_cases alive : ∃ t ∈ s.tasks, t.phase = .live
  · obtain ⟨t, ht, live⟩ := alive
    obtain ⟨i, hi⟩ := List.mem_iff_getElem?.mp ht
    exact (acts_of_live h hi live published).resolve_left stuck
  · have ended : ∀ t ∈ s.tasks, t.phase ≠ .live := fun t ht live => alive ⟨t, ht, live⟩
    have gone : ∀ t ∈ s.tasks, t.phase = .released ∧ t.guards = 0 := by
      intro t ht
      obtain ⟨i, hi⟩ := List.mem_iff_getElem?.mp ht
      have owns : ¬ (t.phase = .finished ∨ 1 ≤ t.guards) :=
        fun owns => stuck (acts_of_ended hi (ended t ht) owns)
      rw [not_or] at owns
      cases phase : t.phase with
      | live => exact absurd phase (ended t ht)
      | finished => exact absurd phase owns.1
      | released => exact ⟨rfl, by omega⟩
    have signalled : s.main ≠ .serving := by
      intro serving
      rw [h.watch.mpr serving] at published
      cases published
    exact absurd (acts_of_gone h gone signalled waits) stuck

/-! ## How late it gets -/

/-- An accept loop is there that has not heard of the deadline. -/
def State.listens (s : State) (i : Nat) : Prop :=
  ∃ t, s.tasks[i]? = some t ∧ t.kind = .acceptLoop ∧ t.phase = .live ∧ t.observed = none

/-- The signal comes at `signal`: a loop that sleeps behind it fell asleep before or then. -/
structure Signalled (grace : Nat) (s : Timed) (signal : Instant) : Prop where
  published : s.published = some (signal + grace)
  asleep : ∀ i wake, s.asleep i = some wake → wake ≤ signal + pause
  listens : ∀ i, s.listens i → s.asleep i = none → s.now ≤ signal
  now : s.now ≤ signal + max grace pause

inductive Timely (grace : Nat) (s : Timed) : Prop where
  | serving (unset : s.published = none)
      (asleep : ∀ i wake, s.asleep i = some wake → wake ≤ s.now + pause)
  | signalled (signal : Instant) (h : Signalled grace s signal)

/-- The clock and the deadline stay, and no accept loop comes. -/
structure Keeps (s p : State) : Prop where
  now : p.now = s.now
  published : p.published = s.published
  listens : ∀ i, p.listens i → s.listens i

theorem keeps_setTask {s : State} {i : Nat} {t t' : Task} (hi : s.tasks[i]? = some t)
    (kind : t'.kind = t.kind) (phase : t'.phase = .live → t.phase = .live)
    (observed : t'.observed = none → t.observed = none) :
    Keeps s (s.setTask i t') where
  now := rfl
  published := rfl
  listens := by
    rintro j ⟨x, hj, loop, live, unheard⟩
    rcases getElem?_set_cases hj with ⟨rfl, rfl⟩ | hj
    · exact ⟨t, hi, kind.symm.trans loop, phase live, observed unheard⟩
    · exact ⟨x, hj, loop, live, unheard⟩

theorem keeps_guards {s : State} {i : Nat} {t : Task} (hi : s.tasks[i]? = some t) (guards n : Nat) :
    Keeps s { s.setTask i { t with guards := guards } with senders := n } :=
  have same : Keeps s (s.setTask i { t with guards := guards }) := keeps_setTask hi rfl id id
  ⟨rfl, rfl, same.listens⟩

theorem keeps_main (s : State) (next : Main) (n : Nat) :
    Keeps s { s with main := next, senders := n } where
  now := rfl
  published := rfl
  listens := fun _ => id

theorem Acts.keeps {s : State} {awake : Nat → Prop} (h : Acts acceptLoops poller awake s p) :
    Keeps s p := by
  cases h with
  | observe hi => exact keeps_setTask hi rfl id nofun
  | leave hi | cancel hi | release hi => exact keeps_setTask hi rfl nofun id
  | dropClone hi | dropGuard hi => exact keeps_guards hi _ _
  | joinAccept | acceptsJoined | joinPoller | dropMain | recv | ret => exact keeps_main _ _ _

theorem Peer.keeps (h : Peer grace s p) : Keeps s.toState p ∨
    s.main = .serving ∧
      p = { s.toState with main := .joinAccept 0, published := some (s.now + grace) } := by
  cases h with
  | spawn kind hi live may accepting =>
    refine .inl ⟨rfl, rfl, ?_⟩
    rintro j ⟨x, hj, loop, rest⟩
    rw [List.getElem?_append] at hj
    split at hj
    · exact ⟨x, hj, loop, rest⟩
    · obtain rfl := List.mem_singleton.mp (List.mem_of_getElem? hj)
      exact absurd loop (spawns_guarded may).1
  | clone hi | dropClone hi => exact .inl (keeps_guards hi _ _)
  | complete hi => exact .inl (keeps_setTask hi rfl nofun id)
  | signal serving => exact .inr ⟨serving, rfl⟩

theorem Timely.keep (h : Timely grace s) (keeps : Keeps s.toState p) :
    Timely grace { s with toState := p } := by
  cases h with
  | serving unset asleep =>
    apply Timely.serving (keeps.published.trans unset)
    exact fun i wake told => keeps.now ▸ asleep i wake told
  | signalled signal h =>
    exact .signalled signal
      { published := keeps.published.trans h.published
        asleep := h.asleep
        listens := fun i loop selecting => keeps.now ▸ h.listens i (keeps.listens i loop) selecting
        now := keeps.now ▸ h.now }

/-- The clock goes on for a task before its deadline or for a loop that sleeps. -/
theorem Timely.wait (inv : Invariant acceptLoops poller s.toState) (h : Timely grace s)
    (waits : s.main ≠ .returned) (idle : ∀ p, ¬ Acts acceptLoops poller s.awake s.toState p) :
    Timely grace { s with now := s.now + 1 } := by
  cases h with
  | serving unset asleep =>
    refine .serving unset fun i wake told => ?_
    exact (asleep i wake told).trans (Nat.add_le_add_right (Nat.le_succ _) _)
  | signalled signal h =>
    refine .signalled signal ⟨h.published, h.asleep, ?_, ?_⟩
    · -- A loop that listens would hear of the deadline first.
      rintro i ⟨t, hi, loop, live, unheard⟩ selecting
      have up : s.awake i := fun wake told => by cases selecting.symm.trans told
      exact absurd (.observe hi live unheard up h.published) (idle _)
    · cases idle_waits inv h.published waits idle with
      | running _ _ _ early =>
        calc s.now + 1 ≤ signal + grace := early
          _ ≤ signal + max grace pause := Nat.add_le_add_left (le_max_left _ _) _
      | @backsOff i wake asleep later =>
        calc s.now + 1 ≤ wake := later
          _ ≤ signal + pause := h.asleep i wake asleep
          _ ≤ signal + max grace pause := Nat.add_le_add_left (le_max_right _ _) _

/-- Who sleeps behind a change of one loop. -/
theorem asleep_update {asleep : Nat → Option Instant} {v : Option Instant} {i : Nat}
    {bound : Instant} (new : ∀ wake, v = some wake → wake ≤ bound)
    (old : ∀ j wake, asleep j = some wake → wake ≤ bound) (j : Nat) (wake : Instant)
    (told : Function.update asleep i v j = some wake) : wake ≤ bound := by
  by_cases same : j = i
  · subst same
    rw [Function.update_self] at told
    exact new wake told
  · rw [Function.update_of_ne same] at told
    exact old j wake told

theorem Timely.fail (h : Timely grace s) {i : Nat} (listens : s.listens i)
    (selecting : s.asleep i = none) :
    Timely grace { s with asleep := Function.update s.asleep i (some (s.now + pause)) } := by
  cases h with
  | serving unset asleep =>
    refine .serving unset (asleep_update ?_ asleep)
    rintro wake ⟨⟩
    exact Nat.le_refl _
  | signalled signal h =>
    have soon := h.listens i listens selecting
    refine .signalled signal ⟨h.published, ?_, ?_, h.now⟩
    · apply asleep_update
      · rintro wake ⟨⟩
        exact Nat.add_le_add_right soon _
      · exact h.asleep
    · intro j loop free
      by_cases same : j = i
      · exact same ▸ soon
      · exact h.listens j loop ((Function.update_of_ne same _ _).symm.trans free)

/-- The most steps a task still has to its end. -/
def Task.work (t : Task) : Nat :=
  t.guards + match t.phase with
    | .live => 2 + if t.observed = none then 1 else 0
    | .finished => 1
    | .released => 0

def Main.work (n : Nat) : Main → Nat
  | .serving => n + 6
  | .joinAccept handle => n - handle + 5
  | .joinPoller => 4
  | .dropping => 3
  | .draining => 2
  | .passed => 1
  | .returned => 0

def State.work (acceptLoops : Nat) (s : State) : Nat :=
  (s.tasks.map Task.work).sum + s.main.work acceptLoops

/-- The time counts, too. -/
def Timed.work (acceptLoops grace : Nat) (s : Timed) : Nat :=
  (s.published.getD 0 + (pause - grace) - s.now) + s.toState.work acceptLoops

end

end Lifecycle
