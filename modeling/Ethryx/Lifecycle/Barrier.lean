import Ethryx.Lifecycle
import Mathlib

/-!
# The shutdown barrier

* `Invariant`: the senders are the guards, a task that is not dropped has one,
  and what the main task has joined is dropped;
* `step_invariant`, `reachable_invariant`: in every interleaving;
* `shutdown_barrier`: behind `conn_rx.recv()` nothing is left and nothing comes.
-/

namespace Lifecycle

/-- The main task drops its guard behind `dropping`. -/
def Main.guards : Main → Nat
  | .draining | .passed | .returned => 0
  | _ => 1

/-- The accept handles awaited so far, of `n`. -/
def Main.joined (n : Nat) : Main → Nat
  | .serving => 0
  | .joinAccept handle => handle
  | _ => n

def Main.pollerJoined : Main → Bool
  | .serving | .joinAccept _ | .joinPoller => false
  | _ => true

def Main.done : Main → Bool
  | .passed | .returned => true
  | _ => false

/-- A task that must still hold a guard. -/
def Task.guarded (t : Task) : Prop :=
  t.kind ≠ .poller ∧ t.phase ≠ .released ∧ (t.kind = .acceptLoop → t.phase = .live)

structure Invariant (acceptLoops : Nat) (poller : Bool) (s : State) : Prop where
  senders : s.senders = s.main.guards + (s.tasks.map Task.guards).sum
  guarded : ∀ t ∈ s.tasks, t.guarded → 1 ≤ t.guards
  loops : ∀ i t, s.tasks[i]? = some t → t.kind = .acceptLoop → i < acceptLoops
  pollers : ∀ i t, s.tasks[i]? = some t → t.kind = .poller → poller = true ∧ i = acceptLoops
  handles : s.main.joined acceptLoops ≤ acceptLoops
  room : acceptLoops + (if poller = true then 1 else 0) ≤ s.tasks.length
  joined : ∀ i t, s.tasks[i]? = some t → i < s.main.joined acceptLoops → t.phase = .released
  pollerJoined : ∀ t, s.main.pollerJoined = true → poller = true →
    s.tasks[acceptLoops]? = some t → t.phase = .released
  watch : s.published = none ↔ s.main = .serving
  observed : ∀ t ∈ s.tasks, ∀ value, t.observed = some value → s.published = some value
  drained : s.main.done = true → s.senders = 0

theorem sum_set {ts : List Task} {i : Nat} {t : Task} (h : ts[i]? = some t) (t' : Task) :
    ((ts.set i t').map Task.guards).sum + t.guards = (ts.map Task.guards).sum + t'.guards := by
  induction ts generalizing i with
  | nil => simp at h
  | cons x ts ih =>
    cases i with
    | zero =>
      obtain rfl : x = t := by simpa using h
      simp only [List.set_cons_zero, List.map_cons, List.sum_cons]
      omega
    | succ i =>
      have := ih (i := i) (by simpa using h)
      simp only [List.set_cons_succ, List.map_cons, List.sum_cons]
      omega

theorem guards_le_sum {ts : List Task} {t : Task} (h : t ∈ ts) :
    t.guards ≤ (ts.map Task.guards).sum :=
  List.le_sum_of_mem (List.mem_map_of_mem h)

theorem getElem?_set_cases {ts : List Task} {i j : Nat} {t x : Task}
    (h : (ts.set i t)[j]? = some x) : (j = i ∧ x = t) ∨ ts[j]? = some x := by
  rw [List.getElem?_set] at h
  by_cases hij : i = j
  · subst hij
    rw [if_pos rfl] at h
    split at h
    · exact Or.inl ⟨rfl, (Option.some.inj h).symm⟩
    · cases h
  · rw [if_neg hij] at h
    exact Or.inr h

section
variable {acceptLoops : Nat} {poller : Bool} {grace : Nat} {s u : State}

theorem start_task {now : Instant} {i : Nat} {t : Task}
    (h : (start acceptLoops poller now).tasks[i]? = some t) :
    (i < acceptLoops ∧ t = Kind.acceptLoop.spawned) ∨
      (poller = true ∧ i = acceptLoops ∧ t = ⟨.poller, .live, 0, none⟩) := by
  simp only [start, List.getElem?_append, List.length_replicate] at h
  split at h
  · next lt =>
    rw [List.getElem?_replicate, if_pos lt] at h
    exact Or.inl ⟨lt, (Option.some.inj h).symm⟩
  · next ge =>
    cases poller with
    | false => simp at h
    | true =>
      obtain ⟨hi, rfl⟩ : i - acceptLoops = 0 ∧ ⟨.poller, .live, 0, none⟩ = t := by
        simpa [List.getElem?_singleton] using h
      exact Or.inr ⟨rfl, by omega, rfl⟩

theorem start_invariant (now : Instant) :
    Invariant acceptLoops poller (start acceptLoops poller now) where
  senders := by
    cases poller <;> simp [start, Main.guards, Kind.spawned] <;> omega
  guarded := by
    intro t ht held
    obtain ⟨i, hi⟩ := List.mem_iff_getElem?.mp ht
    rcases start_task hi with ⟨-, rfl⟩ | ⟨-, -, rfl⟩
    · exact Nat.le_refl 1
    · exact absurd rfl held.1
  loops := by
    intro i t hi loop
    rcases start_task hi with ⟨lt, -⟩ | ⟨-, -, rfl⟩
    · exact lt
    · cases loop
  pollers := by
    intro i t hi poll
    rcases start_task hi with ⟨-, rfl⟩ | ⟨hp, rfl, -⟩
    · cases poll
    · exact ⟨hp, rfl⟩
  handles := Nat.zero_le _
  room := by
    cases poller <;> simp [start]
  joined := by
    intro i t _ lt
    exact absurd lt (Nat.not_lt_zero i)
  pollerJoined := by
    intro t past
    cases past
  watch := ⟨fun _ => rfl, fun _ => rfl⟩
  observed := by
    intro t ht value told
    obtain ⟨i, hi⟩ := List.mem_iff_getElem?.mp ht
    rcases start_task hi with ⟨-, rfl⟩ | ⟨-, -, rfl⟩ <;> cases told
  drained := by
    intro done
    cases done

/-- Nothing holds a guard any more. -/
theorem Invariant.no_guards (h : Invariant acceptLoops poller s) (done : s.main.done = true) :
    ∀ t ∈ s.tasks, t.guards = 0 := by
  intro t ht
  have sum := h.senders
  rw [h.drained done] at sum
  have := guards_le_sum ht
  omega

/-- Nothing is left: a guarded task would hold a guard, the others are joined. -/
theorem Invariant.all_released (h : Invariant acceptLoops poller s) (done : s.main.done = true) :
    ∀ t ∈ s.tasks, t.phase = .released := by
  intro t ht
  by_contra live
  obtain ⟨i, hi⟩ := List.mem_iff_getElem?.mp ht
  have none_held := h.no_guards done t ht
  have joinedAll : s.main.joined acceptLoops = acceptLoops := by
    cases hm : s.main <;> simp [Main.done, hm] at done <;> rfl
  have pollerGone : s.main.pollerJoined = true := by
    cases hm : s.main <;> simp [Main.done, hm] at done <;> rfl
  by_cases loop : t.kind = .acceptLoop
  · apply live
    apply h.joined i t hi
    rw [joinedAll]
    exact h.loops i t hi loop
  · by_cases poll : t.kind = .poller
    · obtain ⟨hp, rfl⟩ := h.pollers i t hi poll
      exact live (h.pollerJoined t pollerGone hp hi)
    · have held := h.guarded t ht ⟨poll, live, fun hl => absurd hl loop⟩
      omega

/-- One task changes, and the senders with its guards. -/
theorem Invariant.setTask (h : Invariant acceptLoops poller s) {i : Nat} {t t' : Task}
    (hi : s.tasks[i]? = some t) (kind : t'.kind = t.kind)
    (phase : t.phase = .released → t'.phase = .released)
    (guarded : t'.guarded → 1 ≤ t'.guards)
    (observed : ∀ value, t'.observed = some value → s.published = some value) {n : Nat}
    (senders : n + t.guards = s.senders + t'.guards) (drained : s.main.done = true → n = 0) :
    Invariant acceptLoops poller { s.setTask i t' with senders := n } where
  senders := by
    have sum := sum_set hi t'
    have before := h.senders
    simp only [State.setTask]
    omega
  guarded := by
    intro x hx
    rcases List.mem_or_eq_of_mem_set hx with hx | rfl
    · exact h.guarded x hx
    · exact guarded
  loops := by
    intro j x hj loop
    rcases getElem?_set_cases hj with ⟨rfl, rfl⟩ | hj
    · exact h.loops j t hi (kind.symm.trans loop)
    · exact h.loops j x hj loop
  pollers := by
    intro j x hj poll
    rcases getElem?_set_cases hj with ⟨rfl, rfl⟩ | hj
    · exact h.pollers j t hi (kind.symm.trans poll)
    · exact h.pollers j x hj poll
  handles := h.handles
  room := by
    simpa [State.setTask] using h.room
  joined := by
    intro j x hj lt
    rcases getElem?_set_cases hj with ⟨rfl, rfl⟩ | hj
    · exact phase (h.joined j t hi lt)
    · exact h.joined j x hj lt
  pollerJoined := by
    intro x past hp hx
    rcases getElem?_set_cases hx with ⟨rfl, rfl⟩ | hx
    · exact phase (h.pollerJoined t past hp hi)
    · exact h.pollerJoined x past hp hx
  watch := h.watch
  observed := by
    intro x hx
    rcases List.mem_or_eq_of_mem_set hx with hx | rfl
    · exact h.observed x hx
    · exact observed
  drained := drained

/-- One task changes and keeps its guards. -/
theorem Invariant.setSame (h : Invariant acceptLoops poller s) {i : Nat} {t t' : Task}
    (hi : s.tasks[i]? = some t) (kind : t'.kind = t.kind)
    (phase : t.phase = .released → t'.phase = .released) (same : t'.guards = t.guards)
    (guarded : t'.guarded → t.guarded)
    (observed : ∀ value, t'.observed = some value → s.published = some value) :
    Invariant acceptLoops poller (s.setTask i t') := by
  apply h.setTask hi kind phase
  · intro held
    rw [same]
    exact h.guarded t (List.mem_of_getElem? hi) (guarded held)
  · exact observed
  · omega
  · exact h.drained

/-- A live task ends. -/
theorem Invariant.finish (h : Invariant acceptLoops poller s) {i : Nat} {t : Task}
    (hi : s.tasks[i]? = some t) (live : t.phase = .live) :
    Invariant acceptLoops poller (s.setTask i { t with phase := .finished }) := by
  apply h.setSame hi
  · rfl
  · intro released
    rw [live] at released
    cases released
  · rfl
  · exact fun held => ⟨held.1, by rw [live]; decide, fun _ => live⟩
  · exact h.observed t (List.mem_of_getElem? hi)

/-- A guard goes that its task can spare. -/
theorem Invariant.dropGuard (h : Invariant acceptLoops poller s) {i : Nat} {t : Task}
    (hi : s.tasks[i]? = some t) (held : 1 ≤ t.guards) (spare : t.guarded → 2 ≤ t.guards) :
    Invariant acceptLoops poller
      { s.setTask i { t with guards := t.guards - 1 } with senders := s.senders - 1 } := by
  have le := guards_le_sum (List.mem_of_getElem? hi)
  have sum := h.senders
  apply h.setTask hi
  · rfl
  · exact fun released => released
  · intro guarded
    have := spare guarded
    simp only
    omega
  · exact h.observed t (List.mem_of_getElem? hi)
  · simp only
    omega
  · intro done
    rw [h.drained done]

/-- A task is spawned, with a guard, by one that holds a guard. -/
theorem Invariant.push (h : Invariant acceptLoops poller s) {kind : Kind}
    (loop : kind ≠ .acceptLoop) (poll : kind ≠ .poller) (busy : s.main.done ≠ true) :
    Invariant acceptLoops poller
      { s with tasks := s.tasks ++ [kind.spawned], senders := s.senders + 1 } := by
  have split (j : Nat) (x : Task) (hj : (s.tasks ++ [kind.spawned])[j]? = some x) :
      s.tasks[j]? = some x ∨ (s.tasks.length ≤ j ∧ x = kind.spawned) := by
    rw [List.getElem?_append] at hj
    split at hj
    · exact Or.inl hj
    · next ge =>
      rw [List.getElem?_singleton] at hj
      split at hj
      · exact Or.inr ⟨Nat.not_lt.mp ge, (Option.some.inj hj).symm⟩
      · cases hj
  have room := h.room
  have handles := h.handles
  refine ⟨?_, ?_, ?_, ?_, handles, ?_, ?_, ?_, h.watch, ?_, fun done => absurd done busy⟩
  · have := h.senders
    simp only [List.map_append, List.sum_append, List.map_cons, List.map_nil, List.sum_cons,
      List.sum_nil, Kind.spawned]
    omega
  · intro t ht
    rcases List.mem_append.mp ht with ht | ht
    · exact h.guarded t ht
    · rw [List.mem_singleton.mp ht]
      exact fun _ => Nat.le_refl 1
  · intro j x hj hl
    rcases split j x hj with hj | ⟨-, rfl⟩
    · exact h.loops j x hj hl
    · exact absurd hl loop
  · intro j x hj hp
    rcases split j x hj with hj | ⟨-, rfl⟩
    · exact h.pollers j x hj hp
    · exact absurd hp poll
  · simp only [List.length_append]
    omega
  · intro j x hj lt
    rcases split j x hj with hj | ⟨ge, -⟩
    · exact h.joined j x hj lt
    · simp only at lt
      split at room <;> omega
  · intro x past hp hx
    rcases split _ x hx with hx | ⟨ge, -⟩
    · exact h.pollerJoined x past hp hx
    · rw [if_pos hp] at room
      omega
  · intro t ht
    rcases List.mem_append.mp ht with ht | ht
    · exact h.observed t ht
    · rw [List.mem_singleton.mp ht]
      intro value told
      cases told

/-- Nobody is left to hold a guard. -/
theorem Invariant.not_done (h : Invariant acceptLoops poller s) {t : Task} (ht : t ∈ s.tasks)
    (held : 1 ≤ t.guards) : s.main.done ≠ true := by
  intro done
  have := h.no_guards done t ht
  omega

theorem Invariant.live_not_done (h : Invariant acceptLoops poller s) {t : Task} (ht : t ∈ s.tasks)
    (live : t.phase = .live) : s.main.done ≠ true := by
  intro done
  rw [h.all_released done t ht] at live
  cases live

theorem spawns_guarded {kind kind' : Kind} (h : kind.spawns kind' = true) :
    kind' ≠ .acceptLoop ∧ kind' ≠ .poller := by
  cases kind <;> cases kind' <;> simp [Kind.spawns] at h ⊢

/-- Behind the signal the main task moves on, with what it has joined dropped. -/
theorem Invariant.move (h : Invariant acceptLoops poller s) {at_ next : Main} {n : Nat}
    (main : s.main = at_) (before : at_ ≠ .serving) (after : next ≠ .serving)
    (senders : n + at_.guards = s.senders + next.guards)
    (handles : next.joined acceptLoops ≤ acceptLoops)
    (joined : ∀ i t, s.tasks[i]? = some t → i < next.joined acceptLoops →
      i < at_.joined acceptLoops ∨ t.phase = .released)
    (pollerJoined : next.pollerJoined = true → at_.pollerJoined = true ∨
      (poller = true → ∀ t, s.tasks[acceptLoops]? = some t → t.phase = .released))
    (drained : next.done = true → n = 0) :
    Invariant acceptLoops poller { s with main := next, senders := n } where
  senders := by
    have sum := h.senders
    rw [main] at sum
    simp only
    omega
  guarded := h.guarded
  loops := h.loops
  pollers := h.pollers
  handles := handles
  room := h.room
  joined := by
    intro i t hi lt
    rcases joined i t hi lt with lt | released
    · apply h.joined i t hi
      rw [main]
      exact lt
    · exact released
  pollerJoined := by
    intro t past hp ht
    rcases pollerJoined past with past | released
    · apply h.pollerJoined t _ hp ht
      rw [main]
      exact past
    · exact released hp t ht
  watch := by
    constructor
    · intro unset
      exact absurd (main.symm.trans (h.watch.mp unset)) before
    · intro serving
      exact absurd serving after
  observed := h.observed
  drained := drained

/-- The main task moves on without another join. -/
theorem Invariant.advance (h : Invariant acceptLoops poller s) {at_ next : Main} {n : Nat}
    (main : s.main = at_) (before : at_ ≠ .serving) (after : next ≠ .serving)
    (senders : n + at_.guards = s.senders + next.guards)
    (joined : next.joined acceptLoops = acceptLoops)
    (accepts : at_.joined acceptLoops = acceptLoops)
    (pollerJoined : next.pollerJoined = true → at_.pollerJoined = true)
    (drained : next.done = true → n = 0) :
    Invariant acceptLoops poller { s with main := next, senders := n } := by
  apply h.move main before after senders
  · exact Nat.le_of_eq joined
  · intro i t _ lt
    rw [joined] at lt
    rw [accepts]
    exact Or.inl lt
  · exact fun past => Or.inl (pollerJoined past)
  · exact drained

/-- The deadline is published, and the main task starts to join. -/
theorem Invariant.signal (h : Invariant acceptLoops poller s) (serving : s.main = .serving)
    (deadline : Instant) :
    Invariant acceptLoops poller { s with main := .joinAccept 0, published := some deadline } := by
  have unset := h.watch.mpr serving
  have sum := h.senders
  rw [serving] at sum
  refine { h with
    senders := sum
    handles := Nat.zero_le _
    joined := fun i t _ lt => absurd lt (Nat.not_lt_zero i)
    pollerJoined := fun t past => ?_
    watch := ⟨fun gone => ?_, fun moved => ?_⟩
    observed := fun t ht value told => ?_
    drained := fun done => ?_ }
  · cases past
  · cases gone
  · cases moved
  · -- A deadline heard before the signal would have been published.
    have early := h.observed t ht value told
    rw [unset] at early
    cases early
  · cases done

/-- One more loop is joined, which is gone. -/
theorem Invariant.joinAccept (h : Invariant acceptLoops poller s) {handle : Nat} {t : Task}
    (main : s.main = .joinAccept handle) (lt : handle < acceptLoops)
    (hi : s.tasks[handle]? = some t) (released : t.phase = .released) :
    Invariant acceptLoops poller { s with main := .joinAccept (handle + 1) } := by
  apply h.move main
  · exact Main.noConfusion
  · exact Main.noConfusion
  · rfl
  · exact lt
  · intro i t hj le
    rcases Nat.lt_succ_iff_lt_or_eq.mp le with less | rfl
    · exact Or.inl less
    · obtain rfl := Option.some.inj (hi.symm.trans hj)
      exact Or.inr released
  · intro past
    cases past
  · intro done
    cases done

theorem Invariant.joinPoller (h : Invariant acceptLoops poller s) (main : s.main = .joinPoller)
    (released : poller = true → ∃ t, s.tasks[acceptLoops]? = some t ∧ t.phase = .released) :
    Invariant acceptLoops poller { s with main := .dropping } := by
  apply h.move main
  · exact Main.noConfusion
  · exact Main.noConfusion
  · rfl
  · exact Nat.le_refl _
  · exact fun _ _ _ lt => Or.inl lt
  · intro _
    right
    intro hp t ht
    obtain ⟨t', ht', gone⟩ := released hp
    obtain rfl := Option.some.inj (ht'.symm.trans ht)
    exact gone
  · intro done
    cases done

theorem step_invariant (h : Invariant acceptLoops poller s)
    (step : Step acceptLoops poller grace s u) : Invariant acceptLoops poller u := by
  cases step with
  | tick => exact { h with }
  | spawn kind hi live may accepting =>
    have kinds := spawns_guarded may
    exact h.push kinds.1 kinds.2 (h.live_not_done (List.mem_of_getElem? hi) live)
  | clone hi live held =>
    have told := h.observed _ (List.mem_of_getElem? hi)
    apply h.setTask hi
    · rfl
    · exact fun released => released
    · intro _
      simp only
      omega
    · exact told
    · simp only
      omega
    · intro done
      exact absurd done (h.not_done (List.mem_of_getElem? hi) held)
  | dropClone hi spare => exact h.dropGuard hi (Nat.le_of_succ_le spare) fun _ => spare
  | observe hi live published =>
    apply h.setSame hi
    · rfl
    · exact fun released => released
    · rfl
    · exact fun held => held
    · intro value told
      rw [published]
      exact told
  | observeClosed hi live closed unset =>
    have serving := h.watch.mp unset
    rw [closed] at serving
    cases serving
  | complete hi live => exact h.finish hi live
  | cancel hi live kind observed late => exact h.finish hi live
  | release hi finished last loop =>
    have told := h.observed _ (List.mem_of_getElem? hi)
    apply h.setSame hi
    · rfl
    · exact fun _ => rfl
    · rfl
    · exact fun held => absurd rfl held.2.1
    · exact told
  | @dropGuard i t hi last gone =>
    -- The future is gone, or the loop no longer lives: no guard is owed.
    have owed : t.guarded → 2 ≤ t.guards := by
      rintro ⟨-, phase, loop⟩
      cases gone with
      | inl released => exact absurd released phase
      | inr ended =>
        rw [loop ended.1] at ended
        cases ended.2
    have dropped := h.dropGuard hi (Nat.le_of_eq last.symm) owed
    rwa [last] at dropped
  | signal serving => exact h.signal serving _
  | joinAccept main lt hi released => exact h.joinAccept main lt hi released
  | acceptsJoined main =>
    apply h.advance main
    · exact Main.noConfusion
    · exact Main.noConfusion
    · rfl
    · rfl
    · rfl
    · intro past
      cases past
    · intro done
      cases done
  | joinPoller main released => exact h.joinPoller main released
  | dropMain main =>
    have sum := h.senders
    rw [main] at sum
    apply h.advance main
    · exact Main.noConfusion
    · exact Main.noConfusion
    · simp only [Main.guards] at sum ⊢
      omega
    · rfl
    · rfl
    · exact fun past => past
    · intro done
      cases done
  | recv main empty =>
    apply h.advance main
    · exact Main.noConfusion
    · exact Main.noConfusion
    · rfl
    · rfl
    · rfl
    · exact fun past => past
    · exact fun _ => empty
  | ret main =>
    have drained := h.drained
    rw [main] at drained
    apply h.advance main
    · exact Main.noConfusion
    · exact Main.noConfusion
    · rfl
    · rfl
    · rfl
    · exact fun past => past
    · exact drained

theorem reachable_invariant (h : Reachable acceptLoops poller grace s) :
    Invariant acceptLoops poller s := by
  induction h with
  | start now => exact start_invariant now
  | next _ step ih => exact step_invariant ih step

/-- Behind the barrier nothing moves but the clock and the main task. -/
theorem step_done (h : Invariant acceptLoops poller s) (done : s.main.done = true)
    (step : Step acceptLoops poller grace s u) :
    u.tasks = s.tasks ∧ u.main.done = true := by
  have released := h.all_released done
  have idle : ∀ (i : Nat) (t : Task), s.tasks[i]? = some t → t.phase ≠ .live ∧ t.phase ≠ .finished ∧
      t.guards = 0 := by
    intro i t hi
    have mem := List.mem_of_getElem? hi
    rw [released t mem]
    exact ⟨Phase.noConfusion, Phase.noConfusion, h.no_guards done t mem⟩
  cases step with
  | tick => exact ⟨rfl, done⟩
  | spawn kind hi live => exact absurd live (idle _ _ hi).1
  | clone hi live => exact absurd live (idle _ _ hi).1
  | observe hi live => exact absurd live (idle _ _ hi).1
  | observeClosed hi live => exact absurd live (idle _ _ hi).1
  | complete hi live => exact absurd live (idle _ _ hi).1
  | cancel hi live => exact absurd live (idle _ _ hi).1
  | release hi finished => exact absurd finished (idle _ _ hi).2.1
  | dropClone hi spare =>
    have := (idle _ _ hi).2.2
    omega
  | dropGuard hi last =>
    have := (idle _ _ hi).2.2
    omega
  | ret main => exact ⟨rfl, rfl⟩
  | signal main => simp [main, Main.done] at done
  | joinAccept main => simp [main, Main.done] at done
  | acceptsJoined main => simp [main, Main.done] at done
  | joinPoller main => simp [main, Main.done] at done
  | dropMain main => simp [main, Main.done] at done
  | recv main => simp [main, Main.done] at done

theorem Steps.preserves {P : State → Prop} (steps : Steps acceptLoops poller grace s u)
    (start : P s) (step : ∀ t v, P t → Step acceptLoops poller grace t v → P v) : P u := by
  induction steps with
  | refl => exact start
  | next _ last ih => exact step _ _ ih last

theorem steps_done (h : Invariant acceptLoops poller s) (done : s.main.done = true)
    (steps : Steps acceptLoops poller grace s u) : u.tasks = s.tasks := by
  have kept : Invariant acceptLoops poller u ∧ u.tasks = s.tasks ∧ u.main.done = true := by
    apply steps.preserves ⟨h, rfl, done⟩
    rintro t v ⟨inv, same, still⟩ step
    have after := step_done inv still step
    exact ⟨step_invariant inv step, after.1.trans same, after.2⟩
  exact kept.2.1

/-- The watch is set once. -/
theorem step_published (h : Invariant acceptLoops poller s) {value : Instant}
    (set : s.published = some value) (step : Step acceptLoops poller grace s u) :
    u.published = some value := by
  cases step with
  | signal serving =>
    have unset := h.watch.mpr serving
    rw [set] at unset
    cases unset
  | _ => exact set

theorem steps_published (h : Invariant acceptLoops poller s) {value : Instant}
    (set : s.published = some value) (steps : Steps acceptLoops poller grace s u) :
    u.published = some value := by
  have kept : Invariant acceptLoops poller u ∧ u.published = some value := by
    apply steps.preserves ⟨h, set⟩
    rintro t v ⟨inv, still⟩ step
    exact ⟨step_invariant inv step, step_published inv still step⟩
  exact kept.2

/-- Behind `conn_rx.recv()` every task is gone with its future and none comes;
whoever was told a deadline was told the only one the watch ever holds. -/
theorem shutdown_barrier (h : Reachable acceptLoops poller grace s) :
    (s.main.done = true → (∀ t ∈ s.tasks, t.phase = .released) ∧
      ∀ u, Steps acceptLoops poller grace s u → u.tasks = s.tasks) ∧
    (∀ t ∈ s.tasks, ∀ told, t.observed = some told → s.published = some told) ∧
    ∀ value, s.published = some value →
      ∀ u, Steps acceptLoops poller grace s u → u.published = some value := by
  have inv := reachable_invariant h
  refine ⟨?_, inv.observed, ?_⟩
  · intro passed
    exact ⟨inv.all_released passed, fun u steps => steps_done inv passed steps⟩
  · intro value set u steps
    exact steps_published inv set steps

/-- One loop, one connection that outlives it and is cancelled. -/
theorem shutdown_barrier_connection :
    let s : State := ⟨.passed, [⟨.acceptLoop, .released, 0, some 1⟩,
      ⟨.connection, .released, 0, some 1⟩], 0, some 1, 1⟩
    (s.main.done = true → (∀ t ∈ s.tasks, t.phase = .released) ∧
      ∀ u, Steps 1 false 1 s u → u.tasks = s.tasks) ∧
    (∀ t ∈ s.tasks, ∀ told, t.observed = some told → s.published = some told) ∧
    ∀ value, s.published = some value →
      ∀ u, Steps 1 false 1 s u → u.published = some value := by
  have serving : Reachable 1 false 1 (start 1 false 0) := .start 0
  have accepted := serving.next (.spawn .connection (i := 0) rfl rfl rfl (fun _ => rfl))
  have signalled := accepted.next (.signal rfl)
  have told := (signalled.next (.observe (i := 0) rfl rfl rfl)).next
    (.observe (i := 1) rfl rfl rfl)
  have loop := ((told.next (.complete (i := 0) rfl rfl)).next
    (.dropGuard (i := 0) rfl rfl (Or.inr ⟨rfl, rfl⟩))).next
    (.release (i := 0) rfl rfl (Nat.zero_le 1) (fun _ => rfl))
  have dropped := (((loop.next (.joinAccept rfl Nat.zero_lt_one rfl rfl)).next
    (.acceptsJoined rfl)).next (.joinPoller rfl Bool.noConfusion)).next (.dropMain rfl)
  have cancelled := dropped.next .tick |>.next
    (.cancel (i := 1) rfl rfl rfl rfl (Nat.le_refl 1))
  have gone := (cancelled.next
    (.release (i := 1) rfl rfl (Nat.le_refl 1) Kind.noConfusion)).next
    (.dropGuard (i := 1) rfl rfl (Or.inl rfl))
  exact shutdown_barrier (gone.next (.recv rfl rfl))

end

end Lifecycle
