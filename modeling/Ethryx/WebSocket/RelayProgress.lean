import Ethryx.Transitions
import Ethryx.WebSocket.RelaySafety

/-!
# The relay comes to an end

* `reachable_exclusive`: the lock is held by the loop that sends to the client, and
  by no other; no step leaves it behind;
* `step_work`: a step that changes anything lowers the work that is left;
* `smooth_progress`: no loop waits for ever, so what does not fail is delivered.
-/

namespace Relay

open Json Rpc Transitions

variable {d : Deserializer} {mockEnabled : Bool} {streams : Loop → List Message} {s t : State}

/-! ## The lock on the client's sink -/

/-- The loop is in the middle of a send to the client. -/
def Pc.toClient (l : Loop) : Pc → Bool
  | .sending _ reply | .flushing _ reply => l.toClient reply
  | _ => false

/-- Who holds the lock, and who waits for it. -/
structure Exclusive (mockEnabled : Bool) (s : State) : Prop where
  holder : ∀ l, s.lock = some l ↔ mockEnabled = true ∧ (s.side l).pc.toClient l = true
  /-- Without mocking the loop that reads the client sends it nothing. -/
  alone : mockEnabled = false → (s.side .c2u).pc.toClient .c2u = false
  waiting : ∀ l m reply, (s.side l).pc = .locking m reply →
    mockEnabled = true ∧ l.toClient reply = true

theorem begin_waiting {l : Loop} {m m' : Message} {reply reply' : Bool}
    (h : begin mockEnabled l m reply = .locking m' reply') :
    mockEnabled = true ∧ l.toClient reply' = true := by
  unfold begin at h
  split at h
  · next both =>
    obtain ⟨rfl, rfl⟩ := Pc.locking.inj h
    exact Bool.and_eq_true_iff.mp both
  · cases h

theorem begin_toClient (mockEnabled : Bool) (l : Loop) (m : Message) (reply : Bool) :
    (begin mockEnabled l m reply).toClient l = (!mockEnabled && l.toClient reply) := by
  unfold begin
  cases mockEnabled <;> cases h : l.toClient reply <;> simp [Pc.toClient, h]

theorem dispatch_waiting {l : Loop} {m m' : Message} {a : Action} {reply : Bool}
    (h : dispatch mockEnabled l m a = .locking m' reply) :
    mockEnabled = true ∧ l.toClient reply = true := by
  cases a with
  | drop => cases h
  | answer r => exact begin_waiting h
  | pass => exact begin_waiting h

/-- A message that was read is on its way to the client only where no lock is. -/
theorem dispatch_toClient (l : Loop) (m : Message) :
    (dispatch mockEnabled l m (action d mockEnabled l m)).toClient l =
      (!mockEnabled && decide (l = .u2c)) := by
  cases h : action d mockEnabled l m with
  | drop => cases mockEnabled <;> cases l <;> cases m <;> simp_all [dispatch, Pc.toClient, action]
  | answer r =>
    rw [dispatch, begin_toClient]
    cases mockEnabled <;> cases l <;> cases m <;> simp_all [action]
  | pass =>
    rw [dispatch, begin_toClient]
    cases l <;> rfl

@[simp] theorem push_side (s : State) (l : Loop) (reply : Bool) (m : Message) :
    (s.push l reply m).side = s.side := by
  unfold State.push
  split <;> rfl

@[simp] theorem push_lock (s : State) (l : Loop) (reply : Bool) (m : Message) :
    (s.push l reply m).lock = s.lock := by
  unfold State.push
  split <;> rfl

@[simp] theorem unlock_side (s : State) (l : Loop) : (s.unlock l).side = s.side := rfl

@[simp] theorem set_side_self (s : State) (l : Loop) (σ : Side) : (s.set l σ).side l = σ := by
  simp [State.set]

@[simp] theorem set_side_other (s : State) (l : Loop) (σ : Side) :
    (s.set l σ).side l.other = s.side l.other := by
  cases l <;> simp [State.set, Loop.other]

/-- A fact about both loops, one of them at hand. -/
theorem forall_loop {P : Loop → Prop} (l : Loop) : (∀ k, P k) ↔ P l ∧ P l.other := by
  constructor
  · exact fun h => ⟨h l, h l.other⟩
  · rintro ⟨here, there⟩ k
    cases l <;> cases k <;> assumption

namespace Exclusive

/-- A loop moves on, and is as far from the client's sink as before. -/
theorem set (h : Exclusive mockEnabled s) (l : Loop) {σ : Side}
    (same : mockEnabled = true → σ.pc.toClient l = (s.side l).pc.toClient l)
    (alone : mockEnabled = false → l = .c2u → σ.pc.toClient l = false)
    (waiting : ∀ m reply, σ.pc = .locking m reply → mockEnabled = true ∧ l.toClient reply = true) :
    Exclusive mockEnabled (s.set l σ) where
  holder := by
    rw [forall_loop l, set_side_self, set_side_other]
    refine ⟨(h.holder l).trans ?_, h.holder l.other⟩
    exact and_congr_right fun mock => by rw [same mock]
  alone mock := by
    cases l with
    | c2u =>
      rw [set_side_self]
      exact alone mock rfl
    | u2c => exact h.alone mock
  waiting := by
    rw [forall_loop l, set_side_self, set_side_other]
    exact ⟨waiting, h.waiting l.other⟩

/-- A loop is done with the sink, and gives the lock back. -/
theorem leave (h : Exclusive mockEnabled s) (l : Loop) {σ : Side}
    (out : σ.pc.toClient l = false) (waits : ∀ m reply, σ.pc ≠ .locking m reply) :
    Exclusive mockEnabled ((s.set l σ).unlock l) where
  holder := by
    have mine := h.holder l
    have theirs := h.holder l.other
    have distinct : l ≠ l.other := by cases l <;> decide
    rw [forall_loop l, unlock_side, set_side_self, set_side_other, ← theirs, out]
    by_cases held : s.lock = some l
    · simp [State.unlock, State.set, held, distinct]
    · simp [State.unlock, State.set, held]
  alone mock := by
    cases l with
    | c2u => rwa [unlock_side, set_side_self]
    | u2c => exact h.alone mock
  waiting := by
    rw [forall_loop l, unlock_side, set_side_self, set_side_other]
    exact ⟨fun m reply at_ => absurd at_ (waits m reply), h.waiting l.other⟩

/-- The free lock goes to a loop that waited for it. -/
theorem enter (h : Exclusive mockEnabled s) (l : Loop) {m : Message} {reply : Bool}
    {input : List Message} (at_ : s.side l = ⟨input, .locking m reply⟩) (free : s.lock = none) :
    Exclusive mockEnabled { s.set l ⟨input, .sending m reply⟩ with lock := some l } where
  holder := by
    have waited := h.waiting l m reply (by rw [at_])
    have theirs := h.holder l.other
    have distinct : l ≠ l.other := by cases l <;> decide
    have out : (s.side l.other).pc.toClient l.other = false := by
      simpa [free, waited.1] using theirs
    have sending : (Pc.sending m reply).toClient l = true := waited.2
    rw [forall_loop l]
    simp only [set_side_self, set_side_other, sending, out, waited.1]
    simp [distinct]
  alone mock := by
    have waited := h.waiting l m reply (by rw [at_])
    simp [mock] at waited
  waiting := by
    rw [forall_loop l]
    simp only [set_side_self, set_side_other]
    exact ⟨nofun, h.waiting l.other⟩

end Exclusive

theorem afterSend_toClient (l : Loop) (m : Message) (reply ok : Bool) :
    (afterSend m reply ok).toClient l = false := by
  unfold afterSend
  split
  · rfl
  · cases ok <;> rfl

theorem afterSend_waiting (m m' : Message) (reply ok reply' : Bool) :
    afterSend m reply ok ≠ .locking m' reply' := by
  unfold afterSend
  split
  · exact nofun
  · cases ok <;> exact nofun

theorem step_exclusive (step : Step d mockEnabled s t) (h : Exclusive mockEnabled s) :
    Exclusive mockEnabled t := by
  cases step with
  | read l m rest at_ =>
    refine h.set l ?_ ?_ fun _ _ => dispatch_waiting
    · intro mock
      rw [dispatch_toClient, at_, mock]
      rfl
    · intro _ hl
      simp [dispatch_toClient, hl]
  | ended l at_ =>
    refine h.set l (fun _ => ?_) (fun _ _ => rfl) nofun
    rw [at_]
    rfl
  | lock l m reply input at_ free => exact h.enter l at_ free
  | accept l m reply input at_ =>
    have moved : Exclusive mockEnabled (s.set l ⟨input, .flushing m reply⟩) := by
      refine h.set l (fun _ => ?_) (fun mock hl => ?_) nofun
      · rw [at_]
        rfl
      · subst hl
        have := h.alone mock
        rwa [at_] at this
    refine ⟨?_, ?_, ?_⟩
    · rw [push_lock, push_side]
      exact moved.holder
    · rw [push_side]
      exact moved.alone
    · rw [push_side]
      exact moved.waiting
  | reject l m reply input at_ =>
    exact h.leave l (afterSend_toClient l m reply false) fun _ _ => afterSend_waiting m _ reply false _
  | flush l m reply ok input at_ =>
    exact h.leave l (afterSend_toClient l m reply ok) fun _ _ => afterSend_waiting m _ reply ok _
  | closed l input rest at_ took =>
    refine h.set l (fun _ => ?_) (fun _ _ => rfl) nofun
    rw [at_]
    rfl
  | cut l _ => exact h.leave l rfl nofun

theorem start_exclusive (mockEnabled : Bool) (streams : Loop → List Message) :
    Exclusive mockEnabled (.start streams) := by
  refine ⟨fun l => ?_, fun _ => rfl, nofun⟩
  simp [State.start, Pc.toClient]

theorem reachable_exclusive (h : Reachable d mockEnabled streams s) : Exclusive mockEnabled s := by
  induction h with
  | start => exact start_exclusive mockEnabled streams
  | next _ step ih => exact step_exclusive step ih

/-- Two sends to the client never overlap. With mocking on, a loop holds the lock
exactly while it sends to the client: a failed send and a cut leave nothing locked. -/
theorem client_sends_exclusive (h : Reachable d mockEnabled streams s) :
    (∀ l, (s.side l).pc.toClient l = true → (s.side l.other).pc.toClient l.other = false) ∧
    (mockEnabled = true → ∀ l, s.lock = some l ↔ (s.side l).pc.toClient l = true) ∧
    (mockEnabled = false → s.lock = none) := by
  have inv := reachable_exclusive h
  refine ⟨?_, ?_, ?_⟩
  · intro l here
    cases mock : mockEnabled with
    | false =>
      cases l with
      | c2u => simp [inv.alone mock] at here
      | u2c => exact inv.alone mock
    | true =>
      by_contra there
      rw [Bool.not_eq_false] at there
      have mine := (inv.holder l).mpr ⟨mock, here⟩
      have theirs := (inv.holder l.other).mpr ⟨mock, there⟩
      rw [mine] at theirs
      cases l <;> cases theirs
  · intro mock l
    simpa [mock] using inv.holder l
  · intro mock
    cases held : s.lock with
    | none => rfl
    | some l => simpa [mock, held] using (inv.holder l).mp held

/-- The upstream sends these messages, the client none. -/
def upstreamOnly (messages : List Message) : Loop → List Message
  | .c2u => []
  | .u2c => messages

/-- A frame for the client, taken by the sink and not yet flushed. -/
theorem client_sends_exclusive_binary :
    ∃ s : State, s.client = [.binary [1]] ∧ s.lock = some .u2c ∧
      (s.side .c2u).pc.toClient .c2u = false := by
  have read : Reachable reader true (upstreamOnly [.binary [1]]) _ :=
    .next .start (.read .u2c (.binary [1]) [] rfl)
  have locked := read.next (.lock .u2c (.binary [1]) false [] rfl rfl)
  have taken := locked.next (.accept .u2c (.binary [1]) false [] rfl)
  obtain ⟨alone, holds, -⟩ := client_sends_exclusive taken
  exact ⟨_, rfl, (holds rfl .u2c).mpr rfl, alone .u2c rfl⟩

/-! ## The work that is left -/

/-- The most steps a loop can still take. -/
def Side.work (σ : Side) : Nat :=
  match σ.pc with
  | .finished => 0
  | .closing => 1
  | .reading => 4 * σ.input.length + 2
  | .flushing _ _ => 4 * σ.input.length + 3
  | .sending _ _ => 4 * σ.input.length + 4
  | .locking _ _ => 4 * σ.input.length + 5

def State.work (s : State) : Nat := (s.side .c2u).work + (s.side .u2c).work

theorem work_lt (l : Loop) (less : (t.side l).work < (s.side l).work)
    (same : t.side l.other = s.side l.other) : t.work < s.work := by
  unfold State.work
  cases l with
  | c2u =>
    simp only [Loop.other] at same
    rw [same]
    omega
  | u2c =>
    simp only [Loop.other] at same
    rw [same]
    omega

/-- A loop that gives the lock back. -/
theorem leave_work (l : Loop) {σ : Side} (less : σ.work < (s.side l).work) :
    ((s.set l σ).unlock l).work < s.work := by
  refine work_lt l ?_ (set_side_other ..)
  rwa [unlock_side, set_side_self]

theorem begin_work (mockEnabled : Bool) (l : Loop) (m : Message) (reply : Bool) (input : List Message) :
    Side.work ⟨input, begin mockEnabled l m reply⟩ ≤ 4 * input.length + 5 := by
  unfold begin
  split <;> simp only [Side.work] <;> omega

theorem dispatch_work (mockEnabled : Bool) (l : Loop) (m : Message) (a : Action) (input : List Message) :
    Side.work ⟨input, dispatch mockEnabled l m a⟩ ≤ 4 * input.length + 5 := by
  cases a with
  | drop =>
    simp only [dispatch, Side.work]
    omega
  | answer r => exact begin_work mockEnabled l r true input
  | pass => exact begin_work mockEnabled l m false input

theorem afterSend_work (m : Message) (reply ok : Bool) (input : List Message) :
    Side.work ⟨input, afterSend m reply ok⟩ ≤ 4 * input.length + 2 := by
  unfold afterSend
  split
  · simp only [Side.work]
    omega
  · cases ok <;> simp [Side.work]

theorem work_pos {σ : Side} (h : σ.pc ≠ .finished) : 0 < σ.work := by
  unfold Side.work
  split <;> first | omega | contradiction

theorem cut_finished (h : Exclusive mockEnabled s) (l : Loop) (done : (s.side l).pc = .finished) :
    (s.set l ⟨(s.side l).input, .finished⟩).unlock l = s := by
  have released : s.lock ≠ some l := fun held => by
    have inside := ((h.holder l).mp held).2
    simp [done, Pc.toClient] at inside
  have same : (⟨(s.side l).input, .finished⟩ : Side) = s.side l := by
    rw [← done]
  rw [same]
  simp [State.unlock, State.set, released]

/-- A step in which no send fails and no loop is cut. -/
inductive Smooth (d : Deserializer) (mockEnabled : Bool) : State → State → Prop where
  | read {s : State} (l : Loop) (m : Message) (rest : List Message)
      (h : s.side l = ⟨m :: rest, .reading⟩) :
      Smooth d mockEnabled s
        (s.set l ⟨rest, dispatch mockEnabled l m (action d mockEnabled l m)⟩)
  | ended {s : State} (l : Loop) (h : s.side l = ⟨[], .reading⟩) :
      Smooth d mockEnabled s (s.set l ⟨[], .finished⟩)
  | lock {s : State} (l : Loop) (m : Message) (reply : Bool) (input : List Message)
      (h : s.side l = ⟨input, .locking m reply⟩) (free : s.lock = none) :
      Smooth d mockEnabled s { s.set l ⟨input, .sending m reply⟩ with lock := some l }
  | accept {s : State} (l : Loop) (m : Message) (reply : Bool) (input : List Message)
      (h : s.side l = ⟨input, .sending m reply⟩) :
      Smooth d mockEnabled s ((s.set l ⟨input, .flushing m reply⟩).push l reply m)
  | flush {s : State} (l : Loop) (m : Message) (reply : Bool) (input : List Message)
      (h : s.side l = ⟨input, .flushing m reply⟩) :
      Smooth d mockEnabled s ((s.set l ⟨input, afterSend m reply true⟩).unlock l)
  | closed {s : State} (l : Loop) (input rest : List Message)
      (h : s.side l = ⟨input, .closing⟩) (took : rest = input ∨ rest = input.tail) :
      Smooth d mockEnabled s (s.set l ⟨rest, .finished⟩)

theorem Smooth.step (h : Smooth d mockEnabled s t) : Step d mockEnabled s t := by
  cases h with
  | read l m rest h => exact .read l m rest h
  | ended l h => exact .ended l h
  | lock l m reply input h free => exact .lock l m reply input h free
  | accept l m reply input h => exact .accept l m reply input h
  | flush l m reply input h => exact .flush l m reply true input h
  | closed l input rest h took => exact .closed l input rest h took

theorem Smooth.not_finished (h : Smooth d mockEnabled s t) : ∃ l, (s.side l).pc ≠ .finished := by
  cases h with
  | read l _ _ h | ended l h | lock l _ _ _ h _ | accept l _ _ _ h | flush l _ _ _ h
  | closed l _ _ h _ =>
    refine ⟨l, ?_⟩
    rw [h]
    exact nofun

theorem smooth_work (h : Smooth d mockEnabled s t) : t.work < s.work := by
  cases h with
  | read l m rest at_ =>
    refine work_lt l ?_ (set_side_other ..)
    have := dispatch_work mockEnabled l m (action d mockEnabled l m) rest
    rw [set_side_self, at_]
    simp only [Side.work, List.length_cons] at this ⊢
    omega
  | ended l at_ =>
    refine work_lt l ?_ (set_side_other ..)
    simp [at_, Side.work]
  | lock l m reply input at_ free =>
    refine work_lt l ?_ (set_side_other ..)
    simp [at_, Side.work]
  | accept l m reply input at_ =>
    refine work_lt l ?_ ?_
    · simp [at_, Side.work]
    · rw [push_side, set_side_other]
  | flush l m reply input at_ =>
    have := afterSend_work m reply true input
    apply leave_work
    simp only [at_, Side.work] at this ⊢
    omega
  | closed l input rest at_ took =>
    refine work_lt l ?_ (set_side_other ..)
    simp [at_, Side.work]

/-- The cut of a loop that is done already changes nothing; every other step lowers
the work. -/
theorem step_work (step : Step d mockEnabled s t) (h : Exclusive mockEnabled s) :
    t = s ∨ t.work < s.work := by
  have lower : ∀ u, Smooth d mockEnabled s u → u = s ∨ u.work < s.work :=
    fun _ smooth => .inr (smooth_work smooth)
  cases step with
  | read l m rest at_ => exact lower _ (.read l m rest at_)
  | ended l at_ => exact lower _ (.ended l at_)
  | lock l m reply input at_ free => exact lower _ (.lock l m reply input at_ free)
  | accept l m reply input at_ => exact lower _ (.accept l m reply input at_)
  | reject l m reply input at_ =>
    have := afterSend_work m reply false input
    refine .inr (leave_work l ?_)
    simp only [at_, Side.work] at this ⊢
    omega
  | flush l m reply ok input at_ =>
    have := afterSend_work m reply ok input
    refine .inr (leave_work l ?_)
    simp only [at_, Side.work] at this ⊢
    omega
  | closed l input rest at_ took => exact lower _ (.closed l input rest at_ took)
  | cut l other =>
    by_cases done : (s.side l).pc = .finished
    · exact .inl (cut_finished h l done)
    · exact .inr (leave_work l (work_pos done))

/-! ## Progress -/

/-- Who holds the lock can go on. -/
theorem smooth_of_toClient (l : Loop) (h : (s.side l).pc.toClient l = true) :
    ∃ t, Smooth d mockEnabled s t := by
  rcases at_ : s.side l with ⟨input, pc⟩
  rw [at_] at h
  cases pc with
  | sending m reply => exact ⟨_, .accept l m reply input at_⟩
  | flushing m reply => exact ⟨_, .flush l m reply input at_⟩
  | reading | locking | closing | finished => cases h

/-- A loop waits for the lock only while the other can go on. -/
theorem smooth_progress (h : Exclusive mockEnabled s) (l : Loop)
    (going : (s.side l).pc ≠ .finished) : ∃ t, Smooth d mockEnabled s t := by
  rcases at_ : s.side l with ⟨input, pc⟩
  rw [at_] at going
  cases pc with
  | reading =>
    cases input with
    | nil => exact ⟨_, .ended l at_⟩
    | cons m rest => exact ⟨_, .read l m rest at_⟩
  | locking m reply =>
    cases held : s.lock with
    | none => exact ⟨_, .lock l m reply input at_ held⟩
    | some k => exact smooth_of_toClient k ((h.holder k).mp held).2
  | sending m reply => exact ⟨_, .accept l m reply input at_⟩
  | flushing m reply => exact ⟨_, .flush l m reply input at_⟩
  | closing => exact ⟨_, .closed l input input at_ (.inl rfl)⟩
  | finished => exact absurd rfl going

/-- A step that changes something. -/
def Moves (d : Deserializer) (mockEnabled : Bool) (s t : State) : Prop :=
  Step d mockEnabled s t ∧ t ≠ s

theorem moves_work (h : Moves d mockEnabled s t) (inv : Exclusive mockEnabled s) :
    t.work < s.work := by
  rcases step_work h.1 inv with same | less
  · exact absurd same h.2
  · exact less

theorem start_work (streams : Loop → List Message) :
    (State.start streams).work =
      4 * ((streams .c2u).length + (streams .u2c).length) + 4 := by
  simp only [State.work, State.start, Side.work]
  omega

/-- The work of a run never exceeds that of its start. -/
theorem reachable_work (h : Reachable d mockEnabled streams s) :
    s.work ≤ 4 * ((streams .c2u).length + (streams .u2c).length) + 4 := by
  rw [← start_work]
  induction h with
  | start => exact le_rfl
  | next before step ih =>
    rcases step_work step (reachable_exclusive before) with rfl | less
    · exact ih
    · omega

/-- No schedule, with or without faults, keeps a relay busy for ever over streams
that end, and none brings it to a stand before both loops are done: neither waits
for a lock that nobody gives back. -/
theorem relay_terminates (h : Reachable d mockEnabled streams s) :
    (∀ n t, Run (Moves d mockEnabled) n s t →
      n ≤ 4 * ((streams .c2u).length + (streams .u2c).length) + 4) ∧
    ((∃ t, Smooth d mockEnabled s t) ↔ ∃ l, (s.side l).pc ≠ .finished) := by
  have inv := reachable_exclusive h
  refine ⟨?_, ?_⟩
  · intro n t run
    have bounded := run.bounded State.work (P := Exclusive mockEnabled)
      (fun _ _ inv move => step_exclusive move.1 inv)
      (fun _ _ inv move => moves_work move inv) inv
    have := reachable_work h
    omega
  · constructor
    · rintro ⟨t, smooth⟩
      exact smooth.not_finished
    · rintro ⟨l, going⟩
      exact smooth_progress inv l going

/-- One frame for the client, and its loop waits for the lock. -/
theorem relay_terminates_waiting :
    ∃ s : State, (s.side .u2c).pc = .locking (.binary [1]) false ∧
      (∃ t, Smooth reader true s t) ∧ ∀ n t, Run (Moves reader true) n s t → n ≤ 8 := by
  have read : Reachable reader true (upstreamOnly [.binary [1]]) _ :=
    .next .start (.read .u2c (.binary [1]) [] rfl)
  obtain ⟨bounded, goes⟩ := relay_terminates read
  exact ⟨_, rfl, goes.mpr ⟨.u2c, nofun⟩, bounded⟩

/-! ## What is delivered -/

/-- Each loop has sent all but what it has still to send. -/
structure Kept (act : Loop → Message → Action) (streams : Loop → List Message)
    (sent : Loop → List (Bool × Message)) (s : State) : Prop
    extends Invariant act streams sent s where
  all : ∀ l, sent l ++ todo (act l) (s.side l) = outputs (act l) (streams l)

namespace Kept

variable {act : Loop → Message → Action} {sent : Loop → List (Bool × Message)}

theorem move (h : Kept act streams sent s) (l : Loop) {σ : Side}
    (same : todo (act l) σ = todo (act l) (s.side l)) : Kept act streams sent (s.set l σ) where
  toInvariant := h.toInvariant.move l (same ▸ List.prefix_rfl)
  all := by
    rw [forall_loop l, set_side_self, set_side_other, same]
    exact ⟨h.all l, h.all l.other⟩

theorem push (h : Kept act streams sent s) (l : Loop) {m : Message} {reply : Bool} {σ : Side}
    (hσ : todo (act l) (s.side l) = (reply, m) :: todo (act l) σ) :
    Kept act streams (Function.update sent l (sent l ++ [(reply, m)]))
      ((s.set l σ).push l reply m) where
  toInvariant := h.toInvariant.push l hσ
  all := by
    have mine := h.all l
    have distinct : l.other ≠ l := by cases l <;> decide
    rw [hσ] at mine
    rw [forall_loop l, push_side, set_side_self, set_side_other, Function.update_self,
      Function.update_of_ne distinct]
    exact ⟨by simpa using mine, h.all l.other⟩

end Kept

/-- A send that returned well leaves all that is left to send. -/
theorem todo_flushed (act : Message → Action) (m : Message) (reply : Bool)
    (input : List Message) :
    todo act ⟨input, afterSend m reply true⟩ = todoAfter act m reply input := by
  unfold afterSend todoAfter
  split <;> rfl

theorem smooth_kept {sent : Loop → List (Bool × Message)} (step : Smooth d mockEnabled s t)
    (h : Kept (action d mockEnabled) streams sent s) :
    ∃ sent', Kept (action d mockEnabled) streams sent' t := by
  cases step with
  | read l m rest at_ => exact ⟨sent, h.move l (by rw [at_, todo_dispatch])⟩
  | ended l at_ => exact ⟨sent, h.move l (by rw [at_]; rfl)⟩
  | lock l m reply input at_ free =>
    have moved := h.move l (σ := ⟨input, .sending m reply⟩) (by rw [at_]; rfl)
    exact ⟨sent, ⟨moved.progress, moved.upstream, moved.client⟩, moved.all⟩
  | accept l m reply input at_ => exact ⟨_, h.push l (by rw [at_]; rfl)⟩
  | flush l m reply input at_ =>
    have moved := h.move l (σ := ⟨input, afterSend m reply true⟩) (by rw [at_, todo_flushed]; rfl)
    exact ⟨sent, moved.toInvariant.unlock l, moved.all⟩
  | closed l input rest at_ took => exact ⟨sent, h.move l (by rw [at_]; rfl)⟩

theorem replied_outputs_all (ms : List Message) :
    replied (outputs (action d mockEnabled .c2u) ms) =
      if mockEnabled then (untilClose ms).filterMap (localReply d) else [] := by
  induction ms with
  | nil => simp [outputs, replied, takeThrough]
  | cons m ms ih =>
    rw [outputs, action_c2u, untilClose, takeThrough]
    by_cases ha : (mockEnabled && answered d m) = true
    · obtain ⟨rfl, hm⟩ := Bool.and_eq_true_iff.mp ha
      have hc : m.isClose = false := by
        by_contra close
        simp [isClose_not_answered (Bool.not_eq_false _ ▸ close)] at hm
      simp only [ha, hc, ↓reduceIte, Bool.false_eq_true, List.filterMap_cons] at ih ⊢
      cases hr : localReply d m with
      | none => exact ih
      | some r => rw [← ih]; rfl
    · rw [if_neg ha]
      have unreplied (rest : List (Bool × Message)) : replied ((false, m) :: rest) = replied rest :=
        rfl
      cases mock : mockEnabled with
      | false =>
        subst mock
        by_cases hc : m.isClose = true
        · simp [hc, replied]
        · simpa [hc, unreplied] using ih
      | true =>
        subst mock
        have hr : localReply d m = none := by
          by_contra hne
          obtain ⟨r, hr⟩ := Option.ne_none_iff_exists'.mp hne
          exact ha (by simp [answered_of_localReply hr])
        by_cases hc : m.isClose = true
        · simp [hc, hr, replied]
        · simpa [hc, hr, unreplied] using ih

/-- Where nothing fails, a relay that has come to its end has lost nothing: the
upstream has every message up to the client's first Close that is not answered
here, the client every one of the upstream's and every reply it is owed. -/
theorem relay_delivers {n : Nat} (h : Run (Smooth d mockEnabled) n (.start streams) t)
    (still : ∀ u, ¬ Smooth d mockEnabled t u) :
    t.upstream = (untilClose (streams .c2u)).filter (fun m => !(mockEnabled && answered d m)) ∧
    Interleaving (untilClose (streams .u2c))
      (if mockEnabled then (untilClose (streams .c2u)).filterMap (localReply d) else [])
      t.client := by
  have start : Kept (action d mockEnabled) streams (fun _ => []) (.start streams) :=
    ⟨start_invariant, fun _ => rfl⟩
  obtain ⟨excl, sent, kept⟩ : Exclusive mockEnabled t ∧
      ∃ sent, Kept (action d mockEnabled) streams sent t :=
    h.preserves (P := fun s => Exclusive mockEnabled s ∧
        ∃ sent, Kept (action d mockEnabled) streams sent s)
      (fun _ _ ⟨excl, _, kept⟩ step => ⟨step_exclusive step.step excl, smooth_kept step kept⟩)
      ⟨start_exclusive mockEnabled streams, _, start⟩
  have finished (l : Loop) : (t.side l).pc = .finished := by
    by_contra going
    obtain ⟨u, smooth⟩ := smooth_progress excl l going
    exact still u smooth
  have sentAll (l : Loop) : sent l = outputs (action d mockEnabled l) (streams l) := by
    have all := kept.all l
    rwa [show todo (action d mockEnabled l) (t.side l) = [] by simp [todo, finished l],
      List.append_nil] at all
  have client := kept.client
  rw [sentAll .u2c, sentAll .c2u, outputs_u2c, replied_outputs_all] at client
  exact ⟨by rw [kept.upstream, sentAll, passed_outputs], client⟩

/-- From the start a relay can run to its end. -/
theorem exists_smooth_run (d : Deserializer) (mockEnabled : Bool) (streams : Loop → List Message) :
    ∃ n t, Run (Smooth d mockEnabled) n (.start streams) t ∧ ∀ u, ¬ Smooth d mockEnabled t u := by
  have keep (s t : State) (excl : Exclusive mockEnabled s) (step : Smooth d mockEnabled s t) :
      Exclusive mockEnabled t := step_exclusive step.step excl
  have progress (s : State) (_ : Exclusive mockEnabled s) :
      (∀ u, ¬ Smooth d mockEnabled s u) ∨ ∃ t, Smooth d mockEnabled s t ∧ t.work < s.work := by
    by_cases still : ∃ u, Smooth d mockEnabled s u
    · obtain ⟨u, smooth⟩ := still
      exact .inr ⟨u, smooth, smooth_work smooth⟩
    · exact .inl (not_exists.mp still)
  obtain ⟨n, t, -, run, -, still⟩ :=
    exists_run State.work keep progress (start_exclusive mockEnabled streams)
  exact ⟨n, t, run, still⟩

/-- The second frame comes after a Close, and the upstream never sees it. -/
theorem relay_delivers_close :
    ∃ t : State, t.upstream = [.binary [1], .close none] ∧ t.client = [] := by
  obtain ⟨n, t, run, still⟩ := exists_smooth_run reader true
    (clientOnly [.binary [1], .close none, .binary [2]])
  obtain ⟨up, down⟩ := relay_delivers run still
  exact ⟨t, up, List.eq_nil_of_length_eq_zero down.length⟩

end Relay
