import Ethryx.Health.Fetch
import Ethryx.Health.Transport

/-!
# The poller among the requests

The poller, the handlers of `/healthz` and the requests that are forwarded to the EL
share a verdict and a snapshot. The three requests of a poll are answered in any
order, and everything else happens between any two of its steps.

* `Step`: one task does one thing;
* `reachable_invariant`: whatever the order, the shared state is that of the
  sequential poller, or one stored verdict ahead of it;
* `shared_state_refines`: so is every answer and every forwarded request.
-/

namespace Health.Concurrent

open Json

/-- Where the EL branch of a poll stands. -/
inductive ElPc where
  | asking
  | retrying (primaryError : HealthError)
  | done (batch : ElBatchResult)

inductive PollerPc where
  | sleeping
  /-- `join!` of the three branches; `preferH2` was loaded at its start. -/
  | polling (preferH2 : Bool) (el : ElPc) (clStatus : Option (Except Bytes ClStatus))
      (clPeers : Option (Except Bytes UInt64))
  | stopped

inductive Event where
  /-- `el_batch_rpc` over a client. -/
  | askedEl (via : Client)
  | askedCl
  | published (probe : Probe)
  /-- A request that `el_http_proxy` sends. -/
  | forwarded (via : Client)
  /-- What `report` read for one answer. -/
  | reported (useH2 : Bool) (probe : Probe)

/-- The requests of the poller itself. -/
def Event.isAsked : Event → Bool
  | .askedEl _ | .askedCl => true
  | _ => false

def Event.published? : Event → Option Probe
  | .published probe => some probe
  | _ => none

structure State where
  poller : PollerPc
  /-- `el_use_h2`. -/
  useH2 : Bool
  /-- The value of the watch. -/
  served : Probe
  /-- Polls that were published since the warm-up. -/
  completed : Nat
  /-- The snapshots that handlers have borrowed: `send` waits for them. -/
  readers : List Probe
  log : List Event

section
variable (d : Deserializer) (texts : Texts) (cfg : Config) (warm : Fetched) (answers : Nat → Fetched)

/-- The sequential poller behind the warm-up and `k` polls: its snapshot and verdict. -/
def after : Nat → Probe × Bool
  | 0 => firstProbe d texts cfg warm
  | k + 1 => probeOnce d texts cfg (after k).2 (answers k)

/-- `el_batch_rpc`, for what its fetch gives. -/
def rpc (k : Nat) (c : Client) : Except HealthError ElBatchResult :=
  elBatchRpc d texts ((answers k).el c)

def start : State where
  poller := .sleeping
  useH2 := (after d texts cfg warm answers 0).2
  served := (after d texts cfg warm answers 0).1
  completed := 0
  readers := []
  log := []

/-- `el_client` of a poll: TLS upstreams get the default client. -/
def pollClient (useH2 : Bool) : Client :=
  if cfg.elHttpScheme = some https then .client else elClient useH2

/-- What `probe_once` makes of its three branches. -/
def joined (batch : ElBatchResult) (status : Except Bytes ClStatus) (peers : Except Bytes UInt64) :
    Probe :=
  ⟨errorText texts batch.syncing, errorText texts batch.peers, errorText texts batch.block, status,
    peers⟩

inductive Step : State → State → Prop where
  | wake {s : State} (at_ : s.poller = .sleeping) (polls : cfg.trustUpstream = false) :
      Step s { s with
        poller := .polling s.useH2 .asking none none
        log := s.log ++ [.askedEl (pollClient cfg s.useH2), .askedCl, .askedCl] }
  /-- The first answer decides, unless nothing was reached. -/
  | answer {s : State} {preferH2 : Bool} {cs : Option (Except Bytes ClStatus)}
      {cp : Option (Except Bytes UInt64)} (at_ : s.poller = .polling preferH2 .asking cs cp)
      (decides : cfg.elHttpScheme = some https ∨
        reaches (rpc d texts answers s.completed (elClient preferH2)) = true) :
      Step s { s with
        poller := .polling preferH2
          (.done (publish (rpc d texts answers s.completed (pollClient cfg preferH2)))) cs cp }
  | retry {s : State} {preferH2 : Bool} {primaryError : HealthError}
      {cs : Option (Except Bytes ClStatus)} {cp : Option (Except Bytes UInt64)}
      (at_ : s.poller = .polling preferH2 .asking cs cp)
      (cleartext : cfg.elHttpScheme ≠ some https)
      (failed : rpc d texts answers s.completed (elClient preferH2) = .error primaryError)
      (transport : isTransport primaryError = true) :
      Step s { s with
        poller := .polling preferH2 (.retrying primaryError) cs cp
        log := s.log ++ [.askedEl (elClient !preferH2)] }
  /-- The other transport answered: `el_use_h2.store`. -/
  | turn {s : State} {preferH2 : Bool} {primaryError : HealthError}
      {cs : Option (Except Bytes ClStatus)} {cp : Option (Except Bytes UInt64)}
      (at_ : s.poller = .polling preferH2 (.retrying primaryError) cs cp)
      (reached : reaches (rpc d texts answers s.completed (elClient !preferH2)) = true) :
      Step s { s with
        poller := .polling preferH2
          (.done (publish (rpc d texts answers s.completed (elClient !preferH2)))) cs cp
        useH2 := !preferH2 }
  | keep {s : State} {preferH2 : Bool} {primaryError : HealthError}
      {cs : Option (Except Bytes ClStatus)} {cp : Option (Except Bytes UInt64)}
      (at_ : s.poller = .polling preferH2 (.retrying primaryError) cs cp)
      (unreached : reaches (rpc d texts answers s.completed (elClient !preferH2)) = false) :
      Step s { s with
        poller := .polling preferH2 (.done (publish (.error primaryError))) cs cp }
  | clSyncing {s : State} {preferH2 : Bool} {el : ElPc} {cp : Option (Except Bytes UInt64)}
      (at_ : s.poller = .polling preferH2 el none cp) :
      Step s { s with
        poller := .polling preferH2 el
          (some (clGetJson d texts .clStatus (ClStatus.deserialize d) (answers s.completed).clSyncing))
          cp }
  | clPeerCount {s : State} {preferH2 : Bool} {el : ElPc} {cs : Option (Except Bytes ClStatus)}
      (at_ : s.poller = .polling preferH2 el cs none) :
      Step s { s with
        poller := .polling preferH2 el cs
          (some (clGetJson d texts .clPeers (Peers.deserialize d)
            (answers s.completed).clPeerCount)) }
  /-- All three are there, and nobody holds the old snapshot: `tx.send`. -/
  | publish {s : State} {preferH2 : Bool} {batch : ElBatchResult} {status : Except Bytes ClStatus}
      {peers : Except Bytes UInt64}
      (at_ : s.poller = .polling preferH2 (.done batch) (some status) (some peers))
      (free : s.readers = []) :
      Step s { s with
        poller := .sleeping
        served := joined texts batch status peers
        completed := s.completed + 1
        log := s.log ++ [.published (joined texts batch status peers)] }
  /-- The shutdown cancels the poll wherever it stands. -/
  | stop {s : State} : Step s { s with poller := .stopped }
  | forward {s : State} : Step s { s with log := s.log ++ [.forwarded (elClient s.useH2)] }
  /-- `state.probe.borrow()` of a handler. -/
  | borrow {s : State} : Step s { s with readers := s.readers ++ [s.served] }
  /-- The handler reads the verdict, answers and lets go of the snapshot. -/
  | report {s : State} {before later : List Probe} {probe : Probe}
      (held : s.readers = before ++ probe :: later) :
      Step s { s with
        readers := before ++ later
        log := s.log ++ [.reported s.useH2 probe] }

inductive Reachable : State → Prop where
  | start : Reachable (start d texts cfg warm answers)
  | next {s t : State} : Reachable s → Step d texts cfg answers s t → Reachable t

end

/-! ## The sequential poller -/

section
variable (d : Deserializer) (texts : Texts) (cfg : Config) (warm : Fetched) (answers : Nat → Fetched)

/-- The detection of the poll behind `k` others. -/
def detection (k : Nat) : Detection :=
  elBatchDetect cfg.elHttpScheme (after d texts cfg warm answers k).2 (rpc d texts answers k)

/-- The verdict behind `k` polls, or the one that the next poll has just stored. -/
def Current (k : Nat) (useH2 : Bool) : Prop :=
  useH2 = (after d texts cfg warm answers k).2 ∨ useH2 = (after d texts cfg warm answers (k + 1)).2

/-- What is seen of a poller whose polls are one step each, and of handlers that read
verdict and snapshot at once. -/
inductive Trace : Nat → List Event → Prop where
  | start : Trace 0 []
  | poll {k : Nat} {log : List Event} (h : Trace k log) :
      Trace (k + 1) (log ++ [.published (after d texts cfg warm answers (k + 1)).1])
  | askEl {k : Nat} {log : List Event} {via : Client} (h : Trace k log)
      (attempt : via ∈ (detection d texts cfg warm answers k).attempts) :
      Trace k (log ++ [.askedEl via])
  | askCl {k : Nat} {log : List Event} (h : Trace k log) : Trace k (log ++ [.askedCl])
  | forward {k : Nat} {log : List Event} {useH2 : Bool} (h : Trace k log)
      (current : Current d texts cfg warm answers k useH2) :
      Trace k (log ++ [.forwarded (elClient useH2)])
  | report {k : Nat} {log : List Event} {useH2 : Bool} (h : Trace k log)
      (current : Current d texts cfg warm answers k useH2) :
      Trace k (log ++ [.reported useH2 (after d texts cfg warm answers k).1])

/-- What the EL branch knows in each of its states. -/
def ElPc.Ok (k : Nat) (useH2 : Bool) : ElPc → Prop
  | .asking => useH2 = (after d texts cfg warm answers k).2
  | .retrying e =>
    useH2 = (after d texts cfg warm answers k).2 ∧ cfg.elHttpScheme ≠ some https ∧
      rpc d texts answers k (elClient useH2) = .error e ∧ isTransport e = true
  | .done batch =>
    batch = (detection d texts cfg warm answers k).result ∧
      useH2 = (detection d texts cfg warm answers k).useH2

def PollerPc.Ok (k : Nat) (useH2 : Bool) : PollerPc → Prop
  | .sleeping => useH2 = (after d texts cfg warm answers k).2
  | .polling preferH2 el cs cp =>
    cfg.trustUpstream = false ∧ preferH2 = (after d texts cfg warm answers k).2 ∧
      el.Ok d texts cfg warm answers k useH2 ∧
      (∀ x ∈ cs, x = clGetJson d texts .clStatus (ClStatus.deserialize d) (answers k).clSyncing) ∧
      ∀ x ∈ cp, x = clGetJson d texts .clPeers (Peers.deserialize d) (answers k).clPeerCount
  | .stopped => Current d texts cfg warm answers k useH2

structure Invariant (s : State) : Prop where
  served : s.served = (after d texts cfg warm answers s.completed).1
  readers : ∀ p ∈ s.readers, p = s.served
  poller : s.poller.Ok d texts cfg warm answers s.completed s.useH2
  log : Trace d texts cfg warm answers s.completed s.log

end

section
variable {d : Deserializer} {texts : Texts} {cfg : Config} {warm : Fetched}
  {answers : Nat → Fetched} {k : Nat} {useH2 : Bool} {s t : State}

theorem after_succ (ht : cfg.trustUpstream = false) (k : Nat) :
    after d texts cfg warm answers (k + 1) =
      (joined texts (detection d texts cfg warm answers k).result
        (clGetJson d texts .clStatus (ClStatus.deserialize d) (answers k).clSyncing)
        (clGetJson d texts .clPeers (Peers.deserialize d) (answers k).clPeerCount),
      (detection d texts cfg warm answers k).useH2) := by
  simp only [after, probeOnce, ht, Bool.false_eq_true, ↓reduceIte]
  rfl

/-- Wherever the poller stands, the verdict is the last or the next one. -/
theorem PollerPc.Ok.current {pc : PollerPc} (h : pc.Ok d texts cfg warm answers k useH2) :
    Current d texts cfg warm answers k useH2 := by
  cases pc with
  | sleeping => exact .inl h
  | stopped => exact h
  | polling preferH2 el cs cp =>
    obtain ⟨ht, -, el_ok, -, -⟩ := h
    cases el with
    | asking => exact .inl el_ok
    | retrying e => exact .inl el_ok.1
    | done batch =>
      right
      rw [after_succ ht]
      exact el_ok.2

theorem start_invariant :
    Invariant d texts cfg warm answers (start d texts cfg warm answers) where
  served := rfl
  readers := by
    intro p hp
    cases hp
  poller := rfl
  log := .start

/-- The first request of a detection. -/
theorem first_attempt (k : Nat) :
    pollClient cfg (after d texts cfg warm answers k).2 ∈
      (detection d texts cfg warm answers k).attempts := by
  unfold detection pollClient
  by_cases hs : cfg.elHttpScheme = some https
  · rw [detect_https hs, if_pos hs]
    exact List.mem_singleton_self _
  · rw [detect_cleartext hs, if_neg hs]
    split
    · exact List.mem_singleton_self _
    · split <;> exact List.mem_cons_self

/-! ## The EL branch, step by step -/

theorem ok_answer (decides : cfg.elHttpScheme = some https ∨
      reaches (rpc d texts answers k (elClient (after d texts cfg warm answers k).2)) = true) :
    ElPc.Ok d texts cfg warm answers k (after d texts cfg warm answers k).2
      (.done (publish (rpc d texts answers k
        (pollClient cfg (after d texts cfg warm answers k).2)))) := by
  unfold ElPc.Ok detection pollClient
  by_cases hs : cfg.elHttpScheme = some https
  · rw [detect_https hs, if_pos hs]
    exact ⟨rfl, rfl⟩
  · rw [detect_reaches hs (decides.resolve_left hs), if_neg hs]
    exact ⟨rfl, rfl⟩

theorem reaches_error {α : HealthError} (h : isTransport α = true) :
    reaches (.error α) = false := by
  rw [reaches, h]
  rfl

theorem ok_turn {e : HealthError}
    (h : ElPc.Ok d texts cfg warm answers k useH2 (.retrying e))
    (reached : reaches (rpc d texts answers k (elClient !useH2)) = true) :
    ElPc.Ok d texts cfg warm answers k (!useH2)
      (.done (publish (rpc d texts answers k (elClient !useH2)))) := by
  obtain ⟨rfl, hs, failed, transport⟩ := h
  unfold ElPc.Ok detection
  rw [detect_turns hs (by rw [failed]; exact reaches_error transport) reached]
  exact ⟨rfl, rfl⟩

theorem ok_keep {e : HealthError}
    (h : ElPc.Ok d texts cfg warm answers k useH2 (.retrying e))
    (unreached : reaches (rpc d texts answers k (elClient !useH2)) = false) :
    ElPc.Ok d texts cfg warm answers k useH2 (.done (publish (.error e))) := by
  obtain ⟨rfl, hs, failed, transport⟩ := h
  unfold ElPc.Ok detection
  rw [detect_keeps hs (by rw [failed]; exact reaches_error transport) unreached, failed]
  exact ⟨rfl, rfl⟩

theorem second_attempt {e : HealthError}
    (h : ElPc.Ok d texts cfg warm answers k useH2 (.retrying e)) :
    elClient (!useH2) ∈ (detection d texts cfg warm answers k).attempts := by
  obtain ⟨rfl, hs, failed, transport⟩ := h
  unfold detection
  rw [detect_cleartext hs, failed, reaches_error transport, if_neg Bool.false_ne_true]
  split <;> exact List.mem_cons_of_mem _ List.mem_cons_self

/-! ## The invariant -/

theorem step_invariant (step : Step d texts cfg answers s t)
    (h : Invariant d texts cfg warm answers s) : Invariant d texts cfg warm answers t := by
  have pc := h.poller
  cases step with
  | wake at_ polls =>
    rw [at_] at pc
    have verdict : s.useH2 = (after d texts cfg warm answers s.completed).2 := pc
    refine ⟨h.served, h.readers, ⟨polls, verdict, verdict, nofun, nofun⟩, ?_⟩
    have asked := ((h.log.askEl (first_attempt s.completed)).askCl).askCl
    rw [← verdict] at asked
    simpa using asked
  | answer at_ decides =>
    rw [at_] at pc
    obtain ⟨ht, rfl, verdict, cs, cp⟩ := pc
    have asking : s.useH2 = (after d texts cfg warm answers s.completed).2 := verdict
    refine ⟨h.served, h.readers, ⟨ht, rfl, ?_, cs, cp⟩, h.log⟩
    rw [asking]
    exact ok_answer decides
  | retry at_ cleartext failed transport =>
    rw [at_] at pc
    obtain ⟨ht, rfl, verdict, cs, cp⟩ := pc
    have asking : s.useH2 = (after d texts cfg warm answers s.completed).2 := verdict
    have retrying : ElPc.Ok d texts cfg warm answers s.completed s.useH2 (.retrying _) :=
      ⟨asking, cleartext, asking ▸ failed, transport⟩
    refine ⟨h.served, h.readers, ⟨ht, rfl, retrying, cs, cp⟩, h.log.askEl ?_⟩
    rw [← asking]
    exact second_attempt retrying
  | turn at_ reached =>
    rw [at_] at pc
    obtain ⟨ht, rfl, retrying, cs, cp⟩ := pc
    rw [← retrying.1] at reached ⊢
    exact ⟨h.served, h.readers, ⟨ht, retrying.1, ok_turn retrying reached, cs, cp⟩, h.log⟩
  | keep at_ unreached =>
    rw [at_] at pc
    obtain ⟨ht, rfl, retrying, cs, cp⟩ := pc
    rw [← retrying.1] at unreached
    exact ⟨h.served, h.readers, ⟨ht, rfl, ok_keep retrying unreached, cs, cp⟩, h.log⟩
  | clSyncing at_ =>
    rw [at_] at pc
    obtain ⟨ht, prefer, el, -, cp⟩ := pc
    refine ⟨h.served, h.readers, ⟨ht, prefer, el, ?_, cp⟩, h.log⟩
    intro x hx
    exact (Option.some.inj hx).symm
  | clPeerCount at_ =>
    rw [at_] at pc
    obtain ⟨ht, prefer, el, cs, -⟩ := pc
    refine ⟨h.served, h.readers, ⟨ht, prefer, el, cs, ?_⟩, h.log⟩
    intro x hx
    exact (Option.some.inj hx).symm
  | publish at_ free =>
    rw [at_] at pc
    obtain ⟨ht, -, ⟨rfl, verdict⟩, cs, cp⟩ := pc
    have next : after d texts cfg warm answers (s.completed + 1) = _ := after_succ ht s.completed
    rw [← cs _ rfl, ← cp _ rfl] at next
    have served := congrArg Prod.fst next
    refine ⟨served.symm, ?_, ?_, ?_⟩
    · intro p hp
      simp only at hp
      rw [free] at hp
      cases hp
    · exact verdict.trans (congrArg Prod.snd next).symm
    · have published := h.log.poll
      rw [served] at published
      exact published
  | stop => exact ⟨h.served, h.readers, pc.current, h.log⟩
  | forward => exact ⟨h.served, h.readers, pc, h.log.forward pc.current⟩
  | borrow =>
    refine ⟨h.served, ?_, pc, h.log⟩
    intro p hp
    rcases List.mem_append.mp hp with hp | hp
    · exact h.readers p hp
    · exact List.mem_singleton.mp hp
  | @report before later probe held =>
    have same : probe = s.served := h.readers probe (by rw [held]; simp)
    refine ⟨h.served, ?_, pc, ?_⟩
    · intro p hp
      apply h.readers
      rw [held]
      rcases List.mem_append.mp hp with hp | hp
      · exact List.mem_append_left _ hp
      · exact List.mem_append_right _ (List.mem_cons_of_mem _ hp)
    · have reported := h.log.report pc.current
      rw [← h.served, ← same] at reported
      exact reported

theorem reachable_invariant (h : Reachable d texts cfg warm answers s) :
    Invariant d texts cfg warm answers s := by
  induction h with
  | start => exact start_invariant
  | next _ step ih => exact step_invariant step ih

/-! ## What is seen of a run -/

theorem trace_published {log : List Event} (h : Trace d texts cfg warm answers k log) :
    log.filterMap Event.published? =
      (List.range k).map fun i => (after d texts cfg warm answers (i + 1)).1 := by
  induction h with
  | start => rfl
  | poll _ ih =>
    rw [List.filterMap_append, ih, List.range_succ, List.map_append]
    rfl
  | askEl _ _ ih | askCl _ ih | forward _ _ ih | report _ _ ih =>
    rw [List.filterMap_append, ih]
    exact List.append_nil _

/-- The polls of the sequential poller, one turn of its loop each. -/
def turns (answers : Nat → Fetched) (now : UInt64) (ks : List Nat) : List Turn :=
  ks.map fun k => .poll (answers k) now true

theorem pollLoop_range (now : UInt64) (n j : Nat) (prevReady : Option Bool) :
    (pollLoop d texts cfg (after d texts cfg warm answers j).2 prevReady
        (turns answers now (List.range' j n))).filterMap Effect.probe? =
      (List.range' j n).map fun i => (after d texts cfg warm answers (i + 1)).1 := by
  induction n generalizing j prevReady with
  | zero => rfl
  | succ n ih =>
    have next : after d texts cfg warm answers (j + 1) =
        probeOnce d texts cfg (after d texts cfg warm answers j).2 (answers j) := rfl
    rw [List.range'_succ, turns, List.map_cons, List.map_cons, pollLoop, ← next]
    simp only [List.filterMap_append, logTransition_probe, List.nil_append, ↓reduceIte,
      List.filterMap_cons, Effect.probe?]
    exact congrArg _ (ih (j + 1) _)

/-! A poll of upstreams that do not answer, with a request for `/healthz` in it. -/

def silentPolls : Nat → Fetched := fun _ => timedOut

/-- The CL answers first, then the EL on neither client; the handler borrows the old
snapshot and answers before the new one is published. -/
theorem silent_poll_reachable :
    ∃ s, Reachable reader noTexts exampleConfig timedOut silentPolls s ∧
      s.completed = 1 ∧ s.log.countP Event.isAsked = 4 :=
  ⟨_, .next (.next (.next (.next (.next (.next (.next (.next .start (.wake rfl rfl))
      (.clPeerCount rfl)) .borrow) (.retry rfl (by decide) rfl rfl)) (.report (List.nil_append _).symm))
      (.clSyncing rfl)) (.keep rfl rfl)) (.publish rfl rfl), rfl, rfl⟩

/-- Every interleaving of the poller with the requests looks like the sequential
poller: it publishes the same snapshots in the same order, whichever upstream answers
first, and the snapshot and the verdict that any answer or any forwarded request goes
by are those behind one number of polls, the verdict perhaps one poll ahead. -/
theorem shared_state_refines (h : Reachable d texts cfg warm answers s) :
    Trace d texts cfg warm answers s.completed s.log ∧
    s.served = (after d texts cfg warm answers s.completed).1 ∧
    Current d texts cfg warm answers s.completed s.useH2 ∧
    (cfg.trustUpstream = false → ∀ now,
      (after d texts cfg warm answers 0).1 :: s.log.filterMap Event.published? =
        (poller d texts cfg warm (turns answers now (List.range s.completed))).filterMap
          Effect.probe?) := by
  have inv := reachable_invariant h
  refine ⟨inv.log, inv.served, inv.poller.current, ?_⟩
  intro ht now
  have loop := @pollLoop_range d texts cfg warm answers now s.completed 0 none
  rw [trace_published inv.log, List.range_eq_range', ← loop]
  simp only [poller, ht, Bool.false_eq_true, ↓reduceIte, List.filterMap_cons, Effect.probe?]
  rfl

theorem shared_state_refines_silent :
    ∃ s : State, s.completed = 1 ∧ Trace reader noTexts exampleConfig timedOut silentPolls 1 s.log := by
  obtain ⟨s, run, completed, -⟩ := silent_poll_reachable
  have trace := (shared_state_refines run).1
  rw [completed] at trace
  exact ⟨s, completed, trace⟩

/-! ## The load on the upstreams -/

/-- The requests that the poll in progress has made. -/
def PollerPc.asked : PollerPc → Nat
  | .sleeping => 0
  | .polling _ .asking _ _ => 3
  | .polling _ _ _ _ => 4
  | .stopped => 4

theorem PollerPc.asked_le (pc : PollerPc) : pc.asked ≤ 4 := by
  unfold asked
  split <;> omega

theorem step_load (step : Step d texts cfg answers s t)
    (h : s.log.countP Event.isAsked ≤ 4 * s.completed + s.poller.asked) :
    t.log.countP Event.isAsked ≤ 4 * t.completed + t.poller.asked := by
  cases step with
  | wake at_ polls =>
    simp only [at_, PollerPc.asked] at h
    simp only [List.countP_append, List.countP_cons, List.countP_nil, Event.isAsked,
      PollerPc.asked, ↓reduceIte]
    omega
  | answer at_ decides =>
    simp only [at_, PollerPc.asked] at h ⊢
    omega
  | retry at_ cleartext failed transport =>
    simp only [at_, PollerPc.asked] at h
    simp only [List.countP_append, List.countP_cons, List.countP_nil, Event.isAsked,
      PollerPc.asked, ↓reduceIte]
    omega
  | turn at_ reached | keep at_ unreached =>
    simp only [at_, PollerPc.asked] at h ⊢
    exact h
  | @clSyncing _ el _ at_ | @clPeerCount _ el _ at_ =>
    cases el <;> simpa only [at_, PollerPc.asked] using h
  | publish at_ free =>
    simp only [at_, PollerPc.asked] at h
    simp only [List.countP_append, List.countP_cons, List.countP_nil, Event.isAsked,
      PollerPc.asked, Bool.false_eq_true, ↓reduceIte]
    omega
  | stop =>
    have := s.poller.asked_le
    exact h.trans (Nat.add_le_add_left this _)
  | forward | report =>
    simpa only [List.countP_append, List.countP_cons, List.countP_nil, Event.isAsked,
      Bool.false_eq_true, ↓reduceIte, Nat.add_zero] using h
  | borrow => exact h

/-- The upstreams are asked four times a poll at most, however many answers
`/healthz` gives and however many requests are forwarded meanwhile. -/
theorem poll_load (h : Reachable d texts cfg warm answers s) :
    s.log.countP Event.isAsked ≤ 4 * (s.completed + 1) := by
  have load : s.log.countP Event.isAsked ≤ 4 * s.completed + s.poller.asked := by
    induction h with
    | start => exact Nat.zero_le _
    | next _ step ih => exact step_load step ih
  have := s.poller.asked_le
  omega

theorem poll_load_silent :
    ∃ s : State, s.log.countP Event.isAsked = 4 ∧ s.log.countP Event.isAsked ≤ 4 * (1 + 1) := by
  obtain ⟨s, run, completed, asked⟩ := silent_poll_reachable
  have load := poll_load run
  rw [completed] at load
  exact ⟨s, asked, load⟩

end

end Health.Concurrent
