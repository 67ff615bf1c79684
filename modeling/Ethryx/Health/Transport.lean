import Ethryx.Health.Probe

/-!
# The EL transport verdict over runs

A transport reaches the upstream when its outcome is no transport error.

* `detect_https`, `detect_cleartext`: what one poll does, by who reaches;
* `transport_verdict`: every poll of every run.
-/

namespace Health

/-- One outcome of `el_batch_rpc` a client. -/
abbrev Outcomes := Client → Except HealthError ElBatchResult

/-- An answer, even an error, came from the upstream. -/
def reaches : Except HealthError ElBatchResult → Bool
  | .ok _ => true
  | .error e => !isTransport e

/-- The verdict after the polls of a run, from the one `run_inner` stores. -/
def verdictAfter (trustUpstream : Bool) (scheme : Option Bytes) (polls : List Outcomes) : Bool :=
  polls.foldl (fun useH2 o => (elBatchDetect scheme useH2 o).useH2)
    (initialUseH2 trustUpstream scheme)

section
variable {scheme : Option Bytes} {u : Bool} {o : Outcomes}

theorem detect_https (h : scheme = some https) :
    elBatchDetect scheme u o = ⟨[.client], publish (o .client), u⟩ := by
  rw [elBatchDetect, if_pos h]

/-- In cleartext the poll goes by who reaches. -/
theorem detect_cleartext (hs : scheme ≠ some https) :
    elBatchDetect scheme u o =
      if reaches (o (elClient u)) = true then ⟨[elClient u], publish (o (elClient u)), u⟩
      else if reaches (o (elClient !u)) = true then
        ⟨[elClient u, elClient !u], publish (o (elClient !u)), !u⟩
      else ⟨[elClient u, elClient !u], publish (o (elClient u)), u⟩ := by
  rw [elBatchDetect, if_neg hs]
  cases hp : o (elClient u) with
  | ok batch => rfl
  | error e =>
    cases he : isTransport e with
    | false => simp [reaches, he]
    | true =>
      cases ha : o (elClient !u) with
      | ok batch => simp [reaches, he]
      | error e' => cases he' : isTransport e' <;> simp [reaches, he, he']

theorem detect_reaches (hs : scheme ≠ some https) (h : reaches (o (elClient u)) = true) :
    elBatchDetect scheme u o = ⟨[elClient u], publish (o (elClient u)), u⟩ := by
  rw [detect_cleartext hs, if_pos h]

/-- The other transport answered where the current one did not. -/
theorem detect_turns (hs : scheme ≠ some https) (h : reaches (o (elClient u)) = false)
    (h' : reaches (o (elClient !u)) = true) :
    elBatchDetect scheme u o =
      ⟨[elClient u, elClient !u], publish (o (elClient !u)), !u⟩ := by
  rw [detect_cleartext hs, if_neg (Bool.eq_false_iff.mp h), if_pos h']

/-- Neither answered: the first error is published. -/
theorem detect_keeps (hs : scheme ≠ some https) (h : reaches (o (elClient u)) = false)
    (h' : reaches (o (elClient !u)) = false) :
    elBatchDetect scheme u o =
      ⟨[elClient u, elClient !u], publish (o (elClient u)), u⟩ := by
  rw [detect_cleartext hs, if_neg (Bool.eq_false_iff.mp h), if_neg (Bool.eq_false_iff.mp h')]

/-- A poll in which the current transport reaches keeps it. -/
theorem detect_stable (h : reaches (o (elClient u)) = true) :
    (elBatchDetect scheme u o).useH2 = u := by
  by_cases hs : scheme = some https
  · rw [detect_https hs]
  · rw [detect_reaches hs h]

theorem foldl_stable {polls : List Outcomes} (h : ∀ o ∈ polls, reaches (o (elClient u)) = true) :
    polls.foldl (fun useH2 o => (elBatchDetect scheme useH2 o).useH2) u = u := by
  induction polls with
  | nil => rfl
  | cons o polls ih =>
    rw [List.foldl_cons, detect_stable (h o List.mem_cons_self)]
    exact ih fun o' ho => h o' (List.mem_cons_of_mem o ho)

end

/-- TLS settles the version by itself. -/
theorem verdictAfter_https (trustUpstream : Bool) (polls : List Outcomes) :
    verdictAfter trustUpstream (some https) polls = false := by
  have start : initialUseH2 trustUpstream (some https) = false := by cases trustUpstream <;> rfl
  unfold verdictAfter
  rw [start]
  induction polls with
  | nil => rfl
  | cons o polls ih => rw [List.foldl_cons, detect_https rfl, ih]

/-- One poll `o` after any run of polls. -/
theorem transport_verdict (trustUpstream : Bool) (scheme : Option Bytes) (polls : List Outcomes)
    (o : Outcomes) :
    let u := verdictAfter trustUpstream scheme polls
    let now := elClient u
    let other := elClient !u
    let poll := elBatchDetect scheme u o
    verdictAfter trustUpstream scheme (polls ++ [o]) = poll.useH2 ∧
    (scheme = some https →
      u = false ∧ poll.useH2 = false ∧ poll.attempts = [.client] ∧
        poll.result = publish (o .client)) ∧
    (scheme ≠ some https →
      (poll.useH2 ≠ u ↔ reaches (o now) = false ∧ reaches (o other) = true) ∧
      ((∃ c, reaches (o c) = true) → reaches (o (elClient poll.useH2)) = true) ∧
      poll.attempts = (if reaches (o now) then [now] else [now, other]) ∧
      poll.result =
        publish (if reaches (o now) then o now else if reaches (o other) then o other else o now)) ∧
    ∀ more : List Outcomes, (∀ o' ∈ more, reaches (o' now) = true) →
      verdictAfter trustUpstream scheme (polls ++ more) = u := by
  intro u now other poll
  refine ⟨?_, ?_, fun hs => ?_, fun more h => ?_⟩
  · rw [verdictAfter, List.foldl_append]
    rfl
  · rintro rfl
    have hu : u = false := verdictAfter_https trustUpstream polls
    have hp : poll = ⟨[.client], publish (o .client), u⟩ := detect_https rfl
    simp only [hp, hu, and_self]
  · -- some client is the one of the verdict or the one of its opposite
    have either (c : Client) : c = now ∨ c = other := by
      cases c <;> simp only [now, other, elClient] <;> cases u <;> simp
    by_cases h : reaches (o now) = true
    · have hp : poll = ⟨[now], publish (o now), u⟩ := detect_reaches hs h
      rw [hp]
      exact ⟨by simp [h], fun _ => h, by simp [h], by simp [h]⟩
    · have h := Bool.eq_false_iff.mpr h
      by_cases h' : reaches (o other) = true
      · have hp : poll = ⟨[now, other], publish (o other), !u⟩ := detect_turns hs h h'
        rw [hp]
        exact ⟨by simp [h, h'], fun _ => h', by simp [h], by simp [h, h']⟩
      · have h' := Bool.eq_false_iff.mpr h'
        have hp : poll = ⟨[now, other], publish (o now), u⟩ := detect_keeps hs h h'
        rw [hp]
        refine ⟨by simp [h'], ?_, by simp [h], by simp [h']⟩
        rintro ⟨c, hc⟩
        rcases either c with rfl | rfl
        · exact hc
        · rw [h'] at hc
          cases hc
  · rw [verdictAfter, List.foldl_append]
    exact foldl_stable h

end Health
