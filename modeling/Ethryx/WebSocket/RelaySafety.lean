import Ethryx.Json.Reader
import Ethryx.Traces
import Ethryx.WebSocket.Relay

/-!
# What the relay keeps

* `outputs`: everything a loop would send of a stream, in order;
* `step_progress`: a step of a loop takes from the front of what it has still to
  send, or gives the rest up;
* `reachable_invariant`: so what a loop has sent is the front of its outputs;
* `relay_safe`: what the sinks hold of the two streams.
-/

namespace Relay

open Json Rpc

/-- The stream up to its first Close, and with it. -/
abbrev untilClose : List Message → List Message := takeThrough Message.isClose

/-- What a loop sends of a stream, replies marked. Nothing follows a Close. -/
def outputs (act : Message → Action) : List Message → List (Bool × Message)
  | [] => []
  | m :: rest =>
    match act m with
    | .drop => outputs act rest
    | .answer r => (true, r) :: outputs act rest
    | .pass => (false, m) :: if m.isClose then [] else outputs act rest

/-- What is left to send when a send returns. -/
def todoAfter (act : Message → Action) (m : Message) (reply : Bool) (input : List Message) :
    List (Bool × Message) :=
  if !reply && m.isClose then [] else outputs act input

/-- What is left to send. -/
def todo (act : Message → Action) (σ : Side) : List (Bool × Message) :=
  match σ.pc with
  | .reading => outputs act σ.input
  | .locking m reply | .sending m reply => (reply, m) :: todoAfter act m reply σ.input
  | .flushing m reply => todoAfter act m reply σ.input
  | .closing | .finished => []

theorem todo_begin (act : Message → Action) (mock : Bool) (l : Loop) (m : Message) (reply : Bool)
    (input : List Message) :
    todo act ⟨input, begin mock l m reply⟩ = (reply, m) :: todoAfter act m reply input := by
  unfold begin
  split <;> rfl

theorem todo_dispatch (act : Message → Action) (mock : Bool) (l : Loop) (m : Message)
    (rest : List Message) :
    todo act ⟨rest, dispatch mock l m (act m)⟩ = todo act ⟨m :: rest, .reading⟩ := by
  cases h : act m with
  | drop => simp only [dispatch, todo, outputs, h]
  | answer r =>
    simp only [dispatch, todo_begin]
    simp only [todo, outputs, h, todoAfter, Bool.not_true, Bool.false_and, Bool.false_eq_true,
      ↓reduceIte]
  | pass =>
    simp only [dispatch, todo_begin]
    simp only [todo, outputs, h, todoAfter, Bool.not_false, Bool.true_and]

theorem todo_afterSend (act : Message → Action) (m : Message) (reply ok : Bool)
    (input : List Message) :
    todo act ⟨input, afterSend m reply ok⟩ <+: todoAfter act m reply input := by
  unfold afterSend todoAfter
  split
  · exact List.nil_prefix
  · cases ok
    · exact List.nil_prefix
    · exact List.prefix_rfl

/-- A refused message is the last of its direction. -/
theorem todo_rejected (act : Message → Action) (m : Message) (reply : Bool)
    (input : List Message) : todo act ⟨input, afterSend m reply false⟩ = [] := by
  unfold afterSend
  split <;> rfl

/-! ## The invariant -/

def passed (sent : List (Bool × Message)) : List Message :=
  sent.filterMap fun p => if p.1 then none else some p.2

def replied (sent : List (Bool × Message)) : List Message :=
  sent.filterMap fun p => if p.1 then some p.2 else none

/-- Each loop has sent a prefix of its outputs, and the sinks hold what was sent. -/
structure Invariant (act : Loop → Message → Action) (streams : Loop → List Message)
    (sent : Loop → List (Bool × Message)) (s : State) : Prop where
  progress : ∀ l, sent l ++ todo (act l) (s.side l) <+: outputs (act l) (streams l)
  upstream : s.upstream = passed (sent .c2u)
  client : Interleaving ((sent .u2c).map Prod.snd) (replied (sent .c2u)) s.client

section
variable {act : Loop → Message → Action} {streams : Loop → List Message}
  {sent : Loop → List (Bool × Message)} {s : State}

theorem start_invariant : Invariant act streams (fun _ => []) (.start streams) where
  progress _ := List.prefix_rfl
  upstream := rfl
  client := .nil

/-- A loop moves on and sends nothing. -/
theorem Invariant.move (h : Invariant act streams sent s) (l : Loop) {σ : Side}
    (hσ : todo (act l) σ <+: todo (act l) (s.side l)) : Invariant act streams sent (s.set l σ) where
  progress l' := by
    by_cases hl : l' = l
    · subst hl
      simp only [State.set, Function.update_self]
      exact (List.prefix_append_right_inj _).mpr hσ |>.trans (h.progress l')
    · simp only [State.set, Function.update_of_ne hl]
      exact h.progress l'
  upstream := h.upstream
  client := h.client

theorem Invariant.unlock (h : Invariant act streams sent s) (l : Loop) :
    Invariant act streams sent (s.unlock l) :=
  ⟨h.progress, h.upstream, h.client⟩

/-- A sink takes a message, and the loop moves on. -/
theorem Invariant.push (h : Invariant act streams sent s) (l : Loop) {m : Message} {reply : Bool}
    {σ : Side} (hσ : todo (act l) (s.side l) = (reply, m) :: todo (act l) σ) :
    Invariant act streams (Function.update sent l (sent l ++ [(reply, m)]))
      ((s.set l σ).push l reply m) where
  progress l' := by
    have side : ((s.set l σ).push l reply m).side = Function.update s.side l σ := by
      unfold State.push
      split <;> rfl
    rw [side]
    by_cases hl : l' = l
    · subst hl
      have := h.progress l'
      simp only [Function.update_self, List.append_assoc, List.singleton_append]
      rwa [hσ] at this
    · simp only [Function.update_of_ne hl]
      exact h.progress l'
  upstream := by
    have up := h.upstream
    cases l <;> cases reply <;>
      simp [State.push, State.set, Loop.toClient, passed, up]
  client := by
    have merged := h.client
    have grow (k : Bool) : replied (sent .c2u ++ [(k, m)]) =
        replied (sent .c2u) ++ if k then [m] else [] := by
      cases k <;> simp [replied]
    cases l with
    | c2u =>
      cases reply with
      | false => simpa [State.push, State.set, Loop.toClient, grow] using merged
      | true => simpa [State.push, State.set, Loop.toClient, grow] using merged.right m
    | u2c => simpa [State.push, State.set, Loop.toClient] using merged.left m

end

variable {d : Deserializer} {mockEnabled : Bool} {streams : Loop → List Message} {s t : State}

theorem step_invariant {sent : Loop → List (Bool × Message)} (h : Step d mockEnabled s t)
    (inv : Invariant (action d mockEnabled) streams sent s) :
    ∃ sent', Invariant (action d mockEnabled) streams sent' t := by
  cases h with
  | read l m rest h =>
    refine ⟨sent, inv.move l ?_⟩
    rw [h, todo_dispatch]
  | ended l h => exact ⟨sent, inv.move l List.nil_prefix⟩
  | lock l m reply input h free =>
    have moved := inv.move l (σ := ⟨input, .sending m reply⟩) (by rw [h]; rfl)
    exact ⟨sent, moved.progress, moved.upstream, moved.client⟩
  | accept l m reply input h => exact ⟨_, inv.push l (by rw [h]; rfl)⟩
  | reject l m reply input h =>
    refine ⟨sent, (inv.move l ?_).unlock l⟩
    rw [todo_rejected]
    exact List.nil_prefix
  | flush l m reply ok input h =>
    refine ⟨sent, (inv.move l ?_).unlock l⟩
    rw [h]
    exact todo_afterSend _ m reply ok input
  | closed l input rest h took =>
    refine ⟨sent, inv.move l ?_⟩
    exact List.nil_prefix
  | cut l h =>
    refine ⟨sent, (inv.move l ?_).unlock l⟩
    exact List.nil_prefix

theorem reachable_invariant (h : Reachable d mockEnabled streams s) :
    ∃ sent, Invariant (action d mockEnabled) streams sent s := by
  induction h with
  | start => exact ⟨_, start_invariant⟩
  | next _ step ih =>
    obtain ⟨sent, inv⟩ := ih
    exact step_invariant step inv

/-! ## What the sinks hold -/

/-- The text frames that are answered or dropped. -/
def answered (d : Deserializer) : Message → Bool
  | .text t => mockSyncing d t != .forward
  | _ => false

/-- The reply to a text frame that has one. -/
def localReply (d : Deserializer) : Message → Option Message
  | .text t =>
    match mockSyncing d t with
    | .reply r => some (.text r)
    | _ => none
  | _ => none

/-- Nothing comes after a Close. -/
def EndsAtClose (ms : List Message) : Prop := ms.Pairwise fun m _ => m.isClose = false

/-- The loop that reads the client, in terms of the two classes of text frames. -/
theorem action_c2u (d : Deserializer) (mockEnabled : Bool) (m : Message) :
    action d mockEnabled .c2u m =
      if (mockEnabled && answered d m) = true then
        match localReply d m with
        | some r => .answer r
        | none => .drop
      else .pass := by
  cases m with
  | text t =>
    cases mockEnabled with
    | false => rfl
    | true => cases h : mockSyncing d t <;> simp [action, answered, localReply, h]
  | binary | ping | pong | close => simp [action, answered]

theorem answered_of_localReply {m r : Message} (h : localReply d m = some r) :
    answered d m = true := by
  cases m with
  | text t => cases ht : mockSyncing d t <;> simp_all [localReply, answered]
  | binary | ping | pong | close => cases h

theorem isClose_not_answered {m : Message} (h : m.isClose = true) : answered d m = false := by
  cases m <;> first | rfl | cases h

theorem passed_outputs (ms : List Message) :
    passed (outputs (action d mockEnabled .c2u) ms) =
      (untilClose ms).filter fun m => !(mockEnabled && answered d m) := by
  induction ms with
  | nil => rfl
  | cons m ms ih =>
    rw [outputs, untilClose, takeThrough, action_c2u]
    by_cases ha : (mockEnabled && answered d m) = true
    · have hc : m.isClose = false := by
        by_contra h
        simp [isClose_not_answered (Bool.not_eq_false _ ▸ h)] at ha
      simp only [ha, hc, ↓reduceIte, Bool.false_eq_true, Bool.not_true, not_false_eq_true,
        List.filter_cons_of_neg, ← ih]
      cases localReply d m <;> rfl
    · rw [if_neg ha, List.filter_cons_of_pos (by rw [Bool.eq_false_iff.mpr ha]; rfl)]
      by_cases hc : m.isClose = true
      · simp [hc, passed]
      · simp only [hc, Bool.false_eq_true, ↓reduceIte]
        rw [← ih]
        rfl

theorem replied_outputs (ms : List Message) :
    replied (outputs (action d mockEnabled .c2u) ms) <+:
      if mockEnabled then ms.filterMap (localReply d) else [] := by
  induction ms with
  | nil => exact List.nil_prefix
  | cons m ms ih =>
    rw [outputs, action_c2u]
    by_cases ha : (mockEnabled && answered d m) = true
    · rw [if_pos ha]
      obtain ⟨rfl, -⟩ := Bool.and_eq_true_iff.mp ha
      simp only [↓reduceIte] at ih ⊢
      cases hr : localReply d m with
      | none => simpa [hr] using ih
      | some r => simpa [hr, replied] using ih
    · rw [if_neg ha]
      by_cases hc : m.isClose = true
      · simp [hc, replied]
      · -- a message that is passed on has no reply
        have rest : replied ((false, m) :: outputs (action d mockEnabled .c2u) ms) =
            replied (outputs (action d mockEnabled .c2u) ms) := rfl
        simp only [hc, Bool.false_eq_true, ↓reduceIte, rest]
        cases mockEnabled with
        | false => exact ih
        | true =>
          have hr : localReply d m = none := by
            by_contra hne
            obtain ⟨r, hr⟩ := Option.ne_none_iff_exists'.mp hne
            exact ha (by simp [answered_of_localReply hr])
          simpa [hr] using ih

theorem outputs_u2c (ms : List Message) :
    (outputs (action d mockEnabled .u2c) ms).map Prod.snd = untilClose ms := by
  induction ms with
  | nil => rfl
  | cons m ms ih =>
    simp only [outputs, action, takeThrough, List.map_cons]
    split
    · rfl
    · rw [ih]

/-- Nothing is lost, doubled, reordered or made up, whatever the schedule: what
either sink has taken is a prefix of what it is owed, and a direction ends with
its first Close. Only text frames are answered here. -/
theorem relay_safe (h : Reachable d mockEnabled streams s) :
    (mockEnabled = false → s.upstream <+: streams .c2u) ∧
    (mockEnabled = true → s.upstream <+: (streams .c2u).filter fun m => !answered d m) ∧
    (∃ fromUpstream replies, Interleaving fromUpstream replies s.client ∧
      fromUpstream <+: streams .u2c ∧ EndsAtClose fromUpstream ∧
      replies <+: if mockEnabled then (streams .c2u).filterMap (localReply d) else []) ∧
    EndsAtClose s.upstream ∧
    ∀ l m, (∀ t, m ≠ .text t) → action d mockEnabled l m = .pass := by
  obtain ⟨sent, inv⟩ := reachable_invariant h
  have progress (l : Loop) : sent l <+: outputs (action d mockEnabled l) (streams l) :=
    (List.prefix_append _ _).trans (inv.progress l)
  have up : s.upstream <+:
      (untilClose (streams .c2u)).filter fun m => !(mockEnabled && answered d m) := by
    rw [inv.upstream, ← passed_outputs]
    exact (progress .c2u).filterMap _
  have whole := up.trans ((takeThrough_isPrefix _ _).filter _)
  have down : (sent .u2c).map Prod.snd <+: untilClose (streams .u2c) := by
    have sentFirst := (progress .u2c).map Prod.snd
    rwa [outputs_u2c] at sentFirst
  refine ⟨?_, ?_, ⟨_, _, inv.client, down.trans (takeThrough_isPrefix _ _), ?_, ?_⟩, ?_, ?_⟩
  · rintro rfl
    simpa using whole
  · rintro rfl
    simpa using whole
  · exact (takeThrough_pairwise _ _).sublist down.sublist
  · exact ((progress .c2u).filterMap _).trans (replied_outputs _)
  · exact ((takeThrough_pairwise _ _).filter _).sublist up.sublist
  · intro l m hm
    cases m with
    | text t => exact absurd rfl (hm t)
    | binary | ping | pong | close => cases l <;> rfl

/-- The client sends these messages, the upstream none. -/
def clientOnly (messages : List Message) : Loop → List Message
  | .c2u => messages
  | .u2c => []

/-- A binary frame on its way to the upstream, its flush still to come. -/
theorem relay_safe_binary :
    ∃ s : State, s.upstream = [.binary [1]] ∧
      s.upstream <+: [Message.binary [1], .close none].filter fun m => !answered reader m := by
  have read : Reachable reader true (clientOnly [.binary [1], .close none]) _ :=
    .next .start (.read .c2u (.binary [1]) _ rfl)
  have sent := read.next (.accept .c2u (.binary [1]) false [.close none] rfl)
  exact ⟨_, rfl, (relay_safe sent).2.1 rfl⟩

end Relay
