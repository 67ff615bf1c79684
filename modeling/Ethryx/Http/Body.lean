import Ethryx.Http

/-!
# Bodies up to their chunks

* `collect_eq`: what is collected depends on the bytes that arrive in time and on
  how the body fares until then;
* `rechunked_same`: cutting a chunk in two changes neither.
-/

namespace Http

/-- How a body fares until the time is up. -/
inductive Fate where
  | ended
  | failed (error : Bytes)
  | late
  deriving DecidableEq, Repr

namespace Body

/-- The data that arrives in time. -/
def arrived : Nat → Body → Bytes
  | left, .frame wait f rest => if left < wait then [] else f.bytes ++ arrived (left - wait) rest
  | _, _ => []

def fate : Nat → Body → Fate
  | left, .frame wait _ rest => if left < wait then .late else fate (left - wait) rest
  | left, .ended wait => if left < wait then .late else .ended
  | left, .failed wait error => if left < wait then .late else .failed error
  | _, .stalled => .late

/-- The same bytes, in time and in all, and the same fate. -/
structure Same (left : Nat) (b b' : Body) : Prop where
  arrived : b.arrived left = b'.arrived left
  fate : b.fate left = b'.fate left
  data : b.data = b'.data

/-- What ends in time has arrived. -/
theorem arrived_ended {left : Nat} {b : Body} (h : b.fate left = .ended) :
    b.arrived left = b.data := by
  induction b generalizing left with
  | frame wait f rest ih =>
    rw [fate] at h
    split at h
    · cases h
    · next soon =>
      rw [arrived, if_neg soon, data, ih h]
  | ended wait => rfl
  | failed wait error =>
    rw [fate] at h
    split at h <;> cases h
  | stalled => cases h

/-- The same body cut elsewhere. -/
inductive Rechunked : Body → Body → Prop where
  | refl (b : Body) : Rechunked b b
  | symm {b b' : Body} : Rechunked b b' → Rechunked b' b
  | trans {b b' b'' : Body} : Rechunked b b' → Rechunked b' b'' → Rechunked b b''
  | split (wait : Nat) (s t : Bytes) (rest : Body) :
      Rechunked (.frame wait (.data (s ++ t)) rest) (.frame wait (.data s) (.frame 0 (.data t) rest))
  | frame (wait : Nat) (f : Frame) {rest rest' : Body} :
      Rechunked rest rest' → Rechunked (.frame wait f rest) (.frame wait f rest')

theorem rechunked_same {b b' : Body} (h : Rechunked b b') (left : Nat) : Same left b b' := by
  induction h generalizing left with
  | refl b => exact ⟨rfl, rfl, rfl⟩
  | symm _ ih => exact ⟨(ih left).arrived.symm, (ih left).fate.symm, (ih left).data.symm⟩
  | trans _ _ ih ih' =>
    exact ⟨(ih left).arrived.trans (ih' left).arrived, (ih left).fate.trans (ih' left).fate,
      (ih left).data.trans (ih' left).data⟩
  | split wait s t rest =>
    refine ⟨?_, ?_, ?_⟩
    · simp [arrived, Frame.bytes]
    · simp [fate]
    · simp [data, Frame.bytes]
  | frame wait f _ ih =>
    refine ⟨?_, ?_, ?_⟩
    · rw [arrived, arrived, (ih (left - wait)).arrived]
    · rw [fate, fate, (ih (left - wait)).fate]
    · rw [data, data, (ih left).data]

end Body

theorem collect_eq (left room : Nat) (acc : Bytes) (b : Body) :
    collect left room acc b =
      if room < (b.arrived left).length then .error .lengthLimit
      else match b.fate left with
        | .ended => .complete (acc ++ b.arrived left)
        | .failed e => .error (.body e)
        | .late => .elapsed := by
  induction b generalizing left room acc with
  | frame wait f rest ih =>
    rw [collect, Body.arrived, Body.fate]
    by_cases late : left < wait
    · simp [late]
    · simp only [if_neg late, List.length_append]
      by_cases long : room < f.bytes.length
      · rw [if_pos long, if_pos (by omega)]
      · have room' : room - f.bytes.length < (rest.arrived (left - wait)).length ↔
            room < f.bytes.length + (rest.arrived (left - wait)).length := by omega
        rw [if_neg long, ih]
        simp only [room', List.append_assoc]
  | ended wait =>
    rw [collect, Body.fate]
    split <;> simp [Body.arrived]
  | failed wait error =>
    rw [collect, Body.fate]
    split <;> simp [Body.arrived]
  | stalled => simp [collect, Body.fate, Body.arrived]

end Http
