import Ethryx.Json.Reader
import Ethryx.Rpc.Reference

/-!
# The substring filter

A short body without `eth_syncing` and without a backslash is forwarded unread.
`mockSyncing_eq_parse`: the parser would have forwarded it as well, for a method
that decodes to `eth_syncing` without an escape is spelled so.
-/

namespace Rpc

open Json

/-- What the parser accepts as a request has a method that decodes right. -/
theorem requestOf_method {v : Value} {req : Request} (h : requestOf v = some req) :
    ∃ s : StrLit, s.text <:+: v.text ∧ s.decode = some (Bytes.ofString "eth_syncing") := by
  obtain ⟨ms, hms, -, t, hslots, hreq⟩ := structOf_eq_some.mp h
  have hmethod := hslots .method
  unfold Request.ofFields at hreq
  split at hreq
  · next hv hm =>
    rw [hm, once_eq_some] at hmethod
    obtain ⟨x, hx, hsem⟩ := hmethod
    -- the one method member is a value of the object
    obtain ⟨m, hm, rfl⟩ := mem_named (hx ▸ List.mem_singleton_self x)
    have hin := (Value.member_inside hms hm).isInfix
    have htext : m.value.asStr = some (Bytes.ofString "eth_syncing") := by
      simpa [Field.sem, checked, isText] using hsem
    cases hmv : m.value <;> simp only [hmv, Value.asStr, reduceCtorEq] at htext
    exact ⟨_, by simpa [hmv, Value.text] using hin, htext⟩
  · cases hreq

/-- A method that decodes to `eth_syncing` is spelled so or has an escape. -/
theorem requestOf_plain {v : Value} (hp : Bytes.contains (Bytes.ofString "eth_syncing") v.text = false)
    (hb : backslash ∉ v.text) : requestOf v = none := by
  cases h : requestOf v with
  | none => rfl
  | some req =>
    obtain ⟨s, hs, hdec⟩ := requestOf_method h
    have hbody : s.body <:+: s.text := ⟨[quote], [quote], rfl⟩
    have hplain : backslash ∉ s.body := fun hm => hb ((hbody.trans hs).mem hm)
    rw [decode_verbatim hplain hdec, (Bytes.contains_iff _ _).mpr (hbody.trans hs)] at hp
    cases hp

theorem batchOf_plain {v : Value} (hp : Bytes.contains (Bytes.ofString "eth_syncing") v.text = false)
    (hb : backslash ∉ v.text) : (batchOf v).getD .forward = .forward := by
  unfold batchOf Value.foldElements
  cases hv : v.elements? with
  | none => rfl
  | some vs =>
    cases vs with
    | nil => rfl
    | cons x vs =>
      -- the first element stops the visitor
      have hin := (Value.element_inside hv List.mem_cons_self).isInfix
      have hx : requestOf x = none := by
        apply requestOf_plain
        · rw [Bool.eq_false_iff, ne_eq, Bytes.contains_iff] at hp ⊢
          exact fun hc => hp (hc.trans hin)
        · exact fun hm => hb (hin.mem hm)
      simp [hx]

variable {d : Deserializer}

/-- Where the filter forwards, the parser does. -/
theorem parseMockSyncing_plain (hd : d.Documented) {b : Bytes}
    (hp : Bytes.contains (Bytes.ofString "eth_syncing") b = false) (hb : backslash ∉ b) :
    parseMockSyncing d b = .forward := by
  by_cases he : ∃ e : Element, b = e.text
  · obtain ⟨e, rfl⟩ := he
    have hin := e.value_inside.isInfix
    have hp' : Bytes.contains (Bytes.ofString "eth_syncing") e.value.text = false := by
      rw [Bool.eq_false_iff, ne_eq, Bytes.contains_iff] at hp ⊢
      exact fun hc => hp (hc.trans hin)
    have hb' : backslash ∉ e.value.text := fun hm => hb (hin.mem hm)
    rw [parseMockSyncing_text hd, answerOf]
    cases e.value.elements? with
    | some vs => exact batchOf_plain hp' hb'
    | none => simp only [requestOf_plain hp' hb']
  · exact parseMockSyncing_forward hd fun e h => he ⟨e, h⟩

/-- The fast path answers what the full parser answers, on any bytes. -/
theorem mockSyncing_eq_parse (hd : d.Documented) (b : Bytes) :
    mockSyncing d b = parseMockSyncing d b := by
  unfold mockSyncing
  split
  · next h => exact (parseMockSyncing_plain hd h.2.2.1 h.2.2.2).symm
  · rfl

/-- On a truncated request with no method. -/
theorem mockSyncing_eq_parse_truncated :
    mockSyncing reader (Bytes.ofString "\x7b\"jsonrpc\":") =
      parseMockSyncing reader (Bytes.ofString "\x7b\"jsonrpc\":") :=
  mockSyncing_eq_parse reader_documented _

end Rpc
