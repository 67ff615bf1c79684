import Ethryx.Loops
import Ethryx.Proxy.UpstreamUri

/-!
# The path prefix

A target is pasted behind the path of the base. One that starts with a slash, or
is empty, stays below it; the asterisk does not.

* `upstreamUri_path`: the path of whatever is composed;
* `staysUnder_iff`: which targets stay below the prefix.
-/

namespace Proxy

open Http

/-- A text is read as it is written up to a `#`, which no path or query has. -/
structure Verbatim (lib : Library) : Prop where
  text : ∀ (b : Bytes) (pq : PathAndQuery lib.toUriSyntax), lib.parse b = .ok pq →
    (0x23 : UInt8) ∉ b → pq.text = b
  pathByte : lib.pathByte 0x23 = false
  queryByte : lib.queryByte 0x23 = false

def asterisk : Bytes := [0x2a]

/-- The forms of a request target. A path behind an authority starts with a slash. -/
inductive IsTarget {x : UriSyntax} (u : Uri x) : Prop where
  | origin (none_ : u.scheme = none) (rooted : u.path.head? = some 0x2f)
  | absolute (h : u.Absolute)
  | authority (some_ : u.authority.isSome = true) (none_ : u.pathAndQuery = none)
  | asterisk (h : u.path = asterisk)

/-- `path` is the path of the base up to slashes at the end, or below it. -/
def Under (base path : Bytes) : Prop :=
  Bytes.trimEndMatches 0x2f path = Bytes.trimEndMatches 0x2f base ∨
    Bytes.trimEndMatches 0x2f base ++ [0x2f] <+: path

/-- Whatever is composed for the target has its path under that of the base. -/
def StaysUnder (lib : Library) (base inbound : Uri lib.toUriSyntax) : Prop :=
  ∀ u, upstreamUri lib base inbound none = .ok u → Under base.path u.path

/-! ## Slashes at the end -/

section
variable {path : Bytes}

theorem trimEnd_trimEnd (path : Bytes) :
    Bytes.trimEndMatches 0x2f (Bytes.trimEndMatches 0x2f path) = Bytes.trimEndMatches 0x2f path :=
  List.rdropWhile_idempotent _ _

theorem trimEnd_ne_nil (h : ∃ b ∈ path, b ≠ 0x2f) : Bytes.trimEndMatches 0x2f path ≠ [] := by
  rw [Bytes.trimEndMatches, Ne, List.rdropWhile_eq_nil_iff]
  intro slashes
  obtain ⟨b, hb, other⟩ := h
  exact other (by simpa using slashes b hb)

/-- Anything but a slash goes on with the last segment. -/
theorem not_under {base : Bytes} {c : UInt8} (hc : c ≠ 0x2f) :
    ¬ Under base (Bytes.trimEndMatches 0x2f base ++ [c]) := by
  rintro (same | ⟨rest, below⟩)
  · have kept : Bytes.trimEndMatches 0x2f (Bytes.trimEndMatches 0x2f base ++ [c]) =
        Bytes.trimEndMatches 0x2f base ++ [c] :=
      List.rdropWhile_concat_neg _ _ _ (by simpa using hc)
    rw [kept] at same
    exact absurd (List.append_right_eq_self.mp same) (List.cons_ne_nil _ _)
  · rw [List.append_assoc] at below
    have head := List.append_cancel_left below
    exact hc (List.cons.inj head).1.symm

end

/-! ## What is composed -/

section
variable {x : UriSyntax} {lib : Library} {base inbound u : Uri lib.toUriSyntax}

theorem path_bytes (u : Uri x) : ∀ b ∈ u.path, x.pathByte b = true := by
  unfold Uri.path
  cases u.pathAndQuery with
  | none => exact fun b hb => nomatch hb
  | some pq =>
    simp only [PathAndQuery.path]
    split
    · intro b hb
      rw [List.mem_singleton.mp hb]
      exact x.slash
    · exact pq.pathBytes

theorem path_utf8 (u : Uri x) : isUtf8 u.path = true := by
  unfold Uri.path
  cases u.pathAndQuery with
  | none => rfl
  | some pq =>
    simp only [PathAndQuery.path]
    split
    · rfl
    · exact (parts_utf8 pq.utf8).1

theorem composedPath_none (base inbound : Uri x) :
    composedPath base inbound none =
      if inbound.path = [0x2f] then base.path
      else if base.path = [0x2f] then inbound.path
      else Bytes.trimEndMatches 0x2f base.path ++ inbound.path := by
  simp [composedPath]

theorem path_ne_root (segment : ∃ b ∈ base.path, b ≠ 0x2f) : base.path ≠ [0x2f] := by
  intro root
  obtain ⟨b, hb, other⟩ := segment
  rw [root] at hb
  exact other (List.mem_singleton.mp hb)

theorem composedPath_below (segment : ∃ b ∈ base.path, b ≠ 0x2f) :
    composedPath base inbound none =
      if inbound.path = [0x2f] then base.path
      else Bytes.trimEndMatches 0x2f base.path ++ inbound.path := by
  rw [composedPath_none, if_neg (path_ne_root segment)]

/-- Below a prefix, the composed path is a path. -/
theorem composedPath_path (absolute : base.Absolute) (segment : ∃ b ∈ base.path, b ≠ 0x2f)
    (inbound : Uri lib.toUriSyntax) :
    ValidPath lib.toUriSyntax (composedPath base inbound none) := by
  rw [composedPath_below segment]
  split
  · exact validPath_path absolute.rooted
  · apply (validPath_path absolute.rooted).append
    · exact .inl (trimEnd_ne_nil segment)
    · exact path_bytes inbound
    · exact path_utf8 inbound

/-- The text that is parsed. -/
def composedText (base inbound : Uri x) : Bytes :=
  join (composedPath base inbound none) (mergeQueries base.query inbound.query)

theorem composedText_verbatim (verbatim : Verbatim lib) (absolute : base.Absolute)
    (segment : ∃ b ∈ base.path, b ≠ 0x2f) : (0x23 : UInt8) ∉ composedText base inbound := by
  have path : (0x23 : UInt8) ∉ composedPath base inbound none := by
    intro mem
    have allowed := (composedPath_path absolute segment inbound).bytes _ mem
    rw [verbatim.pathByte] at allowed
    cases allowed
  unfold composedText
  cases hq : mergeQueries base.query inbound.query with
  | none => exact path
  | some q =>
    rw [join, List.mem_append, List.mem_cons]
    rintro (mem | mark | mem)
    · exact path mem
    · cases mark
    · have allowed := (composedQuery_valid base inbound q hq).bytes _ mem
      rw [verbatim.queryByte] at allowed
      cases allowed

/-- Both ways that are left below a prefix: the base itself, or a parsed text. -/
theorem upstreamUri_below (segment : ∃ b ∈ base.path, b ≠ 0x2f) :
    (inbound.path = [0x2f] ∧ upstreamUri lib base inbound none = .ok base) ∨
      upstreamUri lib base inbound none =
        lib.parse (composedText base inbound) >>= fun pq =>
          Uri.fromParts { base.parts with pathAndQuery := some pq } := by
  by_cases same : inbound.path = [0x2f] ∧ inbound.query = none
  · refine .inl ⟨same.1, ?_⟩
    rw [upstreamUri]
    simp [same.1, same.2]
  · refine .inr (upstreamUri_format ?_ ?_)
    · rw [Bool.eq_false_iff]
      simpa using same
    · have other := path_ne_root segment
      simp [other]

/-- Whatever is composed has the composed path. -/
theorem upstreamUri_path (verbatim : Verbatim lib) (absolute : base.Absolute)
    (segment : ∃ b ∈ base.path, b ≠ 0x2f) (h : upstreamUri lib base inbound none = .ok u) :
    u.path = composedPath base inbound none := by
  rcases upstreamUri_below segment with ⟨root, ok⟩ | format
  · rw [ok] at h
    obtain rfl : base = u := by injection h
    rw [composedPath_none, if_pos root]
  · rw [format, bind_ok] at h
    obtain ⟨pq, parsed, built⟩ := h
    obtain ⟨v, built', -, -, path, -⟩ := fromParts_absolute absolute.scheme pq
    rw [built] at built'
    obtain rfl : u = v := by injection built'
    have text := verbatim.text _ pq parsed (composedText_verbatim verbatim absolute segment)
    have valid := composedPath_path absolute segment inbound
    rw [path, PathAndQuery.path, text, composedText, pathPart_join valid.no_question]
    split
    · next empty =>
      have rooted := valid.rooted
      rw [List.isEmpty_iff.mp empty] at rooted
      cases rooted
    · rfl

theorem composedText_short (verbatim : Verbatim lib) (absolute : base.Absolute)
    (segment : ∃ b ∈ base.path, b ≠ 0x2f) (other : inbound.path ≠ [0x2f])
    (h : upstreamUri lib base inbound none = .ok u) :
    (composedText base inbound).length ≤ lib.limit := by
  rcases upstreamUri_below segment with ⟨root, -⟩ | format
  · exact absurd root other
  · rw [format, bind_ok] at h
    obtain ⟨pq, parsed, -⟩ := h
    rw [← verbatim.text _ pq parsed (composedText_verbatim verbatim absolute segment)]
    exact pq.length

/-- A text of the length a URI may have is composed. -/
theorem upstreamUri_composed (absolute : base.Absolute) (segment : ∃ b ∈ base.path, b ≠ 0x2f)
    (short : (composedText base inbound).length ≤ lib.limit) :
    ∃ u, upstreamUri lib base inbound none = .ok u := by
  rcases upstreamUri_below segment with ⟨-, ok⟩ | format
  · exact ⟨base, ok⟩
  · obtain ⟨pq, parsed, -⟩ := parse_join lib (composedPath_path absolute segment inbound)
      (composedQuery_valid base inbound) short
    obtain ⟨u, built, -⟩ := fromParts_absolute absolute.scheme pq
    exact ⟨u, format.trans (bind_ok.mpr ⟨pq, parsed, built⟩)⟩

/-- A target that is empty or starts with a slash stays below the base. -/
theorem under_composedPath (segment : ∃ b ∈ base.path, b ≠ 0x2f)
    (slash : inbound.path = [] ∨ inbound.path.head? = some 0x2f) :
    Under base.path (composedPath base inbound none) := by
  rw [composedPath_below segment]
  split
  · exact .inl rfl
  · rcases slash with empty | rooted
    · rw [empty, List.append_nil]
      exact .inl (trimEnd_trimEnd _)
    · obtain ⟨rest, same⟩ := List.head?_eq_some_iff.mp rooted
      rw [same]
      exact .inr ⟨rest, by rw [List.append_assoc]; rfl⟩

/-- Every form of a target stays under the prefix, except the asterisk, where the
text with it at the end of the last segment is not too long. -/
theorem staysUnder_iff (verbatim : Verbatim lib) (absolute : base.Absolute)
    (segment : ∃ b ∈ base.path, b ≠ 0x2f) (target : IsTarget inbound) :
    StaysUnder lib base inbound ↔
      ¬ (inbound.path = asterisk ∧ (composedText base inbound).length ≤ lib.limit) := by
  constructor
  · rintro stays ⟨star, short⟩
    obtain ⟨u, ok⟩ := upstreamUri_composed absolute segment short
    have under := stays u ok
    rw [upstreamUri_path verbatim absolute segment ok, composedPath_below segment, star,
      if_neg (by decide)] at under
    exact not_under (by decide) under
  · intro fits u ok
    rw [upstreamUri_path verbatim absolute segment ok]
    cases target with
    | origin _ rooted => exact under_composedPath segment (.inr rooted)
    | absolute h => exact under_composedPath segment (.inr h.rooted)
    | authority _ none_ => exact under_composedPath segment (.inl (by simp [Uri.path, none_]))
    | asterisk star =>
      have other : inbound.path ≠ [0x2f] := by
        rw [star]
        decide
      exact absurd ⟨star, composedText_short verbatim absolute segment other ok⟩ fits

end

/-! A base with a prefix, and the target of a request about the server itself. -/

theorem standard_verbatim : Verbatim standard where
  text b pq h plain := by
    simp only [standard, standardParse, dropFragment_eq plain] at h
    split at h
    · injection h with h
      rw [← h]
      rfl
    · cases h
  pathByte := rfl
  queryByte := rfl

def prefixedBase : Uri standard.toUriSyntax :=
  ⟨⟨some (Bytes.ofString "http"), some (Bytes.ofString "node:8545"),
    some (.ofText (Bytes.ofString "/prefix") (by decide))⟩, rfl⟩

def asteriskTarget : Uri standard.toUriSyntax :=
  ⟨⟨none, none, some (.ofText asterisk (by decide))⟩, rfl⟩

theorem prefixedBase_absolute : prefixedBase.Absolute := ⟨rfl, rfl, by decide⟩

theorem prefixedBase_segment : ∃ b ∈ prefixedBase.path, b ≠ 0x2f :=
  ⟨0x70, by decide, by decide⟩

/-- `OPTIONS *` is forwarded with the path `/prefix*`. -/
theorem staysUnder_asterisk :
    (∃ u, upstreamUri standard prefixedBase asteriskTarget none = .ok u ∧
      u.path = Bytes.ofString "/prefix*") ∧
      ¬ StaysUnder standard prefixedBase asteriskTarget := by
  have path : composedPath prefixedBase asteriskTarget none =
      Bytes.trimEndMatches 0x2f prefixedBase.path ++ asterisk := by decide
  have short : (composedText prefixedBase asteriskTarget).length ≤ standard.limit := by decide
  obtain ⟨u, ok⟩ := upstreamUri_composed prefixedBase_absolute prefixedBase_segment short
  have composed := upstreamUri_path standard_verbatim prefixedBase_absolute
    prefixedBase_segment ok
  refine ⟨⟨u, ok, composed.trans (by decide)⟩, fun stays => ?_⟩
  have under := stays u ok
  rw [composed, path] at under
  exact not_under (by decide) under

theorem staysUnder_asterisk_iff :
    StaysUnder standard prefixedBase asteriskTarget ↔
      ¬ (asteriskTarget.path = asterisk ∧
        (composedText prefixedBase asteriskTarget).length ≤ standard.limit) :=
  staysUnder_iff standard_verbatim prefixedBase_absolute prefixedBase_segment
    (.asterisk (by decide))

end Proxy
