import Ethryx.Loops
import Ethryx.Proxy
import Ethryx.Separated

/-!
# Composing the upstream URI

* `parse_join`: a path and a query put together are parsed as these;
* `upstreamUri_origin`, `upstreamUri_same`: the scheme and the authority are kept,
  and the authority has no part in the rest;
* `upstreamUri_law`: all three ways through `upstream_uri` obey one law.
-/

namespace Proxy

open Http Separated

/-! ## Paths and queries -/

structure ValidPath (x : UriSyntax) (path : Bytes) : Prop where
  rooted : path.head? = some 0x2f
  bytes : ∀ b ∈ path, x.pathByte b = true
  utf8 : isUtf8 path = true

structure ValidQuery (x : UriSyntax) (query : Bytes) : Prop where
  bytes : ∀ b ∈ query, x.queryByte b = true
  utf8 : isUtf8 query = true

/-- The text of a path-and-query. -/
def join (path : Bytes) : Option Bytes → Bytes
  | some query => path ++ 0x3f :: query
  | none => path

section
variable {x : UriSyntax} {path : Bytes} {query : Option Bytes}

theorem ValidPath.no_question (h : ValidPath x path) : (0x3f : UInt8) ∉ path := by
  intro mem
  have allowed := h.bytes _ mem
  rw [x.question] at allowed
  cases allowed

theorem join_cons (b : UInt8) (path : Bytes) (query : Option Bytes) :
    join (b :: path) query = b :: join path query := by
  cases query <;> rfl

theorem pathPart_join (h : (0x3f : UInt8) ∉ path) : pathPart (join path query) = path := by
  cases query with
  | none => exact takeWhile_self path h
  | some query => exact takeWhile_append path query h

theorem queryPart_join (h : (0x3f : UInt8) ∉ path) : queryPart (join path query) = query := by
  cases query with
  | none => rw [queryPart, join, dropWhile_self path h]
  | some query => rw [queryPart, join, dropWhile_append path query h]

/-- A text is its path and its query. -/
theorem join_parts (text : Bytes) : join (pathPart text) (queryPart text) = text := by
  have whole := List.takeWhile_append_dropWhile (p := fun b : UInt8 => b != 0x3f) (l := text)
  rw [pathPart, queryPart]
  cases hd : text.dropWhile fun b => b != 0x3f with
  | nil =>
    rw [hd, List.append_nil] at whole
    exact whole
  | cons b rest =>
    have hb : b = 0x3f := by
      have stop := List.head_dropWhile_not (fun b : UInt8 => b != 0x3f)
        (l := text) (by rw [hd]; exact List.cons_ne_nil b rest)
      simpa [hd] using stop
    rw [hd, hb] at whole
    exact whole

theorem parts_utf8 {text : Bytes} (h : isUtf8 text = true) :
    isUtf8 (pathPart text) = true ∧ ∀ query, queryPart text = some query → isUtf8 query = true := by
  have whole := join_parts text
  cases hq : queryPart text with
  | none =>
    rw [hq, join] at whole
    rw [whole]
    exact ⟨h, fun query hn => by cases hn⟩
  | some query =>
    rw [hq, join] at whole
    rw [← whole] at h
    have split := isUtf8_split (by decide) h
    refine ⟨split.1, ?_⟩
    intro query' same
    rw [← Option.some.inj same]
    exact split.2

theorem validPath_path {u : Uri x} (rooted : u.path.head? = some 0x2f) : ValidPath x u.path := by
  unfold Uri.path at rooted ⊢
  cases hp : u.pathAndQuery with
  | none => simp [hp] at rooted
  | some pq =>
    simp only [hp] at rooted ⊢
    unfold PathAndQuery.path at rooted ⊢
    split
    · refine ⟨rfl, ?_, by decide⟩
      intro b hb
      rw [List.mem_singleton.mp hb]
      exact x.slash
    · next kept =>
      rw [if_neg kept] at rooted
      exact ⟨rooted, pq.pathBytes, (parts_utf8 pq.utf8).1⟩

theorem validQuery_query {u : Uri x} {query : Bytes} (h : u.query = some query) :
    ValidQuery x query := by
  unfold Uri.query at h
  cases hp : u.pathAndQuery with
  | none => simp [hp] at h
  | some pq =>
    rw [hp] at h
    exact ⟨pq.queryBytes query h, (parts_utf8 pq.utf8).2 query h⟩

/-- What is composed parses, and reads back. -/
theorem parse_join (lib : Library) (hp : ValidPath lib.toUriSyntax path)
    (hq : ∀ q, query = some q → ValidQuery lib.toUriSyntax q)
    (short : (join path query).length ≤ lib.limit) :
    ∃ pq, lib.parse (join path query) = .ok pq ∧ pq.path = path ∧ pq.query = query := by
  have no_question := hp.no_question
  let pq : PathAndQuery lib.toUriSyntax :=
    { text := join path query
      pathBytes := by
        rw [pathPart_join no_question]
        exact hp.bytes
      queryBytes := by
        rw [queryPart_join no_question]
        exact fun q same => (hq q same).bytes
      utf8 := by
        cases query with
        | none => exact hp.utf8
        | some q =>
          rw [join, isUtf8_append hp.utf8, isUtf8_cons (by decide)]
          exact (hq q rfl).utf8
      length := short }
  obtain ⟨rest, rfl⟩ : ∃ rest, path = 0x2f :: rest := by
    cases path with
    | nil => cases hp.rooted
    | cons b rest => exact ⟨rest, congrArg (fun c => c :: rest) (Option.some.inj hp.rooted)⟩
  refine ⟨pq, lib.parse_text pq _ (join_cons 0x2f rest query), ?_, queryPart_join no_question⟩
  unfold PathAndQuery.path
  rw [show pathPart pq.text = _ from pathPart_join no_question]
  rfl

/-- An absolute URI stays one with another path. -/
theorem fromParts_absolute {base : Uri x} (scheme : base.scheme.isSome = true)
    (pq : PathAndQuery x) :
    ∃ u, Uri.fromParts { base.parts with pathAndQuery := some pq } = .ok u ∧
      u.scheme = base.scheme ∧ u.authority = base.authority ∧
      u.path = pq.path ∧ u.query = pq.query := by
  have valid : ({ base.parts with pathAndQuery := some pq } : Parts x).valid = true := by
    have before := base.valid
    have some_ : base.parts.scheme.isSome = true := scheme
    rw [Parts.valid, some_, if_pos rfl, Bool.and_eq_true] at before
    simp only [Parts.valid, some_, if_true, before.1, Option.isSome_some, Bool.and_self]
  exact ⟨⟨_, valid⟩, dif_pos valid, rfl, rfl, rfl, rfl⟩

end

/-! ## The law -/

/-- The path of the composed URI. -/
def composedPath {x : UriSyntax} (base inbound : Uri x) (overridePath : Option Bytes) : Bytes :=
  if overridePath = none ∧ inbound.path = [0x2f] then base.path
  else if base.path = [0x2f] then overridePath.getD inbound.path
  else Bytes.trimEndMatches 0x2f base.path ++ overridePath.getD inbound.path

/-- Two queries in one. -/
def mergeQueries : Option Bytes → Option Bytes → Option Bytes
  | some bq, some iq =>
    some (if bq.isEmpty ∨ iq.isEmpty then bq ++ iq else bq ++ 0x26 :: iq)
  | some bq, none => some bq
  | none, iq => iq

/-- The parts of a query that are not empty. -/
def queryComponents (query : Option Bytes) : List Bytes := components 0x26 (query.getD [])

theorem queryComponents_merge (bq iq : Option Bytes) :
    queryComponents (mergeQueries bq iq) = queryComponents bq ++ queryComponents iq := by
  cases bq with
  | none => rfl
  | some bq =>
    cases iq with
    | none => exact (List.append_nil _).symm
    | some iq =>
      simp only [mergeQueries, queryComponents, Option.getD_some]
      by_cases empty : bq.isEmpty ∨ iq.isEmpty
      · rw [if_pos empty]
        rcases empty with hb | hi
        · rw [List.isEmpty_iff.mp hb]
          rfl
        · rw [List.isEmpty_iff.mp hi, List.append_nil]
          exact (List.append_nil _).symm
      · rw [if_neg empty]
        exact components_append bq iq

section
variable {x : UriSyntax}

theorem ValidQuery.append {a b : Bytes} (ha : ValidQuery x a) (hb : ValidQuery x b) :
    ValidQuery x (a ++ b) where
  bytes := by
    intro c hc
    rcases List.mem_append.mp hc with hc | hc
    · exact ha.bytes c hc
    · exact hb.bytes c hc
  utf8 := by
    rw [isUtf8_append ha.utf8]
    exact hb.utf8

theorem ValidQuery.ampersand {a : Bytes} (ha : ValidQuery x a) : ValidQuery x (0x26 :: a) where
  bytes := List.forall_mem_cons.mpr ⟨x.ampersand, ha.bytes⟩
  utf8 := by
    rw [isUtf8_cons (by decide)]
    exact ha.utf8

theorem mergeQueries_valid {bq iq : Option Bytes} (hb : ∀ q, bq = some q → ValidQuery x q)
    (hi : ∀ q, iq = some q → ValidQuery x q) :
    ∀ q, mergeQueries bq iq = some q → ValidQuery x q := by
  cases bq with
  | none => exact hi
  | some b =>
    cases iq with
    | none => exact hb
    | some i =>
      intro q same
      rw [← Option.some.inj same]
      split
      · exact (hb b rfl).append (hi i rfl)
      · exact (hb b rfl).append (hi i rfl).ampersand

theorem composedQuery_valid (base inbound : Uri x) :
    ∀ q, mergeQueries base.query inbound.query = some q → ValidQuery x q :=
  mergeQueries_valid (fun _ => validQuery_query) (fun _ => validQuery_query)

theorem trimEnd_utf8 {path : Bytes} (h : isUtf8 path = true) :
    isUtf8 (Bytes.trimEndMatches 0x2f path) = true := by
  unfold Bytes.trimEndMatches
  induction path using List.reverseRecOn with
  | nil => exact h
  | append_singleton path b ih =>
    by_cases slash : b = 0x2f
    · subst slash
      rw [List.rdropWhile_concat_pos _ _ _ (by decide)]
      exact ih (isUtf8_split (by decide) h).1
    · rw [List.rdropWhile_concat_neg _ _ _ (by simpa using slash)]
      exact h

theorem trimEnd_front (path : Bytes) : Bytes.trimEndMatches 0x2f path <+: path :=
  List.rdropWhile_prefix _ _

/-- What is left of the base keeps its first slash. -/
theorem ValidPath.append {path base : Bytes} (hb : ValidPath x base)
    (rooted : Bytes.trimEndMatches 0x2f base ≠ [] ∨ path.head? = some 0x2f)
    (bytes : ∀ b ∈ path, x.pathByte b = true) (utf8 : isUtf8 path = true) :
    ValidPath x (Bytes.trimEndMatches 0x2f base ++ path) where
  rooted := by
    cases ht : Bytes.trimEndMatches 0x2f base with
    | nil => exact rooted.resolve_left fun left => left ht
    | cons b rest =>
      obtain ⟨tail, same⟩ := trimEnd_front base
      have head := hb.rooted
      rw [← same, ht] at head
      exact head
  bytes := by
    intro b hb'
    rcases List.mem_append.mp hb' with hb' | hb'
    · exact hb.bytes b ((trimEnd_front base).mem hb')
    · exact bytes b hb'
  utf8 := by
    rw [isUtf8_append (trimEnd_utf8 hb.utf8)]
    exact utf8

theorem ValidPath.under {path base : Bytes} (hb : ValidPath x base) (hp : ValidPath x path) :
    ValidPath x (Bytes.trimEndMatches 0x2f base ++ path) :=
  hb.append (.inr hp.rooted) hp.bytes hp.utf8

variable {lib : Library} {base inbound : Uri lib.toUriSyntax} {overridePath : Option Bytes}

/-- The last way: format and parse. -/
theorem upstreamUri_format
    (other : (overridePath.isNone && overridePath.getD inbound.path == [0x2f] &&
      inbound.query.isNone) = false)
    (other' : (overridePath.isNone && base.path == [0x2f] && base.query.isNone &&
      (overridePath.getD inbound.path).head? == some 0x2f) = false) :
    upstreamUri lib base inbound overridePath =
      lib.parse (join (composedPath base inbound overridePath)
        (mergeQueries base.query inbound.query)) >>= fun pq =>
          Uri.fromParts { base.parts with pathAndQuery := some pq } := by
  have path : (if (overridePath.isNone && overridePath.getD inbound.path == [0x2f]) = true
      then base.path
      else if (base.path == [0x2f]) = true then overridePath.getD inbound.path
      else Bytes.trimEndMatches 0x2f base.path ++ overridePath.getD inbound.path) =
        composedPath base inbound overridePath := by
    unfold composedPath
    cases overridePath <;> simp
  rw [upstreamUri]
  simp only [other, other', Bool.false_eq_true, if_false, path]
  generalize composedPath base inbound overridePath = path
  cases hb : base.query with
  | none => cases hi : inbound.query <;> rfl
  | some bq =>
    cases hi : inbound.query with
    | none => rfl
    | some iq =>
      simp only [mergeQueries, join]
      by_cases empty : bq.isEmpty ∨ iq.isEmpty
      · have joined : ¬ (!bq.isEmpty && !iq.isEmpty) = true := by
          rcases empty with hb | hi
          · rw [hb]
            exact Bool.false_ne_true
          · rw [hi, Bool.not_true, Bool.and_false]
            exact Bool.false_ne_true
        rw [if_pos empty, if_neg joined]
      · have joined : (!bq.isEmpty && !iq.isEmpty) = true := by
          obtain ⟨hb, hi⟩ := not_or.mp empty
          rw [Bool.not_eq_true] at hb hi
          rw [hb, hi]
          rfl
        rw [if_neg empty, if_pos joined]

theorem composedPath_valid (rooted : base.path.head? = some 0x2f)
    (inboundRooted : inbound.path.head? = some 0x2f)
    (overrideValid : ∀ path, overridePath = some path → ValidPath lib.toUriSyntax path) :
    ValidPath lib.toUriSyntax (composedPath base inbound overridePath) := by
  have asked : ValidPath lib.toUriSyntax (overridePath.getD inbound.path) := by
    cases overridePath with
    | none => exact validPath_path inboundRooted
    | some path => exact overrideValid path rfl
  unfold composedPath
  split
  · exact validPath_path rooted
  · split
    · exact asked
    · exact (validPath_path rooted).under asked

/-! ## The authority -/

theorem fromParts_ok {p : Parts x} {u : Uri x} (h : Uri.fromParts p = .ok u) : u.parts = p := by
  unfold Uri.fromParts at h
  split at h
  · injection h with h
    rw [← h]
  · cases h

/-- Two URIs with authorities, and with nothing else to tell them apart. -/
structure SameElsewhere (u v : Uri x) : Prop where
  scheme : u.scheme = v.scheme
  pathAndQuery : u.pathAndQuery = v.pathAndQuery
  left : u.authority.isSome = true
  right : v.authority.isSome = true

theorem fromParts_same {u v : Uri x} (same : SameElsewhere u v) {pq : Option (PathAndQuery x)}
    {r : Uri x} (h : Uri.fromParts { u.parts with pathAndQuery := pq } = .ok r) :
    ∃ r', Uri.fromParts { v.parts with pathAndQuery := pq } = .ok r' := by
  have valid := r.valid
  have left : u.parts.authority.isSome = true := same.left
  have right : v.parts.authority.isSome = true := same.right
  have scheme : u.parts.scheme = v.parts.scheme := same.scheme
  rw [fromParts_ok h] at valid
  simp only [Parts.valid, scheme, left] at valid
  refine ⟨_, dif_pos ?_⟩
  simpa only [Parts.valid, right] using valid

/-- The three ways, the last one with its path and query put together. -/
theorem upstreamUri_eq :
    upstreamUri lib base inbound overridePath =
      if (overridePath.isNone && overridePath.getD inbound.path == [0x2f] &&
          inbound.query.isNone) = true then .ok base
      else if (overridePath.isNone && base.path == [0x2f] && base.query.isNone &&
          (overridePath.getD inbound.path).head? == some 0x2f) = true then
        Uri.fromParts { base.parts with pathAndQuery := inbound.pathAndQuery }
      else
        lib.parse (join (composedPath base inbound overridePath)
          (mergeQueries base.query inbound.query)) >>= fun pq =>
            Uri.fromParts { base.parts with pathAndQuery := some pq } := by
  split
  · next same =>
    rw [upstreamUri]
    simp only [same, if_true]
  · next other =>
    split
    · next reuse =>
      rw [upstreamUri]
      simp only [other, reuse, Bool.false_eq_true, if_true, if_false]
    · next other' =>
      exact upstreamUri_format (Bool.eq_false_iff.mpr other) (Bool.eq_false_iff.mpr other')

/-- The composed URI has the scheme and the authority of the base. -/
theorem upstreamUri_origin {u : Uri lib.toUriSyntax}
    (h : upstreamUri lib base inbound overridePath = .ok u) :
    u.scheme = base.scheme ∧ u.authority = base.authority := by
  rw [upstreamUri_eq] at h
  simp only [Uri.scheme, Uri.authority]
  split at h
  · injection h with h
    rw [h]
    exact ⟨rfl, rfl⟩
  split at h
  · rw [fromParts_ok h]
    exact ⟨rfl, rfl⟩
  · obtain ⟨pq, -, built⟩ := bind_ok.mp h
    rw [fromParts_ok built]
    exact ⟨rfl, rfl⟩

/-- Bases that differ in the authority alone are composed with the same targets. -/
theorem upstreamUri_same {base' u : Uri lib.toUriSyntax} (same : SameElsewhere base base')
    (h : upstreamUri lib base inbound overridePath = .ok u) :
    ∃ u', upstreamUri lib base' inbound overridePath = .ok u' := by
  have path : base.path = base'.path := by simp only [Uri.path, same.pathAndQuery]
  have query : base.query = base'.query := by simp only [Uri.query, same.pathAndQuery]
  have composed : composedPath base inbound overridePath = composedPath base' inbound overridePath := by
    rw [composedPath, composedPath, path]
  rw [upstreamUri_eq, path, query, composed] at h
  rw [upstreamUri_eq]
  split
  · exact ⟨base', rfl⟩
  · next other =>
    rw [if_neg other] at h
    split
    · next reuse =>
      rw [if_pos reuse] at h
      exact fromParts_same same h
    · next format =>
      rw [if_neg format] at h
      obtain ⟨pq, parsed, built⟩ := bind_ok.mp h
      obtain ⟨r, built'⟩ := fromParts_same same built
      exact ⟨r, bind_ok.mpr ⟨pq, parsed, built'⟩⟩

/-! ## All of it -/

/-- The scheme and the authority are those of the base, the path is its path with
the other one below it, and the query has the parts of both, in order. -/
theorem upstreamUri_law (absolute : base.Absolute) (inboundRooted : inbound.path.head? = some 0x2f)
    (overrideValid : ∀ path, overridePath = some path → ValidPath lib.toUriSyntax path)
    (short : (join (composedPath base inbound overridePath)
      (mergeQueries base.query inbound.query)).length ≤ lib.limit) :
    ∃ u, upstreamUri lib base inbound overridePath = .ok u ∧
      u.scheme = base.scheme ∧ u.authority = base.authority ∧
      u.path = composedPath base inbound overridePath ∧
      queryComponents u.query = queryComponents base.query ++ queryComponents inbound.query := by
  by_cases same : (overridePath.isNone && overridePath.getD inbound.path == [0x2f] &&
      inbound.query.isNone) = true
  · refine ⟨base, by rw [upstreamUri_eq, if_pos same], rfl, rfl, ?_, ?_⟩
    · cases overridePath with
      | none =>
        simp only [Option.isNone_none, Bool.true_and, Bool.and_eq_true, beq_iff_eq] at same
        have root : inbound.path = [0x2f] := same.1
        rw [composedPath, if_pos ⟨rfl, root⟩]
      | some path => cases same
    · cases hq : inbound.query with
      | none => exact (List.append_nil _).symm
      | some query => simp [hq] at same
  by_cases reuse : (overridePath.isNone && base.path == [0x2f] && base.query.isNone &&
      (overridePath.getD inbound.path).head? == some 0x2f) = true
  · cases overridePath with
    | some path => cases reuse
    | none =>
      have taken := reuse
      simp only [Option.isNone_none, Bool.true_and, Bool.and_eq_true, beq_iff_eq,
        Option.isNone_iff_eq_none] at taken
      obtain ⟨⟨root, noQuery⟩, -⟩ := taken
      cases hp : inbound.pathAndQuery with
      | none => simp [Uri.path, hp] at inboundRooted
      | some pq =>
        obtain ⟨u, built, scheme, authority, path, query⟩ := fromParts_absolute absolute.scheme pq
        have inboundPath : inbound.path = pq.path := by simp [Uri.path, hp]
        have inboundQuery : inbound.query = pq.query := by simp [Uri.query, hp]
        refine ⟨u, ?_, scheme, authority, ?_, ?_⟩
        · rw [upstreamUri_eq, if_neg same, if_pos reuse, hp]
          exact built
        · rw [path, ← inboundPath, composedPath, if_pos root]
          split
          · next both => rw [both.2, root]
          · rfl
        · rw [query, inboundQuery, noQuery]
          rfl
  · have valid := composedPath_valid absolute.rooted inboundRooted overrideValid
    obtain ⟨pq, parsed, pqPath, pqQuery⟩ :=
      parse_join lib valid (composedQuery_valid base inbound) short
    obtain ⟨u, built, scheme, authority, path, query⟩ := fromParts_absolute absolute.scheme pq
    refine ⟨u, ?_, scheme, authority, path.trans pqPath, ?_⟩
    · rw [upstreamUri_eq, if_neg same, if_neg reuse, parsed]
      exact built
    · rw [query, pqQuery]
      exact queryComponents_merge _ _

end

/-- A relay with a path and a key, as the tests have it. -/
theorem upstreamUri_law_relay :
    let base : Uri standard.toUriSyntax := ⟨⟨some (Bytes.ofString "https"),
      some (Bytes.ofString "relay.example"),
      some (.ofText (Bytes.ofString "/prefix?api_key=secret") (by decide))⟩, rfl⟩
    let inbound : Uri standard.toUriSyntax := ⟨⟨none, none, some (.ofText
      (Bytes.ofString "/eth/v1/validator/register_validator?tag=1") (by decide))⟩, rfl⟩
    ∃ u, upstreamUri standard base inbound (some (Bytes.ofString "/eth/v1/builder/validators")) =
        .ok u ∧ u.scheme = some (Bytes.ofString "https") ∧
      u.authority = some (Bytes.ofString "relay.example") ∧
      u.path = Bytes.ofString "/prefix/eth/v1/builder/validators" ∧
      queryComponents u.query = [Bytes.ofString "api_key=secret", Bytes.ofString "tag=1"] := by
  intro base inbound
  have overrideValid : ∀ path, some (Bytes.ofString "/eth/v1/builder/validators") = some path →
      ValidPath standard.toUriSyntax path := by
    intro path same
    rw [← Option.some.inj same]
    exact ⟨rfl, List.all_eq_true.mp rfl, rfl⟩
  obtain ⟨u, ok, scheme, authority, path, query⟩ := @upstreamUri_law standard base inbound _
    ⟨rfl, rfl, by decide⟩ (by decide) overrideValid (by decide)
  refine ⟨u, ok, scheme, authority, path.trans (by decide), query.trans (by decide)⟩

end Proxy
