import Ethryx.Headers.HopByHop
import Ethryx.Proxy
import Ethryx.WebSocket.Subprotocols

/-!
# Lists split over field lines

A list field may come in one line or in several. The three readers of such
fields, each with its own trimming and errors, do not see the difference.

* `stripHopByHop_join`: the options of `Connection`;
* `isUpgradeRequest_join`: the tokens of `Connection` and `Upgrade`;
* `normalize_join`: the offer of subprotocols;
* `fieldLines_immaterial`: the three together.
-/

namespace FieldLines

open Http HeaderMap Headers Separated WebSocket

variable {lib : Library} {headers : HeaderMap} {n : HeaderName}

/-- The lines of a field as one line, joined with commas. -/
def joinLines (headers : HeaderMap) (n : HeaderName) : HeaderMap :=
  headers.insert n ([0x2c].intercalate (headers.getAll n))

/-- The items of a field in order. -/
def items (headers : HeaderMap) (n : HeaderName) : List Bytes :=
  (headers.getAll n).flatMap fun value => value.splitOn 0x2c

theorem getAll_joinLines_self :
    (joinLines headers n).getAll n = [[0x2c].intercalate (headers.getAll n)] :=
  getAll_insert_self

theorem items_joinLines (hn : headers.getAll n ≠ []) (m : HeaderName) :
    items (joinLines headers n) m = items headers m := by
  unfold items
  by_cases h : m = n
  · subst h
    rw [getAll_joinLines_self, List.flatMap_singleton, splitOn_join hn]
  · rw [joinLines, getAll_insert h]

/-- Joined lines can be read exactly when all lines can. -/
theorem toStr_joinLines (hl : lib.Documented) :
    (toStr lib ([0x2c].intercalate (headers.getAll n))).isSome = true ↔
      ∀ value ∈ headers.getAll n, (toStr lib value).isSome = true := by
  have readable (value : Bytes) :
      (toStr lib value).isSome = true ↔ ∀ b ∈ value, lib.visible b = true := by
    simp [toStr]
  simp only [readable]
  constructor
  · intro h value hv b hb
    exact h b (mem_intercalate hv hb)
  · intro h
    apply forall_intercalate
    · simp [hl.visible, standardVisible]
    · exact h

/-! ## The readers -/

theorem stripHopByHop_join (hn : headers.getAll connection ≠ []) :
    stripHopByHop lib (joinLines headers connection) = stripHopByHop lib headers := by
  have same : options (joinLines headers connection) = options headers :=
    items_joinLines hn connection
  have gone := survives_connection lib (options headers)
  rw [stripHopByHop_eq, stripHopByHop_eq, same, joinLines, HeaderMap.insert, List.filter_append,
    remove, List.filter_filter]
  have last (value : HeaderValue) :
      [(connection, value)].filter (fun line => survives lib (options headers) line.1) = [] := by
    simp [gone]
  rw [last, List.append_nil]
  apply List.filter_congr
  intro line _
  by_cases h : line.1 = connection
  · simp [h, gone]
  · simp [h]

theorem containsToken_eq {token : Bytes}
    (hr : ∀ value ∈ headers.getAll n, (toStr lib value).isSome = true) :
    Proxy.containsToken lib headers n token =
      (items headers n).any fun v => Bytes.eqIgnoreAsciiCase (Bytes.trim v) token := by
  have all : (headers.getAll n).filterMap (toStr lib) = headers.getAll n := by
    rw [List.filterMap_congr (g := some), List.filterMap_some]
    intro value hv
    obtain ⟨text, htext⟩ := Option.isSome_iff_exists.mp (hr value hv)
    rw [htext, (toStr_eq_some.mp htext).2]
  rw [Proxy.containsToken, all]
  rfl

theorem containsToken_join (hl : lib.Documented) {m : HeaderName} {token : Bytes}
    (hn : headers.getAll n ≠ [])
    (hr : ∀ value ∈ headers.getAll n, (toStr lib value).isSome = true) :
    Proxy.containsToken lib (joinLines headers n) m token =
      Proxy.containsToken lib headers m token := by
  by_cases h : m = n
  · subst h
    rw [containsToken_eq hr, containsToken_eq, items_joinLines hn]
    intro value hv
    rw [getAll_joinLines_self, List.mem_singleton] at hv
    rw [hv]
    exact (toStr_joinLines hl).mpr hr
  · simp only [Proxy.containsToken, joinLines, getAll_insert h]

theorem isUpgradeRequest_join (hl : lib.Documented) (req : Request lib.toUriSyntax)
    (hn : req.headers.getAll n ≠ [])
    (hr : ∀ value ∈ req.headers.getAll n, (toStr lib value).isSome = true) :
    Proxy.isUpgradeRequest lib { req with headers := joinLines req.headers n } =
      Proxy.isUpgradeRequest lib req := by
  simp only [Proxy.isUpgradeRequest, containsToken_join hl hn hr]

theorem validOffer_join (hl : lib.Documented) (hn : headers.getAll secWebSocketProtocol ≠ []) :
    ValidOffer lib (joinLines headers secWebSocketProtocol) ↔ ValidOffer lib headers := by
  have same : offered (joinLines headers secWebSocketProtocol) = offered headers :=
    congrArg (List.map Bytes.trimBlanks) (items_joinLines hn secWebSocketProtocol)
  have read : (∀ value ∈ (joinLines headers secWebSocketProtocol).getAll secWebSocketProtocol,
      (toStr lib value).isSome = true) ↔
        ∀ value ∈ headers.getAll secWebSocketProtocol, (toStr lib value).isSome = true := by
    rw [getAll_joinLines_self, List.forall_mem_singleton, toStr_joinLines hl]
  constructor
  · rintro ⟨readable, tokens, distinct⟩
    rw [same] at tokens distinct
    exact ⟨read.mp readable, tokens, distinct⟩
  · rintro ⟨readable, tokens, distinct⟩
    rw [← same] at tokens distinct
    exact ⟨read.mpr readable, tokens, distinct⟩

theorem normalize_join (hl : lib.Documented) (hn : headers.getAll secWebSocketProtocol ≠ []) :
    ((normalizeSubprotocols lib (joinLines headers secWebSocketProtocol)).1 = .ok () ↔
      (normalizeSubprotocols lib headers).1 = .ok ()) ∧
    ((normalizeSubprotocols lib headers).1 = .ok () →
      (normalizeSubprotocols lib (joinLines headers secWebSocketProtocol)).2 =
        (normalizeSubprotocols lib headers).2) := by
  have valid := validOffer_join hl hn
  by_cases h : ValidOffer lib headers
  · have same : offered (joinLines headers secWebSocketProtocol) = offered headers :=
      congrArg (List.map Bytes.trimBlanks) (items_joinLines hn secWebSocketProtocol)
    have line : (joinLines headers secWebSocketProtocol).getAll secWebSocketProtocol ≠ [] := by
      rw [getAll_joinLines_self]
      exact List.cons_ne_nil _ _
    rw [normalize_ok hl h, normalize_ok hl (valid.mpr h), normalized, normalized, if_neg hn,
      if_neg line, same, joinLines, insert_insert]
    exact ⟨Iff.rfl, fun _ => rfl⟩
  · obtain ⟨e, he⟩ := normalize_error h
    obtain ⟨e', he'⟩ := normalize_error (mt valid.mp h)
    simp [he, he']

/-- **How a list is split over field lines is immaterial.** One line joined with
commas in place of all lines of the field changes no result. -/
theorem fieldLines_immaterial (hl : lib.Documented) :
    (∀ headers : HeaderMap, headers.getAll connection ≠ [] →
      stripHopByHop lib (joinLines headers connection) = stripHopByHop lib headers) ∧
    (∀ (req : Request lib.toUriSyntax) (n : HeaderName), n = connection ∨ n = Headers.upgrade →
      req.headers.getAll n ≠ [] →
      (∀ value ∈ req.headers.getAll n, (toStr lib value).isSome = true) →
        Proxy.isUpgradeRequest lib { req with headers := joinLines req.headers n } =
          Proxy.isUpgradeRequest lib req) ∧
    ∀ headers : HeaderMap, headers.getAll secWebSocketProtocol ≠ [] →
      ((normalizeSubprotocols lib (joinLines headers secWebSocketProtocol)).1 = .ok () ↔
        (normalizeSubprotocols lib headers).1 = .ok ()) ∧
      ((normalizeSubprotocols lib headers).1 = .ok () →
        (normalizeSubprotocols lib (joinLines headers secWebSocketProtocol)).2 =
          (normalizeSubprotocols lib headers).2) := by
  refine ⟨?_, ?_, ?_⟩
  · intro headers hn
    exact stripHopByHop_join hn
  · intro req n _ hn hr
    exact isUpgradeRequest_join hl req hn hr
  · intro headers hn
    exact normalize_join hl hn

theorem fieldLines_immaterial_offering :
    (normalizeSubprotocols standard (joinLines offering secWebSocketProtocol)).1 = .ok () ↔
      (normalizeSubprotocols standard offering).1 = .ok () :=
  ((fieldLines_immaterial standard_documented).2.2 offering (by decide)).1

end FieldLines
