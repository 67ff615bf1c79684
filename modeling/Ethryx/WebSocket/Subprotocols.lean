import Ethryx.Http.HeaderMap
import Ethryx.Loops
import Ethryx.Separated

/-!
# Subprotocol offers

`normalize_subprotocols` of `websocket.rs`: the offer of all
`Sec-WebSocket-Protocol` lines as one line.

* `IsToken`: a token of RFC 7230;
* `ValidOffer`: what an offer has to be;
* `addToken_ok`, `addTokens_ok`: one token, then all of them;
* `normalize_ok`, `normalize_error`: the result and the map it leaves;
* `normalizeSubprotocols_law`: the two together, and that nothing is lost.
-/

namespace WebSocket

open Http HeaderMap Separated

def secWebSocketProtocol : HeaderName := name "sec-websocket-protocol"

/-- The errors of a handshake. A `ToStrError` and an `InvalidHeaderValue` have
their texts from the crate, `tungstenite` words its own. -/
inductive HandshakeError where
  | message (text : Bytes)
  | toStr
  | headerValue
  | tungstenite (text : Bytes)
  | uri (e : UriError)
  deriving DecidableEq, Repr

/-! ## The code -/

def tokenByte (b : UInt8) : Bool :=
  Bytes.isAsciiAlphanumeric b || List.contains (Bytes.ofString "!#$%&'*+-.^_`|~") b

/-- The offer as it is assembled, and the tokens in it. -/
structure Offer where
  protocols : Bytes
  seen : List Bytes

def invalidOffer : HandshakeError :=
  .message (Bytes.ofString "invalid websocket subprotocol offer")

def addToken (offer : Offer) (token : Bytes) : Except HandshakeError Offer :=
  let token := Bytes.trimBlanks token
  if token.isEmpty || !token.all tokenByte || offer.seen.contains token then .error invalidOffer
  else
    let protocols :=
      if !offer.protocols.isEmpty then offer.protocols ++ Bytes.ofString ", " else offer.protocols
    .ok ⟨protocols ++ token, token :: offer.seen⟩

def addLine (lib : Library) (offer : Offer) (value : HeaderValue) : Except HandshakeError Offer :=
  match toStr lib value with
  | none => .error .toStr
  | some text => (text.splitOn 0x2c).foldlM addToken offer

/-- The result and the headers it leaves. -/
def normalizeSubprotocols (lib : Library) (headers : HeaderMap) :
    Except HandshakeError Unit × HeaderMap :=
  match (headers.getAll secWebSocketProtocol).foldlM (addLine lib) ⟨[], []⟩ with
  | .error e => (.error e, headers)
  | .ok offer =>
    if !offer.protocols.isEmpty then
      match lib.headerValue offer.protocols with
      | some value => (.ok (), headers.insert secWebSocketProtocol value)
      | none => (.error .headerValue, headers)
    else (.ok (), headers)

/-! ## Tokens -/

/-- What RFC 7230 excludes from a token. -/
def delimiters : Bytes := Bytes.ofString "\"(),/:;<=>?@[\\]\x7b\x7d"

/-- A visible character that is no delimiter. -/
def TokenChar (b : UInt8) : Prop := 0x20 < b ∧ b < 0x7f ∧ b ∉ delimiters

def IsToken (token : Bytes) : Prop := token ≠ [] ∧ ∀ b ∈ token, TokenChar b

instance (b : UInt8) : Decidable (TokenChar b) := inferInstanceAs (Decidable (_ ∧ _))

theorem tokenByte_iff : ∀ b, tokenByte b = true ↔ TokenChar b :=
  Bytes.forall_byte (by decide +kernel)

/-! ## Offers -/

variable (lib : Library)

/-- The items of all lines, trimmed. -/
def offered (headers : HeaderMap) : List Bytes :=
  ((headers.getAll secWebSocketProtocol).flatMap fun value => value.splitOn 0x2c).map
    Bytes.trimBlanks

structure ValidOffer (headers : HeaderMap) : Prop where
  readable : ∀ value ∈ headers.getAll secWebSocketProtocol, (toStr lib value).isSome = true
  tokens : ∀ token ∈ offered headers, IsToken token
  distinct : (offered headers).Nodup

/-- One line of tokens. -/
def joined (tokens : List Bytes) : Bytes := (Bytes.ofString ", ").intercalate tokens

/-- A token behind the tokens before it. -/
def extend (protocols token : Bytes) : Bytes :=
  (if !protocols.isEmpty then protocols ++ Bytes.ofString ", " else protocols) ++ token

theorem isToken_iff {token : Bytes} :
    IsToken token ↔ token.isEmpty = false ∧ token.all tokenByte = true := by
  simp [IsToken, tokenByte_iff, List.isEmpty_eq_false_iff]

theorem addToken_ok {offer offer' : Offer} {raw : Bytes} :
    addToken offer raw = .ok offer' ↔
      IsToken (Bytes.trimBlanks raw) ∧ Bytes.trimBlanks raw ∉ offer.seen ∧
        offer' = ⟨extend offer.protocols (Bytes.trimBlanks raw),
          Bytes.trimBlanks raw :: offer.seen⟩ := by
  simp only [addToken, isToken_iff]
  cases (Bytes.trimBlanks raw).isEmpty with
  | true => simp
  | false =>
    cases (Bytes.trimBlanks raw).all tokenByte with
    | false => simp
    | true =>
      by_cases hs : Bytes.trimBlanks raw ∈ offer.seen
      · simp [hs]
      · simp [hs, extend, @eq_comm _ offer']

/-- All items are taken exactly when they are tokens that have not been seen. -/
theorem addTokens_ok {raw : List Bytes} {offer offer' : Offer} :
    raw.foldlM addToken offer = .ok offer' ↔
      (∀ token ∈ raw.map Bytes.trimBlanks, IsToken token) ∧
        (raw.map Bytes.trimBlanks).Nodup ∧
        (∀ token ∈ raw.map Bytes.trimBlanks, token ∉ offer.seen) ∧
        offer' = ⟨(raw.map Bytes.trimBlanks).foldl extend offer.protocols,
          (raw.map Bytes.trimBlanks).reverse ++ offer.seen⟩ := by
  induction raw generalizing offer with
  | nil => simp [pure, Except.pure, eq_comm]
  | cons r raw ih =>
    simp only [foldlM_cons_ok, addToken_ok, ih, List.map_cons, List.forall_mem_cons,
      List.nodup_cons, List.foldl_cons, List.reverse_cons, List.append_assoc, List.singleton_append]
    constructor
    · rintro ⟨_, ⟨htoken, hseen, rfl⟩, htokens, hnd, hfresh, rfl⟩
      have fresh : Bytes.trimBlanks r ∉ raw.map Bytes.trimBlanks := by
        intro hmem
        exact hfresh _ hmem List.mem_cons_self
      exact ⟨⟨htoken, htokens⟩, ⟨fresh, hnd⟩,
        ⟨hseen, fun t ht hs => hfresh t ht (List.mem_cons_of_mem _ hs)⟩, rfl⟩
    · rintro ⟨⟨htoken, htokens⟩, ⟨hnew, hnd⟩, ⟨hseen, hfresh⟩, rfl⟩
      refine ⟨_, ⟨htoken, hseen, rfl⟩, htokens, hnd, ?_, rfl⟩
      intro t ht hs
      rcases List.mem_cons.mp hs with rfl | hs
      · exact hnew ht
      · exact hfresh t ht hs

/-! ## Lines -/

theorem joined_cons (token next : Bytes) (tokens : List Bytes) :
    joined (token :: next :: tokens) = token ++ Bytes.ofString ", " ++ joined (next :: tokens) :=
  List.intercalate_cons_cons

theorem foldl_extend {tokens : List Bytes} {protocols : Bytes} (hp : protocols ≠ []) :
    tokens.foldl extend protocols = joined (protocols :: tokens) := by
  induction tokens generalizing protocols with
  | nil => simp [joined]
  | cons token tokens ih =>
    have start : extend protocols token = protocols ++ Bytes.ofString ", " ++ token := by
      simp [extend, hp]
    rw [List.foldl_cons, start, ih (by simp [hp])]
    cases tokens <;> simp [joined, List.intercalate]

theorem foldl_extend_tokens {tokens : List Bytes} (ht : ∀ token ∈ tokens, IsToken token) :
    tokens.foldl extend [] = joined tokens := by
  cases tokens with
  | nil => rfl
  | cons token tokens =>
    have first : extend [] token = token := rfl
    rw [List.foldl_cons, first, foldl_extend (ht token List.mem_cons_self).1]

theorem toStr_eq_some {lib : Library} {value text : Bytes} :
    toStr lib value = some text ↔ value.all lib.visible = true ∧ text = value := by
  unfold toStr
  split
  · next h => simp [h, eq_comm]
  · next h => simp [h]

/-- The loop over the lines takes valid offers and assembles them. -/
theorem addLines_ok {lib : Library} {headers : HeaderMap} {offer : Offer} :
    (headers.getAll secWebSocketProtocol).foldlM (addLine lib) ⟨[], []⟩ = .ok offer ↔
      ValidOffer lib headers ∧
        offer = ⟨joined (offered headers), (offered headers).reverse⟩ := by
  let items (value : HeaderValue) : Option (List Bytes) :=
    (toStr lib value).map fun text => text.splitOn 0x2c
  have some_line (o : Offer) (value : HeaderValue) (xs : List Bytes) (h : items value = some xs) :
      addLine lib o value = xs.foldlM addToken o := by
    obtain ⟨text, htext, rfl⟩ := Option.map_eq_some_iff.mp h
    simp only [addLine, htext]
  have none_line (o : Offer) (value : HeaderValue) (h : items value = none) :
      ∃ e, addLine lib o value = .error e := by
    have htext := Option.map_eq_none_iff.mp h
    exact ⟨.toStr, by simp only [addLine, htext]⟩
  have all_items (h : ∀ value ∈ headers.getAll secWebSocketProtocol, (items value).isSome = true) :
      ((headers.getAll secWebSocketProtocol).flatMap fun value => (items value).getD []) =
        (headers.getAll secWebSocketProtocol).flatMap fun value => value.splitOn 0x2c := by
    apply List.flatMap_congr
    intro value hv
    obtain ⟨xs, hxs⟩ := Option.isSome_iff_exists.mp (h value hv)
    obtain ⟨text, htext, rfl⟩ := Option.map_eq_some_iff.mp hxs
    rw [hxs, Option.getD_some, (toStr_eq_some.mp htext).2]
  have readable (value : HeaderValue) : (items value).isSome = (toStr lib value).isSome :=
    Option.isSome_map
  rw [foldlM_lines some_line none_line]
  constructor
  · rintro ⟨hall, h⟩
    rw [all_items hall, addTokens_ok] at h
    obtain ⟨htokens, hnd, -, rfl⟩ := h
    refine ⟨⟨fun value hv => (readable value).symm.trans (hall value hv), htokens, hnd⟩, ?_⟩
    rw [List.append_nil]
    exact congrArg (Offer.mk · _) (foldl_extend_tokens htokens)
  · rintro ⟨⟨hread, htokens, hnd⟩, rfl⟩
    have hall : ∀ value ∈ headers.getAll secWebSocketProtocol, (items value).isSome = true :=
      fun value hv => (readable value).trans (hread value hv)
    refine ⟨hall, ?_⟩
    rw [all_items hall, addTokens_ok]
    refine ⟨htokens, hnd, by simp, ?_⟩
    rw [List.append_nil]
    exact congrArg (Offer.mk · _) (foldl_extend_tokens htokens).symm

/-! ## Normalization -/

theorem offered_ne_nil {headers : HeaderMap} :
    offered headers ≠ [] ↔ headers.getAll secWebSocketProtocol ≠ [] := by
  unfold offered
  cases headers.getAll secWebSocketProtocol with
  | nil => simp
  | cons value values => simp [List.flatMap_cons]

theorem tokenChar_visible {b : UInt8} (h : TokenChar b) : standardVisible b = true := by
  obtain ⟨low, high, -⟩ := h
  simp [standardVisible, UInt8.le_of_lt low, high]

theorem joined_visible {tokens : List Bytes} (h : ∀ token ∈ tokens, IsToken token) :
    (joined tokens).all standardVisible = true := by
  rw [List.all_eq_true]
  apply forall_intercalate
  · exact List.all_eq_true.mp rfl
  · intro token ht b hb
    exact tokenChar_visible ((h token ht).2 b hb)

theorem joined_ne_nil {tokens : List Bytes} (h : ∀ token ∈ tokens, IsToken token)
    (hne : tokens ≠ []) : joined tokens ≠ [] := by
  cases tokens with
  | nil => exact absurd rfl hne
  | cons token tokens =>
    have first := (h token List.mem_cons_self).1
    cases tokens with
    | nil => simpa [joined] using first
    | cons next tokens =>
      rw [joined_cons]
      simp [first]

theorem trimBlanks_token {token : Bytes} (h : IsToken token) :
    Bytes.trimBlanks token = token ∧ Bytes.trimBlanks (0x20 :: token) = token := by
  have blank : ∀ b ∈ token, Bytes.isBlank b = false := by
    intro b hb
    obtain ⟨low, -, -⟩ := h.2 b hb
    rw [UInt8.lt_iff_toNat_lt] at low
    simp only [Bytes.isBlank, Bool.or_eq_false_iff, beq_eq_false_iff_ne]
    constructor
    · rintro rfl
      exact absurd low (by decide)
    · rintro rfl
      exact absurd low (by decide)
  exact ⟨Bytes.trimBlanks_eq (List.forall_mem_nil _) blank,
    @Bytes.trimBlanks_eq [0x20] token (by simp [Bytes.isBlank]) blank⟩

/-- The items of the assembled line, trimmed in any way that takes the blank before a
token, are the tokens it was assembled from. -/
theorem split_joined_trim {trim : Bytes → Bytes}
    (htrim : ∀ token, IsToken token → trim token = token ∧ trim (0x20 :: token) = token)
    {tokens : List Bytes} (h : ∀ token ∈ tokens, IsToken token) (hne : tokens ≠ []) :
    ((joined tokens).splitOn 0x2c).map trim = tokens := by
  have comma : ∀ token ∈ tokens, (0x2c : UInt8) ∉ token := by
    intro token ht hb
    exact absurd ((h token ht).2 _ hb) (by decide)
  cases tokens with
  | nil => exact absurd rfl hne
  | cons token tokens =>
    obtain ⟨ht, htokens⟩ := List.forall_mem_cons.mp h
    have commaBlank : Bytes.ofString ", " = 0x2c :: [0x20] := by decide
    rw [joined, commaBlank, splitOn_joinWith (by decide) comma, List.map_cons, (htrim token ht).1,
      List.map_map]
    congr 1
    rw [List.map_congr_left (g := id), List.map_id]
    intro t hmem
    exact (htrim t (htokens t hmem)).2

theorem split_joined {tokens : List Bytes} (h : ∀ token ∈ tokens, IsToken token)
    (hne : tokens ≠ []) : ((joined tokens).splitOn 0x2c).map Bytes.trimBlanks = tokens :=
  split_joined_trim (fun _ => trimBlanks_token) h hne

/-- The headers of a valid offer in one line. -/
def normalized (headers : HeaderMap) : HeaderMap :=
  if headers.getAll secWebSocketProtocol = [] then headers
  else headers.insert secWebSocketProtocol (joined (offered headers))

section
variable {lib : Library} {headers : HeaderMap}

/-- No offer is a valid one. -/
theorem valid_none (hn : headers.getAll secWebSocketProtocol = []) : ValidOffer lib headers := by
  have none : offered headers = [] := by simp [offered, hn]
  exact ⟨by simp [hn], by simp [none], by simp [none]⟩

theorem normalize_ok (hl : lib.Documented) (h : ValidOffer lib headers) :
    normalizeSubprotocols lib headers = (.ok (), normalized headers) := by
  have value := hl.headerValue _ (joined_visible h.tokens)
  simp only [normalizeSubprotocols, addLines_ok.mpr ⟨h, rfl⟩, normalized]
  by_cases hn : headers.getAll secWebSocketProtocol = []
  · have none : offered headers = [] := by
      by_contra hne
      exact offered_ne_nil.mp hne hn
    simp [hn, none, joined]
  · have some := joined_ne_nil h.tokens (offered_ne_nil.mpr hn)
    simp [hn, some, value]

theorem normalize_error (h : ¬ ValidOffer lib headers) :
    ∃ e, normalizeSubprotocols lib headers = (.error e, headers) := by
  cases hf : (headers.getAll secWebSocketProtocol).foldlM (addLine lib) ⟨[], []⟩ with
  | ok offer => exact absurd (addLines_ok.mp hf).1 h
  | error e => exact ⟨e, by simp only [normalizeSubprotocols, hf]⟩

theorem offered_normalized (h : ValidOffer lib headers) :
    offered (normalized headers) = offered headers := by
  unfold normalized
  split
  · rfl
  · next hn =>
    have tokens := split_joined h.tokens (offered_ne_nil.mpr hn)
    rw [offered, getAll_insert_self, List.flatMap_singleton]
    exact tokens

theorem valid_normalized (hl : lib.Documented) (h : ValidOffer lib headers) :
    ValidOffer lib (normalized headers) where
  readable := by
    unfold normalized
    split
    · exact h.readable
    · intro value hv
      rw [getAll_insert_self, List.mem_singleton] at hv
      subst hv
      rw [toStr, hl.visible, if_pos (joined_visible h.tokens)]
      rfl
  tokens := by
    rw [offered_normalized h]
    exact h.tokens
  distinct := by
    rw [offered_normalized h]
    exact h.distinct

theorem normalized_normalized (h : ValidOffer lib headers) :
    normalized (normalized headers) = normalized headers := by
  by_cases hn : headers.getAll secWebSocketProtocol = []
  · have same : normalized headers = headers := if_pos hn
    rw [same, same]
  · have line : normalized headers = headers.insert secWebSocketProtocol (joined (offered headers)) :=
      if_neg hn
    have again : (normalized headers).getAll secWebSocketProtocol ≠ [] := by
      rw [line, getAll_insert_self]
      exact List.cons_ne_nil _ _
    rw [normalized, if_neg again, offered_normalized h, line, insert_insert]

theorem getAll_normalized {n : HeaderName} (hn : n ≠ secWebSocketProtocol) :
    (normalized headers).getAll n = headers.getAll n := by
  unfold normalized
  split
  · rfl
  · exact getAll_insert hn

/-- **Normalization succeeds exactly on valid offers** and keeps all tokens in
order on one line; a failure changes nothing, and other headers never change. -/
theorem normalizeSubprotocols_law (hl : lib.Documented) (headers : HeaderMap) :
    let result := (normalizeSubprotocols lib headers).1
    let headers' := (normalizeSubprotocols lib headers).2
    (result = .ok () ↔ ValidOffer lib headers) ∧
    (result = .ok () → headers.getAll secWebSocketProtocol ≠ [] →
      headers'.getAll secWebSocketProtocol = [joined (offered headers)] ∧
      ((joined (offered headers)).splitOn 0x2c).map Bytes.trimBlanks = offered headers ∧
      normalizeSubprotocols lib headers' = (.ok (), headers')) ∧
    (headers.getAll secWebSocketProtocol = [] → result = .ok () ∧ headers' = headers) ∧
    (result ≠ .ok () → headers' = headers) ∧
    ∀ n, n ≠ secWebSocketProtocol → headers'.getAll n = headers.getAll n := by
  intro result headers'
  by_cases h : ValidOffer lib headers
  · have ok := normalize_ok hl h
    have hresult : result = .ok () := congrArg Prod.fst ok
    have hheaders : headers' = normalized headers := congrArg Prod.snd ok
    refine ⟨iff_of_true hresult h, ?_, ?_, ?_, ?_⟩
    · intro _ hne
      rw [hheaders]
      refine ⟨?_, split_joined h.tokens (offered_ne_nil.mpr hne), ?_⟩
      · rw [normalized, if_neg hne, getAll_insert_self]
      · rw [normalize_ok hl (valid_normalized hl h), normalized_normalized h]
    · intro hn
      rw [hheaders]
      exact ⟨hresult, if_pos hn⟩
    · exact absurd hresult
    · intro n hn
      rw [hheaders]
      exact getAll_normalized hn
  · obtain ⟨e, he⟩ := normalize_error h
    have hresult : result = .error e := congrArg Prod.fst he
    have hheaders : headers' = headers := congrArg Prod.snd he
    have failed : result ≠ .ok () := by
      rw [hresult]
      exact nofun
    refine ⟨iff_of_false failed h, ?_, ?_, fun _ => hheaders, ?_⟩
    · intro ok
      exact absurd ok failed
    · intro hn
      exact absurd (valid_none hn) h
    · intro n _
      rw [hheaders]

end

/-! Two lines, the second with blanks around its tokens. -/

def offering : HeaderMap :=
  [(secWebSocketProtocol, Bytes.ofString "rpc.v2,RPC"), (name "x-kept", Bytes.ofString "1"),
    (secWebSocketProtocol, Bytes.ofString "\trpc , v1 ")]

theorem normalizeSubprotocols_law_offering :
    (normalizeSubprotocols standard offering).1 = .ok () ↔ ValidOffer standard offering :=
  (normalizeSubprotocols_law standard_documented offering).1

example : normalizeSubprotocols standard offering =
    (.ok (), [(name "x-kept", Bytes.ofString "1"),
      (secWebSocketProtocol, Bytes.ofString "rpc.v2, RPC, rpc, v1")]) := by
  decide +kernel

end WebSocket
