import Ethryx.Utf8

/-!
# HTTP messages

The values of the `http` and `http-body` crates. What these crates decide and the
sources do not is in `UriSyntax` and `Library`; `path` and `query` split a
path-and-query at its first `?`.
-/

namespace Http

inductive Method where
  | options
  | get
  | post
  | put
  | delete
  | head
  | trace
  | connect
  | patch
  | extension (name : Bytes)
  deriving DecidableEq, Repr

inductive Version where
  | http09
  | http10
  | http11
  | http2
  | http3
  deriving DecidableEq, Repr

/-! ## Headers -/

/-- A name in the lower case `HeaderName` keeps it in. -/
structure HeaderName where
  text : Bytes
  deriving DecidableEq, Repr

abbrev HeaderValue := Bytes

/-- The field lines. The order between different names has no meaning. -/
abbrev HeaderMap := List (HeaderName × HeaderValue)

def name (s : String) : HeaderName := ⟨Bytes.ofString s⟩

namespace HeaderMap

def getAll (h : HeaderMap) (n : HeaderName) : List HeaderValue :=
  (h.filter fun line => line.1 == n).map Prod.snd

def containsKey (h : HeaderMap) (n : HeaderName) : Bool := h.any fun line => line.1 == n

def remove (h : HeaderMap) (n : HeaderName) : HeaderMap := h.filter fun line => line.1 != n

def insert (h : HeaderMap) (n : HeaderName) (v : HeaderValue) : HeaderMap := remove h n ++ [(n, v)]

end HeaderMap

/-! ## URIs -/

/-- The bytes a path and a query may have, and how many. -/
structure UriSyntax where
  pathByte : UInt8 → Bool
  queryByte : UInt8 → Bool
  limit : Nat
  slash : pathByte 0x2f = true
  question : pathByte 0x3f = false
  ampersand : queryByte 0x26 = true

def pathPart (text : Bytes) : Bytes := text.takeWhile fun b => b != 0x3f

def queryPart (text : Bytes) : Option Bytes :=
  match text.dropWhile fun b => b != 0x3f with
  | [] => none
  | _ :: query => some query

structure PathAndQuery (x : UriSyntax) where
  text : Bytes
  pathBytes : ∀ b ∈ pathPart text, x.pathByte b = true
  queryBytes : ∀ query, queryPart text = some query → ∀ b ∈ query, x.queryByte b = true
  utf8 : isUtf8 text = true
  length : text.length ≤ x.limit

namespace PathAndQuery
variable {x : UriSyntax}

def path (pq : PathAndQuery x) : Bytes :=
  if (pathPart pq.text).isEmpty then [0x2f] else pathPart pq.text

def query (pq : PathAndQuery x) : Option Bytes := queryPart pq.text

/-- The conditions as a test. -/
def check (x : UriSyntax) (text : Bytes) : Bool :=
  (pathPart text).all x.pathByte && ((queryPart text).getD []).all x.queryByte &&
    isUtf8 text && decide (text.length ≤ x.limit)

theorem check_text (pq : PathAndQuery x) : check x pq.text = true := by
  have query : ∀ b ∈ (queryPart pq.text).getD [], x.queryByte b = true := by
    cases hq : queryPart pq.text with
    | none => simp
    | some query => exact pq.queryBytes query hq
  simp only [check, Bool.and_eq_true, List.all_eq_true, decide_eq_true_eq]
  exact ⟨⟨⟨pq.pathBytes, query⟩, pq.utf8⟩, pq.length⟩

def ofText (text : Bytes) (h : check x text = true) : PathAndQuery x where
  text := text
  pathBytes := by
    simp only [check, Bool.and_eq_true, List.all_eq_true] at h
    exact h.1.1.1
  queryBytes := by
    intro query hq
    simp only [check, hq, Option.getD_some, Bool.and_eq_true, List.all_eq_true] at h
    exact h.1.1.2
  utf8 := by
    simp only [check, Bool.and_eq_true] at h
    exact h.1.2
  length := by
    simp only [check, Bool.and_eq_true, decide_eq_true_eq] at h
    exact h.2

end PathAndQuery

structure Parts (x : UriSyntax) where
  scheme : Option Bytes
  authority : Option Bytes
  pathAndQuery : Option (PathAndQuery x)

/-- `InvalidUri` and `InvalidUriParts`. -/
inductive UriError where
  | invalidUri
  | invalidUriParts
  deriving DecidableEq, Repr

/-- A scheme comes with an authority and a path, an authority alone with neither. -/
def Parts.valid {x : UriSyntax} (p : Parts x) : Bool :=
  if p.scheme.isSome then p.authority.isSome && p.pathAndQuery.isSome
  else !(p.authority.isSome && p.pathAndQuery.isSome)

/-- Origin form, absolute form, authority form or `*`. -/
structure Uri (x : UriSyntax) where
  parts : Parts x
  valid : parts.valid = true

namespace Uri
variable {x : UriSyntax}

def fromParts (p : Parts x) : Except UriError (Uri x) :=
  if h : p.valid = true then .ok ⟨p, h⟩ else .error .invalidUriParts

def scheme (u : Uri x) : Option Bytes := u.parts.scheme

def authority (u : Uri x) : Option Bytes := u.parts.authority

def pathAndQuery (u : Uri x) : Option (PathAndQuery x) := u.parts.pathAndQuery

/-- Empty in authority form. -/
def path (u : Uri x) : Bytes :=
  match u.pathAndQuery with
  | some pq => pq.path
  | none => []

def query (u : Uri x) : Option Bytes := u.pathAndQuery.bind PathAndQuery.query

/-- A URI with a scheme and an authority, which ends at the first `/` or `?`. -/
structure Absolute (u : Uri x) : Prop where
  scheme : u.scheme.isSome = true
  authority : u.authority.isSome = true
  rooted : u.path.head? = some 0x2f

end Uri

/-- The functions of the `http` crate that the sources call. -/
structure Library extends UriSyntax where
  /-- `str::parse::<PathAndQuery>`. -/
  parse : Bytes → Except UriError (PathAndQuery toUriSyntax)
  /-- What may stand behind an authority is read as it is written. -/
  parse_text : ∀ (pq : PathAndQuery toUriSyntax) (rest : Bytes), pq.text = 0x2f :: rest →
    parse pq.text = .ok pq
  /-- `HeaderName::from_bytes`. -/
  headerName : Bytes → Option HeaderName
  /-- The bytes of a value that `HeaderValue::to_str` reads. -/
  visible : UInt8 → Bool
  visible_ascii : ∀ b, visible b = true → b.toNat < 0x80
  /-- `HeaderValue::from_str`. -/
  headerValue : Bytes → Option HeaderValue
  /-- `Display` of `http::Error` and of `LengthLimitError`. -/
  uriErrorText : UriError → Bytes
  lengthLimitText : Bytes

/-! ### The tables of the crate -/

def standardSyntax : UriSyntax where
  pathByte b := b == 0x21 || b == 0x22 || (0x24 ≤ b && b ≤ 0x3b) || b == 0x3d ||
    (0x40 ≤ b && b ≤ 0x5f) || (0x61 ≤ b && b != 0x7f)
  queryByte b := b == 0x21 || (0x24 ≤ b && b ≤ 0x3b) || b == 0x3d || (0x3f ≤ b && b != 0x7f)
  limit := 65534
  slash := rfl
  question := rfl
  ampersand := rfl

/-- Horizontal tab and the printable ASCII characters. -/
def standardVisible (b : UInt8) : Bool := b == 0x09 || (0x20 ≤ b && b < 0x7f)

def tokenByte (b : UInt8) : Bool :=
  Bytes.isAsciiDigit b || (0x41 ≤ b && b ≤ 0x5a) || (0x5e ≤ b && b ≤ 0x7a) ||
    List.contains (Bytes.ofString "!#$%&'*+-.|~") b

/-- A path starts with a slash, but for the asterisk; it may be left out before a query. -/
def startsTarget (text : Bytes) : Bool :=
  text == [0x2a] || text.head? == some 0x2f || text.head? == some 0x3f

def dropFragment (b : Bytes) : Bytes := b.takeWhile fun c => c != 0x23

def standardParse (b : Bytes) : Except UriError (PathAndQuery standardSyntax) :=
  let text := dropFragment b
  if h : startsTarget text = true ∧ PathAndQuery.check standardSyntax text = true then
    .ok (PathAndQuery.ofText text h.2)
  else .error .invalidUri

theorem dropFragment_eq {b : Bytes} (h : (0x23 : UInt8) ∉ b) : dropFragment b = b :=
  List.takeWhile_eq_self_iff.mpr fun _ hc => bne_iff_ne.mpr fun same => h (same ▸ hc)

theorem PathAndQuery.no_fragment (pq : PathAndQuery standardSyntax) : (0x23 : UInt8) ∉ pq.text := by
  intro mem
  rw [← List.takeWhile_append_dropWhile (p := fun b => b != 0x3f) (l := pq.text)] at mem
  rcases List.mem_append.mp mem with path | rest
  · cases pq.pathBytes _ path
  · cases hq : pq.text.dropWhile fun b => b != 0x3f with
    | nil =>
      rw [hq] at rest
      cases rest
    | cons mark query =>
      have question := List.head?_dropWhile_not (fun b : UInt8 => b != 0x3f) pq.text
      rw [hq] at question rest
      rcases List.mem_cons.mp rest with rfl | rest
      · cases question
      · cases pq.queryBytes query (by rw [queryPart, hq]) _ rest

theorem standardParse_text (pq : PathAndQuery standardSyntax) {rest : Bytes}
    (rooted : pq.text = 0x2f :: rest) : standardParse pq.text = .ok pq := by
  simp only [standardParse, dropFragment_eq pq.no_fragment]
  exact dif_pos ⟨by simp [startsTarget, rooted], pq.check_text⟩

def standard : Library where
  toUriSyntax := standardSyntax
  parse := standardParse
  parse_text pq _ := standardParse_text pq
  headerName b :=
    if !b.isEmpty && b.all tokenByte then some ⟨b.map Bytes.toAsciiLowercase⟩ else none
  visible := standardVisible
  visible_ascii b h := by
    simp only [standardVisible, Bool.or_eq_true, Bool.and_eq_true, beq_iff_eq,
      decide_eq_true_eq, UInt8.lt_iff_toNat_lt, UInt8.reduceToNat] at h
    rcases h with rfl | ⟨-, h⟩
    · decide
    · omega
  headerValue b := if b.all standardVisible then some b else none
  uriErrorText
    | .invalidUri => Bytes.ofString "invalid uri character"
    | .invalidUriParts => Bytes.ofString "invalid uri parts"
  lengthLimitText := Bytes.ofString "length limit exceeded"

/-- `HeaderValue::to_str`. -/
def toStr (lib : Library) (v : HeaderValue) : Option Bytes :=
  if v.all lib.visible then some v else none

/-! ## Bodies -/

inductive Frame where
  | data (bytes : Bytes)
  | trailers (headers : HeaderMap)
  deriving DecidableEq, Repr

/-- A body as it is polled: each frame, the end and an error come so long after
what precedes them. -/
inductive Body where
  | frame (wait : Nat) (f : Frame) (rest : Body)
  | ended (wait : Nat)
  | failed (wait : Nat) (error : Bytes)
  | stalled
  deriving Repr

def Frame.bytes : Frame → Bytes
  | .data bytes => bytes
  | .trailers _ => []

namespace Body

/-- All data of the body. -/
def data : Body → Bytes
  | .frame _ f rest => f.bytes ++ data rest
  | _ => []

/-- `Full::new`. -/
def full (bytes : Bytes) : Body :=
  if bytes.isEmpty then .ended 0 else .frame 0 (.data bytes) (.ended 0)

theorem data_full (bytes : Bytes) : (full bytes).data = bytes := by
  cases bytes <;> simp [full, data, Frame.bytes]

end Body

/-- `LengthLimitError` or an error of the body. -/
inductive ReadError where
  | lengthLimit
  | body (error : Bytes)
  deriving DecidableEq, Repr

inductive Collected where
  | complete (bytes : Bytes)
  | error (e : ReadError)
  | elapsed
  deriving DecidableEq, Repr

/-- `timeout(left, Limited::new(body, room).collect())`, behind the bytes `acc`. -/
def collect : (left room : Nat) → (acc : Bytes) → Body → Collected
  | left, room, acc, .frame wait f rest =>
    if left < wait then .elapsed
    else if room < f.bytes.length then .error .lengthLimit
    else collect (left - wait) (room - f.bytes.length) (acc ++ f.bytes) rest
  | left, _, acc, .ended wait => if left < wait then .elapsed else .complete acc
  | left, _, _, .failed wait e => if left < wait then .elapsed else .error (.body e)
  | _, _, _, .stalled => .elapsed

/-! ## Messages -/

structure Request (x : UriSyntax) where
  method : Method
  uri : Uri x
  version : Version
  headers : HeaderMap
  /-- `hyper::ext::Protocol` among the extensions. -/
  protocol : Option Bytes
  body : Body

structure Response where
  status : Nat
  headers : HeaderMap
  body : Body

end Http
