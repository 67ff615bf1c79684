import Ethryx.Health.Quantities
import Ethryx.Health.Verdicts
import Ethryx.Json.Encode
import Ethryx.Json.Reader

/-!
# What the health endpoints write

The derived `Serialize` of the two reports, and a client that reads them.

* `NumLit.ofU64`: the decimal of a `u64`;
* `HealthSnapshot.serialize`, `ReadyReport.serialize`: the two bodies;
* `healthz_served`, `readyz_served`: a client reads back all that the poll knows, and
  its verdict is that of the status code.
-/

namespace Json

open Health

/-! ## Numbers -/

theorem run_digits {ds : Bytes} (h : ∀ c ∈ ds, isDigit c = true) :
    Scan.run numStep .int ds = some .int := by
  induction ds with
  | nil => rfl
  | cons c ds ih =>
    rw [Scan.run, numStep, if_pos (h c List.mem_cons_self), Option.bind_some]
    exact ih fun x hx => h x (List.mem_cons_of_mem c hx)

/-- The shortest decimal of a number is a JSON number. -/
theorem isNumber_decimal (n : Nat) : isNumber (radix10.text n) = true := by
  have shortest := Radix.Alphabet.shortest_text radix10 n
  cases text : radix10.text n with
  | nil => exact absurd text shortest.nonempty
  | cons c ds =>
    rw [text] at shortest
    have digits : ∀ x ∈ c :: ds, isDigit x = true := fun x hx =>
      (radix10_digit x).symm.trans (shortest.digits x hx)
    have digit := digits c List.mem_cons_self
    have rest : ∀ x ∈ ds, isDigit x = true := fun x hx => digits x (List.mem_cons_of_mem c hx)
    have unsigned : c ≠ 0x2d := by
      rintro rfl
      cases digit
    by_cases zero : c = 0x30
    · -- a zero is the only digit
      subst zero
      have alone : ds = [] := by
        by_contra more
        exact (Radix.Alphabet.shortest_iff shortest.toNumeral).mp shortest more rfl
      subst alone
      rfl
    · rw [isNumber, Scan.run, numStep, if_neg unsigned, if_neg zero, if_pos digit,
        Option.bind_some, run_digits rest]
      rfl

def NumLit.ofU64 (n : UInt64) : NumLit := ⟨radix10.text n.toNat, isNumber_decimal _⟩

/-- `deserialize_u64`: a number without sign, fraction and exponent. -/
def Value.asU64 : Value → Option UInt64
  | .num n =>
    if n.text.all isDigit ∧ digitsValue n.text < 2 ^ 64 then
      some (UInt64.ofNat (digitsValue n.text))
    else none
  | _ => none

theorem asU64_ofU64 (n : UInt64) : (Value.num (.ofU64 n)).asU64 = some n := by
  have shortest := Radix.Alphabet.shortest_text radix10 n.toNat
  have all : (radix10.text n.toNat).all isDigit = true := by
    rw [List.all_eq_true]
    exact fun c hc => (radix10_digit c).symm.trans (shortest.digits c hc)
  have value : digitsValue (radix10.text n.toNat) = n.toNat := by
    rw [digitsValue_eq shortest.digits, Radix.Alphabet.value_text]
  simp only [Value.asU64, NumLit.ofU64, all, value, n.toNat_lt, and_self, if_true,
    UInt64.ofNat_toNat]

end Json

namespace Health

open Json

/-! ## A check -/

inductive CheckField where
  | ok
  | detail
  deriving DecidableEq, Repr

def CheckField.schema : Schema CheckField where
  fields := [.ok, .detail]
  name
    | .ok => Bytes.ofString "ok"
    | .detail => Bytes.ofString "detail"
  complete f := by cases f <;> decide
  injective f g := by cases f <;> cases g <;> decide

abbrev CheckField.Ty : CheckField → Type
  | .ok => Bool
  | .detail => Bytes

def CheckField.write : (f : CheckField) → f.Ty → Value
  | .ok => .bool
  | .detail => .ofText

def CheckField.read : (f : CheckField) → Value → Option f.Ty
  | .ok => Value.asBool
  | .detail => Value.asStr

def Check.fields (c : Check) : Slots CheckField.Ty
  | .ok => some c.ok
  | .detail => some c.detail

def Check.ofFields (s : Slots CheckField.Ty) : Option Check := do
  let ok ← s .ok
  let detail ← s .detail
  some ⟨ok, detail⟩

def Check.serialize (c : Check) : Value := structValue CheckField.schema CheckField.write c.fields

def Check.read : Value → Option Check :=
  structOf CheckField.schema CheckField.read Check.ofFields

/-- A `String` is UTF-8. -/
def Check.Utf8 (c : Check) : Prop := isUtf8 c.detail = true

theorem Check.read_serialize {c : Check} (h : c.Utf8) : Check.read c.serialize = some c := by
  apply structOf_structValue
  · decide
  · intro f
    cases f <;> exact isUtf8_ofString _
  · intro f y hy
    cases f with
    | ok => rfl
    | detail =>
      obtain rfl := Option.some.inj hy
      exact asStr_ofText h
  · rfl

/-! ## The two halves of a snapshot -/

/-- `ElHealth` and `ClHealth` differ in the names of two fields. -/
inductive Hop where
  | el
  | cl
  deriving DecidableEq, Repr

inductive HealthField where
  | transport
  | syncing
  | syncDistance
  | peers
  | head
  | headAge
  | errors
  deriving DecidableEq, Repr

def HealthField.name (hop : Hop) : HealthField → Bytes
  | .transport => Bytes.ofString "transport"
  | .syncing => Bytes.ofString "syncing"
  | .syncDistance => Bytes.ofString "sync_distance"
  | .peers => Bytes.ofString "peers"
  | .head => match hop with
    | .el => Bytes.ofString "block_number"
    | .cl => Bytes.ofString "head_slot"
  | .headAge => match hop with
    | .el => Bytes.ofString "block_age_secs"
    | .cl => Bytes.ofString "slot_age_secs"
  | .errors => Bytes.ofString "errors"

def HealthField.schema (hop : Hop) : Schema HealthField where
  fields := [.transport, .syncing, .syncDistance, .peers, .head, .headAge, .errors]
  name := HealthField.name hop
  complete f := by cases f <;> decide
  injective f g := by cases hop <;> cases f <;> cases g <;> decide

abbrev HealthField.Ty : HealthField → Type
  | .transport => Bytes
  | .syncing => Bool
  | .syncDistance | .peers | .head | .headAge => UInt64
  | .errors => List Bytes

def HealthField.write : (f : HealthField) → f.Ty → Value
  | .transport => .ofText
  | .syncing => .bool
  | .syncDistance | .peers | .head | .headAge => fun n => .num (.ofU64 n)
  | .errors => fun texts => .array (texts.map .ofText)

def HealthField.read : (f : HealthField) → Value → Option f.Ty
  | .transport => Value.asStr
  | .syncing => Value.asBool
  | .syncDistance | .peers | .head | .headAge => Value.asU64
  | .errors => Value.asVec Value.asStr

/-- `skip_serializing_if = "Vec::is_empty"`. -/
def skipEmpty (texts : List Bytes) : Option (List Bytes) := if texts = [] then none else some texts

@[simp] theorem skipEmpty_getD (texts : List Bytes) : (skipEmpty texts).getD [] = texts := by
  unfold skipEmpty
  split
  · next empty => exact empty.symm
  · rfl

def ElHealth.fields (h : ElHealth) : Slots HealthField.Ty
  | .transport => some h.transport
  | .syncing => h.syncing
  | .syncDistance => h.syncDistance
  | .peers => h.peers
  | .head => h.blockNumber
  | .headAge => h.blockAgeSecs
  | .errors => skipEmpty h.errors

def ElHealth.ofFields (s : Slots HealthField.Ty) : Option ElHealth := do
  let transport ← s .transport
  some ⟨transport, s .syncing, s .syncDistance, s .peers, s .head, s .headAge,
    (s .errors).getD []⟩

def ClHealth.fields (h : ClHealth) : Slots HealthField.Ty
  | .transport => some h.transport
  | .syncing => h.syncing
  | .syncDistance => h.syncDistance
  | .peers => h.peers
  | .head => h.headSlot
  | .headAge => h.slotAgeSecs
  | .errors => skipEmpty h.errors

def ClHealth.ofFields (s : Slots HealthField.Ty) : Option ClHealth := do
  let transport ← s .transport
  some ⟨transport, s .syncing, s .syncDistance, s .peers, s .head, s .headAge,
    (s .errors).getD []⟩

def ElHealth.serialize (h : ElHealth) : Value :=
  structValue (HealthField.schema .el) HealthField.write h.fields

def ClHealth.serialize (h : ClHealth) : Value :=
  structValue (HealthField.schema .cl) HealthField.write h.fields

def ElHealth.read : Value → Option ElHealth :=
  structOf (HealthField.schema .el) HealthField.read ElHealth.ofFields

def ClHealth.read : Value → Option ClHealth :=
  structOf (HealthField.schema .cl) HealthField.read ClHealth.ofFields

/-- The texts of a half, which Rust holds in a `str` and in `String`s. -/
def Utf8Texts (transport : Bytes) (errors : List Bytes) : Prop :=
  isUtf8 transport = true ∧ ∀ e ∈ errors, isUtf8 e = true

/-- A half is read back from its fields, whichever it is. -/
theorem read_half {hop : Hop} {β : Type} {build : Slots HealthField.Ty → Option β} {x : β}
    {t : Slots HealthField.Ty} (transport : ∀ y, t .transport = some y → isUtf8 y = true)
    (errors : ∀ ys, t .errors = some ys → ∀ e ∈ ys, isUtf8 e = true) (built : build t = some x) :
    structOf (HealthField.schema hop) HealthField.read build
      (structValue (HealthField.schema hop) HealthField.write t) = some x := by
  apply structOf_structValue
  · cases hop <;> decide
  · intro f
    cases hop <;> cases f <;> exact isUtf8_ofString _
  · intro f y hy
    cases f with
    | transport => exact asStr_ofText (transport y hy)
    | syncing => rfl
    | syncDistance | peers | head | headAge => exact asU64_ofU64 y
    | errors => exact asVec_array fun e he => asStr_ofText (errors y hy e he)
  · exact built

theorem skipEmpty_eq_some {texts ys : List Bytes} (h : skipEmpty texts = some ys) : ys = texts := by
  unfold skipEmpty at h
  split at h
  · cases h
  · exact (Option.some.inj h).symm

theorem ElHealth.read_serialize {h : ElHealth} (utf8 : Utf8Texts h.transport h.errors) :
    ElHealth.read h.serialize = some h := by
  apply read_half
  · intro y hy
    obtain rfl := Option.some.inj hy
    exact utf8.1
  · intro ys hys
    rw [skipEmpty_eq_some hys]
    exact utf8.2
  · simp [ElHealth.ofFields, ElHealth.fields]

theorem ClHealth.read_serialize {h : ClHealth} (utf8 : Utf8Texts h.transport h.errors) :
    ClHealth.read h.serialize = some h := by
  apply read_half
  · intro y hy
    obtain rfl := Option.some.inj hy
    exact utf8.1
  · intro ys hys
    rw [skipEmpty_eq_some hys]
    exact utf8.2
  · simp [ClHealth.ofFields, ClHealth.fields]

inductive SnapshotField where
  | el
  | cl
  deriving DecidableEq, Repr

def SnapshotField.schema : Schema SnapshotField where
  fields := [.el, .cl]
  name
    | .el => Bytes.ofString "el"
    | .cl => Bytes.ofString "cl"
  complete f := by cases f <;> decide
  injective f g := by cases f <;> cases g <;> decide

abbrev SnapshotField.Ty : SnapshotField → Type
  | .el => ElHealth
  | .cl => ClHealth

def SnapshotField.write : (f : SnapshotField) → f.Ty → Value
  | .el => ElHealth.serialize
  | .cl => ClHealth.serialize

def SnapshotField.read : (f : SnapshotField) → Value → Option f.Ty
  | .el => ElHealth.read
  | .cl => ClHealth.read

def HealthSnapshot.fields (s : HealthSnapshot) : Slots SnapshotField.Ty
  | .el => some s.el
  | .cl => some s.cl

def HealthSnapshot.ofFields (s : Slots SnapshotField.Ty) : Option HealthSnapshot := do
  let el ← s .el
  let cl ← s .cl
  some ⟨el, cl⟩

def HealthSnapshot.serialize (s : HealthSnapshot) : Value :=
  structValue SnapshotField.schema SnapshotField.write s.fields

def HealthSnapshot.read : Value → Option HealthSnapshot :=
  structOf SnapshotField.schema SnapshotField.read HealthSnapshot.ofFields

theorem HealthSnapshot.read_serialize {s : HealthSnapshot}
    (el : Utf8Texts s.el.transport s.el.errors) (cl : Utf8Texts s.cl.transport s.cl.errors) :
    HealthSnapshot.read s.serialize = some s := by
  apply structOf_structValue
  · decide
  · intro f
    cases f <;> exact isUtf8_ofString _
  · intro f y hy
    cases f with
    | el =>
      obtain rfl := Option.some.inj hy
      exact ElHealth.read_serialize el
    | cl =>
      obtain rfl := Option.some.inj hy
      exact ClHealth.read_serialize cl
  · rfl

/-! ## The readiness report -/

inductive ReadyField where
  | status
  | elSyncing
  | clSyncing
  | elBlockFresh
  | clSlotFresh
  deriving DecidableEq, Repr

def ReadyField.schema : Schema ReadyField where
  fields := [.status, .elSyncing, .clSyncing, .elBlockFresh, .clSlotFresh]
  name
    | .status => Bytes.ofString "status"
    | .elSyncing => Bytes.ofString "el_syncing"
    | .clSyncing => Bytes.ofString "cl_syncing"
    | .elBlockFresh => Bytes.ofString "el_block_fresh"
    | .clSlotFresh => Bytes.ofString "cl_slot_fresh"
  complete f := by cases f <;> decide
  injective f g := by cases f <;> cases g <;> decide

abbrev ReadyField.Ty : ReadyField → Type
  | .status => Bytes
  | .elSyncing | .clSyncing | .elBlockFresh | .clSlotFresh => Check

def ReadyField.write : (f : ReadyField) → f.Ty → Value
  | .status => .ofText
  | .elSyncing | .clSyncing | .elBlockFresh | .clSlotFresh => Check.serialize

def ReadyField.read : (f : ReadyField) → Value → Option f.Ty
  | .status => Value.asStr
  | .elSyncing | .clSyncing | .elBlockFresh | .clSlotFresh => Check.read

def ReadyReport.fields (r : ReadyReport) : Slots ReadyField.Ty
  | .status => some r.status
  | .elSyncing => some r.elSyncing
  | .clSyncing => some r.clSyncing
  | .elBlockFresh => r.elBlockFresh
  | .clSlotFresh => r.clSlotFresh

def ReadyReport.ofFields (s : Slots ReadyField.Ty) : Option ReadyReport := do
  let status ← s .status
  let elSyncing ← s .elSyncing
  let clSyncing ← s .clSyncing
  some ⟨status, elSyncing, clSyncing, s .elBlockFresh, s .clSlotFresh⟩

def ReadyReport.serialize (r : ReadyReport) : Value :=
  structValue ReadyField.schema ReadyField.write r.fields

def ReadyReport.read : Value → Option ReadyReport :=
  structOf ReadyField.schema ReadyField.read ReadyReport.ofFields

theorem ReadyReport.read_serialize {r : ReadyReport} (status : isUtf8 r.status = true)
    (checks : ∀ c ∈ r.checks, c.Utf8) : ReadyReport.read r.serialize = some r := by
  simp only [ReadyReport.checks, List.forall_mem_cons, List.forall_mem_append,
    Option.mem_toList] at checks
  obtain ⟨el, cl, block, slot⟩ := checks
  apply structOf_structValue
  · decide
  · intro f
    cases f <;> exact isUtf8_ofString _
  · intro f y hy
    cases f with
    | status =>
      obtain rfl := Option.some.inj hy
      exact asStr_ofText status
    | elSyncing =>
      obtain rfl := Option.some.inj hy
      exact Check.read_serialize el
    | clSyncing =>
      obtain rfl := Option.some.inj hy
      exact Check.read_serialize cl
    | elBlockFresh => exact Check.read_serialize (block y hy)
    | clSlotFresh => exact Check.read_serialize (slot y hy)
  · rfl

/-! ## The bodies -/

/-- `serde_json::to_vec` at the types of the two reports. -/
structure ToVecs where
  snapshot : ToVec HealthSnapshot
  report : ToVec ReadyReport

/-- It writes what the derived `Serialize` names, without blanks, and does not fail:
every name is a text. -/
structure ToVecs.Documented (toVec : ToVecs) : Prop where
  snapshot : ∀ s, toVec.snapshot s = some s.serialize.text
  report : ∀ r, toVec.report r = some r.serialize.text

def compact : ToVecs := ⟨fun s => some s.serialize.text, fun r => some r.serialize.text⟩

theorem compact_documented : compact.Documented := ⟨fun _ => rfl, fun _ => rfl⟩

theorem jsonResponse_body {α : Type} {toVec : ToVec α} {body : α} {b : Bytes}
    (h : toVec body = some b) (code : Nat) : (jsonResponse toVec code body).body = .full b := by
  rw [jsonResponse, h]
  rfl

/-- A client that parses a body. -/
def readBody {α : Type} (read : Value → Option α) (b : Bytes) : Option α :=
  fromSlice reader (parsed read) b

theorem readBody_text {α : Type} (read : Value → Option α) (v : Value) :
    readBody read v.text = read v := by
  have := fromSlice_text reader_documented (parsed_reads read) v.tight
  rwa [Value.tight_text, Value.tight_value] at this

/-- The errors of a poll, which Rust holds in `String`s. -/
def Probe.Utf8 (probe : Probe) : Prop :=
  ∀ (s : Signal) (e : Bytes), s.error probe = some e → isUtf8 e = true

theorem isUtf8_labelled (label : String) (e : Bytes) :
    isUtf8 (Bytes.ofString label ++ e) = isUtf8 e :=
  isUtf8_append (isUtf8_ofString label) e

theorem isUtf8_decimal (n : UInt64) (e : Bytes) : isUtf8 (decimal n ++ e) = isUtf8 e :=
  isUtf8_append (isUtf8_ofString _) e

theorem entries_utf8 {probe : Probe} (h : probe.Utf8) (signals : List Signal) :
    ∀ e ∈ signals.filterMap (Signal.entry probe), isUtf8 e = true := by
  intro e he
  obtain ⟨s, -, entry⟩ := List.mem_filterMap.mp he
  obtain ⟨error, failed, rfl⟩ := Option.map_eq_some_iff.mp entry
  cases s <;> exact (isUtf8_labelled _ error).trans (h _ error failed)

theorem transportLabel_utf8 (usesH2 : Bool) (scheme : Option Bytes) :
    isUtf8 (transportLabel usesH2 scheme) = true := by
  unfold transportLabel
  split <;> exact isUtf8_ofString _

theorem status_text (cfg : Config) (probe : Probe) (now : UInt64) :
    ∃ text, (evaluateReady cfg probe now).status = Bytes.ofString text := by
  unfold evaluateReady
  split
  · exact ⟨"ready", rfl⟩
  · exact ⟨_, (apply_ite Bytes.ofString _ "ready" "not_ready").symm⟩

/-! ## The checks are texts -/

section
variable {probe : Probe} (h : probe.Utf8)
include h

theorem checkElSyncing_utf8 : (checkElSyncing probe.elSyncing).Utf8 := by
  unfold Check.Utf8
  cases signal : probe.elSyncing with
  | error e =>
    have utf8 := h .elSyncing e (by simp [Signal.error, signal, failure])
    simpa only [checkElSyncing, isUtf8_labelled] using utf8
  | ok r =>
    cases r with
    | synced b => cases b <;> exact isUtf8_ofString _
    | syncing c h' =>
      simp only [checkElSyncing, List.append_assoc, isUtf8_labelled, isUtf8_decimal,
        isUtf8_ofString]

theorem checkClSyncing_utf8 : (checkClSyncing probe.clStatus).Utf8 := by
  unfold Check.Utf8
  cases signal : probe.clStatus with
  | error e =>
    have utf8 := h .clStatus e (by simp [Signal.error, signal, failure])
    simpa only [checkClSyncing, isUtf8_labelled] using utf8
  | ok s =>
    simp only [checkClSyncing, List.append_assoc, isUtf8_labelled, isUtf8_decimal,
      isUtf8_ofString]

theorem checkElBlockFresh_utf8 (maxAge now : UInt64) :
    (checkElBlockFresh probe.elBlock maxAge now).Utf8 := by
  unfold Check.Utf8
  cases signal : probe.elBlock with
  | error e =>
    have utf8 := h .elBlock e (by simp [Signal.error, signal, failure])
    simpa only [checkElBlockFresh, isUtf8_labelled] using utf8
  | ok block =>
    simp only [checkElBlockFresh]
    split <;> simp only [List.append_assoc, isUtf8_labelled, isUtf8_decimal, isUtf8_ofString]

theorem checkClSlotFresh_utf8 (genesis secondsPerSlot maxAge now : UInt64) :
    (checkClSlotFresh probe.clStatus genesis secondsPerSlot maxAge now).Utf8 := by
  unfold Check.Utf8
  cases signal : probe.clStatus with
  | error e =>
    have utf8 := h .clStatus e (by simp [Signal.error, signal, failure])
    simpa only [checkClSlotFresh, isUtf8_labelled] using utf8
  | ok s =>
    simp only [checkClSlotFresh]
    split
    · simp only [List.append_assoc, isUtf8_labelled, isUtf8_decimal, isUtf8_ofString]
    · split <;> simp only [List.append_assoc, isUtf8_labelled, isUtf8_decimal, isUtf8_ofString]

theorem checks_utf8 (cfg : Config) (now : UInt64) :
    ∀ c ∈ (evaluateReady cfg probe now).checks, c.Utf8 := by
  intro c hc
  unfold evaluateReady at hc
  split at hc
  · have trusted : c = trustedCheck := by simpa [ReadyReport.checks] using hc
    rw [trusted]
    exact isUtf8_ofString _
  · cases strict : cfg.readyzStrict with
    | false =>
      have := by simpa [ReadyReport.checks, strict] using hc
      rcases this with rfl | rfl
      · exact checkElSyncing_utf8 h
      · exact checkClSyncing_utf8 h
    | true =>
      have := by simpa [ReadyReport.checks, strict] using hc
      rcases this with rfl | rfl | rfl | rfl
      · exact checkElSyncing_utf8 h
      · exact checkClSyncing_utf8 h
      · exact checkElBlockFresh_utf8 h _ _
      · exact checkClSlotFresh_utf8 h _ _ _ _

end

/-! ## What a client reads -/

section
variable {state : AppState} (texts : state.probe.Utf8) (now : UInt64)
include texts

theorem read_healthSnapshot :
    readBody HealthSnapshot.read (healthSnapshot state now).serialize.text =
      some (healthSnapshot state now) := by
  rw [readBody_text]
  apply HealthSnapshot.read_serialize
  · rw [snapshot_el, buildEl_eq]
    exact ⟨transportLabel_utf8 state.elUseH2 state.cfg.elHttpScheme,
      entries_utf8 texts Signal.ofEl⟩
  · rw [snapshot_cl, buildCl_eq]
    exact ⟨transportLabel_utf8 false state.clSyncingScheme, entries_utf8 texts Signal.ofCl⟩

theorem read_readyReport :
    readBody ReadyReport.read (evaluateReady state.cfg state.probe now).serialize.text =
      some (evaluateReady state.cfg state.probe now) := by
  rw [readBody_text]
  apply ReadyReport.read_serialize
  · obtain ⟨text, status⟩ := status_text state.cfg state.probe now
    rw [status]
    exact isUtf8_ofString text
  · exact checks_utf8 texts state.cfg now

variable {toVec : ToVecs} (written : toVec.Documented)
include written

/-- Whatever the upstreams answered or broke with, `/healthz` is JSON, and a client
reads back the snapshot the poll stands for, no field lost, made up or confused. -/
theorem healthz_served :
    let answer := report toVec.snapshot state false now
    answer.status = 200 ∧ ∃ b, answer.body = .full b ∧
      readBody HealthSnapshot.read b = some (healthSnapshot state now) :=
  ⟨rfl, _, jsonResponse_body (written.snapshot _) 200, read_healthSnapshot texts now⟩

/-- The two bodies and the status code of one moment do not contradict each other: a
client that only reads the `/readyz` body, one that only sees its code and one that
judges by `/healthz` come to one verdict. -/
theorem readyz_served (ht : state.cfg.trustUpstream = false) :
    ∃ b b' r snapshot, (report toVec.snapshot state false now).body = .full b ∧
      (ready toVec.report state false now).body = .full b' ∧
      readBody HealthSnapshot.read b = some snapshot ∧ readBody ReadyReport.read b' = some r ∧
      ((ready toVec.report state false now).status = 200 ↔ r.status = readyStatus) ∧
      (r.status = readyStatus ↔ ∀ c ∈ r.checks, c.ok = true) ∧
      (r.status = readyStatus ↔ Fit state.cfg snapshot) := by
  refine ⟨_, _, _, _, jsonResponse_body (written.snapshot _) 200,
    jsonResponse_body (written.report _) _, read_healthSnapshot texts now,
    read_readyReport texts now, ?_, status_all_ok _ _ _, ready_fit ht⟩
  by_cases isReady : (evaluateReady state.cfg state.probe now).status = readyStatus
  · simp [ready, isReady, jsonResponse]
  · simp [ready, isReady, jsonResponse]

end

/-- An EL that is away, with a quote and a line feed in its error, and a CL in sync. -/
def awayState : AppState where
  cfg := ⟨false, false, 0, 0, 0, 12, none⟩
  elUseH2 := true
  clSyncingScheme := none
  probe :=
    let away := Bytes.ofString "transport: \"refused\"\n"
    ⟨.error away, .error away, .error away, .ok ⟨9, 0, false⟩, .ok 3⟩

theorem awayState_utf8 : awayState.probe.Utf8 := by
  intro s e failed
  cases s with
  | elSyncing | elPeers | elBlock =>
    obtain rfl := Option.some.inj failed
    exact isUtf8_ofString _
  | clStatus | clPeers => cases failed

theorem healthz_served_away :
    ∃ b, (report compact.snapshot awayState false 0).body = .full b ∧
      (readBody HealthSnapshot.read b).map (fun s => (s.cl.headSlot, s.el.errors.length)) =
        some (some 9, 3) := by
  obtain ⟨-, b, body, read⟩ := healthz_served awayState_utf8 0 compact_documented
  exact ⟨b, body, by rw [read]; rfl⟩

theorem readyz_served_away :
    ∃ b r, (ready compact.report awayState false 0).body = .full b ∧
      readBody ReadyReport.read b = some r ∧
      ((ready compact.report awayState false 0).status = 200 ↔ ∀ c ∈ r.checks, c.ok = true) := by
  obtain ⟨_, b, r, _, -, body, -, read, code, checks, -⟩ := readyz_served awayState_utf8 0 compact_documented rfl
  exact ⟨b, r, body, read, code.trans checks⟩

end Health
