import Ethryx.Health.Quantities
import Ethryx.Health.Readiness
import Ethryx.Loops

/-!
# Decimal fields

`decimal_string` leaves the digits to the integer parser, which takes a sign.

* `IsUnsignedDecimal`: the value a field of the wire format stands for;
* `Position`: the three fields, and the number the program reads at each;
* `decimalOf_eq_some`: what is accepted.
-/

namespace Health

open Json Radix

/-- A string that decodes to digits, whose value is `n`. -/
def IsUnsignedDecimal (v : Value) (n : UInt64) : Prop :=
  ∃ digits, v.asStr = some digits ∧ radix10.Numeral digits ∧ radix10.value digits = n.toNat

/-- A string that decodes to a `+` and digits, of a value below `2 ^ 64`. -/
def Signed (v : Value) : Prop :=
  ∃ digits, v.asStr = some (0x2b :: digits) ∧ radix10.Numeral digits ∧
    radix10.value digits < 2 ^ 64

inductive Position where
  | headSlot
  | syncDistance
  | connected
  deriving DecidableEq, Repr

/-- The name of the member. -/
def Position.name : Position → Bytes
  | .headSlot => StatusField.schema.name .headSlot
  | .syncDistance => StatusField.schema.name .syncDistance
  | .connected => PeersField.schema.name .connected

section
variable (d : Deserializer) (texts : Texts)

/-- The number that is read at a position of an answer. -/
def Position.signal (body : Bytes) : Position → Except Bytes UInt64
  | .headSlot =>
    (parseClResponse d texts .clStatus (ClStatus.deserialize d) body).map ClStatus.headSlot
  | .syncDistance =>
    (parseClResponse d texts .clStatus (ClStatus.deserialize d) body).map ClStatus.syncDistance
  | .connected => parseClResponse d texts .clPeers (Peers.deserialize d) body

/-- The document has `v` at the position: in its `data`, under the name. -/
def Position.Holds (p : Position) (doc : Element) (v : Value) : Prop :=
  ∃ ms data fields, doc.value.members? = some ms ∧ data ∈ named (Bytes.ofString "data") ms ∧
    data.members? = some fields ∧ v ∈ named p.name fields

/-- Exactly the unsigned decimals are accepted, with their value, and a document
with another value at a position gives no number there. -/
structure DecimalLaw (v : Value) : Prop where
  accepts : ∀ (w : Space) (r : Bytes) (n : UInt64), Delimited r →
    (decimalString d (w.bytes ++ (v.text ++ r)) = some (n, r) ↔ IsUnsignedDecimal v n)
  signals : ∀ (p : Position) (doc : Element) (n : UInt64), p.Holds doc v →
    p.signal d texts doc.text = .ok n → IsUnsignedDecimal v n

end

/-! ## Acceptance -/

variable {d : Deserializer} {texts : Texts} {v : Value} {n : UInt64}

theorem decimalOf_eq_some :
    decimalOf v = some n ↔ IsUnsignedDecimal v n ∨
      ∃ digits, v.asStr = some (0x2b :: digits) ∧ radix10.Numeral digits ∧
        radix10.value digits = n.toNat := by
  have plus : radix10.digit 0x2b = none := rfl
  rw [decimalOf, Option.bind_eq_some_iff]
  simp only [u64FromStr_eq, u64FromStrRadix_eq_some plus]
  constructor
  · rintro ⟨s, hs, digits, rfl | rfl, numeral, e⟩
    · exact .inl ⟨s, hs, numeral, e⟩
    · exact .inr ⟨digits, hs, numeral, e⟩
  · rintro (⟨digits, hs, numeral, e⟩ | ⟨digits, hs, numeral, e⟩)
    · exact ⟨digits, hs, digits, .inl rfl, numeral, e⟩
    · exact ⟨_, hs, digits, .inr rfl, numeral, e⟩

theorem Signed.not_unsigned (h : Signed v) : ¬ IsUnsignedDecimal v n := by
  obtain ⟨digits, hs, -⟩ := h
  rintro ⟨s, hs', numeral, -⟩
  obtain rfl := Option.some.inj (hs.symm.trans hs')
  have := numeral.digits 0x2b List.mem_cons_self
  contradiction

/-- A signed numeral is accepted as the one behind its sign. -/
theorem Signed.accepted (h : Signed v) : ∃ n, decimalOf v = some n := by
  obtain ⟨digits, hs, numeral, lt⟩ := h
  refine ⟨UInt64.ofNat (radix10.value digits), decimalOf_eq_some.mpr (.inr ?_)⟩
  exact ⟨digits, hs, numeral, (UInt64.toNat_ofNat_of_lt' lt).symm⟩

theorem unsigned_of_not_signed (h : ¬ Signed v) : decimalOf v = some n ↔ IsUnsignedDecimal v n := by
  rw [decimalOf_eq_some, or_iff_left]
  rintro ⟨digits, hs, numeral, e⟩
  exact h ⟨digits, hs, numeral, e ▸ n.toNat_lt⟩

/-! ## Positions -/

/-- What a struct made of a field is read of every member of its name. -/
theorem structOf_slot {ι β : Type} [DecidableEq ι] {α : ι → Type} {S : Schema ι}
    {sem : (i : ι) → Value → Option (α i)} {build : Slots α → Option β} {v : Value} {x : β}
    (h : structOf S sem build v = some x) :
    ∃ slots, build slots = some x ∧ ∀ i y ms w, slots i = some y → v.members? = some ms →
      w ∈ named (S.name i) ms → sem i w = some y := by
  obtain ⟨ms, hms, -, slots, hslots, built⟩ := structOf_eq_some.mp h
  refine ⟨slots, built, ?_⟩
  intro i y ms' w hy hms' hw
  obtain rfl := Option.some.inj (hms.symm.trans hms')
  have filled := hslots i
  rw [hy, once_eq_some] at filled
  obtain ⟨w', only, read⟩ := filled
  rw [only, List.mem_singleton] at hw
  rwa [hw]

theorem parseClResponse_ok {α : Type} {target : Target} {de : De α} {sem : Value → Option α}
    {doc : Element} {x : α} (hd : d.Documented) (hde : Reads de sem)
    (h : parseClResponse d texts target de doc.text = .ok x) :
    ∀ ms data, doc.value.members? = some ms → data ∈ named (Bytes.ofString "data") ms →
      sem data = some x := by
  rw [parseClResponse, fromSlice_text hd (envelope_reads hd hde)] at h
  cases hx : envelopeOf sem doc.value with
  | none => rw [hx] at h; cases h
  | some y =>
    rw [hx] at h
    obtain rfl : y = x := by injection h
    obtain ⟨slots, built, read⟩ := structOf_slot hx
    exact fun ms data hms hdata => read .data y ms data built hms hdata

theorem peers_reads (hd : d.Documented) : Reads (Peers.deserialize d)
    (structOf PeersField.schema (fun _ => decimalOf) fun s => s .connected) :=
  readStruct_reads hd (fun _ => hd.str.andThen _) _

theorem statusOf_slot {data : Value} {s : ClStatus} {fields : List Member}
    (h : statusOf data = some s) (hf : data.members? = some fields) :
    (∀ v ∈ named (StatusField.schema.name .headSlot) fields, decimalOf v = some s.headSlot) ∧
      ∀ v ∈ named (StatusField.schema.name .syncDistance) fields,
        decimalOf v = some s.syncDistance := by
  obtain ⟨slots, built, read⟩ := structOf_slot h
  simp only [ClStatus.ofFields, Option.bind_eq_bind, Option.bind_eq_some_iff, Option.some.injEq]
    at built
  obtain ⟨head, hhead, distance, hdistance, _, -, rfl⟩ := built
  exact ⟨fun v hv => read .headSlot head fields v hhead hf hv,
    fun v hv => read .syncDistance distance fields v hdistance hf hv⟩

/-- The number at a position is that of the value there. -/
theorem Position.signal_ok (hd : d.Documented) {p : Position} {doc : Element}
    (held : p.Holds doc v) (h : p.signal d texts doc.text = .ok n) : decimalOf v = some n := by
  obtain ⟨ms, data, fields, hms, hdata, hf, hv⟩ := held
  cases p with
  | headSlot =>
    obtain ⟨s, parsed, rfl⟩ := map_ok.mp h
    have status := parseClResponse_ok hd (status_reads hd) parsed ms data hms hdata
    exact (statusOf_slot status hf).1 v hv
  | syncDistance =>
    obtain ⟨s, parsed, rfl⟩ := map_ok.mp h
    have status := parseClResponse_ok hd (status_reads hd) parsed ms data hms hdata
    exact (statusOf_slot status hf).2 v hv
  | connected =>
    have peers := parseClResponse_ok hd (peers_reads hd) h ms data hms hdata
    obtain ⟨slots, built, read⟩ := structOf_slot peers
    exact read .connected n fields v built hf hv

/-- Every value meets the law, except a numeral with a sign. -/
theorem decimalLaw_iff (hd : d.Documented) (texts : Texts) (v : Value) :
    DecimalLaw d texts v ↔ ¬ Signed v := by
  have reads : Reads (decimalString d) decimalOf := hd.str.andThen _
  constructor
  · intro law signed
    obtain ⟨n, hn⟩ := signed.accepted
    have accepted : decimalString d (Space.bytes ⟨[], rfl⟩ ++ (v.text ++ [])) = some (n, []) := by
      rw [reads.complete _ _ _ delimited_nil, hn]
      rfl
    exact signed.not_unsigned ((law.accepts _ _ n delimited_nil).mp accepted)
  · intro unsigned
    refine ⟨fun w r n hr => ?_, fun p doc n held h => ?_⟩
    · rw [reads.complete w v r hr, ← unsigned_of_not_signed unsigned]
      cases decimalOf v <;> simp
    · exact (unsigned_of_not_signed unsigned).mp (Position.signal_ok hd held h)

/-! A peer count with a sign, and one without. -/

def countOf (count : Value) : Element :=
  (Value.obj (.tight ⟨Bytes.ofString "data", rfl⟩
    (.obj (.tight ⟨Bytes.ofString "connected", rfl⟩ count) [])) []).tight

def plusFive : Value := .str ⟨Bytes.ofString "+5", rfl⟩

theorem plusFive_signed : Signed plusFive := by
  have digits : (Bytes.ofString "5").all (fun c => (radix10.digit c).isSome) = true := rfl
  exact ⟨Bytes.ofString "5", rfl, ⟨by decide, List.all_eq_true.mp digits⟩, by decide⟩

theorem plusFive_at : Position.connected.Holds (countOf plusFive) plusFive :=
  ⟨_, _, _, rfl, List.mem_singleton_self _, rfl, List.mem_singleton_self _⟩

/-- `{"data":{"connected":"+5"}}` is five peers. -/
theorem decimalLaw_plus :
    Position.connected.signal reader noTexts (countOf plusFive).text = .ok 5 ∧
      ¬ DecimalLaw reader noTexts plusFive := by
  have read : Position.connected.signal reader noTexts (countOf plusFive).text = .ok 5 := by
    rw [Position.signal, parseClResponse,
      fromSlice_text reader_documented (envelope_reads reader_documented
        (peers_reads reader_documented))]
    rfl
  refine ⟨read, fun law => ?_⟩
  exact plusFive_signed.not_unsigned (law.signals .connected _ 5 plusFive_at read)

theorem decimalLaw_digits : DecimalLaw reader noTexts (.str ⟨Bytes.ofString "5", rfl⟩) := by
  apply (decimalLaw_iff reader_documented noTexts _).mpr
  rintro ⟨digits, hs, -⟩
  cases hs

end Health
