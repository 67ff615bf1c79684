import Ethryx.Headers
import Ethryx.Http.HeaderMap

/-!
# What survives a hop

* `options`: the options of all `Connection` lines, in order;
* `survives`: the names that stay, as a test on the options;
* `stripHopByHop_eq`: the strip keeps the lines of these names and no others;
* `stripHopByHop_exact`: which names that are.
-/

namespace Headers

open Http HeaderMap

variable (lib : Library)

def options (headers : HeaderMap) : List Bytes :=
  (headers.getAll connection).flatMap fun value => value.splitOn 0x2c

def survives (opts : List Bytes) (n : HeaderName) : Bool :=
  !hopByHop.contains n && !opts.any fun option => lib.headerName (Bytes.trimAscii option) == some n

/-- An option of some `Connection` line is a header name and is this one,
whatever the case of its letters. -/
def Nominates (headers : HeaderMap) (n : HeaderName) : Prop :=
  ∃ value ∈ headers.getAll connection, ∃ option ∈ value.splitOn 0x2c,
    (lib.headerName (Bytes.trimAscii option)).isSome = true ∧
      Bytes.eqIgnoreAsciiCase (Bytes.trimAscii option) n.text = true

theorem mem_nominated {headers : HeaderMap} {n : HeaderName} :
    n ∈ nominated lib headers ↔
      (∃ option ∈ options headers, lib.headerName (Bytes.trimAscii option) = some n) ∧
        n ∉ hopByHop ∧ headers.containsKey n = true := by
  simp only [nominated, options, List.mem_filter, List.mem_filterMap, Bool.and_eq_true,
    Bool.not_eq_true', List.contains_eq_mem, decide_eq_false_iff_not]

theorem survives_iff {opts : List Bytes} {n : HeaderName} :
    survives lib opts n = true ↔
      n ∉ hopByHop ∧ ¬ ∃ option ∈ opts, lib.headerName (Bytes.trimAscii option) = some n := by
  simp [survives]

/-- Both passes together are one filter. -/
theorem stripHopByHop_eq (headers : HeaderMap) :
    stripHopByHop lib headers = headers.filter fun line => survives lib (options headers) line.1 := by
  rw [stripHopByHop, foldl_remove, foldl_remove, List.filter_filter]
  apply List.filter_congr
  intro line hl
  have key := containsKey_of_mem hl
  rw [Bool.eq_iff_iff, survives_iff, Bool.and_eq_true, Bool.not_eq_true', Bool.not_eq_true',
    List.contains_eq_mem, List.contains_eq_mem, decide_eq_false_iff_not, decide_eq_false_iff_not,
    mem_nominated]
  constructor
  · rintro ⟨hop, nom⟩
    exact ⟨hop, fun opt => nom ⟨opt, hop, key⟩⟩
  · rintro ⟨hop, opt⟩
    exact ⟨hop, fun nom => opt nom.1⟩

theorem getAll_stripHopByHop (headers : HeaderMap) (n : HeaderName) :
    (stripHopByHop lib headers).getAll n =
      if survives lib (options headers) n then headers.getAll n else [] := by
  rw [stripHopByHop_eq, getAll_filter]

/-- The lines that nominate go no further themselves. -/
theorem survives_connection (opts : List Bytes) : survives lib opts connection = false := by
  simp [survives, hopByHop]

theorem options_stripHopByHop (headers : HeaderMap) :
    options (stripHopByHop lib headers) = [] := by
  rw [options, getAll_stripHopByHop, survives_connection]
  rfl

variable {lib}

/-- The options that are names, against the letters of a name. -/
theorem nominates_iff (hl : lib.Documented) {headers : HeaderMap} {n : HeaderName} (hn : n.Lower) :
    Nominates lib headers n ↔
      ∃ option ∈ options headers, lib.headerName (Bytes.trimAscii option) = some n := by
  have same (option : Bytes) :
      ((lib.headerName option).isSome = true ∧ Bytes.eqIgnoreAsciiCase option n.text = true) ↔
        lib.headerName option = some n := by
    rw [Bytes.eqIgnoreAsciiCase, beq_iff_eq, hn]
    cases h : lib.headerName option with
    | none => simp
    | some m =>
      have text := hl.headerName option m h
      constructor
      · rintro ⟨-, e⟩
        rw [Option.some.injEq]
        cases m
        cases n
        simp_all
      · intro e
        obtain rfl := Option.some.inj e
        exact ⟨rfl, text.symm⟩
  simp only [Nominates, options, List.mem_flatMap, same]
  constructor
  · rintro ⟨value, hv, option, ho, h⟩
    exact ⟨option, ⟨value, hv, ho⟩, h⟩
  · rintro ⟨option, ⟨value, hv, ho⟩, h⟩
    exact ⟨value, hv, option, ho, h⟩

/-- **The strip is exact.** A name stays exactly when it is not a hop-by-hop name
and no `Connection` line nominates it; it keeps its values; an option that is a
name counts whatever stands beside it; a second strip finds nothing. -/
theorem stripHopByHop_exact (hl : lib.Documented) (headers : HeaderMap) :
    (∀ n : HeaderName, n.Lower →
      ((stripHopByHop lib headers).containsKey n = true ↔
        headers.containsKey n = true ∧ n ∉ hopByHop ∧ ¬ Nominates lib headers n)) ∧
    (∀ n : HeaderName, (stripHopByHop lib headers).containsKey n = true →
      (stripHopByHop lib headers).getAll n = headers.getAll n) ∧
    (∀ value ∈ headers.getAll connection, ∀ option ∈ value.splitOn 0x2c, ∀ n,
      lib.headerName (Bytes.trimAscii option) = some n →
        (stripHopByHop lib headers).containsKey n = false) ∧
    stripHopByHop lib (stripHopByHop lib headers) = stripHopByHop lib headers := by
  refine ⟨?_, ?_, ?_, ?_⟩
  · intro n hn
    rw [containsKey_iff, containsKey_iff, getAll_stripHopByHop, nominates_iff hl hn,
      ← survives_iff]
    cases survives lib (options headers) n <;> simp
  · intro n hs
    rw [containsKey_iff, getAll_stripHopByHop] at hs
    rw [getAll_stripHopByHop]
    cases h : survives lib (options headers) n with
    | true => rfl
    | false => simp [h] at hs
  · intro value hv option ho n hname
    have gone : survives lib (options headers) n = false := by
      rw [← Bool.not_eq_true, survives_iff]
      rintro ⟨-, keep⟩
      exact keep ⟨option, List.mem_flatMap.mpr ⟨value, hv, ho⟩, hname⟩
    rw [containsKey_eq_false, getAll_stripHopByHop, gone]
    rfl
  · rw [stripHopByHop_eq lib (stripHopByHop lib headers), options_stripHopByHop]
    apply List.filter_eq_self.mpr
    intro line hline
    rw [stripHopByHop_eq, List.mem_filter, survives_iff] at hline
    rw [survives_iff]
    exact ⟨hline.2.1, by simp⟩

/-! A nomination among options that name nothing. -/

def nominating : HeaderMap :=
  [(connection, Bytes.ofString "bad option, X-One, , keep-alive"),
    (name "x-one", Bytes.ofString "1"), (name "x-two", Bytes.ofString "2")]

theorem stripHopByHop_exact_nominating :
    (stripHopByHop standard nominating).containsKey (name "x-one") = true ↔
      nominating.containsKey (name "x-one") = true ∧ name "x-one" ∉ hopByHop ∧
        ¬ Nominates standard nominating (name "x-one") :=
  (stripHopByHop_exact standard_documented nominating).1 (name "x-one") rfl

example : stripHopByHop standard nominating = [(name "x-two", Bytes.ofString "2")] := by decide

end Headers
