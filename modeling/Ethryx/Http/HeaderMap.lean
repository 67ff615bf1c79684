import Ethryx.Http
import Mathlib

/-!
# Header maps

What the operations make of the values of a name, and the laws of names and
values that the crate documents.

* `getAll_remove`, `getAll_insert`, `getAll_filter`;
* `foldl_remove`: removing name after name;
* `Library.Documented`: `HeaderName::from_bytes`, `HeaderValue::to_str` and
  `HeaderValue::from_str`.
-/

namespace Http

namespace HeaderMap

variable {h : HeaderMap} {n m : HeaderName} {v : HeaderValue}

/-- `HeaderMap::get`: the first value. -/
def get (h : HeaderMap) (n : HeaderName) : Option HeaderValue := (h.getAll n).head?

theorem mem_getAll : v ∈ h.getAll n ↔ (n, v) ∈ h := by
  simp only [getAll, List.mem_map, List.mem_filter, beq_iff_eq]
  constructor
  · rintro ⟨⟨k, w⟩, ⟨hmem, rfl⟩, rfl⟩
    exact hmem
  · intro hmem
    exact ⟨(n, v), ⟨hmem, rfl⟩, rfl⟩

theorem containsKey_iff : h.containsKey n = true ↔ h.getAll n ≠ [] := by
  simp [containsKey, getAll, List.filter_eq_nil_iff]

theorem containsKey_eq_false : h.containsKey n = false ↔ h.getAll n = [] := by
  rw [← Bool.not_eq_true, containsKey_iff, not_not]

/-- A name with one value at most is read whole by `get`. -/
theorem toList_get (few : (h.getAll n).length ≤ 1) : (h.get n).toList = h.getAll n := by
  rw [get]
  rcases hn : h.getAll n with _ | ⟨v, _ | ⟨w, vs⟩⟩
  · rfl
  · rfl
  · exact absurd few (by simp [hn])

theorem containsKey_of_mem {line : HeaderName × HeaderValue} (hl : line ∈ h) :
    h.containsKey line.1 = true := by
  rw [containsKey_iff]
  exact List.ne_nil_of_mem (mem_getAll.mpr hl)

theorem getAll_append (h h' : HeaderMap) (n : HeaderName) :
    getAll (h ++ h') n = getAll h n ++ getAll h' n := by
  simp [getAll]

/-- Keeping some names keeps all their values in order. -/
theorem getAll_filter (h : HeaderMap) (keep : HeaderName → Bool) (n : HeaderName) :
    getAll (h.filter fun line => keep line.1) n = if keep n then h.getAll n else [] := by
  unfold getAll
  rw [List.filter_filter]
  split
  · next hk =>
    congr 1
    apply List.filter_congr
    intro line _
    by_cases e : line.1 = n
    · simp [e, hk]
    · simp [e]
  · next hk =>
    rw [List.map_eq_nil_iff, List.filter_eq_nil_iff]
    intro line _
    by_cases e : line.1 = n
    · simp [e, hk]
    · simp [e]

@[simp] theorem getAll_remove_self : (h.remove n).getAll n = [] := by
  rw [remove, getAll_filter h (fun k => k != n)]
  simp

theorem getAll_remove (hne : m ≠ n) : (h.remove n).getAll m = h.getAll m := by
  rw [remove, getAll_filter h (fun k => k != n)]
  simp [hne]

@[simp] theorem getAll_insert_self : (h.insert n v).getAll n = [v] := by
  rw [insert, getAll_append, getAll_remove_self]
  simp [getAll]

theorem getAll_insert (hne : m ≠ n) : (h.insert n v).getAll m = h.getAll m := by
  rw [insert, getAll_append, getAll_remove hne]
  simp [getAll, Ne.symm hne]

@[simp] theorem remove_insert : (h.insert n v).remove n = h.remove n := by
  simp [insert, remove, List.filter_append]

@[simp] theorem insert_insert {w : HeaderValue} : (h.insert n v).insert n w = h.insert n w := by
  rw [insert, remove_insert]
  rfl

theorem foldl_remove (names : List HeaderName) (h : HeaderMap) :
    names.foldl remove h = h.filter fun line => !names.contains line.1 := by
  induction names generalizing h with
  | nil => simp
  | cons n names ih =>
    rw [List.foldl_cons, ih, remove, List.filter_filter]
    apply List.filter_congr
    intro line _
    by_cases e : line.1 = n <;> simp [e]

end HeaderMap

/-! ## Names and values -/

/-- A name as it is kept. -/
def HeaderName.Lower (n : HeaderName) : Prop := n.text.map Bytes.toAsciiLowercase = n.text

/-- Names are kept in lower case, `to_str` reads visible ASCII, and a text of it
makes a value of the same bytes. -/
structure Library.Documented (lib : Library) : Prop where
  headerName : ∀ b n, lib.headerName b = some n → n.text = b.map Bytes.toAsciiLowercase
  visible : lib.visible = standardVisible
  headerValue : ∀ b, b.all standardVisible = true → lib.headerValue b = some b

theorem standard_documented : standard.Documented where
  headerName b n h := by
    simp only [standard, Option.ite_none_right_eq_some, Option.some.injEq] at h
    rw [← h.2]
  visible := rfl
  headerValue b h := if_pos h

end Http
