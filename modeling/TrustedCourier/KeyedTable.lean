import Mathlib.Data.List.Infix
import Mathlib.Data.List.Pairwise

/-!
# Tables with an integer primary key

A table holds its rows in the order of their keys, and no two with the same key. A
row is inserted where its key belongs, or refused when the key is taken or the table
is full. Queries with an ordering read a stretch of the rows; a limit cuts it off.

Sorting carries most laws: the rows past a key are a suffix of the table, a row whose
key is past every other is inserted at the end, and reading on after the last row of
a page is reading the rest.
-/

namespace TrustedCourier

open List

universe u

/-- The rows of a table in the order of their keys. -/
structure Table (ρ : Type u) (key : ρ → Int) where
  rows : List ρ
  sorted : rows.Pairwise fun a b => key a < key b

namespace Table

variable {ρ : Type u} {key : ρ → Int}

/-- A table without rows. -/
def empty : Table ρ key := ⟨[], List.Pairwise.nil⟩

@[simp] theorem empty_rows : (empty : Table ρ key).rows = [] := rfl

variable (t : Table ρ key)

/-- The rows before a key, a row with that key, the rows past it. -/
theorem sorted_inserted (row : ρ) :
    (t.rows.filter (key · < key row) ++ row :: t.rows.filter (key row < key ·)).Pairwise
      fun a b => key a < key b := by
  rw [pairwise_append]
  refine ⟨t.sorted.filter _, pairwise_cons.mpr ⟨?_, t.sorted.filter _⟩, ?_⟩
  · intro later member
    simpa using (mem_filter.mp member).2
  · intro earlier member other inRest
    have before : key earlier < key row := by simpa using (mem_filter.mp member).2
    rcases mem_cons.mp inRest with rfl | later
    · exact before
    · have after : key row < key other := by simpa using (mem_filter.mp later).2
      omega

/-- `INSERT`: refused when the key is taken or the table has as many rows as fit. -/
def insert (capacity : Nat) (t : Table ρ key) (row : ρ) : Option (Table ρ key) :=
  if t.rows.length < capacity ∧ ∀ other ∈ t.rows, key other ≠ key row then
    some ⟨t.rows.filter (key · < key row) ++ row :: t.rows.filter (key row < key ·),
      t.sorted_inserted row⟩
  else none

/-- `WHERE key > after ORDER BY key`. -/
def past (t : Table ρ key) (after : Int) : List ρ := t.rows.filter (after < key ·)

/-- `WHERE key > after AND key <= upTo ORDER BY key`. -/
def within (t : Table ρ key) (after upTo : Int) : List ρ :=
  t.rows.filter fun row => after < key row ∧ key row ≤ upTo

/-- `ORDER BY key DESC LIMIT 1`. -/
def last? (t : Table ρ key) : Option ρ := t.rows.getLast?

/-- The row with this key, as a join on it finds it. -/
def find? (t : Table ρ key) (k : Int) : Option ρ := t.rows.find? fun row => key row == k

variable (after : Int)

theorem past_sorted : (t.past after).Pairwise fun a b => key a < key b :=
  t.sorted.filter _

@[simp] theorem mem_past (row : ρ) :
    row ∈ t.past after ↔ row ∈ t.rows ∧ after < key row := by
  simp [past]

@[simp] theorem mem_within (upTo : Int) (row : ρ) :
    row ∈ t.within after upTo ↔ row ∈ t.rows ∧ after < key row ∧ key row ≤ upTo := by
  simp [within]

variable {row : ρ}

/-- A row past every other is inserted at the end. -/
theorem insert_last {capacity : Nat} {t : Table ρ key} (fits : t.rows.length < capacity)
    (past : ∀ other ∈ t.rows, key other < key row) :
    ∃ grown, t.insert capacity row = some grown ∧ grown.rows = t.rows ++ [row] := by
  have free : ∀ other ∈ t.rows, key other ≠ key row :=
    fun other member => Int.ne_of_lt (past other member)
  refine ⟨_, if_pos ⟨fits, free⟩, ?_⟩
  have before : t.rows.filter (key · < key row) = t.rows :=
    filter_eq_self.mpr fun other member => decide_eq_true (past other member)
  have after : t.rows.filter (key row < key ·) = [] := by
    rw [filter_eq_nil_iff]
    intro other member
    have lower := past other member
    simp only [decide_eq_true_eq]
    omega
  simp only [before, after]

/-- A full table refuses every row. -/
theorem insert_some {capacity : Nat} {t grown : Table ρ key}
    (inserted : t.insert capacity row = some grown) : t.rows.length < capacity := by
  unfold insert at inserted
  split at inserted
  · next admitted => exact admitted.1
  · simp at inserted

/-- Rows of the same key are the same row. -/
theorem key_injective {a b : ρ} (left : a ∈ t.rows) (right : b ∈ t.rows)
    (same : key a = key b) : a = b := by
  by_contra different
  have apart : t.rows.Pairwise fun a b => key a ≠ key b :=
    t.sorted.imp fun lower => Int.ne_of_lt lower
  have symmetric : Std.Symm fun a b : ρ => key a ≠ key b := ⟨fun _ _ unequal => unequal.symm⟩
  exact apart.forall left right different same

/-- A join on a key finds the row that has it. -/
theorem find?_eq_some (k : Int) (row : ρ) :
    t.find? k = some row ↔ row ∈ t.rows ∧ key row = k := by
  constructor
  · intro found
    exact ⟨mem_of_find?_eq_some found, by simpa using find?_some found⟩
  · rintro ⟨member, rfl⟩
    cases found : t.find? (key row) with
    | none =>
      have refused := find?_eq_none.mp found row member
      simp at refused
    | some other =>
      have inside := mem_of_find?_eq_some found
      have same : key other = key row := by simpa using find?_some found
      rw [t.key_injective inside member same]

/-- In sorted rows, those past the last of the first `n` are the ones after them. -/
theorem filter_past_last {rows : List ρ} (sorted : rows.Pairwise fun a b => key a < key b) {n : Nat}
    (last : (rows.take n).getLast? = some row) : rows.filter (key row < key ·) = rows.drop n := by
  have split := take_append_drop n rows
  rw [← split, pairwise_append] at sorted
  obtain ⟨front, ends⟩ := getLast?_eq_some_iff.mp last
  conv_lhs => rw [← split]
  rw [filter_append]
  have none : (rows.take n).filter (key row < key ·) = [] := by
    rw [filter_eq_nil_iff]
    intro other member
    rw [ends] at member sorted
    rcases mem_append.mp member with earlier | same
    · have lower := (pairwise_append.mp sorted.1).2.2 other earlier row (by simp)
      simp only [decide_eq_true_eq]
      omega
    · rw [mem_singleton.mp same]
      simp
  have all : (rows.drop n).filter (key row < key ·) = rows.drop n := by
    rw [filter_eq_self]
    intro other member
    exact decide_eq_true (sorted.2.2 row (mem_of_getLast? last) other member)
  rw [none, all, nil_append]

/-- Reading on past the last row of a page is reading the rest. -/
theorem past_page {after : Int} {n : Nat}
    (last : ((t.past after).take n).getLast? = some row) :
    t.past (key row) = (t.past after).drop n := by
  have above : after < key row := by
    have member := mem_of_mem_take (mem_of_getLast? last)
    exact ((t.mem_past after row).mp member).2
  have rest : (t.past after).filter (key row < key ·) = (t.past after).drop n :=
    filter_past_last (t.sorted.filter _) last
  rw [← rest, past, past, filter_filter]
  apply filter_congr
  intro other _
  by_cases beyond : key row < key other
  · have further : after < key other := by omega
    simp [beyond, further]
  · simp [beyond]

/-- Reading on past the last row of a page, up to the same key, is reading the rest. -/
theorem within_page {after upTo : Int} {n : Nat}
    (last : ((t.within after upTo).take n).getLast? = some row) :
    t.within (key row) upTo = (t.within after upTo).drop n := by
  have above : after < key row := by
    have member := mem_of_mem_take (mem_of_getLast? last)
    exact ((t.mem_within after upTo row).mp member).2.1
  have rest : (t.within after upTo).filter (key row < key ·) = (t.within after upTo).drop n :=
    filter_past_last (t.sorted.filter _) last
  rw [← rest, within, within, filter_filter]
  apply filter_congr
  intro other _
  by_cases beyond : key row < key other
  · have further : after < key other := by omega
    simp [beyond, further]
  · simp [beyond]

/-- The rows between two keys are those past the first, up to the second. -/
theorem within_eq_filter (upTo : Int) :
    t.within after upTo = (t.past after).filter (key · ≤ upTo) := by
  rw [within, past, filter_filter]
  apply filter_congr
  intro row _
  rw [Bool.decide_and, Bool.and_comm]

/-- A bound that every row keeps leaves all rows. -/
theorem past_eq_rows {after : Int} (above : ∀ row ∈ t.rows, after < key row) :
    t.past after = t.rows :=
  filter_eq_self.mpr fun row member => decide_eq_true (above row member)

/-- In sorted rows, those up to the key of a row are the ones before it and the row. -/
theorem filter_upTo {front back : List ρ}
    (sorted : (front ++ row :: back).Pairwise fun a b => key a < key b) :
    (front ++ row :: back).filter (key · ≤ key row) = front ++ [row] := by
  obtain ⟨_, behind, before⟩ := pairwise_append.mp sorted
  have kept : front.filter (key · ≤ key row) = front := by
    rw [filter_eq_self]
    intro other member
    exact decide_eq_true (Int.le_of_lt (before other member row mem_cons_self))
  have dropped : back.filter (key · ≤ key row) = [] := by
    rw [filter_eq_nil_iff]
    intro other member
    have above := (pairwise_cons.mp behind).1 other member
    simp only [decide_eq_true_eq]
    omega
  rw [filter_append, kept, filter_cons_of_pos (by simp), dropped]

/-- The rows up to the key of a row are those below it, and the row. -/
theorem within_key (member : row ∈ t.rows) (above : after < key row) :
    t.within after (key row) = t.within after (key row - 1) ++ [row] := by
  have past : row ∈ t.past after := (t.mem_past after row).mpr ⟨member, above⟩
  obtain ⟨front, back, split⟩ := append_of_mem past
  have sorted := t.past_sorted after
  rw [split] at sorted
  have upTo : t.within after (key row) =
      front ++ [row] := by rw [t.within_eq_filter, split, filter_upTo sorted]
  have below : t.within after (key row - 1) =
      (t.within after (key row)).filter (key · ≤ key row - 1) := by
    rw [t.within_eq_filter, t.within_eq_filter, filter_filter]
    apply filter_congr
    intro other _
    by_cases low : key other ≤ key row - 1
    · have lower : key other ≤ key row := by omega
      simp [low, lower]
    · simp [low]
  have kept : front.filter (key · ≤ key row - 1) = front := by
    rw [filter_eq_self]
    intro other inFront
    have lower := (pairwise_append.mp sorted).2.2 other inFront row mem_cons_self
    exact decide_eq_true (by omega)
  rw [below, upTo, filter_append, kept, filter_cons_of_neg (by rw [decide_eq_true_eq]; omega),
    filter_nil, append_nil]

/-- Reading past a key in a table that has grown at its end reads on from there. -/
theorem past_mono {part whole : Table ρ key} (grown : part.rows <+: whole.rows) (after : Int) :
    part.past after <+: whole.past after :=
  grown.filter _

/-- Sorted rows up to a key come first. -/
theorem filter_le_prefix {rows : List ρ} (sorted : rows.Pairwise fun a b => key a < key b)
    (upTo : Int) :
    rows.filter (key · ≤ upTo) <+: rows := by
  induction rows with
  | nil => exact prefix_rfl
  | cons row rest ih =>
    obtain ⟨above, sortedRest⟩ := pairwise_cons.mp sorted
    by_cases low : key row ≤ upTo
    · rw [filter_cons_of_pos (by simpa using low), cons_prefix_cons]
      exact ⟨rfl, ih sortedRest⟩
    · have none : (row :: rest).filter (key · ≤ upTo) = [] := by
        rw [filter_eq_nil_iff]
        intro other member
        rcases mem_cons.mp member with rfl | later
        · simpa using low
        · have higher := above other later
          simp only [decide_eq_true_eq]
          omega
      rw [none]
      exact nil_prefix

/-- The rows between two keys are the first of those past the lower one. -/
theorem within_prefix (upTo : Int) : t.within after upTo <+: t.past after := by
  rw [t.within_eq_filter]
  exact filter_le_prefix (t.past_sorted after) upTo

/-- Once the first rows past a key have been read, the others are past the last of them. -/
theorem past_read {after : Int} {page rest : List ρ}
    (split : t.past after = page ++ rest) (last : page.getLast? = some row) :
    t.past (key row) = rest := by
  have taken : ((t.past after).take page.length).getLast? =
      some row := by rw [split, take_left, last]
  rw [t.past_page taken, split, drop_left]

end Table

end TrustedCourier
