import Mathlib.Data.List.Infix

/-!
# Occurrences of several needles in a growing text

A position is covered when it lies inside some occurrence of some needle. An
overlap is a suffix of the text that is a proper prefix of some needle, so the
text may still grow into an occurrence that starts in that suffix. The longest
overlap is all a one-pass reader has to keep: coverage before it is final, and
coverage from it on is decided by the kept suffix and whatever follows.

Nothing here depends on how occurrences are searched for. An empty needle covers
no position and has no proper prefix, so it needs no side condition.
-/

namespace TrustedCourier.Occurrences

open List

universe u
variable {α : Type u}

/-- Position `i` of `text` lies inside an occurrence of one of the needles.
Occurrences may overlap and nest; each is considered on its own. -/
def Covered (needles : List (List α)) (text : List α) (i : Nat) : Prop :=
  ∃ needle ∈ needles, ∃ start, start ≤ i ∧ i < start + needle.length ∧ needle <+: text.drop start

/-- The last `k` symbols of `text` are a proper prefix of one of the needles. -/
def Overlap (needles : List (List α)) (text : List α) (k : Nat) : Prop :=
  k ≤ text.length ∧ ∃ needle ∈ needles, k < needle.length ∧ text.drop (text.length - k) <+: needle

/-- The longest overlap, or zero when the needles admit none. -/
structure Longest (needles : List (List α)) (text : List α) (hold : Nat) : Prop where
  fits : hold ≤ text.length
  attained : hold = 0 ∨ Overlap needles text hold
  bound : ∀ k, Overlap needles text k → k ≤ hold

/-- Coverage as a search over needles and start positions. -/
def covers [DecidableEq α] (needles : List (List α)) (text : List α) (i : Nat) : Bool :=
  needles.any fun needle => (List.range (i + 1)).any fun start =>
    decide (i < start + needle.length) && needle.isPrefixOf (text.drop start)

theorem covers_iff [DecidableEq α] (needles : List (List α)) (text : List α) (i : Nat) :
    covers needles text i = true ↔ Covered needles text i := by
  simp only [covers, Covered, any_eq_true, mem_range, Nat.lt_succ_iff, Bool.and_eq_true,
    decide_eq_true_eq, isPrefixOf_iff_prefix]

instance [DecidableEq α] (needles : List (List α)) (text : List α) (i : Nat) :
    Decidable (Covered needles text i) :=
  decidable_of_iff _ (covers_iff needles text i)

variable {needles : List (List α)} {text : List α}

/-- There is one longest overlap. -/
theorem Longest.unique {first second : Nat} (one : Longest needles text first)
    (other : Longest needles text second) : first = second := by
  have below {a b : Nat} (a_longest : Longest needles text a) (b_longest : Longest needles text b) :
      a ≤ b := by
    rcases a_longest.attained with none | overlap
    · exact none ▸ Nat.zero_le b
    · exact b_longest.bound a overlap
  exact Nat.le_antisymm (below one other) (below other one)

/-- A prefix of a dropped text ends inside the text. -/
theorem occurrence_fits {needle : List α} {start i : Nat} (inside : i < start + needle.length)
    (before : start ≤ i) (occurs : needle <+: text.drop start) :
    start + needle.length ≤ text.length := by
  have bounded := occurs.length_le
  rw [length_drop] at bounded
  omega

/-- A covered position is a position of the text. -/
theorem covered_lt {i : Nat}
    (covered : Covered needles text i) : i < text.length := by
  obtain ⟨needle, _, start, before, inside, occurs⟩ := covered
  have fits := occurrence_fits inside before occurs
  omega

variable (more : List α)

/-- Growth of the text never uncovers a position. -/
theorem covered_append {i : Nat}
    (covered : Covered needles text i) : Covered needles (text ++ more) i := by
  obtain ⟨needle, member, start, before, inside, occurs⟩ := covered
  have fits := occurrence_fits inside before occurs
  refine ⟨needle, member, start, before, inside, ?_⟩
  rw [drop_append_of_le_length (by omega)]
  exact occurs.trans (prefix_append _ _)

/-- An occurrence in a longer text that ends inside the shorter one occurs there. -/
theorem occurrence_within {needle more : List α} {start : Nat}
    (ends : start + needle.length ≤ text.length) (occurs : needle <+: (text ++ more).drop start) :
    needle <+: text.drop start := by
  rw [drop_append_of_le_length (by omega)] at occurs
  apply prefix_of_prefix_length_le occurs (prefix_append _ _)
  rw [length_drop]
  omega

/-- An occurrence that starts in the text and runs past its end makes the suffix
from that start an overlap. -/
theorem overlap_of_crossing {needle more : List α} {start : Nat}
    (member : needle ∈ needles) (starts : start ≤ text.length)
    (crosses : text.length < start + needle.length)
    (occurs : needle <+: (text ++ more).drop start) :
    Overlap needles text (text.length - start) := by
  refine ⟨by omega, needle, member, by omega, ?_⟩
  have same : text.length - (text.length - start) = start := by omega
  rw [drop_append_of_le_length starts] at occurs
  rw [same]
  apply prefix_of_prefix_length_le (prefix_append _ _) occurs
  rw [length_drop]
  omega

/-- Coverage before the longest overlap is final: no continuation of the text
covers another of those positions. An occurrence in the continued text either
ends inside the text already read or starts in the overlap. -/
theorem covered_settled {hold i : Nat}
    (longest : Longest needles text hold) (before : i < text.length - hold) :
    Covered needles (text ++ more) i ↔ Covered needles text i := by
  constructor
  · rintro ⟨needle, member, start, startsBefore, inside, occurs⟩
    by_cases ends : start + needle.length ≤ text.length
    · exact ⟨needle, member, start, startsBefore, inside, occurrence_within ends occurs⟩
    · have overlap := overlap_of_crossing member (by omega) (by omega) occurs
      have short := longest.bound _ overlap
      omega
  · exact covered_append more

/-- From the longest overlap on, a position of the continued text is covered
exactly when it already was or the kept suffix and the continuation cover it.

An occurrence that starts before the overlap cannot leave the text already read,
so it was found there; any other lies wholly in the kept suffix and what follows. -/
theorem covered_resumed {hold : Nat}
    (longest : Longest needles text hold) (j : Nat) :
    Covered needles (text ++ more) (text.length - hold + j) ↔
      Covered needles text (text.length - hold + j) ∨
        Covered needles (text.drop (text.length - hold) ++ more) j := by
  have fits := longest.fits
  have split : ∀ extra, (text ++ more).drop (text.length - hold + extra) =
      (text.drop (text.length - hold) ++ more).drop extra := by
    intro extra
    rw [← drop_drop, drop_append_of_le_length (by omega)]
  constructor
  · rintro ⟨needle, member, start, before, inside, occurs⟩
    by_cases kept : text.length - hold ≤ start
    · right
      refine ⟨needle, member, start - (text.length - hold), by omega, by omega, ?_⟩
      rw [← split, Nat.add_sub_cancel' kept]
      exact occurs
    · left
      by_cases ends : start + needle.length ≤ text.length
      · exact ⟨needle, member, start, before, inside, occurrence_within ends occurs⟩
      · have overlap := overlap_of_crossing member (by omega) (by omega) occurs
        have short := longest.bound _ overlap
        omega
  · rintro (covered | ⟨needle, member, start, before, inside, occurs⟩)
    · exact covered_append more covered
    · refine ⟨needle, member, text.length - hold + start, by omega, by omega, ?_⟩
      rw [split]
      exact occurs

/-- The overlaps of the continued text are those of the kept suffix continued. A
longer one would have been an overlap of the text already read. -/
theorem overlap_resumed {hold : Nat}
    (longest : Longest needles text hold) (k : Nat) :
    Overlap needles (text ++ more) k ↔
      Overlap needles (text.drop (text.length - hold) ++ more) k := by
  have fits := longest.fits
  have keptLength : (text.drop (text.length - hold) ++ more).length = hold + more.length := by
    simp only [length_append, length_drop]
    omega
  -- The two texts have the same last symbols, as far as the kept suffix reaches.
  have tails (short : k ≤ hold + more.length) :
      (text ++ more).drop ((text ++ more).length - k) =
        (text.drop (text.length - hold) ++ more).drop (hold + more.length - k) := by
    have from_ : (text ++ more).length - k = text.length - hold + (hold + more.length - k) := by
      rw [length_append]
      omega
    rw [from_, ← drop_drop, drop_append_of_le_length (by omega)]
  constructor
  · rintro ⟨bounded, needle, member, proper, begins⟩
    have short : k ≤ hold + more.length := by
      by_contra long
      rw [length_append] at bounded
      have earlier : Overlap needles text (k - more.length) := by
        refine ⟨by omega, needle, member, by omega, ?_⟩
        have same : (text ++ more).length - k = text.length - (k - more.length) := by
          rw [length_append]
          omega
        rw [same, drop_append_of_le_length (by omega)] at begins
        exact (prefix_append _ _).trans begins
      have small := longest.bound _ earlier
      omega
    refine ⟨by omega, needle, member, proper, ?_⟩
    rw [keptLength, ← tails short]
    exact begins
  · rintro ⟨bounded, needle, member, proper, begins⟩
    rw [keptLength] at bounded begins
    refine ⟨by rw [length_append]; omega, needle, member, proper, ?_⟩
    rw [tails bounded]
    exact begins

/-- The longest overlap can be recomputed from the kept suffix alone. -/
theorem longest_resumed {more : List α} {hold next : Nat}
    (longest : Longest needles text hold)
    (resumed : Longest needles (text.drop (text.length - hold) ++ more) next) :
    Longest needles (text ++ more) next := by
  have fits := longest.fits
  refine ⟨?_, ?_, ?_⟩
  · have short := resumed.fits
    simp only [length_append, length_drop] at short ⊢
    omega
  · rcases resumed.attained with zero | overlap
    · exact Or.inl zero
    · exact Or.inr ((overlap_resumed more longest next).mpr overlap)
  · intro k overlap
    exact resumed.bound k ((overlap_resumed more longest k).mp overlap)

/-- The empty text has no overlap to keep. -/
theorem longest_nil (needles : List (List α)) : Longest needles [] 0 :=
  ⟨Nat.le_refl 0, Or.inl rfl, fun _ overlap => overlap.1⟩

end TrustedCourier.Occurrences
