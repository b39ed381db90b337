import TrustedCourier.Decimal

/-!
# Unix milliseconds as RFC 3339 in UTC

A time is stored as milliseconds since the Unix epoch and written as
`2006-01-02T15:04:05.000Z` in the proleptic Gregorian calendar. A year has four
digits or more, and a sign before the year 0. The days of a year are counted from
the first of March, so that a leap day is the last of its year.
-/

namespace TrustedCourier.Calendar

open Decimal

/-- A day's date. -/
structure Date where
  year : Int
  month : Nat
  day : Nat
deriving DecidableEq, Repr

/-- The date of a day counted from the Unix epoch. Centuries have a quarter day
more than 36524 days, and years a quarter day more than 365; the months from March
on have 153 days in five. -/
def date (unixDay : Int) : Date :=
  let quarters := 4 * (unixDay + 719468) + 3
  let century := quarters / 146097
  let quartersOfCentury := 4 * (quarters % 146097 / 4) + 3
  let yearOfCentury := quartersOfCentury / 1461
  let yearDay := quartersOfCentury % 1461 / 4
  let fifths := (5 * yearDay + 461).toNat
  let month := fifths / 153
  { year := 100 * century + yearOfCentury + if month > 12 then 1 else 0
    month := if month > 12 then month - 12 else month
    day := 1 + fifths % 153 / 5 }

/-- `time.UnixMilli(ms).UTC().Format(timeFormat)`. -/
def format (ms : Int) : Bytes :=
  let date := date (ms / 86400000)
  let ofDay := (ms % 86400000).toNat
  signed 4 date.year ++ 0x2D :: (padded 2 date.month ++ 0x2D :: (padded 2 date.day ++ 0x54 ::
    (padded 2 (ofDay / 3600000) ++ 0x3A :: (padded 2 (ofDay / 60000 % 60) ++ 0x3A ::
      (padded 2 (ofDay / 1000 % 60) ++ 0x2E :: (padded 3 (ofDay % 1000) ++ [0x5A]))))))

/-- A date is the date of one day. Month and day of month settle the day of the year;
with the year it settles the day of the century, which settles the day. -/
theorem date_injective {a b : Int} (same : date a = date b) : a = b := by
  simp only [date, Date.mk.injEq] at same
  obtain ⟨years, months, days⟩ := same
  generalize quarters : 4 * (a + 719468) + 3 = q at *
  generalize quarters' : 4 * (b + 719468) + 3 = q' at *
  have boundC : 0 ≤ q % 146097 / 4 ∧ q % 146097 / 4 ≤ 36524 := by omega
  have boundC' : 0 ≤ q' % 146097 / 4 ∧ q' % 146097 / 4 ≤ 36524 := by omega
  generalize ofCentury : q % 146097 / 4 = c at *
  generalize ofCentury' : q' % 146097 / 4 = c' at *
  have boundY : 0 ≤ (4 * c + 3) % 1461 / 4 ∧ (4 * c + 3) % 1461 / 4 ≤ 365 := by omega
  have boundY' : 0 ≤ (4 * c' + 3) % 1461 / 4 ∧ (4 * c' + 3) % 1461 / 4 ≤ 365 := by omega
  generalize ofYear : (4 * c + 3) % 1461 / 4 = y at *
  generalize ofYear' : (4 * c' + 3) % 1461 / 4 = y' at *
  have yearDays : y = y' := by
    split at months <;> split at months <;> omega
  subst yearDays
  have together : 100 * (q / 146097) + (4 * c + 3) / 1461 = 100 * (q' / 146097) +
      (4 * c' + 3) / 1461 :=
    (Int.add_left_inj _).mp years
  have centuries : q / 146097 = q' / 146097 := by
    have short : 0 ≤ (4 * c + 3) / 1461 ∧ (4 * c + 3) / 1461 ≤ 99 := by omega
    have short' : 0 ≤ (4 * c' + 3) / 1461 ∧ (4 * c' + 3) / 1461 ≤ 99 := by omega
    omega
  have centuryDays : c = c' := by omega
  omega

/-- A number before a byte that is no digit is settled with what follows that byte. -/
theorem field {width a b : Nat} {c : UInt8} {rest others : Bytes} (stop : isDigit c = false)
    (same : padded width a ++ c :: rest = padded width b ++ c :: others) :
    a = b ∧ rest = others := by
  have follows : ∀ more, Follows (c :: more) := by
    intro more other first
    cases first
    exact stop
  obtain ⟨numbers, tails⟩ := padded_framed width a b _ _ (follows rest) (follows others) same
  exact ⟨numbers, (List.cons.inj tails).2⟩

/-- A written time is the time of one millisecond. -/
theorem format_injective {a b : Int} (same : format a = format b) : a = b := by
  have dash : ∀ more, Follows (0x2D :: more) := by
    intro more other first
    cases first
    decide
  obtain ⟨years, tails⟩ := signed_framed 4 _ _ _ _ (dash _) (dash _) same
  obtain ⟨months, tails⟩ := field (by decide) (List.cons.inj tails).2
  obtain ⟨days, tails⟩ := field (by decide) tails
  obtain ⟨hours, tails⟩ := field (by decide) tails
  obtain ⟨minutes, tails⟩ := field (by decide) tails
  obtain ⟨seconds, tails⟩ := field (by decide) tails
  obtain ⟨millis, _⟩ := field (by decide) tails
  have sameDay : a / 86400000 = b / 86400000 := by
    apply date_injective
    cases left : date (a / 86400000)
    cases right : date (b / 86400000)
    rw [left, right] at years months days
    simp only [id] at years months days
    rw [years, months, days]
  omega

/-- A written time is plain ASCII. -/
theorem format_ascii (ms : Int) : ∀ c ∈ format ms, c < 0x80 := by
  have digit : ∀ c : UInt8, isDigit c = true → c < 0x80 := by decide +kernel
  have number : ∀ (width n : Nat), ∀ c ∈ padded width n, c < 0x80 :=
    fun width n c member => digit c (padded_isDigit width n c member)
  have year : ∀ c ∈ signed 4 (date (ms / 86400000)).year, c < 0x80 := by
    intro c member
    rcases signed_bytes 4 _ c member with rfl | isDigit
    · decide
    · exact digit c isDigit
  intro c member
  simp only [format, List.mem_append, List.mem_cons, List.not_mem_nil, or_false] at member
  rcases member with
    part | rfl | part | rfl | part | rfl | part | rfl | part | rfl | part | rfl | part | rfl
  all_goals first
    | exact year c part
    | exact number _ _ c part
    | decide

example : format 951782400000 = bytes "2000-02-29T00:00:00.000Z" := by decide +kernel

end TrustedCourier.Calendar
