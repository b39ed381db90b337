import Mathlib.Data.List.Infix

/-!
# Reading rows page by page until something is wrong

A scan checks rows one after another, each check changing what is known so far, and
stops at the first that fails. A paged scan asks for the next rows, at most a page of
them, scans those, and asks again unless the scan stopped or the page was short. What
it asks for depends on how far it has come, and the answers may come from different
moments; a question may also fail.

Two rules settle such a loop. When the answers come from one fixed list of what
remains, paging is invisible: the loop that returns has scanned all of it. When the
answers change, an invariant that every page keeps holds in the end, and a bound on
what can still be read makes the loop return.
-/

namespace TrustedCourier

universe u v w

variable {ω : Type u} {ρ : Type v} {ε : Type w}

/-- Check rows in order until one fails. -/
def scan (step : ω → ρ → ω) (stopped : ω → Bool) : List ρ → ω → ω
  | [], state => state
  | row :: rest, state =>
    if stopped (step state row) then step state row else scan step stopped rest (step state row)

/-- Ask for a page, scan it, and go on while pages are full. `ask k` is the answer to
the `k`th question; there is fuel for so many. -/
def pages (step : ω → ρ → ω) (stopped : ω → Bool) (limit : Nat)
    (ask : Nat → ω → Except ε (List ρ)) :
    Nat → Nat → ω → Option (Except ε (Nat × ω))
  | 0, _, _ => none
  | fuel + 1, k, state =>
    match ask k state with
    | .error err => some (.error err)
    | .ok page =>
      if stopped (scan step stopped page state) || page.length < limit then
        some (.ok (k + 1, scan step stopped page state))
      else pages step stopped limit ask fuel (k + 1) (scan step stopped page state)

section Laws

variable {step : ω → ρ → ω} {stopped : ω → Bool} {state : ω}

/-- Scanning on after rows that passed. -/
theorem scan_append {front : List ρ} (passed : stopped (scan step stopped front state) = false)
    (back : List ρ) : scan step stopped (front ++ back) state =
      scan step stopped back (scan step stopped front state) := by
  induction front generalizing state with
  | nil => rfl
  | cons row rest ih =>
    simp only [scan, List.cons_append] at passed ⊢
    split at passed
    · next failed => simp [failed] at passed
    · next running =>
      rw [if_neg running, if_neg running]
      exact ih passed

/-- Rows after one that fails are not looked at. -/
theorem scan_stopped {front : List ρ} (running : stopped state = false)
    (failed : stopped (scan step stopped front state) = true) (back : List ρ) :
    scan step stopped (front ++ back) state = scan step stopped front state := by
  induction front generalizing state with
  | nil =>
    rw [scan, running] at failed
    cases failed
  | cons row rest ih =>
    simp only [scan, List.cons_append] at failed ⊢
    split
    · rfl
    · next onwards =>
      rw [if_neg onwards] at failed
      exact ih (Bool.not_eq_true _ ▸ onwards) failed

/-- If a row that passes settles a property of the state, a scan that passed ends with
that property of its last row. -/
theorem scan_last {P : ρ → ω → Prop}
    (settles : ∀ state row, stopped (step state row) = false → P row (step state row))
    {rows : List ρ} (passed : stopped (scan step stopped rows state) = false) {row : ρ}
    (last : rows.getLast? = some row) : P row (scan step stopped rows state) := by
  induction rows generalizing state with
  | nil => simp at last
  | cons first rest ih =>
    simp only [scan] at passed ⊢
    split at passed
    · next failed => simp [failed] at passed
    · next running =>
      rw [if_neg running]
      cases rest with
      | nil =>
        obtain rfl : first = row := by simpa using last
        exact settles state first (Bool.not_eq_true _ ▸ running)
      | cons next others => exact ih passed (by simpa [List.getLast?_cons_cons] using last)

variable (step stopped) in
/-- What the rows still to come and the state tell together is kept by every row that
passes, and the row that fails settles how the scan ends. -/
theorem scan_outcome (Inv : List ρ → ω → Prop) (Stop : ω → Prop)
    (passes : ∀ row rest state, Inv (row :: rest) state → stopped state = false →
      stopped (step state row) = false → Inv rest (step state row))
    (fails : ∀ row rest state, Inv (row :: rest) state → stopped state = false →
      stopped (step state row) = true → Stop (step state row))
    {rows : List ρ} (holds : Inv rows state) (running : stopped state = false) :
    (stopped (scan step stopped rows state) = false → Inv [] (scan step stopped rows state)) ∧
      (stopped (scan step stopped rows state) = true → Stop (scan step stopped rows state)) := by
  induction rows generalizing state with
  | nil =>
    refine ⟨fun _ => holds, fun failed => ?_⟩
    rw [scan, running] at failed
    cases failed
  | cons row rest ih =>
    simp only [scan]
    split
    · next failed =>
      refine ⟨fun passed => ?_, fails row rest state holds running⟩
      rw [failed] at passed
      cases passed
    · next onwards =>
      have passed : stopped (step state row) = false := Bool.not_eq_true _ ▸ onwards
      exact ih (passes row rest state holds running passed) passed

/-- Paging is invisible when every answer is the next page of what remains, and what
remains after a page that passed is what was behind it. -/
theorem pages_fixed (remaining : ω → List ρ) {limit : Nat} {ask : Nat → ω → Except ε (List ρ)}
    (answers : ∀ k state page, ask k state = .ok page → page = (remaining state).take limit)
    (advances : ∀ state, stopped (scan step stopped ((remaining state).take limit) state) = false →
      remaining (scan step stopped ((remaining state).take limit) state) =
        (remaining state).drop limit)
    {fuel k reached : Nat} {final : ω} (running : stopped state = false)
    (returned : pages step stopped limit ask fuel k state = some (.ok (reached, final))) :
    final = scan step stopped (remaining state) state := by
  induction fuel generalizing k state with
  | zero => simp [pages] at returned
  | succ fuel ih =>
    simp only [pages] at returned
    cases answer : ask k state with
    | error err => simp [answer] at returned
    | ok page =>
      obtain rfl := answers k state page answer
      rw [answer] at returned
      have split := List.take_append_drop limit (remaining state)
      simp only at returned
      split at returned
      · next done =>
        simp only [Option.some.injEq, Except.ok.injEq, Prod.mk.injEq] at returned
        obtain ⟨_, rfl⟩ := returned
        by_cases failed : stopped (scan step stopped ((remaining state).take limit) state) = true
        · rw [← scan_stopped running failed (List.drop limit (remaining state)), split]
        · have short : min limit (remaining state).length < limit := by
            simpa [failed] using done
          rw [List.take_of_length_le (by omega)]
      · next more =>
        have passed : stopped (scan step stopped ((remaining state).take limit) state) = false := by
          simp only [Bool.or_eq_true, not_or, Bool.not_eq_true] at more
          exact more.1
        rw [ih passed returned, advances state passed, ← scan_append passed, split]

/-- A loop whose pages keep an invariant, never stop it, and when full use up some of
what can be read, returns with the invariant after a short page. -/
theorem pages_invariant (Inv : ω → Prop) (left : ω → Nat) {limit : Nat}
    {ask : Nat → ω → Except ε (List ρ)} (answers : ∀ k state, Inv state →
      ∃ page, ask k state = .ok page ∧ Inv (scan step stopped page state) ∧
      stopped (scan step stopped page state) = false ∧
      (limit ≤ page.length → left (scan step stopped page state) < left state))
    (fuel k : Nat) (state : ω) (holds : Inv state) (enough : left state < fuel) :
    ∃ reached final, pages step stopped limit ask fuel k state = some (.ok (reached, final)) ∧
      Inv final ∧
      stopped final = false ∧
      ∃ j before page, ask j before = .ok page ∧ Inv before ∧ page.length < limit ∧
        final = scan step stopped page before := by
  induction fuel generalizing k state with
  | zero => omega
  | succ fuel ih =>
    obtain ⟨page, answer, kept, quiet, uses⟩ := answers k state holds
    by_cases short : page.length < limit
    · refine ⟨k + 1, scan step stopped page state, ?_, kept, quiet, k, state, page, answer, holds,
        short, rfl⟩
      simp [pages, answer, short]
    · have less := uses (by omega)
      obtain ⟨reached, final, returned, rest⟩ := ih (k + 1) _ kept (by omega)
      refine ⟨reached, final, ?_, rest⟩
      simp only [pages, answer, quiet, short, Bool.false_or, decide_false]
      exact returned

end Laws

end TrustedCourier
