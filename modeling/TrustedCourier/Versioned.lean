import Mathlib.Order.Basic

/-!
# Values that are changed by check-and-set

A cell holds a value under a version that every change raises. A change names the version
it was made from and is refused unless that is still the version, so it is always made
from the value it replaces. What someone has read stays good in this sense, whatever
changes the cell meanwhile.
-/

namespace TrustedCourier.Versioned

universe u

/-- A value and its version. -/
structure Cell (σ : Type u) where
  version : Int
  value : σ

namespace Cell

variable {σ : Type u} {c read : Cell σ} {cas : Int} {new : σ}

/-- The cell after a change made from version `cas`, or `none` if it is refused. -/
def post (c : Cell σ) (cas : Int) (new : σ) : Option (Cell σ) :=
  if cas = c.version then some { version := c.version + 1, value := new } else none

/-- What was read is no newer than the cell, and is its value if the version is still the
same. -/
def Seen (c read : Cell σ) : Prop := read.version ≤ c.version ∧
    (read.version = c.version → read.value = c.value)

theorem seen_now (c : Cell σ) : c.Seen c := ⟨Int.le_refl _, fun _ => rfl⟩

/-- A post that is applied. -/
theorem post_some {next : Cell σ} : c.post cas new = some next ↔
    cas = c.version ∧ next = { version := c.version + 1, value := new } := by
  unfold post
  split <;> simp_all [eq_comm]

/-- A change leaves what was read before it behind. -/
theorem Seen.posted (seen : c.Seen read) {next : Cell σ} (changed : c.post cas new = some next) :
    next.Seen read := by
  obtain ⟨_, rfl⟩ := post_some.mp changed
  have older := seen.1
  constructor
  · change read.version ≤ c.version + 1
    omega
  · intro same
    have : read.version = c.version + 1 := same
    omega

/-- A change is made from the value it replaces. -/
theorem Seen.current (seen : c.Seen read) {next : Cell σ}
    (changed : c.post read.version new = some next) :
    read.value = c.value :=
  seen.2 (post_some.mp changed).1

end Cell

end TrustedCourier.Versioned
