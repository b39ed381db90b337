import Mathlib.Logic.Basic

/-!
# Owners of resources

Resources are allocated, handed on and released. They are owned if every live resource has
a holder, every held resource is live, and no resource has two holders: then nothing
leaks, nothing is used after its release, and nothing is released under another holder.

What changes in a step is stated as what the holders hold afterwards.
-/

namespace TrustedCourier.Ownership

universe u v

variable {η : Type u} {ρ : Type v}

/-- What is live is held, and by one holder. -/
structure Owned (holds : η → ρ → Prop) (live : ρ → Prop) : Prop where
  live_iff : ∀ r, live r ↔ ∃ h, holds h r
  unique : ∀ {h h' r}, holds h r → holds h' r → h = h'

namespace Owned

variable {holds holds' : η → ρ → Prop} {live live' : ρ → Prop}

section

variable (owned : Owned holds live)
include owned

theorem alive {h : η} {r : ρ} (held : holds h r) : live r := (owned.live_iff r).mpr ⟨h, held⟩

/-- Different holders have different resources. -/
theorem apart {h h' : η} {r r' : ρ} (first : holds h r) (second : holds h' r')
    (different : h ≠ h') : r ≠ r' := by
  rintro rfl
  exact different (owned.unique first second)

/-- Nothing changes hands. -/
theorem same (held : ∀ h r, holds' h r ↔ holds h r) (lives : ∀ r, live' r ↔ live r) :
    Owned holds' live' where
  live_iff := fun r => by simp only [lives, held, owned.live_iff]
  unique := fun first second => owned.unique ((held _ _).mp first) ((held _ _).mp second)

/-- A new resource gets a holder. -/
theorem alloc (new : ρ) (holder : η) (fresh : ¬ live new)
    (held : ∀ h r, holds' h r ↔ holds h r ∨ h = holder ∧ r = new)
    (lives : ∀ r, live' r ↔ live r ∨ r = new) :
    Owned holds' live' where
  live_iff := by
    intro r
    rw [lives, owned.live_iff]
    constructor
    · rintro (⟨h, before⟩ | rfl)
      · exact ⟨h, (held h r).mpr (Or.inl before)⟩
      · exact ⟨holder, (held holder r).mpr (Or.inr ⟨rfl, rfl⟩)⟩
    · rintro ⟨h, now⟩
      exact ((held h r).mp now).imp (fun before => ⟨h, before⟩) And.right
  unique := by
    intro h h' r first second
    rcases (held h r).mp first with before | ⟨rfl, rfl⟩
    · rcases (held h' r).mp second with before' | ⟨rfl, rfl⟩
      · exact owned.unique before before'
      · exact absurd (owned.alive before) fresh
    · rcases (held h' r).mp second with before' | ⟨rfl, _⟩
      · exact absurd (owned.alive before') fresh
      · rfl

/-- Resources are released, and their holders let go of them. -/
theorem release (gone : ρ → Prop) (held : ∀ h r, holds' h r ↔ holds h r ∧ ¬ gone r)
    (lives : ∀ r, live' r ↔ live r ∧ ¬ gone r) : Owned holds' live' where
  live_iff := by
    intro r
    simp only [lives, held, owned.live_iff, exists_and_right]
  unique := fun first second => owned.unique ((held _ _).mp first).1 ((held _ _).mp second).1

/-- What a holder has goes to another holder, or is released. -/
theorem move (takes : η → Option η)
    (held : ∀ h r, holds' h r ↔ ∃ before, holds before r ∧ takes before = some h)
    (lives : ∀ r, live' r ↔ live r ∧ ∀ before, holds before r → takes before ≠ none) :
    Owned holds' live' where
  live_iff := by
    intro r
    rw [lives, owned.live_iff]
    constructor
    · rintro ⟨⟨before, had⟩, kept⟩
      obtain ⟨h, goes⟩ := Option.ne_none_iff_exists'.mp (kept before had)
      exact ⟨h, (held h r).mpr ⟨before, had, goes⟩⟩
    · rintro ⟨h, now⟩
      obtain ⟨before, had, goes⟩ := (held h r).mp now
      refine ⟨⟨before, had⟩, fun other also => ?_⟩
      simp [owned.unique also had, goes]
  unique := by
    intro h h' r first second
    obtain ⟨before, had, goes⟩ := (held h r).mp first
    obtain ⟨before', had', goes'⟩ := (held h' r).mp second
    rw [owned.unique had had', goes'] at goes
    exact (Option.some.inj goes).symm

end

end Owned

end TrustedCourier.Ownership
