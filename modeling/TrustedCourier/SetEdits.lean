import Mathlib.Data.List.Nodup
import Mathlib.Data.List.Dedup

/-!
# Editing a set that a service holds

A client adds a value to a set or removes one from it. It reads the set, and submits
changes that the service applies. The set is what the service holds: entries, each of which
stands for a value, so that one value may be spelled in several ways and an entry may say
more than its value. A call edits the set if it leaves every other entry as it is, leaves
the value in the set once or not at all, as was asked, and changes nothing where nothing is
to be changed.

For clients that replace the whole set there are two lists to write, one with the value and
one without it, and both are right wherever entries can be spelled from their values.
-/

namespace TrustedCourier.SetEdits

open List

universe u

/-- A value is added or removed. -/
inductive Op where
  | add
  | remove
deriving DecidableEq, Repr

/-- One edit. -/
structure Call (β : Type u) where
  op : Op
  value : β

/-- A client and its service. What a call submits may depend on how the service answers,
and what the service makes of it on its own choices. -/
structure Editor (β : Type u) where
  State : Type
  Entry : Type
  Change : Type
  entries : State → List Entry
  val : Entry → β
  step : State → Call β → List Change → State → Prop
  /-- The change only takes entries away. -/
  deletes : Change → Prop
  /-- What the change takes away is what the service holds then. -/
  exact : State → Change → Prop
  /-- Apart from these entries, the service holds the same. -/
  kept : State → State → Prop

variable {β : Type u} (E : Editor β)

/-- The values in the set. -/
def Editor.values (s : E.State) : List β := (E.entries s).map E.val

/-- A call of a run: what the service held, what was submitted, what the service holds. -/
structure Editor.Edit where
  before : E.State
  call : Call β
  changes : List E.Change
  after : E.State

/-- A call edits the set as it was asked to. -/
structure Editor.Edited (edit : E.Edit) : Prop where
  others : ∀ e, E.val e ≠ edit.call.value → (e ∈ E.entries edit.after ↔ e ∈ E.entries edit.before)
  once : (E.values edit.after).Nodup
  value : edit.call.value ∈ E.values edit.after ↔ edit.call.op = .add
  quiet : (edit.call.value ∈ E.values edit.before ↔ edit.call.op = .add) →
    edit.changes = [] ∧ edit.after = edit.before
  last : edit.call.op = .remove → E.values edit.before = [edit.call.value] →
    edit.changes ≠ [] ∧ (∀ change ∈ edit.changes, E.deletes change) ∧ E.entries edit.after = []
  exact : ∀ change ∈ edit.changes, E.exact edit.before change
  kept : E.kept edit.before edit.after

/-- Calls one after another. -/
inductive Editor.Run : E.State → List E.Edit → E.State → Prop
  | nil (s : E.State) : Run s [] s
  | cons {s mid t : E.State} {call : Call β} {changes : List E.Change} {edits : List E.Edit}
    (taken : E.step s call changes mid) (rest : Run mid edits t) :
    Run s (⟨s, call, changes, mid⟩ :: edits) t

variable {E}

/-- What each call keeps and does, as long as it is fit, all calls of a run of such do. -/
theorem Editor.Run.each {Inv : E.State → Prop} {Fits : E.State → Call β → Prop}
    {Good : E.Edit → Prop} (single : ∀ before call changes after, Inv before → Fits before call →
      E.step before call changes after →
      Inv after ∧ Good ⟨before, call, changes, after⟩)
    {s t : E.State} {edits : List E.Edit} (run : E.Run s edits t) (start : Inv s)
    (fits : ∀ edit ∈ edits, Fits edit.before edit.call) : ∀ edit ∈ edits, Good edit := by
  induction run with
  | nil s => exact fun edit member => absurd member not_mem_nil
  | cons taken rest ih =>
    obtain ⟨here, later⟩ := forall_mem_cons.mp fits
    obtain ⟨kept, good⟩ := single _ _ _ _ start here taken
    exact forall_mem_cons.mpr ⟨good, ih kept later⟩

/-- What a call comes to: nothing is to be changed, an entry is added, or the entries of the
value are taken away. -/
inductive Editor.Outcome [DecidableEq β] (edit : E.Edit) : Prop
  | settled (already : edit.call.value ∈ E.values edit.before ↔ edit.call.op = .add)
    (silent : edit.changes = []) (same : edit.after = edit.before)
  | added (asked : edit.call.op = .add) (absent : edit.call.value ∉ E.values edit.before)
    (e : E.Entry) (spelled : E.val e = edit.call.value)
    (appended : E.entries edit.after = E.entries edit.before ++ [e])
  | removed (asked : edit.call.op = .remove) (present : edit.call.value ∈ E.values edit.before)
    (submitted : edit.changes ≠ [])
    (cut : E.entries edit.after = (E.entries edit.before).filter (E.val · ≠ edit.call.value))
    (whole : E.entries edit.after = [] → ∀ change ∈ edit.changes, E.deletes change)

/-- Each of these edits a set without duplicates as it was asked to. -/
theorem Editor.Outcome.edited [DecidableEq β] {edit : E.Edit} (outcome : E.Outcome edit)
    (distinct : (E.values edit.before).Nodup)
    (exact : ∀ change ∈ edit.changes, E.exact edit.before change)
    (kept : E.kept edit.before edit.after) : E.Edited edit := by
  cases outcome with
  | settled already silent same =>
    refine ⟨fun e _ => by rw [same], by rwa [same], by rwa [same], fun _ => ⟨silent, same⟩, ?_,
      exact, kept⟩
    intro asked only
    rw [only, asked] at already
    cases already.mp (mem_singleton.mpr rfl)
  | added asked absent e spelled appended =>
    have values : E.values edit.after = E.values edit.before ++ [edit.call.value] := by
      rw [Editor.values, appended, map_append, map_singleton, spelled]
      rfl
    refine ⟨?_, ?_, ?_, fun already => absurd (already.mpr asked) absent, ?_, exact, kept⟩
    · intro other different
      rw [appended, mem_append, mem_singleton]
      exact ⟨fun either => either.resolve_right (by rintro rfl; exact different spelled), Or.inl⟩
    · rw [values, nodup_append]
      refine ⟨distinct, nodup_singleton _, ?_⟩
      intro a member b only same
      rw [mem_singleton.mp only] at same
      exact absent (same ▸ member)
    · rw [values]
      simp [asked]
    · intro other
      rw [asked] at other
      exact absurd other (by decide)
  | removed asked present submitted cut whole =>
    refine ⟨?_, ?_, ?_, ?_, ?_, exact, kept⟩
    · intro other different
      rw [cut, mem_filter]
      simp [different]
    · rw [Editor.values, cut]
      exact distinct.sublist ((filter_sublist).map _)
    · rw [Editor.values, cut, asked]
      simp
    · intro already
      rw [asked] at already
      cases already.mp present
    · intro _ only
      have none : E.entries edit.after = [] := by
        rw [cut, filter_eq_nil_iff]
        intro e member
        have single : E.val e ∈ E.values edit.before := mem_map_of_mem member
        rw [only, mem_singleton] at single
        simp [single]
      exact ⟨submitted, whole none, none⟩

/-- A call that has nothing to change edits the set. -/
theorem Editor.edited_silent [DecidableEq β] {s : E.State} {call : Call β}
    (already : call.value ∈ E.values s ↔ call.op = .add) (distinct : (E.values s).Nodup)
    (kept : E.kept s s) :
    E.Edited ⟨s, call, [], s⟩ :=
  Outcome.edited (.settled already rfl rfl) distinct (fun _ member => absurd member not_mem_nil)
    kept

/-! ## Replacing the whole set -/

section Replace

variable {β ε : Type} [DecidableEq β]

/-- The values with one added once. -/
def withValue (values : List β) (value : β) : List β :=
  if values.contains value then values else values ++ [value]

/-- The values without one. -/
def withoutValue (values : List β) (value : β) : List β := values.filter (· ≠ value)

/-- Entries that are spelled from their values, none of them twice. -/
structure Spelled (val : ε → β) (spell : β → ε) (entries : List ε) : Prop where
  nodup : entries.Nodup
  spelled : ∀ e ∈ entries, spell (val e) = e

variable {val : ε → β} {spell : β → ε} {entries : List ε}

namespace Spelled

omit [DecidableEq β]

section

variable (spelled : Spelled val spell entries)
include spelled

/-- No value is there twice. -/
theorem distinct : (entries.map val).Nodup := by
  refine spelled.nodup.map_on fun a memberA b memberB same => ?_
  rw [← spelled.spelled a memberA, same, spelled.spelled b memberB]

/-- Spelling the values gives the entries. -/
theorem respell : (entries.map val).map spell = entries := by
  rw [map_map]
  exact (map_congr_left spelled.spelled).trans (map_id _)

theorem append {value : β} (read : val (spell value) = value)
    (absent : value ∉ entries.map val) : Spelled val spell (entries ++ [spell value]) := by
  refine ⟨?_, ?_⟩
  · rw [nodup_append]
    refine ⟨spelled.nodup, nodup_singleton _, ?_⟩
    rintro a member b only rfl
    rw [mem_singleton.mp only] at member
    exact absent (mem_map.mpr ⟨_, member, read⟩)
  · intro e member
    rcases mem_append.mp member with old | new
    · exact spelled.spelled e old
    · rw [mem_singleton.mp new, read]

theorem filter (keep : ε → Bool) : Spelled val spell (entries.filter keep) :=
  ⟨spelled.nodup.filter keep, fun e member => spelled.spelled e (mem_of_mem_filter member)⟩

end

end Spelled

/-- The entries of the values with one more. -/
theorem Spelled.withValue (spelled : Spelled val spell entries) {value : β}
    (absent : value ∉ entries.map val) :
    (withValue (entries.map val) value).map spell = entries ++ [spell value] := by
  rw [SetEdits.withValue, if_neg (by simpa using absent), map_append, spelled.respell]
  rfl

/-- The entries of the values without one. -/
theorem Spelled.withoutValue (spelled : Spelled val spell entries) (value : β) :
    (withoutValue (entries.map val) value).map spell = entries.filter (val · ≠ value) := by
  rw [SetEdits.withoutValue, filter_map, map_map]
  refine (map_congr_left fun e member => ?_).trans (map_id _)
  exact spelled.spelled e (mem_of_mem_filter member)

/-- Nothing is left exactly if no value is. -/
theorem Spelled.withoutValue_eq_nil (spelled : Spelled val spell entries) {value : β}
    (none : entries.filter (val · ≠ value) = []) :
    SetEdits.withoutValue (entries.map val) value = [] := by
  rwa [← map_eq_nil_iff (f := spell), spelled.withoutValue]

/-- Of entries with different values, one has the value. -/
theorem filter_val_eq {e : ε} (distinct : (entries.map val).Nodup) (member : e ∈ entries) :
    entries.filter (val · = val e) = [e] := by
  obtain ⟨front, back, rfl⟩ := append_of_mem member
  rw [map_append, map_cons, nodup_middle, nodup_cons, mem_append, not_or] at distinct
  have none : ∀ rest : List ε, val e ∉ rest.map val → rest.filter (val · = val e) = [] := by
    intro rest absent
    rw [filter_eq_nil_iff]
    intro other inside same
    exact absent (mem_map.mpr ⟨other, inside, of_decide_eq_true same⟩)
  rw [filter_append, filter_cons, if_pos (decide_eq_true rfl), none front distinct.1.1,
    none back distinct.1.2, nil_append]

end Replace

end TrustedCourier.SetEdits
