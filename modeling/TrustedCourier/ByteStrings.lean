import Mathlib.Data.List.Infix

/-!
# Byte strings and the searches over them

Go strings and byte slices are lists of bytes. A literal of the source is the
UTF-8 encoding of its text. Searching returns the least position, and `none`
where Go returns a negative index.
-/

namespace TrustedCourier

open List

/-- A Go string or byte slice, by its contents. -/
abbrev Bytes := List UInt8

/-- The bytes of a string literal of the source. -/
def bytes (literal : String) : Bytes := literal.toByteArray.data.toList

/-- A property of bytes is decided by trying all of them. -/
instance decidableForallByte (p : UInt8 → Prop) [DecidablePred p] : Decidable (∀ c, p c) :=
  decidable_of_iff (∀ i : Fin 256, p (UInt8.ofFin i))
    ⟨fun every c => every c.toFin, fun every i => every (UInt8.ofFin i)⟩

namespace ByteStrings

universe u
variable {α : Type u} [DecidableEq α]

/-- `bytes.Index` and `strings.Index`: the least position at which `sep` occurs in `s`. -/
def index (s sep : List α) : Option Nat :=
  (List.range (s.length + 1)).find? fun i => sep.isPrefixOf (s.drop i)

/-- `bytes.Contains` and `strings.Contains`. -/
def contains (s sep : List α) : Bool := (index s sep).isSome

/-- `strings.Cut` at a one-byte separator: what is before its first occurrence,
what is after it, and whether there is one. -/
def cut (s : List α) (sep : α) : List α × List α × Bool :=
  (s.takeWhile (· ≠ sep), (s.dropWhile (· ≠ sep)).drop 1, decide (sep ∈ s))

/-- `strings.SplitN` at a one-byte separator: at most `n` pieces, the last unsplit. -/
def splitN (sep : α) : Nat → List α → List (List α)
  | 0, _ => []
  | 1, s => [s]
  | n + 1, s =>
    let (before, after, found) := cut s sep
    if found then before :: splitN sep n after else [s]

/-- `strings.FieldsFunc`: the non-empty pieces between separators. -/
def fieldsFunc (s : List α) (separates : α → Bool) : List (List α) :=
  (s.splitOnP separates).filter fun piece => piece ≠ []

/-- `strings.TrimPrefix`. -/
def trimLeading (s lead : List α) : List α := if lead.isPrefixOf s then s.drop lead.length else s

/-- `strings.TrimSuffix`. -/
def trimTrailing (s trail : List α) : List α :=
  if trail.isSuffixOf s then s.take (s.length - trail.length) else s

/-- An ending that is there is cut off. -/
@[simp] theorem trimTrailing_append (s trail : List α) : trimTrailing (s ++ trail) trail = s := by
  have ends : trail.isSuffixOf (s ++ trail) = true :=
    isSuffixOf_iff_suffix.mpr (suffix_append s trail)
  rw [trimTrailing, if_pos ends, length_append, Nat.add_sub_cancel, take_left]

/-- What is left is part of the text. -/
theorem trimTrailing_subset (s trail : List α) {c : α} (member : c ∈ trimTrailing s trail) :
    c ∈ s := by
  unfold trimTrailing at member
  split at member
  · exact mem_of_mem_take member
  · exact member

/-- A text without the ending stays as it is. -/
theorem trimTrailing_of_not {s trail : List α} (other : ¬ trail <:+ s) :
    trimTrailing s trail = s := by
  rw [trimTrailing, if_neg fun ends => other (isSuffixOf_iff_suffix.mp ends)]

/-- The reported position is an occurrence, and none comes before it. -/
theorem index_some {s sep : List α} {i : Nat} (found : index s sep = some i) :
    sep <+: s.drop i ∧ ∀ j < i, ¬ sep <+: s.drop j := by
  obtain ⟨occurs, _, earlier⟩ := find?_range_eq_some.mp found
  refine ⟨ isPrefixOf_iff_prefix.mp occurs, ?_⟩
  intro j before occurs
  have refused := earlier j before
  rw [ isPrefixOf_iff_prefix.mpr occurs] at refused
  cases refused

/-- No reported position means no occurrence anywhere. -/
theorem index_none {s sep : List α} (absent : index s sep = none) (i : Nat)
    (inside : i ≤ s.length) :
    ¬ sep <+: s.drop i := by
  intro prefixed
  have refused := find?_eq_none.mp absent i (mem_range.mpr (by omega))
  exact refused ( isPrefixOf_iff_prefix.mpr prefixed)

/-- Containment is the existence of an occurrence. -/
theorem contains_iff (s sep : List α) : contains s sep = true ↔ sep <:+: s := by
  unfold contains
  constructor
  · intro present
    obtain ⟨i, found⟩ := Option.isSome_iff_exists.mp present
    exact (index_some found).1.isInfix.trans (drop_suffix i s).isInfix
  · rintro ⟨before, after, rfl⟩
    cases found : index (before ++ sep ++ after) sep with
    | some i => rfl
    | none =>
      refine absurd ?_ (index_none found before.length (by simp))
      rw [append_assoc, drop_left]
      exact prefix_append sep after

/-- Cutting at a separator that what is before it does not hold. -/
theorem cut_append {front : List α} {sep : α} (absent : sep ∉ front) (back : List α) :
    cut (front ++ sep :: back) sep = (front, back, true) := by
  have stops : ∀ c ∈ front, decide (c ≠ sep) = true :=
    fun c member => decide_eq_true fun same => absent (same ▸ member)
  unfold cut
  rw [takeWhile_append_of_pos stops, dropWhile_append_of_pos stops]
  simp

/-- A piece is split off at its separator. -/
theorem splitN_append {front : List α} {sep : α} (absent : sep ∉ front) (n : Nat) (back : List α) :
    splitN sep (n + 2) (front ++ sep :: back) = front :: splitN sep (n + 1) back := by
  rw [splitN, cut_append absent]
  · exact if_pos rfl
  · omega

/-- Without a separator there is one piece. -/
theorem splitN_of_not_mem {s : List α} {sep : α} (absent : sep ∉ s) (n : Nat) :
    splitN sep (n + 2) s = [s] := by
  rw [splitN]
  · exact if_neg (by simpa [cut] using absent)
  · omega

/-- A joined text holds what its parts hold, and separators. -/
theorem mem_intercalate {c x : UInt8} (apart : c ≠ x) (parts : List Bytes) :
    c ∈ [x].intercalate parts ↔ ∃ part ∈ parts, c ∈ part := by
  induction parts with
  | nil => simp
  | cons first rest ih =>
    cases rest with
    | nil => simp
    | cons second others =>
      rw [intercalate_cons_cons, mem_append, mem_append, ih]
      simp [apart]

/-- No piece holds a separator. -/
theorem not_mem_of_mem_splitOn {c : α} {s piece : List α} (member : piece ∈ s.splitOn c) :
    c ∉ piece := by
  induction s generalizing piece with
  | nil =>
    rw [splitOn_nil, mem_singleton] at member
    rw [member]
    exact not_mem_nil
  | cons d rest ih =>
    rw [splitOn_cons_eq_if_modifyHead] at member
    split at member
    · rcases mem_cons.mp member with rfl | later
      · exact not_mem_nil
      · exact ih later
    · next different =>
      cases split : rest.splitOn c with
      | nil => exact absurd split (splitOn_ne_nil c rest)
      | cons first others =>
        rw [split] at member ih
        rcases mem_cons.mp member with rfl | later
        · have apart : c ≠ d := fun same => different (beq_iff_eq.mpr same.symm)
          exact not_mem_cons_of_ne_of_not_mem apart (ih mem_cons_self)
        · exact ih (mem_cons_of_mem first later)

omit [DecidableEq α] in
/-- A fallible map over a list succeeds exactly when it does on every element. -/
theorem mapM_some_iff {β : Type u} (f : α → Option β) (l : List α) (values : List β) :
    l.mapM f = some values ↔ l.map f = values.map some := by
  induction l generalizing values with
  | nil => cases values <;> simp
  | cons a rest ih =>
    cases values with
    | nil => cases first : f a <;> cases later : rest.mapM f <;> simp [first, later]
    | cons value others =>
      rw [map_cons, map_cons, List.cons.injEq, ← ih others]
      cases first : f a <;> cases later : rest.mapM f <;> simp [first, later]

omit [DecidableEq α] in
/-- If one fallible map gives these values and another agrees with it wherever it
succeeds, the other gives them too. -/
theorem map_transfer {β γ δ : Type u} {f : α → γ} {g : α → δ} {first : β → γ} {second : β → δ}
    (agrees : ∀ a value, f a = first value → g a = second value) {l : List α} {values : List β}
    (same : l.map f = values.map first) : l.map g = values.map second := by
  induction l generalizing values with
  | nil =>
    obtain rfl : values = [] := map_eq_nil_iff.mp same.symm
    rfl
  | cons a rest ih =>
    cases values with
    | nil => simp at same
    | cons value others =>
      simp only [map_cons, List.cons.injEq] at same ⊢
      exact ⟨agrees a value same.1, ih same.2⟩

omit [DecidableEq α] in
/-- If every element is mapped, the whole list is. -/
theorem mapM_isSome {β : Type u} (f : α → Option β) (l : List α) (every : ∀ a ∈ l, (f a).isSome) :
    ∃ values, l.mapM f = some values := by
  refine ⟨l.filterMap f, ?_⟩
  rw [mapM_some_iff]
  induction l with
  | nil => rfl
  | cons a rest ih =>
    obtain ⟨value, mapped⟩ := Option.isSome_iff_exists.mp (every a mem_cons_self)
    rw [filterMap_cons_some mapped, map_cons, map_cons, mapped,
      ih fun other member => every other (mem_cons_of_mem a member)]

omit [DecidableEq α] in
/-- Elements that each become something are no more than what they become. -/
theorem length_le_flatMap {β : Type u} {f : α → List β} (nonempty : ∀ a, f a ≠ []) (l : List α) :
    l.length ≤ (l.flatMap f).length := by
  induction l with
  | nil => exact Nat.le_refl 0
  | cons a rest ih =>
    have positive := length_pos_iff.mpr (nonempty a)
    rw [flatMap_cons, length_append, length_cons]
    omega

omit [DecidableEq α] in
/-- The values of a fallible map are those of its elements. -/
theorem mem_mapM {β : Type u} {f : α → Option β} {l : List α} {values : List β}
    (mapped : l.mapM f = some values) (value : β) : value ∈ values ↔ ∃ a ∈ l, f a = some value := by
  have same := (mapM_some_iff f l values).mp mapped
  have inValues : value ∈ values ↔ some value ∈ values.map some := by simp
  rw [inValues, ← same, mem_map]

omit [DecidableEq α] in
/-- What holds between the elements through their values holds between the values. -/
theorem pairwise_mapM {β : Type u} {f : α → Option β} {R : β → β → Prop} {l : List α}
    {values : List β} (mapped : l.mapM f = some values)
    (apart : l.Pairwise fun a b => ∀ x y, f a = some x → f b = some y → R x y) :
    values.Pairwise R := by
  have between : (values.map some).Pairwise fun a b => ∀ x y, a = some x → b = some y → R x y := by
    rw [← (mapM_some_iff f l values).mp mapped, pairwise_map]
    exact apart
  rw [pairwise_map] at between
  exact between.imp fun related => related _ _ rfl rfl

omit [DecidableEq α] in
/-- A map that may fail with an error succeeds exactly when it does on every element. -/
theorem mapM_ok_iff {ε β : Type u} (f : α → Except ε β) (l : List α) (values : List β) :
    l.mapM f = .ok values ↔ l.map f = values.map .ok := by
  induction l generalizing values with
  | nil => cases values <;> simp [pure, Except.pure]
  | cons a rest ih =>
    cases values with
    | nil => cases first : f a <;> cases later : rest.mapM f <;>
        simp [first, later, bind, Except.bind, pure, Except.pure]
    | cons value others =>
      rw [map_cons, map_cons, List.cons.injEq, ← ih others]
      cases first : f a <;> cases later : rest.mapM f <;>
        simp [first, later, bind, Except.bind, pure, Except.pure]

end ByteStrings

end TrustedCourier
