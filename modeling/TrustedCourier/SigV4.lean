import Mathlib.Data.List.Perm.Basic
import Mathlib.Data.List.Sort
import Mathlib.Data.Set.List
import TrustedCourier.UrlEscapes

/-!
# The canonical query of AWS Signature Version 4

What is signed names the query of a request: every parameter with its name and its value
escaped, sorted by these, `=` between the two and `&` between parameters. The parameters
come from a map, which Go iterates in any order, and are sorted by `sort.Slice`, which is
free to exchange elements that compare equal. Neither shows in the result, because pairs
that compare equal are equal. Escapes hold neither separator and read back, so the result
says which parameters it was made of and how often each occurs.
-/

namespace TrustedCourier.SigV4

open ByteStrings UrlEscapes List

/-- A name and a value. -/
abbrev Pair := Bytes × Bytes

/-- `url.Values`: the entries of the map, in an order in which they may be iterated. -/
abbrev Values := List (Bytes × List Bytes)

/-- The parameters that a query holds. -/
def Values.pairs (q : Values) : List Pair := q.flatMap fun entry => entry.2.map (entry.1, ·)

/-! ## The model -/

def hexDigits : Bytes := bytes "0123456789ABCDEF"

/-- How one byte is written. -/
def awsEscapeByte (c : UInt8) : Bytes :=
  if unreserved c then [c]
  else [0x25, hexDigits.getD (c >>> 4).toNat 0, hexDigits.getD (c &&& 15).toNat 0]

/-- `awsEscape`. -/
def awsEscape (s : Bytes) : Bytes := s.flatMap awsEscapeByte

/-- A parameter, escaped. -/
def escapePair (p : Pair) : Pair := (awsEscape p.1, awsEscape p.2)

/-- The comparison that `canonicalQuery` sorts by. -/
def less (a b : Pair) : Bool := if a.1 ≠ b.1 then decide (a.1 < b.1) else decide (a.2 < b.2)

/-- A parameter as it is written. -/
def joinPair (p : Pair) : Bytes := p.1 ++ 0x3D :: p.2

/-- `canonicalQuery`, where `slice` is `sort.Slice` by `less`. -/
def canonicalQuery (slice : List Pair → List Pair) (q : Values) : Bytes :=
  let pairs := q.flatMap fun entry => entry.2.map fun v => (awsEscape entry.1, awsEscape v)
  [0x26].intercalate ((slice pairs).map joinPair)

/-- Elements stand in order: none is less than one before it. -/
def InOrder (pairs : List Pair) : Prop := pairs.Pairwise fun a b => less b a = false

/-- What `sort.Slice` does: its elements stand in order, and no more is said of where equals go. -/
def Sorts (slice : List Pair → List Pair) : Prop :=
  ∀ pairs, (slice pairs).Perm pairs ∧ InOrder (slice pairs)

/-! ## Reading a query -/

/-- A parameter: the name before the first `=` and the value after it. -/
def decodePair (part : Bytes) : Option Pair := do
  let name ← pathUnescape (cut part 0x3D).1
  let value ← pathUnescape (cut part 0x3D).2.1
  pure (name, value)

/-- The parameters of a query, of which an empty one has none. -/
def decodeQuery (query : Bytes) : Option (List Pair) :=
  if query = [] then some [] else (query.splitOn 0x26).mapM decodePair

/-- Every byte that is written reads back, before whatever follows. -/
theorem unescape_awsEscapeByte (c : UInt8) (rest : Bytes) :
    unescape false (awsEscapeByte c ++ rest) = (unescape false rest).map (c :: ·) := by
  have digits : ∀ n : UInt8, ishex (hexDigits.getD (n >>> 4).toNat 0) = true ∧
      ishex (hexDigits.getD (n &&& 15).toNat 0) = true ∧
      unhex (hexDigits.getD (n >>> 4).toNat 0) * 16 + unhex (hexDigits.getD (n &&& 15).toNat 0) =
        n := by
    decide +kernel
  have kept : ∀ n : UInt8, unreserved n = true → n ≠ 0x25 := by decide +kernel
  unfold awsEscapeByte
  split
  · next bare =>
    rw [singleton_append, unescape_cons false c rest (kept c bare)]
    rfl
  · obtain ⟨high, low, same⟩ := digits c
    rw [cons_append, cons_append, cons_append, nil_append, unescape_escape, high, low, same]
    rfl

theorem pathUnescape_awsEscape (s : Bytes) : pathUnescape (awsEscape s) = some s := by
  induction s with
  | nil => rfl
  | cons c rest ih =>
    unfold pathUnescape awsEscape at ih ⊢
    rw [flatMap_cons, unescape_awsEscapeByte, ih]
    rfl

/-- Escapes hold neither separator. -/
theorem separator_not_mem (s : Bytes) : 0x26 ∉ awsEscape s ∧ 0x3D ∉ awsEscape s := by
  have escaped : ∀ c : UInt8, 0x26 ∉ awsEscapeByte c ∧ 0x3D ∉ awsEscapeByte c := by decide +kernel
  refine ⟨fun member => ?_, fun member => ?_⟩ <;> obtain ⟨c, -, inside⟩ := mem_flatMap.mp member
  · exact (escaped c).1 inside
  · exact (escaped c).2 inside

theorem decodePair_joinPair (p : Pair) : decodePair (joinPair (escapePair p)) = some p := by
  unfold decodePair joinPair escapePair
  rw [cut_append (separator_not_mem p.1).2]
  simp only [pathUnescape_awsEscape]
  rfl

/-- Parameters that are joined are read.

Proof: no part holds `&`, so the parts are what was joined, unless nothing was. No part is
empty, so it was nothing only if there were no parameters. -/
theorem decodeQuery_join (pairs : List Pair) :
    decodeQuery ([0x26].intercalate ((pairs.map escapePair).map joinPair)) = some pairs := by
  cases pairs with
  | nil => rfl
  | cons first rest =>
    have whole : ∀ part ∈ ((first :: rest).map escapePair).map joinPair, 0x26 ∉ part := by
      intro part member
      obtain ⟨_, escaped, rfl⟩ := mem_map.mp member
      obtain ⟨p, _, rfl⟩ := mem_map.mp escaped
      simp [joinPair, escapePair, (separator_not_mem p.1).1, (separator_not_mem p.2).1]
    have nonempty : [0x26].intercalate (((first :: rest).map escapePair).map joinPair) ≠ [] := by
      intro empty
      have equals : 0x3D ∈ [0x26].intercalate (((first :: rest).map escapePair).map joinPair) := by
        refine (mem_intercalate (by decide) _).mpr ⟨joinPair (escapePair first), mem_cons_self, ?_⟩
        exact mem_append_right _ mem_cons_self
      rw [empty] at equals
      cases equals
    rw [decodeQuery, if_neg nonempty, splitOn_intercalate 0x26 whole (by simp), mapM_some_iff,
      map_map, map_map]
    exact map_congr_left fun p _ => decodePair_joinPair p

/-! ## One query for each multiset of parameters -/

theorem escapePair_injective : Function.Injective escapePair := by
  intro p p' same
  have read := decodePair_joinPair p
  rw [same, decodePair_joinPair p'] at read
  exact (Option.some.inj read).symm

/-- The order of names, then of values. -/
theorem not_less_iff (a b : Pair) : less b a = false ↔ a.1 < b.1 ∨ a.1 = b.1 ∧ a.2 ≤ b.2 := by
  unfold less
  split
  · next other =>
    rw [decide_eq_false_iff_not, List.not_lt]
    constructor
    · intro below
      refine .inl (Decidable.byContradiction fun notLess => other ?_)
      exact List.le_antisymm (List.not_lt.mp notLess) below
    · rintro (below | ⟨same, -⟩)
      · exact List.le_of_lt below
      · exact absurd same.symm other
  · next same =>
    have same : b.1 = a.1 := Decidable.not_not.mp same
    rw [decide_eq_false_iff_not, List.not_lt, same]
    exact ⟨fun below => .inr ⟨rfl, below⟩, fun either => either.elim (absurd · (List.lt_irrefl _))
      And.right⟩

/-- Pairs of which neither is less are equal, so there is only one order. -/
theorem eq_of_inOrder {pairs pairs' : List Pair} (permuted : pairs.Perm pairs')
    (ordered : InOrder pairs) (ordered' : InOrder pairs') : pairs = pairs' := by
  refine List.Perm.eq_of_pairwise ?_ ordered ordered' permuted
  intro a b _ _ below above
  rcases (not_less_iff a b).mp below with first | ⟨same, second⟩
  · rcases (not_less_iff b a).mp above with back | ⟨same, -⟩
    · exact absurd (List.lt_trans first back) (List.lt_irrefl _)
    · rw [same] at first
      exact absurd first (List.lt_irrefl _)
  · rcases (not_less_iff b a).mp above with back | ⟨-, second'⟩
    · rw [same] at back
      exact absurd back (List.lt_irrefl _)
    · exact Prod.ext same (List.le_antisymm second second')

variable {slice slice' : List Pair → List Pair}

/-- The result is the escaped parameters in order. -/
theorem canonicalQuery_sorted (sorts : Sorts slice) (q : Values) :
    ∃ pairs : List Pair, pairs.Perm q.pairs ∧ InOrder (pairs.map escapePair) ∧
      canonicalQuery slice q = [0x26].intercalate ((pairs.map escapePair).map joinPair) := by
  have escaped : (q.flatMap fun entry => entry.2.map fun v => (awsEscape entry.1, awsEscape v)) =
      q.pairs.map escapePair := by
    simp only [Values.pairs, map_flatMap, map_map]
    rfl
  obtain ⟨permuted, ordered⟩ := sorts (q.pairs.map escapePair)
  obtain ⟨pairs, same⟩ : ∃ pairs : List Pair, pairs.map escapePair =
    slice (q.pairs.map escapePair) := by
    have listed : slice (q.pairs.map escapePair) ∈ {l | ∀ p ∈ l, p ∈ Set.range escapePair} := by
      intro p member
      obtain ⟨original, -, same⟩ := mem_map.mp (permuted.mem_iff.mp member)
      exact ⟨original, same⟩
    rwa [← Set.range_list_map] at listed
  rw [canonicalQuery, escaped]
  rw [← same] at permuted ordered ⊢
  exact ⟨pairs, (map_perm_map_iff escapePair_injective).mp permuted, ordered, rfl⟩

/-- The canonical query depends neither on the order in which the map is iterated nor on how
equals are sorted; two queries have the same one exactly if they hold the same parameters
as often; and reading it gives these back, in the order of their escapes. -/
theorem canonicalQuery_canonical (sorts : Sorts slice) (sorts' : Sorts slice') (q q' : Values) :
    (q.Perm q' → canonicalQuery slice q = canonicalQuery slice' q') ∧
      (canonicalQuery slice q = canonicalQuery slice' q' ↔ q.pairs.Perm q'.pairs) ∧
      ∃ pairs : List Pair, decodeQuery (canonicalQuery slice q) = some pairs ∧ pairs.Perm q.pairs ∧
        InOrder (pairs.map escapePair) := by
  obtain ⟨pairs, permuted, ordered, query⟩ := canonicalQuery_sorted sorts q
  obtain ⟨pairs', permuted', ordered', query'⟩ := canonicalQuery_sorted sorts' q'
  have unambiguous : canonicalQuery slice q = canonicalQuery slice' q' ↔ q.pairs.Perm q'.pairs := by
    rw [query, query']
    constructor
    · intro same
      have read := decodeQuery_join pairs
      rw [same, decodeQuery_join] at read
      rw [Option.some.inj read] at permuted'
      exact permuted.symm.trans permuted'
    · intro same
      have one := ((permuted.trans same).trans permuted'.symm).map escapePair
      rw [eq_of_inOrder one ordered ordered']
  refine ⟨fun iterated => unambiguous.mpr (iterated.flatMap_right _), unambiguous, pairs, ?_,
    permuted, ordered⟩
  rw [query, decodeQuery_join]

/-- Sorting by insertion. -/
def insertion (pairs : List Pair) : List Pair := pairs.insertionSort fun a b => less b a = false

/-- Insertion sort is a sort. -/
theorem insertion_sorts : Sorts insertion := by
  have total : Std.Total fun a b : Pair => less b a = false := by
    refine ⟨fun a b => ?_⟩
    rw [not_less_iff, not_less_iff]
    by_cases same : a.1 = b.1
    · exact (List.le_total a.2 b.2).imp (.inr ⟨same, ·⟩) (.inr ⟨same.symm, ·⟩)
    by_cases first : a.1 < b.1
    · exact .inl (.inl first)
    · refine .inr (.inl (Decidable.byContradiction fun back => same ?_))
      exact List.le_antisymm (List.not_lt.mp back) (List.not_lt.mp first)
  have trans : IsTrans Pair fun a b => less b a = false := by
    refine ⟨fun a b c below above => ?_⟩
    rw [not_less_iff] at below above ⊢
    rcases below with below | ⟨same, below⟩ <;> rcases above with above | ⟨same', above⟩
    · exact .inl (List.lt_trans below above)
    · exact .inl (same' ▸ below)
    · exact .inl (same ▸ above)
    · exact .inr ⟨same.trans same', List.le_trans below above⟩
  exact fun pairs => ⟨perm_insertionSort _ pairs, pairwise_insertionSort _ pairs⟩

/-- Two orders of one map, with a name that has two values and bytes that are escaped. -/
theorem canonicalQuery_canonical_names :
    canonicalQuery insertion
    [(bytes "type", [bytes "TXT"]), (bytes "na me", [bytes "b&", bytes "a="])] =
        bytes "na%20me=a%3D&na%20me=b%26&type=TXT" ∧
      canonicalQuery insertion
      [(bytes "na me", [bytes "b&", bytes "a="]), (bytes "type", [bytes "TXT"])] =
        bytes "na%20me=a%3D&na%20me=b%26&type=TXT" := by
  have written : canonicalQuery insertion
    [(bytes "type", [bytes "TXT"]), (bytes "na me", [bytes "b&", bytes "a="])] =
      bytes "na%20me=a%3D&na%20me=b%26&type=TXT" := by decide +kernel
  refine ⟨written, written ▸ ?_⟩
  exact (canonicalQuery_canonical insertion_sorts insertion_sorts _ _).1 (List.Perm.swap _ _ _)

end TrustedCourier.SigV4
