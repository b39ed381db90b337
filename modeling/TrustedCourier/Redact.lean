import TrustedCourier.ByteStrings
import TrustedCourier.Occurrences

/-!
# Redaction of Secrets in a response

The functions of the redact package over byte strings: marking the matches of
every needle, masking the marked bytes, and the length of a trailing partial
match. Each has one law that says what it computes in terms of occurrences, so
the Writer's proofs never look at a search loop.

A slice that the source rewrites in place is a list returned anew. The needles a
Writer holds are views of the non-empty strings it was given; sharing their
memory is not modeled.
-/

namespace TrustedCourier.Redact

open ByteStrings Occurrences List

/-- The bytes a mask may be made of, in order of preference. -/
def maskBytes : Bytes :=
  bytes "*x-_.~0123456789ABCDEFGHIJKLMNOPQRSTUVWXYZabcdefghijklmnopqrstuvwyz"

/-- The first of `maskBytes` that no needle contains, or `*`. -/
def maskFor (needles : List Bytes) : UInt8 :=
  (maskBytes.find? fun m => !needles.any fun n => n.contains m).getD '*'.toUInt8

/-- The needles that are not empty. -/
def views (needles : List Bytes) : List Bytes := needles.filter fun n => n ≠ []

/-- Set the marks of the `width` bytes from `start` on. -/
def markRun (masked : List Bool) (start width : Nat) : List Bool :=
  (List.range width).foldl (fun marks k => marks.set (start + k) true) masked

/-- Mark each match of one needle from `start` on. Every round moves past the
start of the match it found, so a round for each byte is enough. -/
def markNeedle (b needle : Bytes) : Nat → Nat → List Bool → List Bool
  | 0, _, masked => masked
  | rounds + 1, start, masked =>
    match index (b.drop start) needle with
    | none => masked
    | some i =>
      markNeedle b needle rounds (start + i + 1) (markRun masked (start + i) needle.length)

/-- Mark every byte of `b` inside a match of any needle, overlapping matches included. -/
def markMatches (b : Bytes) (needles : List Bytes) (masked : List Bool) : List Bool :=
  needles.foldl (fun marks needle => markNeedle b needle (b.length + 1) 0 marks) masked

/-- Replace the marked bytes of `b` with `m`. -/
def applyMask (b : Bytes) (masked : List Bool) (m : UInt8) : Bytes :=
  List.zipWith (fun c marked => if marked then m else c) b masked

/-- Some needle occurs. -/
def containsAny (b : Bytes) (needles : List Bytes) : Bool := needles.any fun n => contains b n

/-- One round of `partialMatch`: `needle` is tried at the suffixes of `b` that are
shorter than it and would beat `longest`, the longest first. -/
def partialRound (b : Bytes) (longest : Nat) (needle : Bytes) : Nat :=
  let tail := b.drop (b.length + 1 - needle.length)
  match (List.range (tail.length - longest)).find? fun i => (tail.drop i).isPrefixOf needle with
  | some i => tail.length - i
  | none => longest

/-- The length of the longest suffix of `b` that is a proper prefix of any needle. -/
def partialMatch (b : Bytes) (needles : List Bytes) : Nat := needles.foldl (partialRound b) 0

/-- `s` with every exact match of any needle masked. -/
def string (s : Bytes) (needles : List Bytes) : Bytes :=
  if !needles.any (fun n => n ≠ [] && contains s n) then s
  else applyMask s (markMatches s (views needles) (List.replicate s.length false)) (maskFor needles)

/-! ## What the functions compute -/

theorem mem_views (needles : List Bytes) (n : Bytes) : n ∈ views needles ↔
    n ∈ needles ∧ n ≠ [] := by
  simp [views]

/-- Dropping the empty needles changes no coverage. -/
theorem covered_views (needles : List Bytes) (text : Bytes) (i : Nat) :
    Covered (views needles) text i ↔ Covered needles text i := by
  constructor
  · rintro ⟨needle, member, rest⟩
    exact ⟨needle, ((mem_views needles needle).mp member).1, rest⟩
  · rintro ⟨needle, member, start, before, inside, occurs⟩
    refine ⟨needle, (mem_views needles needle).mpr ⟨member, ?_⟩, start, before, inside, occurs⟩
    rintro rfl
    simp at inside
    omega

/-- Byte `i` is marked. -/
def Marked (masked : List Bool) (i : Nat) : Prop := masked[i]? = some true

/-- A run of marks keeps the length and sets exactly its own positions. -/
theorem markRun_exact (masked : List Bool) (start width : Nat) :
    (markRun masked start width).length = masked.length ∧
      ∀ i < masked.length, Marked (markRun masked start width) i ↔
        Marked masked i ∨ (start ≤ i ∧ i < start + width) := by
  induction width with
  | zero =>
    refine ⟨rfl, fun i inside => ?_⟩
    have outside : ¬ (start ≤ i ∧ i < start + 0) := by omega
    simp only [markRun, range_zero, foldl_nil, outside, or_false]
  | succ width ih =>
    obtain ⟨length, marks⟩ := ih
    have unfolded : markRun masked start (width + 1) =
        (markRun masked start width).set (start + width) true := by
      simp [markRun, range_succ]
    refine ⟨by rw [unfolded, length_set, length], fun i inside => ?_⟩
    have earlier := marks i inside
    unfold Marked at earlier ⊢
    rw [unfolded, getElem?_set]
    by_cases last : start + width = i
    · have within : start ≤ i ∧ i < start + (width + 1) := by omega
      simp [last, within, length, inside]
    · have same : (start ≤ i ∧ i < start + (width + 1)) ↔
          (start ≤ i ∧ i < start + width) := by omega
      simp only [last, if_false, earlier, same]

/-- One needle's marks are the ones given and those of its matches that begin at
`start` or later. The search position only grows, and a match that begins before
the reported one would have been reported instead. -/
theorem markNeedle_exact (b needle : Bytes) (rounds start : Nat) (masked : List Bool)
    (proper : needle ≠ []) (enough : b.length < start + rounds)
    (aligned : masked.length = b.length) :
    (markNeedle b needle rounds start masked).length = b.length ∧
      ∀ i < b.length, Marked (markNeedle b needle rounds start masked) i ↔
        Marked masked i ∨ ∃ s, start ≤ s ∧ s ≤ i ∧ i < s + needle.length ∧ needle <+: b.drop s := by
  have positive : 0 < needle.length := length_pos_iff.mpr proper
  induction rounds generalizing start masked with
  | zero =>
    -- The position is past the end, where nothing more can begin.
    refine ⟨aligned, fun i inside => ?_⟩
    have nothing : ¬ ∃ s, start ≤ s ∧ s ≤ i ∧ i < s + needle.length ∧ needle <+: b.drop s := by
      rintro ⟨s, after, before, _, _⟩
      omega
    simp only [markNeedle, nothing, or_false]
  | succ rounds ih =>
    cases found : index (b.drop start) needle with
    | none =>
      have unfolded : markNeedle b needle (rounds + 1) start masked = masked := by
        simp [markNeedle, found]
      rw [unfolded]
      refine ⟨aligned, fun i inside => ?_⟩
      have absent : ¬ ∃ s, start ≤ s ∧ s ≤ i ∧ i < s + needle.length ∧ needle <+: b.drop s := by
        rintro ⟨s, after, before, _, occurs⟩
        have refused := index_none found (s - start) (by rw [length_drop]; omega)
        rw [drop_drop, Nat.add_sub_cancel' after] at refused
        exact refused occurs
      simp only [absent, or_false]
    | some first =>
      have unfolded : markNeedle b needle (rounds + 1) start masked =
          markNeedle b needle rounds (start + first + 1)
            (markRun masked (start + first) needle.length) := by
        simp [markNeedle, found]
      obtain ⟨here, earlier⟩ := index_some found
      rw [drop_drop] at here
      obtain ⟨runLength, runMarks⟩ := markRun_exact masked (start + first) needle.length
      obtain ⟨length, marks⟩ :=
        ih (start + first + 1) (markRun masked (start + first) needle.length)
        (by omega) (runLength.trans aligned)
      rw [unfolded]
      refine ⟨length, fun i inside => ?_⟩
      rw [marks i inside, runMarks i (by omega)]
      constructor
      · rintro ((marked | ⟨after, within⟩) | ⟨s, after, before, within, occurs⟩)
        · exact Or.inl marked
        · exact Or.inr ⟨start + first, by omega, after, within, here⟩
        · exact Or.inr ⟨s, by omega, before, within, occurs⟩
      · rintro (marked | ⟨s, after, before, within, occurs⟩)
        · exact Or.inl (Or.inl marked)
        · rcases Nat.lt_trichotomy s (start + first) with less | same | more
          · have refused := earlier (s - start) (by omega)
            rw [drop_drop, Nat.add_sub_cancel' after] at refused
            exact absurd occurs refused
          · exact Or.inl (Or.inr ⟨by omega, by omega⟩)
          · exact Or.inr ⟨s, by omega, before, within, occurs⟩

/-- Marking adds exactly the covered positions to the marks given. -/
theorem markMatches_exact (b : Bytes) (needles : List Bytes) (masked : List Bool)
    (proper : ∀ needle ∈ needles, needle ≠ []) (aligned : masked.length = b.length) :
    (markMatches b needles masked).length = b.length ∧
      ∀ i < b.length, Marked (markMatches b needles masked) i ↔
        Marked masked i ∨ Covered needles b i := by
  induction needles generalizing masked with
  | nil => exact ⟨aligned, fun i inside => by simp [markMatches, Covered]⟩
  | cons needle rest ih =>
    obtain ⟨length, marks⟩ := markNeedle_exact b needle (b.length + 1) 0 masked
      (proper needle mem_cons_self) (by omega) aligned
    obtain ⟨restLength, restMarks⟩ := ih (markNeedle b needle (b.length + 1) 0 masked)
      (fun other member => proper other (mem_cons_of_mem needle member)) length
    refine ⟨restLength, fun i inside => ?_⟩
    have unfolded : markMatches b (needle :: rest) masked =
        markMatches b rest (markNeedle b needle (b.length + 1) 0 masked) := rfl
    rw [unfolded, restMarks i inside, marks i inside, or_assoc]
    simp [Covered]

/-- A suffix overlaps with one of the needles tried when it overlaps with the last
of them or with an earlier one. -/
theorem overlap_concat (tried : List Bytes) (needle b : Bytes) (k : Nat) :
    Overlap (tried ++ [needle]) b k ↔ Overlap tried b k ∨ Overlap [needle] b k := by
  simp only [Overlap, mem_append, mem_singleton]
  constructor
  · rintro ⟨bounded, other, member | rfl, proper, begins⟩
    · exact Or.inl ⟨bounded, other, member, proper, begins⟩
    · exact Or.inr ⟨bounded, other, rfl, proper, begins⟩
  · rintro (⟨bounded, other, member, proper, begins⟩ | ⟨bounded, other, rfl, proper, begins⟩)
    · exact ⟨bounded, other, Or.inl member, proper, begins⟩
    · exact ⟨bounded, other, Or.inr rfl, proper, begins⟩

/-- A suffix of the tried tail is the overlap of that length. -/
theorem overlap_tail (b needle : Bytes) (proper : needle ≠ []) (i : Nat)
    (inside : i ≤ (b.drop (b.length + 1 - needle.length)).length) :
    Overlap [needle] b ((b.drop (b.length + 1 - needle.length)).length - i) ↔
      (b.drop (b.length + 1 - needle.length)).drop i <+: needle := by
  have positive : 0 < needle.length := length_pos_iff.mpr proper
  rw [length_drop] at inside ⊢
  have from_ : b.length - (b.length - (b.length + 1 - needle.length) - i) =
      b.length + 1 - needle.length + i := by omega
  rw [drop_drop]
  simp only [Overlap, mem_singleton, exists_eq_left, from_]
  constructor
  · exact fun overlap => overlap.2.2
  · exact fun begins => ⟨by omega, by omega, begins⟩

/-- Trying one more needle keeps the accumulated length the longest overlap. -/
theorem partialRound_longest (b : Bytes) (tried : List Bytes) (longest : Nat) (needle : Bytes)
    (proper : needle ≠ []) (before : Longest tried b longest) :
    Longest (tried ++ [needle]) b (partialRound b longest needle) := by
  have positive : 0 < needle.length := length_pos_iff.mpr proper
  have fits := before.fits
  have tailLength : (b.drop (b.length + 1 - needle.length)).length =
      b.length - (b.length + 1 - needle.length) := length_drop
  -- An overlap with this needle is a suffix of the tail the round looks at.
  have reached : ∀ k, Overlap [needle] b k →
      k ≤ (b.drop (b.length + 1 - needle.length)).length := by
    rintro k ⟨bounded, other, member, short, _⟩
    rw [mem_singleton.mp member] at short
    omega
  cases found : (List.range ((b.drop (b.length + 1 - needle.length)).length - longest)).find?
      (fun i => ((b.drop (b.length + 1 - needle.length)).drop i).isPrefixOf needle) with
  | none =>
    have unfolded : partialRound b longest needle = longest := by simp only [partialRound, found]
    rw [unfolded]
    refine ⟨fits, ?_, ?_⟩
    · rcases before.attained with zero | overlap
      · exact Or.inl zero
      · exact Or.inr ((overlap_concat tried needle b longest).mpr (Or.inl overlap))
    · intro k overlap
      rcases (overlap_concat tried needle b k).mp overlap with earlier | last
      · exact before.bound k earlier
      · by_contra long
        have short := reached k last
        rw [← Nat.sub_sub_self short, overlap_tail b needle proper _ (by omega)] at last
        exact find?_eq_none.mp found _ (mem_range.mpr (by omega))
          ( isPrefixOf_iff_prefix.mpr last)
  | some first =>
    have unfolded : partialRound b longest needle =
        (b.drop (b.length + 1 - needle.length)).length - first := by
      simp only [partialRound, found]
    obtain ⟨begins, inside, earlier⟩ := find?_range_eq_some.mp found
    rw [mem_range] at inside
    have overlap := (overlap_tail b needle proper first (by omega)).mpr
      ( isPrefixOf_iff_prefix.mp begins)
    rw [unfolded]
    refine ⟨by omega, Or.inr ((overlap_concat tried needle b _).mpr (Or.inr overlap)), ?_⟩
    intro k other
    rcases (overlap_concat tried needle b k).mp other with shorter | last
    · have small := before.bound k shorter
      omega
    · by_contra long
      have short := reached k last
      rw [← Nat.sub_sub_self short, overlap_tail b needle proper _ (by omega)] at last
      have refused := earlier ((b.drop (b.length + 1 - needle.length)).length - k) (by omega)
      rw [ isPrefixOf_iff_prefix.mpr last] at refused
      cases refused

/-- The partial match is the longest overlap with all the needles. -/
theorem partialMatch_longest (b : Bytes) (needles : List Bytes)
    (proper : ∀ needle ∈ needles, needle ≠ []) : Longest needles b (partialMatch b needles) := by
  -- The fold's accumulator is the longest overlap with the needles already tried.
  have general : ∀ (rest tried : List Bytes) (longest : Nat), (∀ needle ∈ rest, needle ≠ []) →
      Longest tried b longest → Longest (tried ++ rest) b
        (rest.foldl (partialRound b) longest) := by
    intro rest
    induction rest with
    | nil =>
      intro tried longest _ before
      simpa using before
    | cons needle rest ih =>
      intro tried longest nonempty before
      have after := partialRound_longest b tried longest needle (nonempty needle mem_cons_self)
        before
      have rest' := ih (tried ++ [needle]) (partialRound b longest needle)
        (fun other member => nonempty other (mem_cons_of_mem needle member)) after
      simpa using rest'
  have start : Longest [] b 0 :=
    ⟨Nat.zero_le _, Or.inl rfl, by rintro k ⟨_, needle, member, _⟩; simp at member⟩
  simpa [partialMatch] using general needles [] 0 proper start

/-- The reference: each byte inside an occurrence of a needle becomes the mask. -/
def reference (needles : List Bytes) (text : Bytes) : Bytes :=
  text.mapIdx fun i c => if Covered needles text i then maskFor needles else c

end TrustedCourier.Redact
