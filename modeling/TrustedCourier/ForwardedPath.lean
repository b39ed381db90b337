import TrustedCourier.ServerPaths

/-!
# The path Proxy Delivery forwards

`forwardedPath` takes the escaped path after the route's Upstream name and refuses
dot segments, however they are spelled. It looks at each raw segment on its own:
decoded, cut at slashes and backslashes, and each part without its `;` parameters.
A server reads the whole path at once. Both readings see the same parts, so an
accepted remainder cannot lead out of the Upstream's base path, and a refused one
either cannot be decoded or does hold a dot segment.

The predicates given to `strings.FieldsFuncSeq` are on ASCII bytes, which no other
rune's encoding contains, so splitting bytes is splitting runes.
-/

namespace TrustedCourier.ForwardedPath

open ByteStrings UrlEscapes ServerPaths List

/-- The check that `forwardedPath` and `decodePath` make on a decoded raw segment:
one of its parts is a dot segment. -/
def hidesDot (decoded : Bytes) : Bool :=
  (fieldsFunc decoded fun r => r == 0x2F || r == 0x5C).any fun part =>
    let name := (cut part 0x3B).1
    name == bytes "." || name == bytes ".."

/-- What follows `/proxy/{secret_name}/{upstream}/`, if the path goes that far. -/
def remainder (escaped : Bytes) : Option Bytes := (splitN 0x2F 5 escaped)[4]?

/-- The escaped path after `/proxy/{secret_name}/{upstream}`, with its leading slash,
or `none` when it is refused. -/
def forwardedPath (escaped : Bytes) : Option Bytes :=
  match remainder escaped with
  | none => some []
  | some rest =>
    if (rest.splitOn 0x2F).all fun seg => match pathUnescape seg with
      | none => false
      | some decoded => !hidesDot decoded
    then some (0x2F :: rest) else none

/-- A part hidden in a raw segment is a segment of the server's reading. -/
theorem hidesDot_iff (decoded : Bytes) :
    hidesDot decoded = true ↔ ∃ segment ∈ (decoded.splitOnP isSlash).map dropParams,
      Dot segment := by
  have named : ∀ part, ((cut part 0x3B).1 == bytes "." || (cut part 0x3B).1 == bytes "..") = true ↔
      Dot (dropParams part) := by
    intro part
    rw [Bool.or_eq_true, beq_iff_eq, beq_iff_eq]
    rfl
  unfold hidesDot fieldsFunc
  rw [any_eq_true]
  constructor
  · rintro ⟨part, member, dot⟩
    exact ⟨dropParams part, mem_map_of_mem (mem_filter.mp member).1, (named part).mp dot⟩
  · rintro ⟨segment, member, dot⟩
    obtain ⟨part, inside, rfl⟩ := mem_map.mp member
    have nonempty : part ≠ [] := by
      rintro rfl
      exact absurd dot (by decide)
    exact ⟨part, mem_filter.mpr ⟨inside, by simp [nonempty]⟩, (named part).mpr dot⟩

/-- The parts of the decoded raw segments are the segments of the decoded path. -/
theorem joined_dots (pieces : List Bytes) (nonempty : pieces ≠ []) :
    (∃ piece ∈ pieces, hidesDot piece = true) ↔
      ∃ segment ∈ (([0x2F].intercalate pieces).splitOnP isSlash).map dropParams, Dot segment := by
  simp only [hidesDot_iff, splitOnP_intercalate pieces nonempty, mem_map, mem_flatMap]
  constructor
  · rintro ⟨piece, member, segment, ⟨part, inside, rfl⟩, dot⟩
    exact ⟨_, ⟨part, ⟨piece, member, inside⟩, rfl⟩, dot⟩
  · rintro ⟨segment, ⟨part, ⟨piece, member, inside⟩, rfl⟩, dot⟩
    exact ⟨piece, member, _, ⟨part, inside, rfl⟩, dot⟩

/-- Checking every raw segment is checking the decoded whole. -/
theorem checked_iff (rest : Bytes) :
    ((rest.splitOn 0x2F).all fun seg => match pathUnescape seg with
      | none => false
      | some decoded => !hidesDot decoded) = true ↔
    ∃ decoded, pathUnescape rest = some decoded ∧
      ∀ segment ∈ (decoded.splitOnP isSlash).map dropParams, ¬ Dot segment := by
  rw [pathUnescape_segments, all_eq_true]
  have pieces_nonempty : ∀ pieces, (rest.splitOn 0x2F).mapM pathUnescape = some pieces →
      pieces ≠ [] := by
    rintro pieces mapped rfl
    have same := (mapM_some_iff _ _ _).mp mapped
    exact splitOn_ne_nil 0x2F rest (map_eq_nil_iff.mp same)
  constructor
  · intro passes
    have decodes : ∀ seg ∈ rest.splitOn 0x2F, (pathUnescape seg).isSome := by
      intro seg member
      have passed := passes seg member
      cases unescaped : pathUnescape seg with
      | none => simp [unescaped] at passed
      | some decoded => rfl
    obtain ⟨pieces, mapped⟩ := mapM_isSome _ _ decodes
    refine ⟨[0x2F].intercalate pieces, by rw [mapped]; rfl, ?_⟩
    intro segment member dot
    obtain ⟨piece, inside, hidden⟩ :=
      (joined_dots pieces (pieces_nonempty pieces mapped)).mpr ⟨segment, member, dot⟩
    obtain ⟨seg, among, unescaped⟩ := (mem_mapM mapped piece).mp inside
    have passed := passes seg among
    simp [unescaped, hidden] at passed
  · rintro ⟨decoded, unescaped, plain⟩ seg member
    obtain ⟨pieces, mapped, rfl⟩ := Option.map_eq_some_iff.mp unescaped
    cases here : pathUnescape seg with
    | none =>
      have same := (mapM_some_iff _ _ _).mp mapped
      have absent : none ∈ pieces.map some := by
        rw [← same, ← here]
        exact mem_map_of_mem member
      simp at absent
    | some piece =>
      have inside := (mem_mapM mapped piece).mpr ⟨seg, member, here⟩
      cases hidden : hidesDot piece with
      | false => simp [hidden]
      | true =>
        obtain ⟨segment, among, dot⟩ :=
          (joined_dots pieces (pieces_nonempty pieces mapped)).mp ⟨piece, inside, hidden⟩
        exact absurd dot (plain segment among)

/-- Base-path containment. A path accepted with remainder `rest` and forwarded under
a base path without dot segments leads to a place under that base path: the base
path's own segments come first, whatever the remainder spells. Conversely a path
is refused only when its remainder has an invalid escape or a segment that reads
as a dot segment.

Proof: an accepted remainder unescapes as a whole and has no dot segment, by the
check on its raw segments. The base path keeps its segments when it is extended at
a slash, and with no dot segment in either part nothing is resolved away. -/
theorem base_path_contained (escaped base : Bytes) (own : List Bytes)
    (read : reading base = some own) (plain : ∀ segment ∈ own, ¬ Dot segment) :
    (∀ rest, forwardedPath escaped = some rest →
      permissive base = some own ∧ ∃ extra, permissive (base ++ rest) = some (own ++ extra)) ∧
    (forwardedPath escaped = none → ∃ rest, remainder escaped = some rest ∧
      (pathUnescape rest = none ∨ ∃ decoded, pathUnescape rest = some decoded ∧
        ∃ segment ∈ (decoded.splitOnP isSlash).map dropParams, Dot segment)) := by
  have baseLeads : permissive base = some own := by
    rw [permissive, read, Option.map_some, resolve_plain own plain]
  constructor
  · intro rest accepted
    refine ⟨baseLeads, ?_⟩
    unfold forwardedPath at accepted
    cases left : remainder escaped with
    | none =>
      rw [left] at accepted
      cases accepted
      exact ⟨[], by rw [append_nil, append_nil, baseLeads]⟩
    | some after =>
      rw [left] at accepted
      simp only at accepted
      split at accepted
      · next passed =>
        cases accepted
        obtain ⟨decoded, unescaped, restPlain⟩ := (checked_iff after).mp passed
        exact permissive_extend read plain unescaped restPlain
      · simp at accepted
  · intro refused
    unfold forwardedPath at refused
    cases left : remainder escaped with
    | none =>
      simp [left] at refused
    | some after =>
      rw [left] at refused
      simp only at refused
      split at refused
      · simp at refused
      · next failed =>
        refine ⟨after, rfl, ?_⟩
        rw [checked_iff] at failed
        cases unescaped : pathUnescape after with
        | none => exact Or.inl rfl
        | some decoded =>
          right
          by_contra dotFree
          refine failed ⟨decoded, unescaped, fun segment member dot => dotFree ?_⟩
          exact ⟨decoded, rfl, segment, member, dot⟩

/-- An encoded backslash and a parameter in the remainder of a path under `/api`. -/
theorem base_path_contained_encoded :
    ∃ extra, permissive (bytes "/api" ++ bytes "/a%5Cb;x/%2E%2E%2E") =
      some ([bytes "api"] ++ extra) :=
  ((base_path_contained (bytes "/proxy/n/u/a%5Cb;x/%2E%2E%2E") (bytes "/api") [bytes "api"]
    (by decide) (by decide)).1 (bytes "/a%5Cb;x/%2E%2E%2E") (by decide)).2

end TrustedCourier.ForwardedPath
