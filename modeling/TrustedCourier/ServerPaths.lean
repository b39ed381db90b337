import TrustedCourier.UrlEscapes

/-!
# The most permissive reading of a request path

A server may decode a path before it splits it, take a backslash for a slash, drop
`;` parameters from each segment, and only then resolve dot segments. Whatever it
is asked to serve is what that reading says. The reading of an escaped path is
defined here on its own, with the one law the callers need: a path that is
extended at a slash by dot-free segments keeps its own segments in front.
-/

namespace TrustedCourier.ServerPaths

open UrlEscapes List

/-- A slash or a backslash. -/
def isSlash (c : UInt8) : Bool := c == 0x2F || c == 0x5C

/-- A segment without its `;` parameters. -/
def dropParams (segment : Bytes) : Bytes := segment.takeWhile (· ≠ 0x3B)

/-- A decoded path after its leading slash, if it has one. -/
def trimRoot : Bytes → Bytes
  | [] => []
  | c :: rest => if isSlash c then rest else c :: rest

/-- The segment names of a decoded path. A path with nothing after its root has none. -/
def segments (decoded : Bytes) : List Bytes :=
  if trimRoot decoded = [] then [] else ((trimRoot decoded).splitOnP isSlash).map dropParams

/-- A segment that resolution removes. -/
def Dot (segment : Bytes) : Prop := segment = bytes "." ∨ segment = bytes ".."

instance (segment : Bytes) : Decidable (Dot segment) := inferInstanceAs (Decidable (_ ∨ _))

/-- Resolve dot segments from left to right: `.` stays, `..` goes up, and stays at
the root. -/
def resolve (path : List Bytes) : List Bytes :=
  path.foldl (fun resolved segment =>
    if segment = bytes "." then resolved
    else if segment = bytes ".." then resolved.dropLast
    else resolved ++ [segment]) []

/-- The segments of an escaped path before dot segments are resolved. -/
def reading (escaped : Bytes) : Option (List Bytes) := (pathUnescape escaped).map segments

/-- Where an escaped path leads. -/
def permissive (escaped : Bytes) : Option (List Bytes) := (reading escaped).map resolve

/-- Without dot segments there is nothing to resolve. -/
theorem resolve_plain (path : List Bytes) (plain : ∀ segment ∈ path, ¬ Dot segment) :
    resolve path = path := by
  have general : ∀ (rest done : List Bytes), (∀ segment ∈ rest, ¬ Dot segment) →
      rest.foldl (fun resolved segment =>
        if segment = bytes "." then resolved
        else if segment = bytes ".." then resolved.dropLast
        else resolved ++ [segment]) done = done ++ rest := by
    intro rest
    induction rest with
    | nil => simp
    | cons segment rest ih =>
      intro done dotFree
      have here := dotFree segment mem_cons_self
      simp only [Dot, not_or] at here
      rw [foldl_cons, if_neg here.1, if_neg here.2,
        ih (done ++ [segment]) (fun other member => dotFree other (mem_cons_of_mem _ member)),
        append_assoc, singleton_append]
  exact (general path [] plain).trans (nil_append path)

/-- A path extended at a slash reads as its own segments followed by those of the
extension, with at most an empty one where the path has only a root. -/
theorem segments_extend (path rest : Bytes) :
    ∃ extra, segments (path ++ 0x2F :: rest) = segments path ++ extra ∧
      ∀ segment ∈ extra, segment = [] ∨ segment ∈ (rest.splitOnP isSlash).map dropParams := by
  have slash : isSlash 0x2F = true := by decide
  by_cases bare : trimRoot path = []
  · have own : segments path = [] := by rw [segments, if_pos bare]
    refine ⟨segments (path ++ 0x2F :: rest), by rw [own, nil_append], ?_⟩
    cases path with
    | nil =>
      intro segment member
      have trimmed : trimRoot ([] ++ 0x2F :: rest) = rest := by simp [trimRoot, slash]
      rw [segments, trimmed] at member
      split at member
      · exact absurd member not_mem_nil
      · exact Or.inr member
    | cons c more =>
      have only : isSlash c = true ∧ more = [] := by
        by_cases rooted : isSlash c = true
        · exact ⟨rooted, by simpa [trimRoot, rooted] using bare⟩
        · simp [trimRoot, rooted] at bare
      obtain ⟨rooted, rfl⟩ := only
      intro segment member
      have trimmed : trimRoot ([c] ++ 0x2F :: rest) = 0x2F :: rest := by simp [trimRoot, rooted]
      rw [segments, trimmed, if_neg (cons_ne_nil _ _)] at member
      have pieces : (0x2F :: rest).splitOnP isSlash = [] :: rest.splitOnP isSlash := by
        rw [splitOnP_cons_eq_if_modifyHead, if_pos slash]
      rw [pieces, map_cons] at member
      rcases mem_cons.mp member with first | later
      · exact Or.inl first
      · exact Or.inr later
  · have trimmed : trimRoot (path ++ 0x2F :: rest) = trimRoot path ++ 0x2F :: rest := by
      cases path with
      | nil => exact absurd rfl bare
      | cons c more =>
        simp only [trimRoot, cons_append]
        split <;> simp
    refine ⟨(rest.splitOnP isSlash).map dropParams, ?_, fun segment member => Or.inr member⟩
    have nonempty : trimRoot path ++ 0x2F :: rest ≠ [] := by simp
    rw [segments, segments, trimmed, if_neg nonempty, if_neg bare,
      splitOnP_append_cons _ _ slash, map_append]

/-- Joining decoded pieces with slashes and splitting the result splits each piece. -/
theorem splitOnP_intercalate (pieces : List Bytes) (nonempty : pieces ≠ []) :
    ([0x2F].intercalate pieces).splitOnP isSlash = pieces.flatMap (·.splitOnP isSlash) := by
  have slash : isSlash 0x2F = true := by decide
  induction pieces with
  | nil => exact absurd rfl nonempty
  | cons first rest ih =>
    cases rest with
    | nil => simp
    | cons second others =>
      rw [intercalate_cons_cons, append_assoc, singleton_append,
        splitOnP_append_cons _ _ slash, ih (cons_ne_nil _ _)]
      rfl

/-- Unescaping a path is unescaping its raw segments. -/
theorem pathUnescape_segments (escaped : Bytes) :
    pathUnescape escaped =
      ((escaped.splitOn 0x2F).mapM pathUnescape).map ([0x2F].intercalate ·) :=
  unescape_splitOn false 0x2F (by decide) (by decide) escaped

/-- A path extended at a slash by a dot-free remainder leads where its own segments
lead, and then on. -/
theorem permissive_extend {path rest decoded : Bytes} {own : List Bytes}
    (read : reading path = some own) (plain : ∀ segment ∈ own, ¬ Dot segment)
    (unescaped : pathUnescape rest = some decoded)
    (restPlain : ∀ segment ∈ (decoded.splitOnP isSlash).map dropParams, ¬ Dot segment) :
    ∃ extra, permissive (path ++ 0x2F :: rest) = some (own ++ extra) := by
  obtain ⟨text, pathText, rfl⟩ := Option.map_eq_some_iff.mp read
  obtain ⟨extra, together, parts⟩ := segments_extend text decoded
  have whole : pathUnescape (path ++ 0x2F :: rest) = some (text ++ 0x2F :: decoded) := by
    have split := unescape_split false path rest 0x2F (by decide) (by decide)
    unfold pathUnescape at pathText unescaped ⊢
    rw [split, pathText, unescaped]
    rfl
  have dotFree : ∀ segment ∈ segments text ++ extra, ¬ Dot segment := by
    intro segment member
    rcases mem_append.mp member with mine | added
    · exact plain segment mine
    · rcases parts segment added with rfl | inRest
      · decide
      · exact restPlain segment inRest
  refine ⟨extra, ?_⟩
  rw [permissive, reading, whole, Option.map_some, Option.map_some, together,
    resolve_plain _ dotFree]

end TrustedCourier.ServerPaths
