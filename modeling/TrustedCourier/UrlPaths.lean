import TrustedCourier.UrlEscapes

/-!
# Paths of URLs

Go's `url.URL` keeps a path in two forms: decoded, and as it was written where escaping
the decoded form would not give that back. The escaped path is the written form, as long
as it is validly encoded and decodes to the path, and the escaped decoded form otherwise.
Either way it holds no byte that a path may not hold, and it decodes to the path. What was
written is kept as it stands exactly if it is validly encoded.

Escaping a whole path leaves its slashes alone, so it escapes segment by segment.
-/

namespace TrustedCourier.UrlPaths

open UrlEscapes List

/-- `shouldEscape`, for a path segment or for a whole path. -/
def shouldEscape (segment : Bool) (c : UInt8) : Bool :=
  if unreserved c then false
  else if (bytes "$&+,/:;=?@").contains c then
    if segment then c == 0x2F || c == 0x3B || c == 0x2C || c == 0x3F else c == 0x3F
  else true

/-- How one byte is written. -/
def escapeByte (segment : Bool) (c : UInt8) : Bytes :=
  if shouldEscape segment c then [0x25, upperhex (c / 16), upperhex (c % 16)] else [c]

/-- `escape`. -/
def escape (segment : Bool) (s : Bytes) : Bytes := s.flatMap (escapeByte segment)

/-- `url.PathEscape`. -/
def pathEscape (s : Bytes) : Bytes := escape true s

/-- A byte that may stand in an escaped path. -/
def encodedByte (c : UInt8) : Bool := (bytes "!$&'()*+,;=:@[]%").contains c || !shouldEscape false c

/-- `validEncoded`. -/
def validEncoded (s : Bytes) : Bool := s.all encodedByte

/-- The path of a URL, decoded, and as it was written if escaping does not give that. -/
structure UrlPath where
  path : Bytes
  rawPath : Bytes
deriving DecidableEq, Repr

/-- `URL.setPath`. -/
def setPath (p : Bytes) : Option UrlPath :=
  (pathUnescape p).map fun path =>
    { path := path, rawPath := if p = escape false path then [] else p }

/-- `URL.EscapedPath`. -/
def UrlPath.escapedPath (u : UrlPath) : Bytes :=
  if u.rawPath ≠ [] && validEncoded u.rawPath && pathUnescape u.rawPath == some u.path then
    u.rawPath
  else if u.path = bytes "*" then bytes "*"
  else escape false u.path

/-! ## Round trip -/

/-- Every written byte reads back as itself. -/
theorem unescape_escapeByte (segment : Bool) (c : UInt8) (rest : Bytes) :
    pathUnescape (escapeByte segment c ++ rest) = (pathUnescape rest).map (c :: ·) := by
  have marked : shouldEscape segment 0x25 = true := by cases segment <;> decide
  unfold pathUnescape escapeByte
  split
  · obtain ⟨high, low, same⟩ := upperhex_digits c
    rw [cons_append, cons_append, cons_append, nil_append, unescape_escape, high, low, same]
    rfl
  · next bare =>
    have ordinary : c ≠ 0x25 := by
      rintro rfl
      exact bare marked
    rw [singleton_append, unescape_cons false c rest ordinary]
    rfl

/-- What is escaped reads back. -/
theorem pathUnescape_escape (segment : Bool) (s : Bytes) :
    pathUnescape (escape segment s) = some s := by
  induction s with
  | nil => rfl
  | cons c rest ih =>
    unfold escape at ih ⊢
    rw [flatMap_cons, unescape_escapeByte, ih]
    rfl

/-- Different segments are escaped differently. -/
theorem pathEscape_injective {s t : Bytes} (same : pathEscape s = pathEscape t) : s = t := by
  have read := pathUnescape_escape true s
  rw [← pathEscape, same, pathEscape, pathUnescape_escape] at read
  exact (Option.some.inj read).symm

/-- What a byte is written with: the sign, digits, or itself if it need not be escaped. -/
theorem mem_escapeByte {segment : Bool} {c d : UInt8} (member : d ∈ escapeByte segment c) :
    d = 0x25 ∨ ishex d = true ∨ (d = c ∧ shouldEscape segment c = false) := by
  unfold escapeByte at member
  split at member
  · obtain ⟨high, low, _⟩ := upperhex_digits c
    simp only [mem_cons, not_mem_nil, or_false] at member
    rcases member with sign | rfl | rfl
    · exact .inl sign
    · exact .inr (.inl high)
    · exact .inr (.inl low)
  · next bare => exact .inr (.inr ⟨mem_singleton.mp member, Bool.not_eq_true _ ▸ bare⟩)

/-- A slash is written for a slash only. -/
theorem slash_mem_escapeByte {segment : Bool} {c : UInt8} (member : 0x2F ∈ escapeByte segment c) :
    c = 0x2F ∧ shouldEscape segment 0x2F = false := by
  rcases mem_escapeByte member with sign | digit | ⟨rfl, free⟩
  · exact absurd sign (by decide)
  · exact absurd digit (by decide)
  · exact ⟨rfl, free⟩

/-- An escaped segment holds no slash. -/
theorem slash_not_mem_pathEscape (s : Bytes) : 0x2F ∉ pathEscape s := by
  intro member
  obtain ⟨c, _, written⟩ := mem_flatMap.mp member
  exact absurd (slash_mem_escapeByte written).2 (by decide)

/-- What need not be escaped in a segment need not be in a path. -/
theorem shouldEscape_path {segment : Bool} {c : UInt8} (free : shouldEscape segment c = false) :
    shouldEscape false c = false := by
  cases segment with
  | false => exact free
  | true =>
    unfold shouldEscape at free ⊢
    split at free
    · next kept => rw [if_pos kept]
    · next other =>
      split at free
      · next listed =>
        rw [if_pos rfl, Bool.or_eq_false_iff] at free
        rw [if_neg other, if_pos listed, if_neg Bool.false_ne_true]
        exact free.2
      · cases free

/-- What is escaped is validly encoded. -/
theorem validEncoded_escape (segment : Bool) (s : Bytes) :
    validEncoded (escape segment s) = true := by
  have digits : ∀ d : UInt8, ishex d = true → unreserved d = true := by decide +kernel
  rw [validEncoded, all_eq_true]
  intro d member
  obtain ⟨c, _, inside⟩ := mem_flatMap.mp member
  rcases mem_escapeByte inside with rfl | digit | ⟨rfl, free⟩
  · decide
  · rw [encodedByte, shouldEscape, if_pos (digits d digit), Bool.not_false, Bool.or_true]
  · rw [encodedByte, shouldEscape_path free, Bool.not_false, Bool.or_true]

/-- The escaped path is validly encoded and decodes to the path. -/
theorem escapedPath_sound (u : UrlPath) :
    validEncoded u.escapedPath = true ∧ pathUnescape u.escapedPath = some u.path := by
  unfold UrlPath.escapedPath
  split
  · next kept =>
    simp only [Bool.and_eq_true, beq_iff_eq] at kept
    exact ⟨kept.1.2, kept.2⟩
  · split
    · next star =>
      rw [star]
      exact ⟨by decide, by decide⟩
    · exact ⟨validEncoded_escape false _, pathUnescape_escape false _⟩

/-- A written path is kept if it is validly encoded, and escaped again otherwise. -/
theorem escapedPath_setPath {p : Bytes} {u : UrlPath} (set : setPath p = some u)
    (proper : u.path ≠ bytes "*") :
    u.escapedPath = if validEncoded p then p else escape false u.path := by
  obtain ⟨path, unescaped, rfl⟩ := Option.map_eq_some_iff.mp set
  simp only at proper
  unfold UrlPath.escapedPath
  simp only
  by_cases plain : p = escape false path
  · have valid : validEncoded p = true := by
      rw [plain]
      exact validEncoded_escape false path
    rw [if_pos valid, if_pos plain, if_neg (by simp), if_neg proper, ← plain]
  · have nonempty : p ≠ [] := by
      rintro rfl
      cases unescaped
      exact plain rfl
    simp [plain, nonempty, unescaped, proper]

/-! ## Slashes -/

/-- Escaping a path escapes its segments. -/
theorem splitOn_escape (s : Bytes) : (escape false s).splitOn 0x2F =
    (s.splitOn 0x2F).map (escape false) := by
  have joined : ∀ pieces : List Bytes,
      escape false ([0x2F].intercalate pieces) =
        [0x2F].intercalate (pieces.map (escape false)) := by
    intro pieces
    induction pieces with
    | nil => rfl
    | cons first rest ih =>
      cases rest with
      | nil => simp
      | cons second others =>
        rw [intercalate_cons_cons, map_cons, map_cons, intercalate_cons_cons, ← map_cons, ← ih]
        simp only [escape, flatMap_append]
        rfl
  have whole : [0x2F].intercalate (s.splitOn 0x2F) = s := intercalate_splitOn 0x2F
  conv_lhs => rw [← whole, joined]
  refine splitOn_intercalate 0x2F ?_ ?_
  · intro piece member
    obtain ⟨raw, inside, rfl⟩ := mem_map.mp member
    intro slash
    obtain ⟨n, inRaw, here⟩ := mem_flatMap.mp slash
    obtain ⟨rfl, _⟩ := slash_mem_escapeByte here
    exact ByteStrings.not_mem_of_mem_splitOn inside inRaw
  · simp

end TrustedCourier.UrlPaths
