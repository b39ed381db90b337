import Mathlib.Data.List.TakeWhile
import TrustedCourier.ForwardedPath
import TrustedCourier.Utf8

/-!
# Path prefixes of a Policy

A prefix is parsed from raw segments that a pattern admits and that decode to
plain names. A request path is decoded segment by segment and compared with the
prefix's segments whole. Matching therefore says something about the decoded
segments only; that it also says something about what a server reads is because no
prefix segment can be split, shortened or resolved away.

A segment's decoding is one function here, the body of the loop in `decodePath`,
and so is the body of the loop in `ParsePathPrefix`.
-/

namespace TrustedCourier.Config

open ByteStrings UrlEscapes ServerPaths ForwardedPath List

/-- A prefix as it was written, without a trailing slash, and its decoded segments. -/
structure PathPrefix where
  text : Bytes
  segments : List Bytes
deriving DecidableEq, Repr

/-- A byte that a segment of a prefix may hold unescaped. -/
def segmentByte (c : UInt8) : Bool :=
  (0x41 ≤ c && c ≤ 0x5A) || (0x61 ≤ c && c ≤ 0x7A) || (0x30 ≤ c && c ≤ 0x39) ||
    (bytes "._~!$&'()*+,=:@-").contains c

/-- Any number of unescaped bytes and complete escapes. -/
def segmentUnits : Bytes → Bool
  | [] => true
  | c :: rest =>
    if c = 0x25 then
      match rest with
      | a :: b :: tail => ishex a && ishex b && segmentUnits tail
      | _ => false
    else segmentByte c && segmentUnits rest

/-- `pathSegmentPattern`. -/
def pathSegmentPattern (raw : Bytes) : Bool := raw ≠ [] && segmentUnits raw

/-- A control character. -/
def hasControl (s : Bytes) : Bool := s.any fun c => c < 0x20 || c == 0x7F

/-- One round of the loop in `ParsePathPrefix`. The pattern admits only complete
escapes, so the refusal of `PathUnescape` is never reached. -/
def parseSegment (raw : Bytes) : Except String Bytes :=
  if !pathSegmentPattern raw then
    .error "must be a path of non-empty segments without '?', '#', ';', spaces, or invalid percent-encoding"
  else match pathUnescape raw with
    | none => .error "invalid URL escape"
    | some seg =>
      if !Utf8.validString seg then .error "must decode to valid UTF-8"
      else if hasControl seg || seg.any (fun c => c == 0x2F || c == 0x5C || c == 0x3B) then
        .error "must not encode a slash, backslash, ';', or control character"
      else if seg = bytes "." ∨ seg = bytes ".." then .error "must not contain dot segments"
      else .ok seg

/-- `ParsePathPrefix`. -/
def parsePathPrefix (s : Bytes) : Except String PathPrefix :=
  if !(bytes "/").isPrefixOf s then .error "must start with /"
  else if s = bytes "/" then .ok { text := s, segments := [] }
  else
    let s := trimTrailing s (bytes "/")
    (((s.drop 1).splitOn 0x2F).mapM parseSegment).map fun segments =>
      { text := s, segments := segments }

/-- `PathPrefix.String`. -/
def PathPrefix.string (p : PathPrefix) : Bytes := p.text

/-- One round of the loop in `decodePath`. -/
def decodeSegment (raw : Bytes) : Option Bytes :=
  match pathUnescape raw with
  | none => none
  | some seg => if !Utf8.validString seg || hidesDot seg then none else some seg

/-- The decoded segments of an escaped path. -/
def decodePath (escaped : Bytes) : Option (List Bytes) :=
  let escaped := trimLeading escaped (bytes "/")
  if escaped = [] then some [] else (escaped.splitOn 0x2F).mapM decodeSegment

/-- `PathPrefix.Matches`. -/
def PathPrefix.matches (p : PathPrefix) (escapedPath : Bytes) : Bool :=
  match decodePath escapedPath with
  | none => false
  | some segments =>
    p.segments.length ≤ segments.length && segments.take p.segments.length == p.segments

/-! ## Decoding -/

/-- A decoded segment is unescaped from the raw one and hides no dot segment. -/
theorem decodeSegment_some {raw seg : Bytes} (decoded : decodeSegment raw = some seg) :
    pathUnescape raw = some seg ∧ hidesDot seg = false := by
  unfold decodeSegment at decoded
  cases unescaped : pathUnescape raw with
  | none => simp [unescaped] at decoded
  | some value =>
    simp only [unescaped] at decoded
    split at decoded
    · simp at decoded
    · next kept =>
      cases decoded
      simp only [Bool.or_eq_true, not_or, Bool.not_eq_true] at kept
      exact ⟨rfl, kept.2⟩

/-- The empty segment decodes to itself. -/
theorem decodeSegment_nil : decodeSegment [] = some [] := by decide

/-- After a slash, the segments are an empty one and those of the rest. -/
theorem splitOn_slash (rest : Bytes) : (0x2F :: rest).splitOn 0x2F = [] :: rest.splitOn 0x2F := by
  simpa using splitOn_append_cons_self (a := (0x2F : UInt8)) [] rest

/-- Without its leading slash a path loses at most an empty segment. -/
theorem trimLeading_slash (escaped : Bytes) :
    escaped = trimLeading escaped (bytes "/") ∨
    escaped = 0x2F :: trimLeading escaped (bytes "/") := by
  unfold trimLeading
  split
  · next rooted =>
    obtain ⟨rest, rfl⟩ := isPrefixOf_iff_prefix.mp rooted
    exact Or.inr rfl
  · exact Or.inl rfl

/-- A path decodes exactly when each of its raw segments does: the leading slash and
the empty path add only empty segments. -/
theorem decodePath_isSome (escaped : Bytes) :
    (decodePath escaped).isSome ↔ ∀ raw ∈ escaped.splitOn 0x2F, (decodeSegment raw).isSome := by
  have emptied : (decodeSegment []).isSome = true := by rw [decodeSegment_nil]; rfl
  have trimmed : (∀ raw ∈ escaped.splitOn 0x2F, (decodeSegment raw).isSome) ↔
      ∀ raw ∈ (trimLeading escaped (bytes "/")).splitOn 0x2F, (decodeSegment raw).isSome := by
    rcases trimLeading_slash escaped with same | rooted
    · rw [← same]
    · conv_lhs => rw [rooted, splitOn_slash]
      simp [emptied]
  rw [trimmed, decodePath]
  split
  · next bare => simp [bare, emptied]
  · constructor
    · intro decodes raw member
      obtain ⟨segments, mapped⟩ := Option.isSome_iff_exists.mp decodes
      have inside : decodeSegment raw ∈ segments.map some := by
        rw [← (mapM_some_iff _ _ _).mp mapped]
        exact mem_map_of_mem member
      obtain ⟨segment, _, decoded⟩ := mem_map.mp inside
      rw [← decoded]
      rfl
    · intro every
      obtain ⟨segments, mapped⟩ := mapM_isSome _ _ every
      rw [mapped]
      rfl

/-- After the leading slash, the decoded path is the decoding of its raw segments. -/
theorem decodePath_rooted (body : Bytes) (nonempty : body ≠ []) :
    decodePath (0x2F :: body) = (body.splitOn 0x2F).mapM decodeSegment := by
  have trimmed : trimLeading (0x2F :: body) (bytes "/") = body := by
    simp [trimLeading, show bytes "/" = [0x2F] from by decide]
  rw [decodePath]
  simp only [trimmed, if_neg nonempty]

/-! ## Parsing -/

/-- A segment that a server reads as it stands: it is not split, not shortened and
not resolved away. -/
structure Plain (segment : Bytes) : Prop where
  nonempty : segment ≠ []
  unsplit : ∀ c ∈ segment, isSlash c = false
  unparameterised : ∀ c ∈ segment, c ≠ 0x3B
  undotted : ¬ Dot segment

variable {s : Bytes}

/-- Unescaping leaves nothing of the empty string only. -/
theorem unescape_eq_nil (emptied : pathUnescape s = some []) : s = [] := by
  unfold pathUnescape at emptied
  induction s using unescape.induct with
  | case1 => rfl
  | case2 a b tail hex ih => simp [unescape_escape, hex] at emptied
  | case3 a b tail bad =>
    have refused : (ishex a && ishex b) = false := Bool.not_eq_true _ ▸ bad
    simp [unescape_escape, refused] at emptied
  | case4 rest short =>
    rcases rest with _ | ⟨a, _ | ⟨b, tail⟩⟩
    · simp [unescape_short] at emptied
    · simp [unescape_short] at emptied
    · exact absurd rfl (short a b tail)
  | case5 first rest other ih => simp [unescape_cons false first rest other] at emptied

/-- What `parseSegment` accepts. -/
theorem parseSegment_ok {raw seg : Bytes} (parsed : parseSegment raw = .ok seg) :
    raw ≠ [] ∧ pathUnescape raw = some seg ∧ Utf8.validString seg = true ∧ Plain seg := by
  revert parsed
  -- One branch of `parseSegment` returns a segment.
  fun_cases parseSegment raw <;> rintro ⟨⟩
  case case6 admitted unescaped valid clean undotted =>
    have nonempty : raw ≠ [] := by
      simp only [pathSegmentPattern, Bool.not_eq_true', Bool.not_eq_false, Bool.and_eq_true,
        decide_eq_true_eq] at admitted
      exact admitted.1
    simp only [Bool.or_eq_true, not_or, Bool.not_eq_true, any_eq_false,
      beq_eq_false_iff_ne] at clean
    refine ⟨nonempty, unescaped, by simpa using valid, ?_, ?_, ?_, undotted⟩
    · rintro rfl
      exact nonempty (unescape_eq_nil unescaped)
    · intro c member
      simp [isSlash, clean.2 c member]
    · intro c member
      simp [clean.2 c member]

/-- A plain segment is one segment of the server's reading, unchanged. -/
theorem Plain.reads {segment : Bytes} (plain : Plain segment) :
    (segment.splitOnP isSlash).map dropParams = [segment] := by
  have whole : dropParams segment = segment := by
    rw [dropParams, takeWhile_eq_self_iff]
    intro c member
    exact decide_eq_true (plain.unparameterised c member)
  rw [splitOnP_eq_singleton plain.unsplit, map_singleton, whole]

/-- A parsed segment is decoded to the same value. -/
theorem decodeSegment_parsed {raw seg : Bytes} (parsed : parseSegment raw = .ok seg) :
    decodeSegment raw = some seg := by
  obtain ⟨_, unescaped, valid, plain⟩ := parseSegment_ok parsed
  have undotted : hidesDot seg = false := by
    rw [← Bool.not_eq_true, hidesDot_iff, plain.reads]
    simpa using plain.undotted
  simp [decodeSegment, unescaped, valid, undotted]

/-- A rooted text other than the root keeps its root when a trailing slash is cut. -/
theorem trimTrailing_rooted (rooted : bytes "/" <+: s) (proper : s ≠ bytes "/") :
    trimTrailing s (bytes "/") = 0x2F :: (trimTrailing s (bytes "/")).drop 1 := by
  obtain ⟨rest, rfl⟩ := rooted
  have nonempty : rest ≠ [] := by
    rintro rfl
    exact proper (append_nil _)
  unfold trimTrailing
  split
  · obtain ⟨first, more, rfl⟩ := exists_cons_of_ne_nil nonempty
    simp [show bytes "/" = [0x2F] from by decide]
  · rfl

variable {p : PathPrefix}

/-- A parsed prefix is the root, or a rooted text whose raw segments all parsed. -/
theorem parsePathPrefix_ok (parsed : parsePathPrefix s = .ok p) :
    p = { text := bytes "/", segments := [] } ∨
      ∃ body, p.text = 0x2F :: body ∧ (body.splitOn 0x2F).mapM parseSegment = .ok p.segments := by
  unfold parsePathPrefix at parsed
  split at parsed
  · simp at parsed
  · next rooted =>
    split at parsed
    · next root =>
      left
      rw [← Except.ok.inj parsed, root]
    · next proper =>
      right
      simp only at parsed
      cases mapped : ((trimTrailing s (bytes "/")).drop 1).splitOn 0x2F |>.mapM parseSegment with
      | error message =>
        rw [mapped] at parsed
        simp [Except.map] at parsed
      | ok segments =>
        simp only [mapped, Except.map, Except.ok.injEq] at parsed
        subst parsed
        have begins : bytes "/" <+: s := isPrefixOf_iff_prefix.mp (by simpa using rooted)
        exact ⟨(trimTrailing s (bytes "/")).drop 1, trimTrailing_rooted begins proper, mapped⟩

section Body

variable {body : Bytes} {segments : List Bytes}

section

variable (mapped : (body.splitOn 0x2F).mapM parseSegment = .ok segments)
include mapped

/-- The raw segments of a parsed text decode to its segments. -/
theorem decode_body :
    (body.splitOn 0x2F).map decodeSegment = segments.map some :=
  map_transfer (fun _ _ => decodeSegment_parsed) ((mapM_ok_iff _ _ _).mp mapped)

/-- Every segment of a parsed text is plain. -/
theorem plain_body :
    ∀ segment ∈ segments, Plain segment := by
  intro segment member
  have inside : Except.ok segment ∈ (body.splitOn 0x2F).map parseSegment := by
    rw [(mapM_ok_iff _ _ _).mp mapped]
    exact mem_map_of_mem member
  obtain ⟨raw, _, parsed⟩ := mem_map.mp inside
  exact (parseSegment_ok parsed).2.2.2

/-- No raw segment of a parsed text is empty. -/
theorem raw_body :
    [] ∉ body.splitOn 0x2F := by
  intro member
  have inside : parseSegment [] ∈ segments.map Except.ok := by
    rw [← (mapM_ok_iff _ _ _).mp mapped]
    exact mem_map_of_mem member
  obtain ⟨segment, _, parsed⟩ := mem_map.mp inside
  exact (parseSegment_ok parsed.symm).1 rfl

/-- A parsed text has something after its root. -/
theorem body_ne_nil : body ≠ [] := by
  rintro rfl
  exact raw_body mapped (by simp)

/-- A parsed text parses to the same prefix: it has no trailing slash, because that
would leave an empty last segment. -/
theorem parse_body :
    parsePathPrefix (0x2F :: body) = .ok { text := 0x2F :: body, segments := segments } := by
  have slash : bytes "/" = [0x2F] := by decide
  have proper : (0x2F :: body : Bytes) ≠ bytes "/" := by
    rw [slash]
    simpa using body_ne_nil mapped
  have untrimmed : trimTrailing (0x2F :: body) (bytes "/") = 0x2F :: body := by
    rw [trimTrailing, if_neg]
    intro trailing
    obtain ⟨before, whole⟩ := isSuffixOf_iff_suffix.mp trailing
    rw [slash] at whole
    cases before with
    | nil => exact body_ne_nil mapped (by simpa using whole.symm)
    | cons first more =>
      have ends : body = more ++ [0x2F] := (List.cons.inj whole).2.symm
      refine raw_body mapped ?_
      rw [ends, splitOn_append_cons_self]
      simp
  have rooted : (bytes "/").isPrefixOf (0x2F :: body) = true := by simp [slash]
  simp only [parsePathPrefix, rooted, untrimmed, if_neg proper, drop_succ_cons, drop_zero, mapped]
  rfl

end

end Body

/-! ## Matching -/

/-- Matching is having the prefix's segments in front. -/
theorem matches_iff (p : PathPrefix) (escaped : Bytes) :
    p.matches escaped = true ↔ ∃ extra, decodePath escaped = some (p.segments ++ extra) := by
  unfold PathPrefix.matches
  cases decodePath escaped with
  | none => simp
  | some segments =>
    simp only [Bool.and_eq_true, decide_eq_true_eq, beq_iff_eq, Option.some.injEq]
    constructor
    · rintro ⟨_, front⟩
      refine ⟨segments.drop p.segments.length, ?_⟩
      calc segments = segments.take p.segments.length ++ segments.drop p.segments.length :=
            (take_append_drop _ _).symm
        _ = p.segments ++ segments.drop p.segments.length := by rw [front]
    · rintro ⟨extra, rfl⟩
      simp

section

variable (parsed : parsePathPrefix s = .ok p)
include parsed

/-- A parsed prefix extended at a slash by a path that decodes is matched. -/
theorem matches_extended (rest : Bytes)
    (decodes : (decodePath rest).isSome) : p.matches (p.string ++ bytes "/" ++ rest) = true := by
  have slash : bytes "/" = [0x2F] := by decide
  rw [decodePath_isSome] at decodes
  rw [matches_iff, slash, append_assoc, singleton_append, PathPrefix.string]
  rcases parsePathPrefix_ok parsed with rfl | ⟨body, text, mapped⟩
  · rw [slash, singleton_append]
    apply Option.isSome_iff_exists.mp
    rw [decodePath_isSome, splitOn_slash, splitOn_slash]
    simpa [decodeSegment_nil] using decodes
  · obtain ⟨extra, decoded⟩ := mapM_isSome _ _ decodes
    refine ⟨extra, ?_⟩
    rw [text, cons_append, decodePath_rooted _ (by simp), splitOn_append_cons_self, mapM_some_iff,
      map_append, map_append, decode_body mapped, (mapM_some_iff _ _ _).mp decoded]

/-- A parsed prefix is matched by its own text. -/
theorem matches_self :
    p.matches p.string = true := by
  rw [matches_iff, PathPrefix.string]
  rcases parsePathPrefix_ok parsed with rfl | ⟨body, text, mapped⟩
  · exact ⟨[], by decide⟩
  · refine ⟨[], ?_⟩
    rw [text, decodePath_rooted _ (body_ne_nil mapped), mapM_some_iff, decode_body mapped,
      append_nil]

/-- The text of a parsed prefix parses to that prefix. -/
theorem parse_string :
    parsePathPrefix p.string = .ok p := by
  rcases parsePathPrefix_ok parsed with rfl | ⟨body, text, mapped⟩
  · decide
  · rw [PathPrefix.string, text, parse_body mapped, ← text]

/-- Every segment of a parsed prefix is plain. -/
theorem parsed_plain :
    ∀ segment ∈ p.segments, Plain segment := by
  rcases parsePathPrefix_ok parsed with rfl | ⟨body, text, mapped⟩
  · simp
  · exact plain_body mapped

end

/-- A path that decodes has a server's reading. -/
theorem decodePath_unescapes {escaped : Bytes} (decodes : (decodePath escaped).isSome) :
    ∃ decoded, pathUnescape escaped = some decoded := by
  rw [decodePath_isSome] at decodes
  have pieces : ∀ raw ∈ escaped.splitOn 0x2F, (pathUnescape raw).isSome := by
    intro raw member
    obtain ⟨segment, decoded⟩ := Option.isSome_iff_exists.mp (decodes raw member)
    rw [(decodeSegment_some decoded).1]
    rfl
  obtain ⟨values, mapped⟩ := mapM_isSome _ _ pieces
  exact ⟨[0x2F].intercalate values, by rw [pathUnescape_segments, mapped]; rfl⟩

/-- The decoded segments, joined by slashes, are the decoded path up to its root. -/
theorem decodePath_joined {escaped : Bytes} {segments : List Bytes}
    (decoded : decodePath escaped = some segments) (nonempty : segments ≠ []) :
    (pathUnescape escaped = some ([0x2F].intercalate segments) ∨
      pathUnescape escaped = some (0x2F :: [0x2F].intercalate segments)) ∧
    ∀ segment ∈ segments, hidesDot segment = false := by
  have mapped : ((trimLeading escaped (bytes "/")).splitOn 0x2F).mapM decodeSegment =
      some segments := by
    rw [decodePath] at decoded
    split at decoded
    · exact absurd (Option.some.inj decoded).symm nonempty
    · exact decoded
  have unescaped : pathUnescape (trimLeading escaped (bytes "/")) =
      some ([0x2F].intercalate segments) := by
    have pieces := map_transfer (fun _ _ here => (decodeSegment_some here).1)
      ((mapM_some_iff _ _ _).mp mapped)
    rw [pathUnescape_segments, (mapM_some_iff _ _ _).mpr pieces]
    rfl
  constructor
  · rcases trimLeading_slash escaped with same | rooted
    · left
      rwa [same]
    · right
      rw [rooted]
      unfold pathUnescape at unescaped ⊢
      rw [unescape_cons false _ _ (by decide), unescaped]
      rfl
  · intro segment member
    obtain ⟨raw, _, here⟩ := (mem_mapM mapped segment).mp member
    exact (decodeSegment_some here).2

/-- Plain segments are read one by one. -/
theorem plain_reads (pieces : List Bytes) (plain : ∀ piece ∈ pieces, Plain piece) :
    (pieces.flatMap (·.splitOnP isSlash)).map dropParams = pieces := by
  induction pieces with
  | nil => rfl
  | cons first rest ih =>
    rw [flatMap_cons, map_append, (plain first mem_cons_self).reads,
      ih fun piece member => plain piece (mem_cons_of_mem first member), singleton_append]

/-- A path whose first decoded segment is plain is read from that segment on, with
or without a slash in front. -/
theorem segments_joined (first : Bytes) (rest : List Bytes) (plain : Plain first) {text : Bytes}
    (joined : text = [0x2F].intercalate (first :: rest) ∨
      text = 0x2F :: [0x2F].intercalate (first :: rest)) :
    segments text = ((first :: rest).flatMap (·.splitOnP isSlash)).map dropParams := by
  obtain ⟨c, more, rfl⟩ := exists_cons_of_ne_nil plain.nonempty
  obtain ⟨tail, begins⟩ : ∃ tail, [0x2F].intercalate ((c :: more) :: rest) = c :: tail := by
    cases rest with
    | nil => exact ⟨more, by simp⟩
    | cons second others => exact ⟨more ++ [0x2F] ++ [0x2F].intercalate (second :: others), by simp⟩
  have named : isSlash c = false := plain.unsplit c mem_cons_self
  have trimmed : trimRoot text = [0x2F].intercalate ((c :: more) :: rest) := by
    rcases joined with rfl | rfl
    · simp [trimRoot, named]
    · simp [trimRoot, show isSlash 0x2F = true from by decide]
  have proper : trimRoot text ≠ [] := by
    rw [trimmed, begins]
    exact cons_ne_nil c tail
  rw [segments, if_neg proper, trimmed, splitOnP_intercalate _ (cons_ne_nil _ _)]

/-- A matched path leads under the prefix's segments. The first of them is plain, so
the decoded path is rooted where its segments start; each is one segment of the
server's reading; and nothing in the path is resolved away. -/
theorem matches_confined (parsed : parsePathPrefix s = .ok p) {escaped : Bytes}
    (matched : p.matches escaped = true) :
    ∃ extra, permissive escaped = some (p.segments ++ extra) := by
  obtain ⟨others, decoded⟩ := (matches_iff p escaped).mp matched
  have plain := parsed_plain parsed
  cases named : p.segments with
  | nil =>
    obtain ⟨text, unescaped⟩ := decodePath_unescapes (by rw [decoded]; rfl)
    exact ⟨resolve (segments text), by rw [permissive, reading, unescaped]; rfl⟩
  | cons first rest =>
    rw [named] at decoded plain
    obtain ⟨unescaped, undotted⟩ := decodePath_joined decoded (cons_ne_nil _ _)
    obtain ⟨text, whole, joined⟩ : ∃ text, pathUnescape escaped = some text ∧
        (text = [0x2F].intercalate (first :: (rest ++ others)) ∨
          text = 0x2F :: [0x2F].intercalate (first :: (rest ++ others))) := by
      rcases unescaped with bare | rooted
      · exact ⟨_, bare, Or.inl rfl⟩
      · exact ⟨_, rooted, Or.inr rfl⟩
    have read := segments_joined first (rest ++ others) (plain first mem_cons_self) joined
    have dotFree : ∀ segment ∈ segments text, ¬ Dot segment := by
      intro segment member dot
      rw [read, ← splitOnP_intercalate _ (cons_ne_nil _ _)] at member
      obtain ⟨piece, inside, hidden⟩ := (joined_dots _ (cons_ne_nil _ _)).mpr ⟨segment, member, dot⟩
      rw [undotted piece inside] at hidden
      cases hidden
    refine ⟨(others.flatMap (·.splitOnP isSlash)).map dropParams, ?_⟩
    rw [permissive, reading, whole, Option.map_some, Option.map_some, resolve_plain _ dotFree, read,
      ← cons_append, flatMap_append, map_append, plain_reads _ plain]

/-- Path prefixes confine. A path that a parsed prefix matches leads, read as
permissively as a server may, to a place under the prefix's segments. The prefix is
matched by its own text, alone or followed by a slash and any path that decodes;
its text parses to it again; and a prefix with fewer segments matches whatever one
with more does. -/
theorem path_prefix_confines (s : Bytes) (p : PathPrefix) (parsed : parsePathPrefix s = .ok p) :
    (∀ escaped, p.matches escaped = true →
      ∃ extra, permissive escaped = some (p.segments ++ extra)) ∧
    (p.matches p.string = true ∧ p.matches (p.string ++ bytes "/") = true ∧
      ∀ rest, (decodePath rest).isSome → p.matches (p.string ++ bytes "/" ++ rest) = true) ∧
    parsePathPrefix p.string = .ok p ∧
    ∀ q : PathPrefix, p.segments <+: q.segments →
      ∀ escaped, q.matches escaped = true → p.matches escaped = true := by
  refine ⟨fun escaped => matches_confined parsed,
    ⟨matches_self parsed, ?_, matches_extended parsed⟩, parse_string parsed, ?_⟩
  · simpa using matches_extended parsed [] (by decide)
  · rintro q ⟨more, longer⟩ escaped matched
    obtain ⟨extra, decoded⟩ := (matches_iff q escaped).mp matched
    refine (matches_iff p escaped).mpr ⟨more ++ extra, ?_⟩
    rw [decoded, ← longer, append_assoc]

/-- An escaped letter in a prefix, and a trailing slash. -/
theorem path_prefix_confines_escaped :
    ∃ extra, permissive (bytes "/repos/o/x%5Cy") = some ([bytes "repos", bytes "o"] ++ extra) :=
  (path_prefix_confines (bytes "/repos/%6F/") ⟨bytes "/repos/%6F", [bytes "repos", bytes "o"]⟩
    (by decide)).1 (bytes "/repos/o/x%5Cy") (by decide)

/-! ## The limit and the proxy -/

/-- A request path up to what is forwarded. -/
def route (name upstream : Bytes) : Bytes := bytes "/proxy/" ++ (name ++ 0x2F :: upstream)

/-- A raw segment that decodes to text. -/
def Textual (raw : Bytes) : Prop := ∃ seg, pathUnescape raw = some seg ∧ Utf8.validString seg = true

/-- A raw segment that decodes and hides no dot segment. -/
def Undotted (raw : Bytes) : Prop := ∃ seg, pathUnescape raw = some seg ∧ hidesDot seg = false

theorem decodeSegment_isSome (raw : Bytes) : (decodeSegment raw).isSome ↔
    Undotted raw ∧ Textual raw := by
  unfold decodeSegment Undotted Textual
  cases pathUnescape raw with
  | none => simp
  | some seg =>
    cases valid : Utf8.validString seg <;> cases hidden : hidesDot seg <;> simp [valid, hidden]

/-- The empty segment passes both. -/
theorem undotted_nil : Undotted [] := ⟨[], by decide, by decide⟩

/-- What is forwarded is what is left after the fourth slash, if there are as many. -/
theorem remainder_route {name upstream : Bytes} (named : 0x2F ∉ name) (known : 0x2F ∉ upstream) :
    remainder (route name upstream) = none ∧
      ∀ after, remainder (route name upstream ++ 0x2F :: after) = some after := by
  have pieces (rest : Bytes) : splitN 0x2F 5 (bytes "/proxy/" ++ (name ++ 0x2F :: rest)) =
      [] :: bytes "proxy" :: name :: splitN 0x2F 2 rest := by
    change splitN 0x2F 5 ([] ++ 0x2F :: (bytes "proxy" ++ 0x2F :: (name ++ 0x2F :: rest))) = _
    rw [splitN_append not_mem_nil, splitN_append (by decide), splitN_append named]
  constructor
  · rw [remainder, route, pieces, splitN_of_not_mem known]
    rfl
  · intro after
    rw [remainder, route, append_assoc, append_assoc, cons_append, pieces, splitN_append known]
    rfl

/-- The proxy accepts a path if each of the raw segments it would forward passes. -/
theorem forwardedPath_isSome (escaped : Bytes) :
    (forwardedPath escaped).isSome ↔ ∀ rest, remainder escaped = some rest →
      ∀ raw ∈ rest.splitOn 0x2F, Undotted raw := by
  unfold forwardedPath
  cases remainder escaped with
  | none => simp
  | some rest =>
    simp only [Option.isSome_ite, all_eq_true]
    constructor
    · intro every other same raw member
      cases same
      have passed := every raw member
      cases unescaped : pathUnescape raw with
      | none => simp [unescaped] at passed
      | some seg => exact ⟨seg, unescaped, by simpa [unescaped] using passed⟩
    · intro every raw member
      obtain ⟨seg, unescaped, plain⟩ := every rest rfl raw member
      simp [unescaped, plain]

/-- What is forwarded of a path that is accepted is the path after the Upstream's name. -/
theorem forwardedPath_route {name upstream rest : Bytes} (named : 0x2F ∉ name)
    (known : 0x2F ∉ upstream) (rooted : rest = [] ∨ bytes "/" <+: rest)
    (accepted : (forwardedPath (route name upstream ++ rest)).isSome) :
    forwardedPath (route name upstream ++ rest) = some rest := by
  obtain ⟨short, long⟩ := remainder_route named known
  rcases rooted with rfl | ⟨after, rfl⟩
  · rw [append_nil, forwardedPath, short]
  · have left := long after
    obtain ⟨out, forwarded⟩ := Option.isSome_iff_exists.mp accepted
    unfold forwardedPath at forwarded ⊢
    change remainder (route name upstream ++ (bytes "/" ++ after)) = some after at left
    rw [left] at forwarded ⊢
    dsimp only at forwarded ⊢
    split at forwarded
    · next passed => rw [if_pos passed]; rfl
    · cases forwarded

/-- The limit on paths and the proxy agree. What `decodePath` accepts of the path after the
Upstream's name is what `forwardedPath` accepts of the request path, as far as it decodes to
text. So a prefix matches only what is forwarded, as it is; and of what decodes to text both
read the same segments. -/
theorem path_checks_agree (name upstream rest : Bytes) (named : 0x2F ∉ name)
    (known : 0x2F ∉ upstream) (rooted : rest = [] ∨ bytes "/" <+: rest) :
    ((decodePath rest).isSome ↔
      (forwardedPath (route name upstream ++ rest)).isSome ∧ ∀ raw ∈ rest.splitOn 0x2F,
        Textual raw) ∧
    (∀ p : PathPrefix, p.matches rest = true →
      forwardedPath (route name upstream ++ rest) = some rest) ∧
    ((∀ raw ∈ rest.splitOn 0x2F, Textual raw) →
      (forwardedPath (route name upstream ++ rest)).isSome →
      decodePath rest = (if rest = [] ∨
        rest = bytes "/" then some [] else (rest.tail.splitOn 0x2F).mapM pathUnescape)) := by
  obtain ⟨short, long⟩ := remainder_route named known
  have accepted : (forwardedPath (route name upstream ++ rest)).isSome ↔
      ∀ raw ∈ rest.splitOn 0x2F, Undotted raw := by
    rw [forwardedPath_isSome]
    rcases rooted with rfl | ⟨after, rfl⟩
    · rw [append_nil, short]
      simp [undotted_nil]
    · change (∀ left, remainder (route name upstream ++ 0x2F :: after) = some left → _) ↔
        ∀ raw ∈ (0x2F :: after).splitOn 0x2F, _
      rw [long, splitOn_slash, forall_mem_cons]
      exact ⟨fun every => ⟨undotted_nil, every after rfl⟩,
        fun every left same => Option.some.inj same ▸ every.2⟩
  have agree : (decodePath rest).isSome ↔
      (forwardedPath (route name upstream ++ rest)).isSome ∧ ∀ raw ∈ rest.splitOn 0x2F,
        Textual raw := by
    rw [decodePath_isSome, accepted, ← forall₂_and]
    exact forall₂_congr fun raw _ => decodeSegment_isSome raw
  refine ⟨agree, fun p matched => ?_, fun textual forwards => ?_⟩
  · obtain ⟨extra, decoded⟩ := (matches_iff p rest).mp matched
    exact forwardedPath_route named known rooted (agree.mp (by rw [decoded]; rfl)).1
  · obtain ⟨segments, decoded⟩ := Option.isSome_iff_exists.mp (agree.mpr ⟨forwards, textual⟩)
    rcases rooted with rfl | ⟨after, rfl⟩
    · rfl
    · change decodePath (0x2F :: after) = some segments at decoded
      change decodePath (0x2F :: after) =
        if 0x2F :: after = [] ∨ 0x2F :: after = [0x2F] then some []
        else (after.splitOn 0x2F).mapM pathUnescape
      by_cases bare : after = []
      · subst bare
        rfl
      · rw [if_neg (by simpa using bare), decoded]
        rw [decodePath_rooted after bare, mapM_some_iff] at decoded
        exact ((mapM_some_iff _ _ _).mpr
          (map_transfer (fun raw seg read => (decodeSegment_some read).1) decoded)).symm

/-- A path with an escaped letter. -/
theorem path_checks_agree_escaped :
    (forwardedPath (route (bytes "github") (bytes "api") ++ bytes "/repos/%6F")).isSome ∧
      decodePath (bytes "/repos/%6F") = some [bytes "repos", bytes "o"] := by
  have agree := path_checks_agree (bytes "github") (bytes "api") (bytes "/repos/%6F") (by decide)
    (by decide) (Or.inr (by decide))
  exact ⟨(agree.1.mp (by decide)).1, by decide⟩

end TrustedCourier.Config
