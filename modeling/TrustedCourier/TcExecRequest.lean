import TrustedCourier.PathPrefix
import TrustedCourier.TcExec
import TrustedCourier.UrlPaths

/-!
# Named requests of tc-exec

The broker sends a request for a Resource of its profile to the Agent API: the method must
be one of the Resource's, and the decoded path must lie under one of its path prefixes,
compared as text. What it sends is the escaped path, behind the route of the Resource's
Secret Name and Upstream.

A Policy reads a prefix differently: by decoded segments, and with no dot segment in any
encoding. A path that is sent is one such a prefix matches exactly when four things hold
of the request: it decodes to UTF-8, no part of it is a dot segment, it begins with the
prefix's decoded text, and the slashes up to there are not escaped. The last does not
matter where the written path is not kept, because escaping it again leaves every slash
bare.
-/

namespace TrustedCourier.TcExec

open ByteStrings UrlEscapes UrlPaths ServerPaths ForwardedPath Config List

/-! ## The request -/

/-- What the profile lets a command reach. -/
structure Resource where
  secretName : Bytes
  upstream : Bytes
  methods : List Bytes
  pathPrefixes : List Bytes

/-- What `httpRequest` reads of a message. -/
structure Named where
  resource : Bytes
  method : Bytes
  path : Bytes

/-- A request to the Agent API: its method, and the path and query of its URL. -/
structure Sent where
  method : Bytes
  escapedPath : Bytes
  rawQuery : Bytes
deriving DecidableEq, Repr

/-- `url.ParseRequestURI` on a text that starts with a slash: such a URL has no scheme,
no host and no fragment, and everything up to a question mark is its path. -/
def parseRequestURI (text : Bytes) : Option (UrlPath × Bytes) :=
  if hasControl text then none
  else
    let (path, rawQuery, _) := cut text 0x3F
    (setPath path).map (·, rawQuery)

/-- The test `httpRequest` makes for one prefix. -/
def allows (path p : Bytes) : Bool :=
  p == bytes "/" || path == p || (trimTrailing p (bytes "/") ++ bytes "/").isPrefixOf path

/-- Where the request for a path of a Resource goes. -/
def target (base : UrlPath) (r : Resource) (u : UrlPath) : UrlPath where
  path := trimTrailing base.path (bytes "/") ++ bytes "/proxy/" ++ r.secretName ++ bytes "/" ++
    r.upstream ++ u.path
  rawPath := trimTrailing base.escapedPath (bytes "/") ++ bytes "/proxy/" ++
    pathEscape r.secretName ++ bytes "/" ++ pathEscape r.upstream ++ u.escapedPath

/-- The method of the request that `http.NewRequestWithContext` makes: an empty one means
`GET`. -/
def requestMethod (method : Bytes) : Bytes := if method = [] then bytes "GET" else method

/-- `httpRequest` up to the call of `client.Do`: the request it makes, or its reply if it
makes none. `base` is the path of the Agent API's URL, if that parses, and `valid` says
whether `http.NewRequestWithContext` accepts the method and the URL. -/
def httpRequest (resources : Bytes → Option Resource) (base : Option UrlPath) (valid : Bool)
    (m : Named) :
    Except Reply Sent :=
  match resources m.resource with
  | none => .error (failure "unknown resource")
  | some r =>
    if !r.methods.contains m.method then .error (failure "method denied")
    else if !(bytes "/").isPrefixOf m.path then .error (failure "invalid path")
    else
      match parseRequestURI m.path with
      | none => .error (failure "invalid path")
      | some (u, rawQuery) =>
        if contains m.path (bytes "..") then .error (failure "invalid path")
        else if !r.pathPrefixes.any (allows u.path) then .error (failure "path denied")
        else
          match base with
          | none => .error (failure "invalid Agent API URL")
          | some base =>
            if valid then
              .ok { method := requestMethod m.method,
                    escapedPath := (target base r u).escapedPath, rawQuery := rawQuery }
            else .error (failure "invalid request")

/-- The written path of a request. -/
def Named.rawPath (m : Named) : Bytes := (cut m.path 0x3F).1

/-- What a request that is sent went through. -/
theorem httpRequest_sent {resources : Bytes → Option Resource} {base : Option UrlPath}
    {valid : Bool} {m : Named}
    {r : Resource} (known : resources m.resource = some r) {sent : Sent}
    (sends : httpRequest resources base valid m = .ok sent) :
    ∃ agent u, base = some agent ∧ m.method ∈ r.methods ∧ sent.method = requestMethod m.method ∧
      (∃ rest, m.path = 0x2F :: rest) ∧
      setPath m.rawPath = some u ∧ sent.escapedPath = (target agent r u).escapedPath := by
  revert sends
  -- One branch of `httpRequest` sends.
  fun_cases httpRequest resources base valid m <;> rintro ⟨⟩
  case case8 resource found listed rooted u query parsed _ _ agent _ =>
    cases known.symm.trans found
    have member : m.method ∈ r.methods := by simpa using listed
    have begins : bytes "/" <+: m.path := isPrefixOf_iff_prefix.mp (by simpa using rooted)
    obtain ⟨rest, whole⟩ := begins
    unfold parseRequestURI at parsed
    split at parsed
    · simp at parsed
    · obtain ⟨path, set, same⟩ := Option.map_eq_some_iff.mp parsed
      obtain ⟨rfl, _⟩ := Prod.mk.inj same
      exact ⟨agent, path, rfl, member, rfl, ⟨rest, whole.symm⟩, set, rfl⟩

/-! ## The path that is sent -/

/-- The path of the Agent API's URL does not end in an escaped slash. -/
def keepsRoot (base : UrlPath) : Prop := bytes "/" <:+ base.path → bytes "/" <:+ base.escapedPath

instance (base : UrlPath) : Decidable (keepsRoot base) := inferInstanceAs (Decidable (_ → _))

/-- The route of a Resource, decoded. -/
def routePath (base : UrlPath) (r : Resource) : Bytes :=
  trimTrailing base.path (bytes "/") ++ bytes "/proxy/" ++ r.secretName ++ bytes "/" ++ r.upstream

/-- The route of a Resource as it is sent. -/
def route (base : UrlPath) (r : Resource) : Bytes :=
  if keepsRoot base then
    trimTrailing base.escapedPath (bytes "/") ++ bytes "/proxy/" ++ pathEscape r.secretName ++
      bytes "/" ++ pathEscape r.upstream
  else escape false (routePath base r)

/-- What is sent behind the route. -/
def forwarded (base : UrlPath) (u : UrlPath) : Bytes :=
  if keepsRoot base then u.escapedPath else escape false u.path

/-- Without a trailing slash the escaped path of a URL still decodes, and to the path
without a trailing slash if the slash was not escaped. -/
theorem trimmed_base (base : UrlPath) :
    ∃ decoded, pathUnescape (trimTrailing base.escapedPath (bytes "/")) = some decoded ∧
      (decoded = trimTrailing base.path (bytes "/") ↔ keepsRoot base) := by
  have slash : bytes "/" = [0x2F] := by decide
  have unescaped := (escapedPath_sound base).2
  by_cases ends : bytes "/" <:+ base.escapedPath
  · obtain ⟨front, whole⟩ := ends
    rw [slash] at whole
    rw [← whole, pathUnescape, unescape_split false front [] 0x2F (by decide)
      (by decide)] at unescaped
    obtain ⟨first, decoded, path⟩ := Option.bind_eq_some_iff.mp unescaped
    have trimmed : trimTrailing base.path [0x2F] = first := by
      rw [← Option.some.inj path]
      exact trimTrailing_append first [0x2F]
    refine ⟨first, by rw [slash, ← whole, trimTrailing_append]; exact decoded, ?_⟩
    rw [slash, trimmed]
    exact ⟨fun _ _ => ⟨front, by rw [slash]; exact whole⟩, fun _ => rfl⟩
  · refine ⟨base.path, by rw [trimTrailing_of_not ends]; exact unescaped, ?_⟩
    constructor
    · intro same slashed
      obtain ⟨front, whole⟩ := slashed
      rw [← whole, trimTrailing_append] at same
      exact absurd (congrArg List.length same) (by simp [slash])
    · intro kept
      rw [trimTrailing_of_not fun slashed => ends (kept slashed)]

/-- Pieces that decode one by one decode together. -/
theorem pathUnescape_append {left right first second : Bytes}
    (decoded : pathUnescape left = some first) (decodedNext : pathUnescape right = some second) :
    pathUnescape (left ++ right) = some (first ++ second) := by
  unfold pathUnescape at decoded decodedNext ⊢
  rw [unescape_append false decoded, decodedNext]
  rfl

/-- What a request sends is the route of its Resource and the path behind it. -/
theorem target_escapedPath (base : UrlPath) (r : Resource) (u : UrlPath) :
    (target base r u).escapedPath = route base r ++ forwarded base u := by
  obtain ⟨decoded, unescaped, same⟩ := trimmed_base base
  have proxy : pathUnescape (bytes "/proxy/") = some (bytes "/proxy/") := by decide
  have slash : pathUnescape (bytes "/") = some (bytes "/") := by decide
  have unescapedTarget : pathUnescape (target base r u).rawPath =
      some (decoded ++ bytes "/proxy/" ++ r.secretName ++ bytes "/" ++ r.upstream ++ u.path) :=
    pathUnescape_append (pathUnescape_append (pathUnescape_append (pathUnescape_append
      (pathUnescape_append unescaped proxy) (pathUnescape_escape true _)) slash)
        (pathUnescape_escape true _))
      (escapedPath_sound u).2
  have valid : validEncoded (target base r u).rawPath = true := by
    have root : validEncoded (trimTrailing base.escapedPath (bytes "/")) = true := by
      have whole := (escapedPath_sound base).1
      rw [validEncoded, all_eq_true] at whole ⊢
      intro c member
      exact whole c (trimTrailing_subset _ _ member)
    have parts :=
      And.intro (validEncoded_escape true r.secretName) (validEncoded_escape true r.upstream)
    have rest := (escapedPath_sound u).1
    unfold validEncoded at root parts rest ⊢
    simp only [target, pathEscape, all_append, root, parts, rest, Bool.and_true, Bool.true_and]
    decide
  have long : 1 < (target base r u).path.length ∧ 1 < (target base r u).rawPath.length := by
    have size : (bytes "/proxy/").length = 7 := by decide
    simp only [target, length_append, size]
    omega
  have nonempty : (target base r u).rawPath ≠ [] := by
    intro none
    rw [none] at long
    simp at long
  have proper : (target base r u).path ≠ bytes "*" := by
    intro star
    rw [star] at long
    exact absurd long.1 (by decide)
  by_cases kept : keepsRoot base
  · have path : pathUnescape (target base r u).rawPath = some (target base r u).path := by
      rw [unescapedTarget, same.mpr kept]
      rfl
    rw [UrlPath.escapedPath, if_pos (by simp [nonempty, valid, path]), route, forwarded,
      if_pos kept, if_pos kept]
    rfl
  · have path : pathUnescape (target base r u).rawPath ≠ some (target base r u).path := by
      intro equal
      rw [unescapedTarget] at equal
      refine kept (same.mp ?_)
      have cancelled := Option.some.inj equal
      simp only [target, append_cancel_right_eq] at cancelled
      exact cancelled
    rw [UrlPath.escapedPath, if_neg (by simp [path]), if_neg proper, route, forwarded, if_neg kept,
      if_neg kept]
    simp only [escape, routePath, target, flatMap_append]

/-- The route decodes to the Resource's names behind the path of the Agent API. -/
theorem route_unescapes (base : UrlPath) (r : Resource) :
    pathUnescape (route base r) = some (routePath base r) := by
  unfold route
  split
  · next kept =>
    obtain ⟨decoded, unescaped, same⟩ := trimmed_base base
    rw [same.mpr kept] at unescaped
    exact pathUnescape_append
      (pathUnescape_append (pathUnescape_append (pathUnescape_append unescaped (by decide))
      (pathUnescape_escape true _)) (by decide)) (pathUnescape_escape true _)
  · exact pathUnescape_escape false _

/-! ## Matching a prefix -/

/-- A decoded path begins with segments, up to its end or a slash. -/
def Under (segments : List Bytes) (decoded : Bytes) : Prop :=
  ∃ rest, decoded = segments.flatMap (0x2F :: ·) ++ rest ∧ (rest = [] ∨ ∃ more, rest = 0x2F :: more)

/-- None of the first `n` segments of a written path holds an escaped slash. -/
def BareSlashes (raw : Bytes) (n : Nat) : Prop :=
  ∀ piece ∈ ((raw.drop 1).splitOn 0x2F).take n, ∀ decoded, pathUnescape piece = some decoded →
    0x2F ∉ decoded

/-- Texts without a slash that are followed by a slash or nothing are equal if the whole
texts are. -/
theorem cut_unique {left right more others : Bytes} (clean : 0x2F ∉ left)
    (cleanOther : 0x2F ∉ right) (ends : more = [] ∨ ∃ rest, more = 0x2F :: rest)
    (endsOther : others = [] ∨ ∃ rest, others = 0x2F :: rest)
    (same : left ++ more = right ++ others) : left = right ∧ more = others := by
  have first : ∀ {text tail : Bytes}, 0x2F ∉ text → (tail = [] ∨ ∃ rest, tail = 0x2F :: rest) →
      (text ++ tail).takeWhile (· ≠ 0x2F) = text := by
    intro text tail absent begins
    have kept : ∀ c ∈ text, decide (c ≠ 0x2F) = true :=
      fun c member => decide_eq_true fun slash => absent (slash ▸ member)
    rw [takeWhile_append_of_pos kept]
    rcases begins with rfl | ⟨rest, rfl⟩
    · simp
    · simp
  have equal : left = right := by rw [← first clean ends, ← first cleanOther endsOther, same]
  rw [equal] at same
  exact ⟨equal, append_cancel_left same⟩

/-- Segments after slashes are nothing, or begin with a slash. -/
theorem segments_begin (pieces : List Bytes) :
    pieces.flatMap (0x2F :: ·) = [] ∨ ∃ rest, pieces.flatMap (0x2F :: ·) = 0x2F :: rest := by
  cases pieces with
  | nil => exact Or.inl rfl
  | cons first rest => exact Or.inr ⟨_, rfl⟩

/-- Having segments in front is beginning with them as text, as long as none of the first
pieces holds a slash. -/
theorem prefix_iff_under {segments : List Bytes} (clean : ∀ segment ∈ segments, 0x2F ∉ segment)
    (pieces : List Bytes) :
    segments <+: pieces ↔ Under segments (pieces.flatMap (0x2F :: ·)) ∧
      ∀ piece ∈ pieces.take segments.length, 0x2F ∉ piece := by
  constructor
  · rintro ⟨extra, rfl⟩
    refine ⟨⟨extra.flatMap (0x2F :: ·), flatMap_append, segments_begin extra⟩,
      fun piece member => ?_⟩
    rw [take_left] at member
    exact clean piece member
  · rintro ⟨⟨rest, whole, begins⟩, bare⟩
    induction segments generalizing pieces with
    | nil => exact nil_prefix
    | cons segment segments ih =>
      cases pieces with
      | nil => simp at whole
      | cons piece pieces =>
        rw [flatMap_cons, flatMap_cons, cons_append, cons_append, cons_append,
          append_assoc] at whole
        have follows : segments.flatMap (0x2F :: ·) ++ rest = [] ∨
            ∃ more, segments.flatMap (0x2F :: ·) ++ rest = 0x2F :: more := by
          rcases segments_begin segments with none | ⟨more, some⟩
          · rw [none, nil_append]
            exact begins
          · rw [some]
            exact Or.inr ⟨_, rfl⟩
        obtain ⟨rfl, later⟩ := cut_unique (bare piece (by simp)) (clean segment mem_cons_self)
          (segments_begin pieces) follows (List.cons.inj whole).2
        rw [cons_prefix_cons]
        refine ⟨rfl, ih (fun other member => clean other (mem_cons_of_mem _ member)) pieces ?_
          later⟩
        intro other member
        exact bare other (by simp [member])

/-- Pieces joined by slashes, behind a slash. -/
theorem slashed_intercalate {pieces : List Bytes} (nonempty : pieces ≠ []) :
    0x2F :: [0x2F].intercalate pieces = pieces.flatMap (0x2F :: ·) := by
  induction pieces with
  | nil => exact absurd rfl nonempty
  | cons first rest ih =>
    cases rest with
    | nil => simp
    | cons second others =>
      rw [intercalate_cons_cons, flatMap_cons, ← ih (cons_ne_nil _ _)]
      simp

/-- A path decodes to its unescaped segments if each of them is valid and hides no dot
segment. -/
theorem decodeSegments_iff {raws pieces : List Bytes}
    (unescaped : raws.mapM pathUnescape = some pieces) (values : List Bytes) :
    raws.mapM decodeSegment = some values ↔
      values = pieces ∧ ∀ piece ∈ pieces, Utf8.validString piece = true ∧
        hidesDot piece = false := by
  have single (raw piece value : Bytes) (here : pathUnescape raw = some piece) :
      decodeSegment raw = some value ↔ value = piece ∧ Utf8.validString piece = true ∧
      hidesDot piece = false := by
    simp only [decodeSegment, here]
    cases Utf8.validString piece <;> cases hidesDot piece <;> simp [eq_comm]
  rw [mapM_some_iff] at unescaped ⊢
  induction raws generalizing pieces values with
  | nil =>
    obtain rfl := map_eq_nil_iff.mp unescaped.symm
    cases values <;> simp
  | cons raw raws ih =>
    cases pieces with
    | nil => simp at unescaped
    | cons piece pieces =>
      rw [map_cons, map_cons, List.cons.injEq] at unescaped
      cases values with
      | nil => simp
      | cons value values =>
        have later := ih unescaped.2 values
        have first := single raw piece value unescaped.1
        simp only [map_cons, List.cons.injEq, forall_mem_cons, first, later]
        tauto

/-- The pieces between slashes are valid and hide no dot segment if the whole does not. -/
theorem pieces_iff {pieces : List Bytes} (nonempty : pieces ≠ []) :
    (∀ piece ∈ pieces, Utf8.validString piece = true ∧ hidesDot piece = false) ↔
      Utf8.validString ([0x2F].intercalate pieces) = true ∧
        hidesDot ([0x2F].intercalate pieces) = false := by
  have hidden := joined_dots pieces nonempty
  rw [← hidesDot_iff] at hidden
  rw [Utf8.validString_intercalate (by decide), all_eq_true, ← Bool.not_eq_true, ← hidden]
  constructor
  · intro every
    refine ⟨fun piece member => (every piece member).1, ?_⟩
    rintro ⟨piece, member, dot⟩
    rw [(every piece member).2] at dot
    cases dot
  · rintro ⟨valid, quiet⟩ piece member
    exact ⟨valid piece member, Bool.not_eq_true _ ▸ fun dot => quiet ⟨piece, member, dot⟩⟩

/-- What a parsed prefix matches, in terms of the whole decoded path. -/
theorem matches_iff_under {s : Bytes} {q : PathPrefix} (parsed : parsePathPrefix s = .ok q)
    {body decoded : Bytes} (unescaped : pathUnescape body = some decoded) :
    q.matches (0x2F :: body) = true ↔ Utf8.validString decoded = true ∧ hidesDot decoded = false ∧
      Under q.segments (0x2F :: decoded) ∧ BareSlashes (0x2F :: body) q.segments.length := by
  have plain := parsed_plain parsed
  have clean : ∀ segment ∈ q.segments, 0x2F ∉ segment := by
    intro segment member slash
    cases (plain segment member).unsplit _ slash
  rw [pathUnescape_segments] at unescaped
  obtain ⟨pieces, mapped, rfl⟩ := Option.map_eq_some_iff.mp unescaped
  have each := (mapM_some_iff _ _ _).mp mapped
  have nonempty : pieces ≠ [] := by
    rintro rfl
    exact splitOn_ne_nil 0x2F body (map_eq_nil_iff.mp each)
  have bare : BareSlashes (0x2F :: body) q.segments.length ↔
      ∀ piece ∈ pieces.take q.segments.length, 0x2F ∉ piece := by
    have first : ((body.splitOn 0x2F).take q.segments.length).map pathUnescape =
        (pieces.take q.segments.length).map some := by
      rw [map_take, each, map_take]
    constructor
    · intro every piece member
      have inside : some piece ∈ ((body.splitOn 0x2F).take q.segments.length).map pathUnescape := by
        rw [first]
        exact mem_map_of_mem member
      obtain ⟨raw, inRaw, here⟩ := mem_map.mp inside
      exact every raw inRaw piece here
    · intro every raw member value here
      refine every value ?_
      have inside : some value ∈ (pieces.take q.segments.length).map some := by
        rw [← first, ← here]
        exact mem_map_of_mem member
      obtain ⟨piece, inPieces, same⟩ := mem_map.mp inside
      exact Option.some.inj same ▸ inPieces
  rw [bare, slashed_intercalate nonempty, ← prefix_iff_under clean, ← and_assoc,
    ← pieces_iff nonempty, matches_iff]
  by_cases root : body = []
  · subst root
    obtain rfl : pieces = [[]] := by
      have single : pieces.map some = [some []] := by rw [← each]; rfl
      obtain ⟨piece, rfl, same⟩ := map_eq_singleton_iff.mp single
      rw [Option.some.inj same]
    constructor
    · rintro ⟨extra, same⟩
      obtain ⟨empty, _⟩ := append_eq_nil_iff.mp (Option.some.inj same).symm
      rw [empty]
      exact ⟨by decide, nil_prefix⟩
    · rintro ⟨_, begins⟩
      have empty : q.segments = [] := by
        cases named : q.segments with
        | nil => rfl
        | cons first rest =>
          rw [named, cons_prefix_cons] at begins
          exact absurd begins.1 (plain first (by simp [named])).nonempty
      exact ⟨[], by rw [empty]; rfl⟩
  · rw [decodePath_rooted body root]
    constructor
    · rintro ⟨extra, decodes⟩
      obtain ⟨same, every⟩ := (decodeSegments_iff mapped _).mp decodes
      exact ⟨every, extra, same⟩
    · rintro ⟨every, extra, same⟩
      exact ⟨extra, (decodeSegments_iff mapped _).mpr ⟨same, every⟩⟩

/-- Once a path has been escaped again, no slash in it is escaped. -/
theorem bareSlashes_escape (decoded : Bytes) (n : Nat) :
    BareSlashes (0x2F :: escape false decoded) n := by
  unfold BareSlashes
  rw [drop_succ_cons, drop_zero, splitOn_escape]
  intro piece member value unescaped
  obtain ⟨raw, inRaw, rfl⟩ := mem_map.mp (mem_of_mem_take member)
  rw [pathUnescape_escape] at unescaped
  rw [← Option.some.inj unescaped]
  exact not_mem_of_mem_splitOn inRaw

/-! ## Confinement -/

/-- What has to hold of a request for a path prefix of the Resource to match what is
sent: the written path decodes to UTF-8, none of its parts is a dot segment, and for one of
the prefixes it begins with the prefix's decoded text, where no slash up to there is
escaped. The last is needed only where the written path is kept: it is validly encoded,
and the Agent API's path does not end in an escaped slash. -/
def Confined (base : UrlPath) (r : Resource) (raw : Bytes) : Prop :=
  ∃ decoded, pathUnescape raw = some decoded ∧ Utf8.validString decoded = true ∧
    hidesDot decoded = false ∧
    ∃ p ∈ r.pathPrefixes, ∃ q, parsePathPrefix p = .ok q ∧ Under q.segments decoded ∧
      (keepsRoot base → validEncoded raw = true → BareSlashes raw q.segments.length)

/-- The method that is sent is one of the Resource's, too, unless an empty one was listed and
`GET` was not. -/
theorem requestMethod_mem {methods : List Bytes} {method : Bytes} (member : method ∈ methods) :
    requestMethod method ∈ methods ↔ (method = [] → bytes "GET" ∈ methods) := by
  unfold requestMethod
  split
  · next empty => simp only [empty, forall_true_left]
  · next given => exact iff_of_true member fun empty => absurd empty given

/-- The path behind the route is the written one, if it is kept, or the decoded one
escaped again. -/
theorem forwarded_eq {base : UrlPath} {raw : Bytes} {u : UrlPath} (set : setPath raw = some u)
    (proper : u.path ≠ bytes "*") :
    forwarded base u = if keepsRoot base ∧ validEncoded raw = true then raw
      else escape false u.path := by
  unfold forwarded
  rw [escapedPath_setPath set proper]
  by_cases kept : keepsRoot base <;> by_cases valid : validEncoded raw = true <;> simp [kept, valid]

/-- Whether a prefix matches what is sent behind the route, in terms of the request. -/
theorem matches_forwarded {base : UrlPath} {body : Bytes} {u : UrlPath}
    (set : setPath (0x2F :: body) = some u) {s : Bytes} {q : PathPrefix}
    (parsed : parsePathPrefix s = .ok q) :
    q.matches (forwarded base u) = true ↔ Utf8.validString u.path = true ∧ hidesDot u.path = false ∧
      Under q.segments u.path ∧ (keepsRoot base → validEncoded (0x2F :: body) = true →
        BareSlashes (0x2F :: body) q.segments.length) := by
  obtain ⟨path, unescaped, rfl⟩ := Option.map_eq_some_iff.mp set
  rw [pathUnescape, unescape_cons false 0x2F body (by decide)] at unescaped
  obtain ⟨decoded, unescapedBody, rfl⟩ := Option.map_eq_some_iff.mp unescaped
  have rooted : plain false 0x2F = (0x2F : UInt8) := rfl
  rw [rooted] at set ⊢
  have proper : 0x2F :: decoded ≠ bytes "*" := by
    intro star
    exact absurd (List.cons.inj (star.trans (by decide : bytes "*" = [0x2A]))).1 (by decide)
  have valid : Utf8.validString (0x2F :: decoded) = Utf8.validString decoded :=
    Utf8.validString_append_ascii [] (by decide : (0x2F : UInt8) < 0x80) decoded
  have hidden : hidesDot (0x2F :: decoded) = hidesDot decoded := by
    unfold hidesDot fieldsFunc
    rw [splitOnP_cons_eq_if_modifyHead, if_pos (by decide), filter_cons_of_neg (by simp)]
  rw [forwarded_eq set proper, valid, hidden]
  by_cases kept : keepsRoot base ∧ validEncoded (0x2F :: body) = true
  · rw [if_pos kept, matches_iff_under parsed unescapedBody]
    simp only [kept.1, kept.2, forall_true_left]
  · have rewritten : escape false (0x2F :: decoded) = 0x2F :: escape false decoded := rfl
    rw [if_neg kept, rewritten, matches_iff_under parsed (pathUnescape_escape false decoded)]
    have bare := bareSlashes_escape decoded q.segments.length
    have unneeded : keepsRoot base → validEncoded (0x2F :: body) = true →
        BareSlashes (0x2F :: body) q.segments.length :=
      fun root encoded => absurd ⟨root, encoded⟩ kept
    simp only [bare, iff_true_intro unneeded, and_true]

/-- Which requests are confined like a Policy's. Whatever the profile, whenever the broker
sends a request for a Resource, the path it sends is the Resource's route followed by a
path; the method is one of the Resource's and one of its path prefixes matches that path
exactly when the request is confined and, if it gives no method, `GET` is one of them.

Proof: the path behind the route decodes to the request's decoded path in either form, so
its segments are read off that path and its slashes. -/
theorem httpRequest_confined {resources : Bytes → Option Resource} {base : UrlPath} {valid : Bool}
    {m : Named} {r : Resource} (known : resources m.resource = some r) {sent : Sent}
    (sends : httpRequest resources (some base) valid m = .ok sent) :
    ∃ front path, sent.escapedPath = front ++ path ∧ pathUnescape front = some (routePath base r) ∧
      ((sent.method ∈ r.methods ∧
          ∃ p ∈ r.pathPrefixes, ∃ q, parsePathPrefix p = .ok q ∧ q.matches path = true) ↔
        Confined base r m.rawPath ∧ (m.method = [] → bytes "GET" ∈ r.methods)) := by
  obtain ⟨agent, u, same, member, method, ⟨rest, whole⟩, set, path⟩ := httpRequest_sent known sends
  cases same
  refine ⟨route base r, forwarded base u, path.trans (target_escapedPath base r u),
    route_unescapes base r, ?_⟩
  obtain ⟨body, raw⟩ : ∃ body, m.rawPath = 0x2F :: body := by
    unfold Named.rawPath cut
    rw [whole]
    exact ⟨rest.takeWhile (· ≠ 0x3F), rfl⟩
  rw [raw] at set
  have unescaped : pathUnescape (0x2F :: body) = some u.path := by
    obtain ⟨value, decodes, rfl⟩ := Option.map_eq_some_iff.mp set
    exact decodes
  rw [raw, method, requestMethod_mem member]
  constructor
  · rintro ⟨listsGet, p, listed, q, parsed, matched⟩
    obtain ⟨utf8, quiet, under, bare⟩ := (matches_forwarded set parsed).mp matched
    exact ⟨⟨u.path, unescaped, utf8, quiet, p, listed, q, parsed, under, bare⟩, listsGet⟩
  · rintro ⟨⟨decoded, decodes, utf8, quiet, p, listed, q, parsed, under, bare⟩, listsGet⟩
    cases unescaped.symm.trans decodes
    exact ⟨listsGet, p, listed, q, parsed,
      (matches_forwarded set parsed).mpr ⟨utf8, quiet, under, bare⟩⟩

/-- A profile with one Resource, whose one prefix is `/allowed`. -/
def demoResource : Resource where
  secretName := bytes "demo"
  upstream := bytes "api"
  methods := [bytes "GET"]
  pathPrefixes := [bytes "/allowed"]

/-- A request for a path of that Resource. -/
def demoRequest (path : String) : Named where
  resource := bytes "demo"
  method := bytes "GET"
  path := bytes path

/-- An Agent API at the root of its host. -/
def rootAPI : UrlPath := { path := [], rawPath := [] }

/-- An escaped `..` passes the check for dots and is sent below `/allowed`, where no
prefix of the Resource matches it. -/
theorem httpRequest_escaped_dots :
    ∃ sent, httpRequest (fun _ => some demoResource) (some rootAPI) true
        (demoRequest "/allowed/%2e%2e/admin") =
        .ok sent ∧ sent.escapedPath = bytes "/proxy/demo/api" ++ bytes "/allowed/%2e%2e/admin" ∧
      ∀ p ∈ demoResource.pathPrefixes, ∃ q, parsePathPrefix p = .ok q ∧
        q.matches (bytes "/allowed/%2e%2e/admin") = false := by
  refine ⟨_, rfl, by decide +kernel, fun p listed => ?_⟩
  obtain rfl := mem_singleton.mp listed
  exact ⟨{ text := bytes "/allowed", segments := [bytes "allowed"] },
    by decide +kernel, by decide +kernel⟩

/-- A request below the prefix, with an escaped letter. -/
theorem httpRequest_confined_below :
    ∃ sent, httpRequest (fun _ => some demoResource)
      (some rootAPI) true (demoRequest "/allowed/%78?q=1") = .ok sent ∧
      ∃ front path, sent.escapedPath = front ++ path ∧
        pathUnescape front = some (routePath rootAPI demoResource) ∧
        ((sent.method ∈ demoResource.methods ∧ ∃ p ∈ demoResource.pathPrefixes, ∃ q,
          parsePathPrefix p = .ok q ∧
            q.matches path = true) ↔ Confined rootAPI demoResource
              (demoRequest "/allowed/%78?q=1").rawPath ∧
          ((demoRequest "/allowed/%78?q=1").method = [] → bytes "GET" ∈ demoResource.methods)) := by
  obtain ⟨sent, sends⟩ : ∃ sent, httpRequest (fun _ => some demoResource) (some rootAPI) true
      (demoRequest "/allowed/%78?q=1") = .ok sent := ⟨_, rfl⟩
  have known : (fun _ : Bytes => some demoResource) (demoRequest "/allowed/%78?q=1").resource =
      some demoResource := rfl
  exact ⟨sent, sends, httpRequest_confined known sends⟩

end TrustedCourier.TcExec
