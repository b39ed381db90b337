import TrustedCourier.Credentials

/-!
# The request that leaves

`Rewrite` gets what `ReverseProxy` is ready to send: the headers without those that
end at a hop, and the query as it is or, if part of it cannot be read, encoded anew. It
takes the Agent Token out of the place it was found in, puts the Secret where its
template says, and asks for a response that Redaction can read.

Exactly one token was presented, so wherever another one would be found on the way out
it would have been found on the way in. What is left of the argument is that both
places are emptied for good: a header under all its values, a parameter under every
spelling of its name.

The body, which is only watched for progress, is not modelled.
-/

namespace TrustedCourier.AgentApi

open ByteStrings UrlEscapes Config Queries Headers

/-- The parts of a `url.URL` that are sent. -/
structure Url where
  scheme : Bytes
  host : Bytes
  path : Bytes
  rawPath : Bytes
  rawQuery : Bytes

/-- The outgoing request of a `ProxyRequest`. -/
structure Outgoing where
  url : Url
  host : Bytes
  header : Header

/-- The Agent Token is removed from its own header and from the slot it came from. -/
def Outgoing.stripToken (slot : Slot) (out : Outgoing) : Outgoing :=
  let header := out.header.del agentTokenHeader
  let header := if slot.header ≠ [] then header.del slot.header else header
  let rawQuery := if slot.query ≠ [] then withoutParam out.url.rawQuery slot.query
    else out.url.rawQuery
  { out with header := header, url := { out.url with rawQuery := rawQuery } }

/-- The Secret is put where its template says. -/
def Outgoing.injectSecret (cred : Credential) (out : Outgoing) : Outgoing :=
  let header := if cred.header ≠ [] then out.header.set cred.header cred.headerValue else out.header
  let rawQuery :=
    if cred.query ≠ [] then
      let q := withoutParam out.url.rawQuery cred.query
      let q := if q ≠ [] then q ++ bytes "&" else q
      q ++ cred.query ++ bytes "=" ++ cred.queryValue
    else out.url.rawQuery
  { out with header := header, url := { out.url with rawQuery := rawQuery } }

/-- The response is asked for whole and in a form that Redaction can read. -/
def Outgoing.askWhole (out : Outgoing) : Outgoing :=
  { out with
    header := ((out.header.set (bytes "Accept-Encoding") (bytes "gzip")).del (bytes "Range")).del
      (bytes "If-Range") }

/-- The request is sent to the Upstream, with its own query. -/
def Outgoing.retarget (target : Url) (out : Outgoing) : Outgoing :=
  { out with url := { target with rawQuery := out.url.rawQuery }, host := [] }

/-- `Rewrite`. -/
def Outgoing.rewrite (target : Url) (slot : Slot) (cred : Credential) (out : Outgoing) : Outgoing :=
  (((out.retarget target).stripToken slot).injectSecret cred).askWhole

/-- The headers that are settled whatever the request and the template say. -/
def settledHeaders : List Bytes := [bytes "Accept-Encoding", bytes "Range", bytes "If-Range"]

/-! ## Where a token is found -/

/-- Every slot has a name. -/
structure Slots.Named (slots : Slots) : Prop where
  headers : ∀ entry ∈ slots.headers, entry.1 ≠ []
  queries : ∀ name ∈ slots.queries, name ≠ []

/-- A template's slot has a name. -/
theorem add_named {out : Slots} (named : out.Named) (t : Option InjectionTemplate) :
    (out.add t).Named := by
  match t with
  | none => exact named
  | some (.header t) =>
    simp only [Slots.add]
    split
    · exact named
    · refine ⟨fun entry member => ?_, named.queries⟩
      rcases List.mem_cons.mp member with rfl | old
      · exact t.name_ne_nil
      · exact named.headers entry (List.mem_of_mem_filter old)
  | some (.query t) =>
    simp only [Slots.add]
    split
    · exact named
    · refine ⟨named.headers, fun name member => ?_⟩
      rcases List.mem_append.mp member with old | new
      · exact named.queries name old
      · rw [List.mem_singleton.mp new]
        exact t.name_ne_nil
  | some (.basicAuth t) =>
    simp only [Slots.add]
    split
    · exact named
    · exact ⟨named.headers, named.queries⟩

/-- Every slot has a name. -/
theorem newSlots_named (secrets : List (Bytes × Option InjectionTemplate)) :
    (newSlots secrets).Named := by
  have folded (ordered : List (Bytes × Option InjectionTemplate)) (out : Slots)
    (named : out.Named) :
      (ordered.foldl (fun out secret => out.add secret.2) out).Named := by
    induction ordered generalizing out with
    | nil => exact named
    | cons secret rest ih => exact ih _ (add_named named secret.2)
  obtain ⟨headers, queries⟩ := folded (secrets.mergeSort fun a b => decide (a.1 ≤ b.1)) Slots.none
    ⟨fun _ member => absurd member List.not_mem_nil, fun _ member => absurd member List.not_mem_nil⟩
  exact ⟨headers, fun name member => queries name (List.mem_mergeSort.mp member)⟩

section Presented

variable {equalFold : Bytes → Bytes → Bool} {maxParams : Option Nat} {slots : Slots} {token : Bytes}
  {place : Slot} {header : Header}

theorem mem_headerTokens :
    (token, place) ∈ headerTokens equalFold slots header ↔
      ∃ name ∈ slots.headers.map Prod.fst, ∃ v ∈ header.values name,
        firstToken (extract equalFold v) (slots.templates name) = some token ∧
        place = ⟨name, []⟩ := by
  simp only [headerTokens, sorted, List.mem_flatMap, List.mem_mergeSort, List.mem_map,
    List.mem_filterMap, Prod.mk.injEq]
  constructor
  · rintro ⟨name, known, found, ⟨v, here, finds⟩, rfl, rfl⟩
    exact ⟨name, known, v, here, finds, rfl⟩
  · rintro ⟨name, known, v, here, finds, rfl⟩
    exact ⟨name, known, token, ⟨v, here, finds⟩, rfl, rfl⟩

theorem mem_basicAuthTokens :
    (token, place) ∈ basicAuthTokens equalFold slots header ↔
      ∃ v ∈ header.values authorization,
        firstToken (extractBasicAuth equalFold v) slots.basicAuth = some token ∧
        place = ⟨authorization, []⟩ := by
  simp only [basicAuthTokens, List.mem_map, List.mem_filterMap, Prod.mk.injEq]
  constructor
  · rintro ⟨found, ⟨v, here, finds⟩, rfl, rfl⟩
    exact ⟨v, here, finds, rfl⟩
  · rintro ⟨v, here, finds, rfl⟩
    exact ⟨token, ⟨v, here, finds⟩, rfl, rfl⟩

theorem mem_queryTokens {rawQuery : Bytes} :
    (token, place) ∈ queryTokens maxParams slots rawQuery ↔
      ∃ name ∈ slots.queries, (name, token) ∈ parseQuery maxParams rawQuery ∧ shaped token = true ∧
        place = ⟨[], name⟩ := by
  simp only [queryTokens, List.mem_flatMap, List.mem_map, List.mem_filter, mem_values,
    Prod.mk.injEq]
  constructor
  · rintro ⟨name, known, found, ⟨read, token⟩, rfl, rfl⟩
    exact ⟨name, known, read, token, rfl⟩
  · rintro ⟨name, known, read, like, rfl⟩
    exact ⟨name, known, token, ⟨read, like⟩, rfl, rfl⟩

theorem mem_ownTokens :
    (token, place) ∈ ownTokens header ↔
      token ∈ header.values agentTokenHeader ∧ place = ⟨agentTokenHeader, []⟩ := by
  simp only [ownTokens, List.mem_map, Prod.mk.injEq]
  constructor
  · rintro ⟨found, here, rfl, rfl⟩
    exact ⟨here, rfl⟩
  · rintro ⟨here, rfl⟩
    exact ⟨token, here, rfl, rfl⟩

/-- A token is presented in a header some template names, in basic auth, in a parameter
some template names, or in its own header. -/
theorem mem_presented {rawQuery : Bytes} :
    (token, place) ∈ presented equalFold maxParams slots header rawQuery ↔
      (∃ name ∈ slots.headers.map Prod.fst, ∃ v ∈ header.values name,
        firstToken (extract equalFold v) (slots.templates name) = some token ∧ place = ⟨name, []⟩) ∨
      (∃ v ∈ header.values authorization,
        firstToken (extractBasicAuth equalFold v) slots.basicAuth = some token ∧
        place = ⟨authorization, []⟩) ∨
      (∃ name ∈ slots.queries, (name, token) ∈ parseQuery maxParams rawQuery ∧ shaped token = true ∧
        place = ⟨[], name⟩) ∨
      (token ∈ header.values agentTokenHeader ∧ place = ⟨agentTokenHeader, []⟩) := by
  rw [presented, List.mem_append, List.mem_append, List.mem_append, mem_headerTokens,
    mem_basicAuthTokens, mem_queryTokens, mem_ownTokens, or_assoc, or_assoc]

/-- Stripping empties the token's own header and the one it came from. -/
theorem stripToken_header (slot : Slot) (out : Outgoing) (key : Bytes) :
    (out.stripToken slot).header key =
    if (slot.header ≠ [] ∧ key = canonicalHeaderKey slot.header) ∨
    key = canonicalHeaderKey agentTokenHeader then [] else out.header key := by
  unfold Outgoing.stripToken
  by_cases fromHeader : slot.header = []
  · simp [fromHeader, Header.del]
  · by_cases here : key = canonicalHeaderKey slot.header
    · simp [fromHeader, Header.del, here]
    · simp [fromHeader, Header.del, here]

/-- Stripping adds no value to any header. -/
theorem stripToken_header_subset (slot : Slot) (out : Outgoing) (key : Bytes) :
    (out.stripToken slot).header.values key ⊆ out.header.values key := by
  unfold Header.values
  rw [stripToken_header]
  split
  · exact List.nil_subset _
  · exact List.Subset.refl _

/-- Neither the token's own header nor the header it came from keeps a value. -/
theorem stripToken_header_nil (slot : Slot) (out : Outgoing) :
    (out.stripToken slot).header.values agentTokenHeader = [] ∧
      (slot.header ≠ [] → (out.stripToken slot).header.values slot.header = []) := by
  unfold Header.values
  rw [stripToken_header, stripToken_header]
  exact ⟨if_pos (Or.inr rfl), fun named => if_pos (Or.inl ⟨named, rfl⟩)⟩

/-- No parameter that is parsed after stripping has the name the token came from. -/
theorem stripToken_query_apart {slot : Slot} {out : Outgoing} {entry : Bytes × Bytes}
    (read : entry ∈ parseQuery maxParams (out.stripToken slot).url.rawQuery)
    (named : slot.query ≠ []) :
    entry ∈ readParams out.url.rawQuery ∧ entry.1 ≠ slot.query := by
  have whole := parseQuery_of_mem read
  rw [whole] at read
  simp only [Outgoing.stripToken, if_pos named] at read
  rw [readParams_withoutParam] at read
  obtain ⟨kept, apart⟩ := List.mem_filter.mp read
  exact ⟨kept, by simpa using apart⟩

/-- If exactly one token came in, none is found once it has been stripped.

Whatever is found after stripping was found before it, so it is that token in its slot.
But a stripped header holds no value and a stripped parameter is not read. -/
theorem stripToken_presents_nothing (named : slots.Named) {inbound : Header} {rawQuery : Bytes}
    {slot : Slot} (single : presented equalFold maxParams slots inbound rawQuery = [(token, slot)])
    {handed : Outgoing} (fewer : ∀ key, handed.header key ⊆ inbound key)
    (cleaned : handed.url.rawQuery = cleanQueryParams maxParams rawQuery) :
    presented equalFold maxParams slots (handed.stripToken slot).header
      (handed.stripToken slot).url.rawQuery = [] := by
  have values (key : Bytes) : (handed.stripToken slot).header.values key ⊆ inbound.values key :=
    List.Subset.trans (stripToken_header_subset slot handed key) (fewer _)
  obtain ⟨ownEmpty, slotEmpty⟩ := stripToken_header_nil slot handed
  have only {other : Bytes} {place : Slot}
    (found : (other, place) ∈ presented equalFold maxParams slots inbound rawQuery) :
      place = slot := by
    rw [single, List.mem_singleton] at found
    exact (Prod.mk.inj found).2
  rw [List.eq_nil_iff_forall_not_mem]
  rintro ⟨other, place⟩ found
  rcases mem_presented.mp found with ⟨name, known, v, here, finds, rfl⟩ | ⟨v, here, finds, rfl⟩ |
    ⟨name, known, read, like, rfl⟩ | ⟨here, _⟩
  · have same := only (mem_presented.mpr (Or.inl ⟨name, known, v, values name here, finds, rfl⟩))
    obtain ⟨entry, member, rfl⟩ := List.mem_map.mp known
    rw [← same] at here slotEmpty
    rw [slotEmpty (named.headers entry member)] at here
    exact List.not_mem_nil here
  · have same :=
      only (mem_presented.mpr (Or.inr (Or.inl ⟨v, values authorization here, finds, rfl⟩)))
    rw [← same] at here slotEmpty
    rw [slotEmpty (by decide)] at here
    exact List.not_mem_nil here
  · have nameless := named.queries name known
    by_cases fromQuery : slot.query = []
    · have kept : (handed.stripToken slot).url.rawQuery = handed.url.rawQuery := by
        simp only [Outgoing.stripToken, fromQuery, ne_eq, not_true_eq_false, if_false]
      rw [kept, cleaned] at read
      have same := only (mem_presented.mpr (Or.inr (Or.inr (Or.inl
        ⟨name, known, mem_parseQuery_clean read, like, rfl⟩))))
      rw [← same] at fromQuery
      exact nameless fromQuery
    · obtain ⟨left, apart⟩ := stripToken_query_apart read fromQuery
      -- The token came from the query, so the query that came in was parsed.
      have parsed : parseQuery maxParams rawQuery = readParams rawQuery := by
        have came : (token, slot) ∈ presented equalFold maxParams slots inbound
            rawQuery := by simp [single]
        rcases mem_presented.mp came with
          ⟨_, _, _, _, _, rfl⟩ | ⟨_, _, _, rfl⟩ | ⟨_, _, first, _, rfl⟩ | ⟨_, rfl⟩
        · exact absurd rfl fromQuery
        · exact absurd rfl fromQuery
        · exact parseQuery_of_mem first
        · exact absurd rfl fromQuery
      rw [cleaned] at left
      have same := only (mem_presented.mpr (Or.inr (Or.inr (Or.inl
        ⟨name, known, mem_readParams_clean parsed left, like, rfl⟩))))
      rw [← same] at apart
      exact apart rfl
  · rw [ownEmpty] at here
    exact List.not_mem_nil here

end Presented

/-! ## What the request carries -/

section Carried

variable {target : Url} {slot : Slot} {cred : Credential} {handed : Outgoing}

/-- Injecting replaces the header the Secret goes to. -/
theorem injectSecret_header (out : Outgoing) (key : Bytes) : (out.injectSecret cred).header key =
    if cred.header ≠ [] ∧ key = canonicalHeaderKey cred.header then [cred.headerValue]
    else out.header key := by
  unfold Outgoing.injectSecret
  by_cases carries : cred.header = []
  · simp [carries]
  · simp [carries, Header.set]

/-- The headers about the form of the response are settled last. -/
theorem askWhole_header (out : Outgoing) (key : Bytes) : out.askWhole.header key =
    if key = bytes "If-Range" ∨ key = bytes "Range" then []
    else if key = bytes "Accept-Encoding" then [bytes "gzip"] else out.header key := by
  have ifRange : canonicalHeaderKey (bytes "If-Range") = bytes "If-Range" := by decide
  have range : canonicalHeaderKey (bytes "Range") = bytes "Range" := by decide
  have encoding : canonicalHeaderKey (bytes "Accept-Encoding") =
      bytes "Accept-Encoding" := by decide
  simp only [Outgoing.askWhole, Header.del, Header.set, ifRange, range, encoding]
  by_cases conditional : key = bytes "If-Range"
  · simp [conditional]
  · simp [conditional]

/-- The header that is sent under each key. -/
theorem rewrite_header (key : Bytes) : (handed.rewrite target slot cred).header key =
    if key = bytes "If-Range" ∨ key = bytes "Range" then []
    else if key = bytes "Accept-Encoding" then [bytes "gzip"]
    else if cred.header ≠ [] ∧ key = canonicalHeaderKey cred.header then [cred.headerValue]
    else if (slot.header ≠ [] ∧ key = canonicalHeaderKey slot.header) ∨
    key = canonicalHeaderKey agentTokenHeader then [] else handed.header key := by
  rw [Outgoing.rewrite, askWhole_header, injectSecret_header, stripToken_header]
  rfl

/-- Stripping takes out the parameters of the name the token came from. -/
theorem stripToken_params (slot : Slot) (out : Outgoing) :
    params (out.stripToken slot).url.rawQuery =
    (params out.url.rawQuery).filter fun pair => slot.query = [] ∨ paramName pair ≠ slot.query := by
  unfold Outgoing.stripToken
  by_cases fromQuery : slot.query = []
  · simp [fromQuery]
  · simp only [if_pos fromQuery]
    rw [params_withoutParam]
    simp [fromQuery]

/-- Injecting takes out the parameters of the name the Secret goes to, and puts it last. -/
theorem injectSecret_params (out : Outgoing)
    (whole : 0x26 ∉ cred.query ++ bytes "=" ++ cred.queryValue) :
    params (out.injectSecret cred).url.rawQuery =
      ((params out.url.rawQuery).filter fun pair => cred.query = [] ∨
        paramName pair ≠ cred.query) ++
        if cred.query = [] then [] else [cred.query ++ bytes "=" ++ cred.queryValue] := by
  unfold Outgoing.injectSecret
  by_cases carries : cred.query = []
  · simp [carries]
  · have nonempty : cred.query ++ bytes "=" ++ cred.queryValue ≠ [] := by simp [carries]
    simp only [if_pos carries, if_neg carries]
    rw [List.append_assoc, List.append_assoc, ← List.append_assoc cred.query,
      params_behind whole nonempty, params_withoutParam]
    simp [carries]

/-- The parameters that are sent: those that were handed on, byte by byte and in order,
without the names the token came from and the Secret goes to, and then the Secret's. -/
theorem rewrite_params (whole : 0x26 ∉ cred.query ++ bytes "=" ++ cred.queryValue) :
    params (handed.rewrite target slot cred).url.rawQuery =
      (params handed.url.rawQuery).filter (fun pair =>
        (slot.query = [] ∨ paramName pair ≠ slot.query) ∧
        (cred.query = [] ∨ paramName pair ≠ cred.query)) ++
      if cred.query = [] then [] else [cred.query ++ bytes "=" ++ cred.queryValue] := by
  have staged := injectSecret_params ((handed.retarget target).stripToken slot) whole
  rw [stripToken_params, List.filter_filter] at staged
  refine Eq.trans staged ?_
  congr 1
  apply List.filter_congr
  intro pair _
  rw [Bool.decide_and, Bool.and_comm]

/-- The response is asked for compressed at most with gzip, and never in part. -/
theorem rewrite_header_settled :
    (handed.rewrite target slot cred).header.values (bytes "Accept-Encoding") = [bytes "gzip"] ∧
      (handed.rewrite target slot cred).header.values (bytes "Range") = [] ∧
      (handed.rewrite target slot cred).header.values (bytes "If-Range") = [] := by
  simp only [Header.values, rewrite_header]
  refine ⟨?_, ?_, ?_⟩
  · rw [if_neg (by decide), if_pos (by decide)]
  · rw [if_pos (by decide)]
  · rw [if_pos (by decide)]

/-- Only the headers that are settled, emptied or set differ from those handed on. -/
theorem rewrite_header_other {key : Bytes} (unsettled : key ∉ settledHeaders)
    (free : key ∉ ([agentTokenHeader, slot.header, cred.header].filter (· ≠ [])).map
      canonicalHeaderKey) :
    (handed.rewrite target slot cred).header key = handed.header key := by
  have apart {name : Bytes} (touched : name ∈ [agentTokenHeader, slot.header, cred.header])
    (named : name ≠ []) :
      key ≠ canonicalHeaderKey name := by
    rintro rfl
    exact free (List.mem_map_of_mem (List.mem_filter.mpr ⟨touched, by simpa using named⟩))
  simp only [settledHeaders, List.mem_cons, List.not_mem_nil, or_false, not_or] at unsettled
  obtain ⟨encoding, range, ifRange⟩ := unsettled
  rw [rewrite_header, if_neg (not_or.mpr ⟨ifRange, range⟩), if_neg encoding,
    if_neg fun injected => apart (by simp) injected.1 injected.2, if_neg]
  rintro (stripped | own)
  · exact apart (by simp) stripped.1 stripped.2
  · exact apart (by simp) (by decide) own

/-- The header a credential names carries its value alone, unless it is settled. -/
theorem rewrite_header_secret (carries : cred.header ≠ [])
    (unsettled : canonicalHeaderKey cred.header ∉ settledHeaders) :
    (handed.rewrite target slot cred).header.values cred.header = [cred.headerValue] := by
  simp only [settledHeaders, List.mem_cons, List.not_mem_nil, or_false, not_or] at unsettled
  obtain ⟨encoding, range, ifRange⟩ := unsettled
  rw [Header.values, rewrite_header, if_neg (not_or.mpr ⟨ifRange, range⟩), if_neg encoding,
    if_pos ⟨carries, rfl⟩]

end Carried

/-! ## What is rendered -/

/-- The username and the password a basic auth template makes of a Secret. -/
def basicAuthPair (t : BasicAuthTemplate) (secret : Bytes) : Bytes :=
  if t.secretIsUsername then secret ++ bytes ":" ++ t.password
  else t.username ++ bytes ":" ++ secret

section Rendered

variable {secret : Bytes} {cred : Credential}

theorem render_header {t : HeaderTemplate}
    (rendered : render (.header t) (some secret) = .ok cred) :
    cred.header = t.name ∧ cred.headerValue = t.prefixText ++ secret ++ t.suffixText ∧
    cred.query = [] ∧
      cred.queryValue = [] := by
  simp only [render] at rendered
  split at rendered
  · simp at rendered
  · cases rendered
    exact ⟨rfl, rfl, rfl, rfl⟩

theorem render_query {t : QueryTemplate} (rendered : render (.query t) (some secret) = .ok cred) :
    cred.header = [] ∧ cred.query = t.name ∧ cred.queryValue = queryEscape secret := by
  cases rendered
  exact ⟨rfl, rfl, rfl⟩

variable {t : BasicAuthTemplate}

/-- A Basic Auth template sets `Authorization`. -/
theorem render_basicAuth (rendered : render (.basicAuth t) (some secret) = .ok cred) :
    cred.header = authorization ∧
      cred.headerValue = bytes "Basic " ++ Base64.encodeToString (basicAuthPair t secret) ∧
      cred.query = [] ∧
      cred.queryValue = [] := by
  have taken := t.taken
  cases place : t.secretIsUsername with
  | false =>
    rw [place] at taken
    have bare : t.password = [] := taken
    simp only [render, renderBasicAuth, place, Bool.false_and, Bool.false_eq_true,
      if_false] at rendered
    cases rendered
    exact ⟨rfl, by simp [basicAuthPair, place, bare], rfl, rfl⟩
  | true =>
    rw [place] at taken
    have bare : t.username = [] := taken
    simp only [render, renderBasicAuth, place, Bool.true_and, Bool.not_true, Bool.false_eq_true,
      if_true, if_false] at rendered
    split at rendered
    · simp at rendered
    · cases rendered
      exact ⟨rfl, by simp [basicAuthPair, place, bare], rfl, rfl⟩

/-- The Secret's parameter is written as any parameter is, so it is one piece. -/
theorem rendered_param {t : QueryTemplate} (rendered : render (.query t) (some secret) = .ok cred) :
    cred.query ++ bytes "=" ++ cred.queryValue = encodePair t.name secret := by
  obtain ⟨_, name, value⟩ := render_query rendered
  rw [name, value, encodePair, queryEscape_unreserved t.name_plain, List.append_assoc]
  rfl

/-- Whatever is rendered holds no separator. -/
theorem rendered_whole {template : InjectionTemplate}
    (rendered : render template (some secret) = .ok cred) :
    0x26 ∉ cred.query ++ bytes "=" ++ cred.queryValue := by
  cases template with
  | header t =>
    obtain ⟨_, _, query, value⟩ := render_header rendered
    rw [query, value]
    decide
  | basicAuth t =>
    obtain ⟨_, _, query, value⟩ := render_basicAuth rendered
    rw [query, value]
    decide
  | query t =>
    rw [rendered_param rendered]
    exact encodePair_whole t.name secret

/-- A username that renders holds no colon. -/
theorem render_username (rendered : render (.basicAuth t) (some secret) = .ok cred)
    (place : t.secretIsUsername = true) : 0x3A ∉ secret := by
  have bare : t.username = [] := by simpa [place] using t.taken
  simp only [render, renderBasicAuth, place, bare, Bool.true_and, Bool.not_true, Bool.false_eq_true,
    if_true, if_false, List.nil_append] at rendered
  split at rendered
  · simp at rendered
  · next free =>
    intro inside
    apply free
    have raw : (secret ++ bytes ":" ++ t.password).take
        ((secret ++ bytes ":" ++ t.password).length - t.password.length - 1) = secret := by
      have length : (secret ++ bytes ":" ++ t.password).length - t.password.length - 1 =
          secret.length := by
        simp only [List.length_append, show (bytes ":").length = 1 from rfl]
        omega
      rw [length, List.append_assoc, List.take_left]
    rw [raw, contains_iff]
    obtain ⟨front, back, rfl⟩ := List.append_of_mem inside
    exact ⟨front, back, by simp [show bytes ":" = [0x3A] from rfl]⟩

/-- What a template's own slot finds in a credential. -/
def Credential.found (equalFold : Bytes → Bytes → Bool) (cred : Credential) :
    InjectionTemplate → List Bytes
  | .header t => (extract equalFold cred.headerValue t).toList
  | .basicAuth t => (extractBasicAuth equalFold cred.headerValue t).toList
  | .query t =>
    ((readParams (cred.query ++ bytes "=" ++ cred.queryValue)).filter (·.1 = t.name)).map (·.2)

/-- A slot is where its template puts the Secret: what renders is found there, if texts
compare equal to themselves. -/
theorem found_rendered {equalFold : Bytes → Bytes → Bool} (reflexive : ∀ s, equalFold s s = true)
    {template : InjectionTemplate} (rendered : render template (some secret) = .ok cred) :
    cred.found equalFold template = [secret] := by
  cases template with
  | header t =>
    obtain ⟨_, value, _⟩ := render_header rendered
    have length : (t.prefixText ++ secret ++ t.suffixText).length - t.suffixText.length =
        (t.prefixText ++ secret).length := by
      simp only [List.length_append]
      omega
    simp only [Credential.found, extract, value]
    rw [length, List.drop_left, List.take_left, List.append_assoc, List.take_left, List.drop_left,
      reflexive, reflexive]
    simp
  | query t =>
    obtain ⟨_, name, _⟩ := render_query rendered
    have written : params (encodePair t.name secret) = [encodePair t.name secret] := by
      rw [params, pieces, List.splitOn_eq_singleton (encodePair_whole t.name secret)]
      simp [encodePair]
    simp only [Credential.found]
    rw [rendered_param rendered, readParams, written,
      List.filterMap_cons_some (parsePair_encodePair t.name secret)]
    simp
  | basicAuth t =>
    obtain ⟨_, value, _⟩ := render_basicAuth rendered
    have scheme (encoded : Bytes) : bytes "Basic " ++ encoded = bytes "Basic" ++ 0x20 :: encoded :=
      rfl
    have colon : bytes ":" = [0x3A] := rfl
    simp only [Credential.found, extractBasicAuth, value, scheme]
    rw [cut_append (by decide)]
    simp only [reflexive, Base64.decodeString_encodeToString, Bool.not_true, Bool.or_self,
      Bool.false_eq_true, if_false]
    cases place : t.secretIsUsername with
    | true =>
      have whole : basicAuthPair t secret =
          secret ++ 0x3A :: t.password := by simp [basicAuthPair, place, colon]
      rw [whole, cut_append (render_username rendered place)]
      simp
    | false =>
      have whole : basicAuthPair t secret = t.username ++ 0x3A ::
          secret := by simp [basicAuthPair, place, colon]
      rw [whole, cut_append t.uncut]
      simp

/-- A Secret that is a username. -/
theorem found_rendered_username :
    ∃ cred, render (.basicAuth ⟨[], [], true, rfl, List.not_mem_nil⟩)
      (some (bytes "s")) = .ok cred ∧
      cred.found (· == ·) (.basicAuth ⟨[], [], true, rfl, List.not_mem_nil⟩) = [bytes "s"] :=
  ⟨_, rfl, found_rendered (fun _ => BEq.rfl) rfl⟩

/-- A basic auth template's header carries the rendered value alone. -/
theorem rewrite_basicAuth_secret {target : Url} {slot : Slot} {handed : Outgoing}
    (rendered : render (.basicAuth t) (some secret) = .ok cred) :
    (handed.rewrite target slot cred).header.values authorization =
      [bytes "Basic " ++ Base64.encodeToString (basicAuthPair t secret)] := by
  obtain ⟨name, value, _⟩ := render_basicAuth rendered
  have carried : (handed.rewrite target slot cred).header.values cred.header = [cred.headerValue] :=
    rewrite_header_secret (by rw [name]; decide) (by rw [name]; decide)
  rwa [name, value] at carried

/-- The parameter of a query template is read once, last, with the Secret as its value. -/
theorem rewrite_query_secret {target : Url} {slot : Slot} {handed : Outgoing} {t : QueryTemplate}
    (rendered : render (.query t) (some secret) = .ok cred) :
    ∃ others, readParams (handed.rewrite target slot cred).url.rawQuery =
      others ++ [(t.name, secret)] ∧
      ∀ entry ∈ others, entry.1 ≠ t.name := by
  have sent : params (handed.rewrite target slot cred).url.rawQuery = _ :=
    rewrite_params (rendered_whole rendered)
  obtain ⟨_, name, _⟩ := render_query rendered
  have carries : cred.query ≠ [] := by
    rw [name]
    exact t.name_ne_nil
  rw [if_neg carries, rendered_param rendered, name] at sent
  refine ⟨_, by rw [readParams, sent, List.filterMap_append,
    List.filterMap_cons_some (parsePair_encodePair t.name secret), List.filterMap_nil], ?_⟩
  intro entry member
  obtain ⟨pair, kept, parsed⟩ := List.mem_filterMap.mp member
  have apart := (List.mem_filter.mp kept).2
  simp only [decide_eq_true_eq] at apart
  rw [← paramName_of_parsePair parsed]
  exact apart.2.resolve_left (name ▸ carries)

end Rendered

/-! ## The swap -/

section Swap

variable {τ : Type} {authenticate : Bytes → Except TokenError τ} {abandoned : Bool}
  {equalFold : Bytes → Bytes → Bool}
  {maxParams : Option Nat}

/-- The swap of credentials. Take any config, any request in which exactly one Agent
Token is accepted, any of its headers that are handed on with its query as
`ReverseProxy` hands it on, any template, and any Secret that renders.

Before the Secret is injected, no slot holds an Agent Token. A header template's header,
unless the form of the response settles it, and a basic auth template's carry the
rendered value alone. A query template's parameter is read once, last, with the Secret
as its value. Every other header is as it was handed on, but for the ones that are
settled or held the token, and every other parameter keeps its bytes and its place. -/
theorem credential_swap (secrets : List (Bytes × Option InjectionTemplate))
    (inbound : Header) (rawQuery : Bytes)
    {tok : τ} {slot : Slot}
    (accepted : authenticateProxy authenticate abandoned equalFold maxParams (newSlots secrets)
      inbound rawQuery =
      .ok (tok, slot))
    (handed : Outgoing) (fewer : ∀ key, handed.header key ⊆ inbound key)
    (cleaned : handed.url.rawQuery = cleanQueryParams maxParams rawQuery) (target : Url)
    (template : InjectionTemplate) (secret : Bytes) {cred : Credential}
    (rendered : render template (some secret) = .ok cred) :
    let stripped := (handed.retarget target).stripToken slot
    let out := handed.rewrite target slot cred
    presented equalFold maxParams (newSlots secrets) stripped.header stripped.url.rawQuery = [] ∧
      (∀ t, template = .header t → t.name ∉ settledHeaders →
        out.header.values t.name = [t.prefixText ++ secret ++ t.suffixText]) ∧
      (∀ t, template = .basicAuth t →
        out.header.values authorization =
          [bytes "Basic " ++ Base64.encodeToString (basicAuthPair t secret)]) ∧
      (∀ t, template = .query t → ∃ others,
        readParams out.url.rawQuery = others ++ [(t.name, secret)] ∧
        ∀ entry ∈ others, entry.1 ≠ t.name) ∧
      (∀ key, key ∉ settledHeaders →
        key ∉ ([agentTokenHeader, slot.header, cred.header].filter (· ≠ [])).map
          canonicalHeaderKey →
        out.header key = handed.header key) ∧
      (out.header.values (bytes "Accept-Encoding") = [bytes "gzip"] ∧
        out.header.values (bytes "Range") = [] ∧
        out.header.values (bytes "If-Range") = []) ∧
      params out.url.rawQuery =
        (params handed.url.rawQuery).filter (fun pair =>
          (slot.query = [] ∨ paramName pair ≠ slot.query) ∧
          (cred.query = [] ∨ paramName pair ≠ cred.query)) ++
        if cred.query = [] then [] else [cred.query ++ bytes "=" ++ cred.queryValue] := by
  intro stripped out
  obtain ⟨token, single⟩ := authenticateProxy_ok authenticate abandoned accepted
  have sent : params out.url.rawQuery = _ := rewrite_params (rendered_whole rendered)
  refine ⟨stripToken_presents_nothing (newSlots_named secrets) single fewer cleaned, ?_, ?_, ?_,
    fun key unsettled free => rewrite_header_other unsettled free, rewrite_header_settled, sent⟩
  · rintro t rfl unsettled
    obtain ⟨name, value, _⟩ := render_header rendered
    have carried : out.header.values cred.header = [cred.headerValue] :=
      rewrite_header_secret (by rw [name]; exact t.name_ne_nil)
        (by rw [name, t.canonical]; exact unsettled)
    rwa [name, value] at carried
  · rintro t rfl
    exact rewrite_basicAuth_secret rendered
  · rintro t rfl
    exact rewrite_query_secret rendered

end Swap

/-- A query template for the parameter `key`. -/
def keyTemplate : QueryTemplate := { name := bytes "key", named := by decide }

/-- A request with its token in that parameter, spelled with an escape, and another
parameter after it. -/
def keyRequest : Outgoing where
  url :=
    { scheme := [], host := [], path := [], rawPath := [], rawQuery := bytes "k%65y=tcat_1&x=2" }
  host := []
  header := fun _ => []

/-- The Secret takes the place of the token and goes last. -/
theorem credential_swap_key :
    ∃ slot cred, slot.query = bytes "key" ∧ render (.query keyTemplate)
      (some (bytes "s 1")) = .ok cred ∧
      ∃ others, readParams (keyRequest.rewrite keyRequest.url slot cred).url.rawQuery =
        others ++ [(bytes "key", bytes "s 1")] ∧ ∀ entry ∈ others, entry.1 ≠ bytes "key" := by
  have accepted : authenticateProxy (fun _ => .ok ()) false (· == ·) none
      (newSlots [(bytes "a", some (.query keyTemplate))]) keyRequest.header
        keyRequest.url.rawQuery =
      .ok ((), ⟨[], bytes "key"⟩) := by decide +kernel
  obtain ⟨_, _, _, query, _⟩ :=
    credential_swap [(bytes "a", some (.query keyTemplate))] keyRequest.header
    keyRequest.url.rawQuery accepted keyRequest (fun _ => List.Subset.refl _) rfl keyRequest.url
      (.query keyTemplate)
    (bytes "s 1") rfl
  exact ⟨_, _, rfl, rfl, query keyTemplate rfl⟩

/-! ## Templates that are accepted -/

/-- A request carries a rendered Secret at its template's place, and nothing else there. -/
def Outgoing.Carries (template : InjectionTemplate) (secret : Bytes) (out : Outgoing) : Prop :=
  match template with
  | .header t => out.header.values t.name = [t.prefixText ++ secret ++ t.suffixText]
  | .basicAuth t => out.header.values authorization =
      [bytes "Basic " ++ Base64.encodeToString (basicAuthPair t secret)]
  | .query t => values (readParams out.url.rawQuery) t.name = [secret]

/-- A header template of a file does not name a header that is settled after the Secret
is injected, or it names the one that is settled to a value, and renders that value. -/
def LeftAlone (secret : Bytes) (h : FileHeaderTemplate) : Prop :=
  canonicalHeaderKey h.name ≠ bytes "Range" ∧ canonicalHeaderKey h.name ≠ bytes "If-Range" ∧
    (canonicalHeaderKey h.name = bytes "Accept-Encoding" →
      (cutAt h.value secretPlaceholder).1 ++ secret ++ (cutAt h.value secretPlaceholder).2 =
        bytes "gzip")

/-- A template that is accepted delivers its Secret, at its own place and alone there,
exactly if `Rewrite` leaves its header alone afterwards. `Range`, `If-Range` and
`Accept-Encoding` are not reserved, yet the first two are dropped once the Secret is in
them, and the third is overwritten. -/
theorem accepted_template_carries (file : FileInjectionTemplate) {template : InjectionTemplate}
    (accepted : file.validate = .ok template) (handed : Outgoing) (target : Url) (slot : Slot)
    (secret : Bytes) {cred : Credential} (rendered : render template (some secret) = .ok cred) :
    (handed.rewrite target slot cred).Carries template secret ↔ ∀ h, file.header = some h →
      LeftAlone secret h := by
  cases template with
  | header t =>
    obtain ⟨h, given, same, parts⟩ := validate_header accepted
    obtain ⟨name, value, _⟩ := render_header rendered
    have only : (∀ other, file.header = some other → LeftAlone secret other) ↔
        LeftAlone secret h := by
      simp [given]
    rw [only, LeftAlone, ← same, ← parts]
    simp only [Outgoing.Carries, Header.values, t.canonical, rewrite_header, name, value]
    by_cases dropped : t.name = bytes "If-Range" ∨ t.name = bytes "Range"
    · rw [if_pos dropped]
      constructor
      · intro carried
        cases carried
      · rintro ⟨range, ifRange, _⟩
        exact absurd dropped (not_or.mpr ⟨ifRange, range⟩)
    · obtain ⟨ifRange, range⟩ := not_or.mp dropped
      rw [if_neg dropped]
      by_cases encoding : t.name = bytes "Accept-Encoding"
      · rw [if_pos encoding, List.singleton_inj]
        exact ⟨fun carried => ⟨range, ifRange, fun _ => carried.symm⟩,
          fun alone => (alone.2.2 encoding).symm⟩
      · rw [if_neg encoding, if_pos ⟨t.name_ne_nil, trivial⟩]
        exact iff_of_true rfl ⟨range, ifRange, fun settled => absurd settled encoding⟩
  | basicAuth t =>
    have bare := validate_other accepted (fun _ => InjectionTemplate.noConfusion)
    exact iff_of_true (rewrite_basicAuth_secret rendered) (by simp [bare])
  | query t =>
    have bare := validate_other accepted (fun _ => InjectionTemplate.noConfusion)
    obtain ⟨others, read, apart⟩ : ∃ others,
      readParams (handed.rewrite target slot cred).url.rawQuery =
        others ++ [(t.name, secret)] ∧ ∀ entry ∈ others, entry.1 ≠ t.name :=
          rewrite_query_secret rendered
    have none : others.filter (fun entry => decide (entry.1 = t.name)) = [] := by
      rw [List.filter_eq_nil_iff]
      intro entry member
      simpa using apart entry member
    refine iff_of_true ?_ (by simp [bare])
    simp [Outgoing.Carries, values, read, List.filter_append, none]

/-- A template of a file that puts the Secret alone in a header. -/
def headerFile (name : String) : FileInjectionTemplate :=
  { header := some { name := bytes name, value := secretPlaceholder }, query := none,
    basicAuth := none }

/-- What the `Range` template comes to. -/
def rangeTemplate : HeaderTemplate where
  name := bytes "Range"
  prefixText := []
  suffixText := []
  named := by decide
  canonical := by decide
  free := by decide

/-- A template that names `Range` is accepted, and its Secret renders and never arrives. -/
theorem accepted_template_dropped :
    (headerFile "range").validate = .ok (.header rangeTemplate) ∧
      ∃ cred, render (.header rangeTemplate) (some (bytes "s")) = .ok cred ∧
        ¬ (keyRequest.rewrite keyRequest.url ⟨[], bytes "key"⟩ cred).Carries (.header rangeTemplate)
          (bytes "s") := by
  refine ⟨by decide +kernel, _, rfl, ?_⟩
  show ¬ (_ : List Bytes) = [_]
  rw [Header.values, rewrite_header, if_pos (by decide)]
  exact List.cons_ne_nil _ _ |>.symm

/-- What the `X-Api-Key` template comes to. -/
def apiKeyTemplate : HeaderTemplate where
  name := bytes "X-Api-Key"
  prefixText := []
  suffixText := []
  named := by decide
  canonical := by decide
  free := by decide

/-- A header that is left alone carries its Secret. -/
theorem accepted_template_carries_key :
    ∃ cred, render (.header apiKeyTemplate) (some (bytes "s")) = .ok cred ∧
      (keyRequest.rewrite keyRequest.url ⟨[], bytes "key"⟩ cred).Carries (.header apiKeyTemplate)
        (bytes "s") := by
  refine ⟨_, rfl, (accepted_template_carries (headerFile "x-api-key") (by decide +kernel) keyRequest
    keyRequest.url ⟨[], bytes "key"⟩ (bytes "s") rfl).mpr ?_⟩
  intro h given
  cases given
  exact ⟨by decide, by decide, fun settled => absurd settled (by decide)⟩

end TrustedCourier.AgentApi
