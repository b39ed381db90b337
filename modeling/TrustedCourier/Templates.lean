import TrustedCourier.Headers
import TrustedCourier.PathPrefix

/-!
# Injection Templates

A template says where Proxy Delivery puts a Secret. What the config file says is
checked once; the checked forms carry what was checked, so a template with a reserved
header, an escaped parameter name or a colon in its literal username does not exist.

The texts of the errors that quote a name take the quoting as a parameter.
-/

namespace TrustedCourier.Config

open ByteStrings UrlEscapes Headers

/-! ## The checked forms -/

/-- `headerNamePattern`. -/
def headerNamePattern (s : Bytes) : Bool := s ≠ [] && s.all validHeaderFieldByte

/-- Headers that cannot carry a Secret. -/
def reservedHeaders : List Bytes :=
  ["Connection", "Content-Length", "Host", "Keep-Alive", "Proxy-Authenticate",
    "Proxy-Authorization", "Proxy-Connection", "Te", "Trailer", "Transfer-Encoding", "Upgrade",
    "X-Tc-Agent-Token"].map bytes

/-- `queryNamePattern`: up to 64 bytes that a query never escapes. -/
def queryNamePattern (s : Bytes) : Bool := s ≠ [] && s.length ≤ 64 && s.all unreserved

/-- Puts the Secret in a header, between two literal texts. -/
structure HeaderTemplate where
  name : Bytes
  prefixText : Bytes
  suffixText : Bytes
  named : headerNamePattern name = true
  canonical : canonicalHeaderKey name = name
  free : name ∉ reservedHeaders
deriving DecidableEq

/-- Puts the Secret in a query parameter, as its whole value. -/
structure QueryTemplate where
  name : Bytes
  named : queryNamePattern name = true
deriving DecidableEq

/-- Puts the Secret in the `Authorization` header as the whole basic auth username or
password. The other one is literal, and the one the Secret takes is empty. -/
structure BasicAuthTemplate where
  username : Bytes
  password : Bytes
  secretIsUsername : Bool
  taken : (if secretIsUsername then username else password) = []
  uncut : 0x3A ∉ username
deriving DecidableEq

/-- `InjectionTemplate`, of which exactly one field is set. -/
inductive InjectionTemplate where
  | header (t : HeaderTemplate)
  | query (t : QueryTemplate)
  | basicAuth (t : BasicAuthTemplate)
deriving DecidableEq

/-! ## Checking -/

/-- Marks where the Secret goes. -/
def secretPlaceholder : Bytes := bytes "\x7bsecret\x7d"

/-- Why a template is refused. -/
inductive TemplateError where
  | noKind
  | manyKinds
  | headerName (name : Bytes)
  | headerReserved (name : Bytes)
  | headerPlaceholder
  | headerControl
  | queryName (name : Bytes)
  | basicAuthPlaceholder
  | basicAuthWhole
  | basicAuthColon
  | basicAuthControl
deriving DecidableEq

/-- The kinds of template, as the config spells them. -/
def templateKinds : String := "header, query, basic_auth"

/-- What is reported, with the quoting of names. -/
def TemplateError.text (quote : Bytes → String) : TemplateError → String
  | .noKind => "set one of " ++ templateKinds
  | .manyKinds => "set only one of " ++ templateKinds
  | .headerName name => "invalid header name " ++ quote name
  | .headerReserved name => "header " ++ quote name ++ " is reserved and cannot carry a Secret"
  | .headerPlaceholder => "header value must contain \x7bsecret\x7d exactly once"
  | .headerControl => "header value contains a control character"
  | .queryName name => "invalid query parameter name " ++ quote name ++
      ": use up to 64 letters, digits, '.', '_', '~' or '-'"
  | .basicAuthPlaceholder =>
    "basic_auth must contain \x7bsecret\x7d exactly once, as the username or the password"
  | .basicAuthWhole => "basic_auth: \x7bsecret\x7d must be the whole username or the whole password"
  | .basicAuthColon => "basic_auth username must not contain ':'"
  | .basicAuthControl => "basic_auth contains a control character"

/-- `strings.Count` of a text that is not empty, with how many bytes of the last
occurrence are still to be passed. -/
def countFrom (sep : Bytes) : Nat → Bytes → Nat
  | _, [] => 0
  | skip + 1, _ :: rest => countFrom sep skip rest
  | 0, c :: rest =>
    if sep.isPrefixOf (c :: rest) then 1 + countFrom sep (sep.length - 1) rest
    else countFrom sep 0 rest

/-- `strings.Cut` at a text. -/
def cutAt (s sep : Bytes) : Bytes × Bytes :=
  match index s sep with
  | some i => (s.take i, s.drop (i + sep.length))
  | none => (s, [])

/-- The `header` form as the file writes it. -/
structure FileHeaderTemplate where
  name : Bytes
  value : Bytes

/-- The `query` form as the file writes it. -/
structure FileQueryTemplate where
  name : Bytes

/-- The `basic_auth` form as the file writes it. -/
structure FileBasicAuthTemplate where
  username : Bytes
  password : Bytes

/-- A template as the file writes it: one form of the three. -/
structure FileInjectionTemplate where
  header : Option FileHeaderTemplate
  query : Option FileQueryTemplate
  basicAuth : Option FileBasicAuthTemplate

/-- The canonical form of a field name is one. -/
theorem headerNamePattern_canonical {s : Bytes} (named : headerNamePattern s = true) :
    headerNamePattern (canonicalHeaderKey s) = true := by
  unfold headerNamePattern at named ⊢
  rw [canonicalHeaderKey_valid]
  simpa [canonicalHeaderKey_eq_nil] using named

def FileHeaderTemplate.validate (h : FileHeaderTemplate) : Except TemplateError HeaderTemplate :=
  if named : headerNamePattern h.name = true then
    if free : canonicalHeaderKey h.name ∉ reservedHeaders then
      if countFrom secretPlaceholder 0 h.value ≠ 1 then .error .headerPlaceholder
      else if hasControl h.value then .error .headerControl
      else
        let parts := cutAt h.value secretPlaceholder
        .ok { name := canonicalHeaderKey h.name, prefixText := parts.1, suffixText := parts.2,
              named := headerNamePattern_canonical named,
              canonical := canonicalHeaderKey_canonical h.name, free := free }
    else .error (.headerReserved h.name)
  else .error (.headerName h.name)

def FileQueryTemplate.validate (q : FileQueryTemplate) : Except TemplateError QueryTemplate :=
  if named : queryNamePattern q.name = true then .ok { name := q.name, named := named }
  else .error (.queryName q.name)

/-- The last checks of a basic auth template. -/
def checkBasicAuth (username password : Bytes) (secretIsUsername : Bool)
    (taken : (if secretIsUsername then username else password) = []) :
    Except TemplateError BasicAuthTemplate :=
  if uncut : 0x3A ∉ username then
    if hasControl username || hasControl password then .error .basicAuthControl
    else .ok { username := username, password := password, secretIsUsername := secretIsUsername,
               taken := taken, uncut := uncut }
  else .error .basicAuthColon

def FileBasicAuthTemplate.validate (b : FileBasicAuthTemplate) :
    Except TemplateError BasicAuthTemplate :=
  if countFrom secretPlaceholder 0 (b.username ++ 0x00 :: b.password) ≠ 1 then
    .error .basicAuthPlaceholder
  else if b.username = secretPlaceholder then checkBasicAuth [] b.password true rfl
  else if b.password = secretPlaceholder then checkBasicAuth b.username [] false rfl
  else .error .basicAuthWhole

def FileInjectionTemplate.validate (t : FileInjectionTemplate) :
    Except TemplateError InjectionTemplate :=
  match t.header, t.query, t.basicAuth with
  | none, none, none => .error .noKind
  | some h, none, none => h.validate.map .header
  | none, some q, none => q.validate.map .query
  | none, none, some b => b.validate.map .basicAuth
  | _, _, _ => .error .manyKinds

/-! ## What the forms say -/

section Names

/-- A template's header has a name. -/
theorem HeaderTemplate.name_ne_nil (t : HeaderTemplate) : t.name ≠ [] := by
  intro empty
  have named := t.named
  rw [empty] at named
  cases named

/-- A template's parameter has a name. -/
theorem QueryTemplate.name_ne_nil (t : QueryTemplate) : t.name ≠ [] := by
  intro empty
  have named := t.named
  rw [empty] at named
  cases named

/-- A parameter's name is spelled as it is. -/
theorem QueryTemplate.name_plain (t : QueryTemplate) : ∀ c ∈ t.name, unreserved c = true := by
  have named := t.named
  unfold queryNamePattern at named
  simp only [Bool.and_eq_true, List.all_eq_true] at named
  exact named.2

end Names

section Accepted

variable {file : FileInjectionTemplate}

/-- A header template is the file's, with its name in canonical form and its value cut at
the placeholder. -/
theorem validate_header {t : HeaderTemplate} (accepted : file.validate = .ok (.header t)) :
    ∃ h, file.header = some h ∧ t.name = canonicalHeaderKey h.name ∧
      (t.prefixText, t.suffixText) = cutAt h.value secretPlaceholder := by
  unfold FileInjectionTemplate.validate at accepted
  split at accepted
  · cases accepted
  · next h given _ _ =>
    refine ⟨h, given, ?_⟩
    cases checked : h.validate with
    | error complaint => simp [checked, Except.map] at accepted
    | ok made =>
      simp only [checked, Except.map, Except.ok.injEq, InjectionTemplate.header.injEq] at accepted
      subst accepted
      revert checked
      fun_cases FileHeaderTemplate.validate h <;> rintro ⟨⟩
      exact ⟨rfl, rfl⟩
  · next q _ _ _ => cases checked : q.validate <;> simp [checked, Except.map] at accepted
  · next b _ _ _ => cases checked : b.validate <;> simp [checked, Except.map] at accepted
  · cases accepted

/-- Any other template is accepted only where the file has no header template. -/
theorem validate_other {template : InjectionTemplate} (accepted : file.validate = .ok template)
    (other : ∀ t, template ≠ .header t) : file.header = none := by
  unfold FileInjectionTemplate.validate at accepted
  split at accepted
  · cases accepted
  · next h _ _ _ =>
    cases checked : h.validate with
    | error complaint => simp [checked, Except.map] at accepted
    | ok made =>
      simp only [checked, Except.map, Except.ok.injEq] at accepted
      exact absurd accepted.symm (other made)
  · next none _ _ => exact none
  · next none _ _ => exact none
  · cases accepted

end Accepted

end TrustedCourier.Config
