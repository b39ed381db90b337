import TrustedCourier.Base64
import TrustedCourier.Queries
import TrustedCourier.Templates

/-!
# Agent Tokens in, Secrets out

The templates of all Secret Names make the slots in which an Agent Token is looked for
on every route: headers, query parameters, basic auth, and the header of its own that
is always read. A request is authenticated if exactly one token is presented. The
Secret is rendered into the place its template says.

How texts compare without regard to case is a parameter, and so is what the access
service says about a token. A Secret whose memory has been released has no value.
-/

namespace TrustedCourier.AgentApi

open ByteStrings UrlEscapes Config Queries

/-- `AgentTokenHeader`. -/
def agentTokenHeader : Bytes := bytes "X-TC-Agent-Token"

/-- `access.AgentTokenPrefix`. -/
def agentTokenPrefix : Bytes := bytes "tcat_"

/-- The header basic auth is carried in. -/
def authorization : Bytes := bytes "Authorization"

/-! ## Slots -/

/-- The credential slots of all templates: the header templates by header name, the
names of query parameters, the basic auth templates. -/
structure Slots where
  headers : List (Bytes × List HeaderTemplate)
  queries : List Bytes
  basicAuth : List BasicAuthTemplate

/-- Where an Agent Token was presented: a header or a query parameter. -/
structure Slot where
  header : Bytes
  query : Bytes
deriving DecidableEq

/-- Names in the order of their bytes. -/
def sorted (names : List Bytes) : List Bytes := names.mergeSort fun a b => decide (a ≤ b)

/-- The header templates under a name. -/
def Slots.templates (slots : Slots) (name : Bytes) : List HeaderTemplate :=
  (slots.headers.lookup name).getD []

/-- One round of the loop in `newSlots`. -/
def Slots.add (out : Slots) : Option InjectionTemplate → Slots
  | none => out
  | some (.header t) =>
    if (out.templates t.name).contains t then out
    else
      { out with headers := (t.name, out.templates t.name ++ [t]) ::
        out.headers.filter (·.1 ≠ t.name) }
  | some (.query t) =>
    if out.queries.contains t.name then out else { out with queries := out.queries ++ [t.name] }
  | some (.basicAuth t) =>
    if out.basicAuth.contains t then out else { out with basicAuth := out.basicAuth ++ [t] }

/-- No slots at all. -/
def Slots.none : Slots := { headers := [], queries := [], basicAuth := [] }

/-- `newSlots`, from the Secret Names of a config with their templates. -/
def newSlots (secrets : List (Bytes × Option InjectionTemplate)) : Slots :=
  let ordered := secrets.mergeSort fun a b => decide (a.1 ≤ b.1)
  let out := ordered.foldl (fun out secret => out.add secret.2) Slots.none
  { out with queries := sorted out.queries }

/-! ## Finding the token -/

section Extract

variable (equalFold : Bytes → Bytes → Bool)

/-- `extract`. -/
def extract (value : Bytes) (t : HeaderTemplate) : Option Bytes :=
  if value.length < t.prefixText.length + t.suffixText.length ||
      !equalFold (value.take t.prefixText.length) t.prefixText ||
      !equalFold (value.drop (value.length - t.suffixText.length)) t.suffixText then none
  else some ((value.take (value.length - t.suffixText.length)).drop t.prefixText.length)

/-- `extractBasicAuth`. -/
def extractBasicAuth (value : Bytes) (t : BasicAuthTemplate) : Option Bytes :=
  let parts := cut value 0x20
  if !parts.2.2 || !equalFold parts.1 (bytes "Basic") then none
  else
    match Base64.decodeString parts.2.1 with
    | none => none
    | some decoded =>
      let pair := cut decoded 0x3A
      if !pair.2.2 then none
      else if t.secretIsUsername then (if pair.2.1 = t.password then some pair.1 else none)
      else if pair.1 = t.username then some pair.2.1 else none

/-- Something shaped like an Agent Token. -/
def shaped (value : Bytes) : Bool := agentTokenPrefix.isPrefixOf value

/-- What the first template that finds a token finds. -/
def firstToken {τ : Type} (find : τ → Option Bytes) (templates : List τ) : Option Bytes :=
  templates.findSome? fun t => (find t).filter shaped

/-- The tokens in the slots of header templates. -/
def headerTokens (slots : Slots) (header : Header) : List (Bytes × Slot) :=
  (sorted (slots.headers.map Prod.fst)).flatMap fun name =>
    ((header.values name).filterMap fun v => firstToken (extract equalFold v)
      (slots.templates name)).map fun token => (token, { header := name, query := [] })

/-- The tokens in basic auth. -/
def basicAuthTokens (slots : Slots) (header : Header) : List (Bytes × Slot) :=
  ((header.values authorization).filterMap fun v => firstToken (extractBasicAuth equalFold v)
    slots.basicAuth).map fun token => (token, { header := authorization, query := [] })

/-- The tokens in query parameters. -/
def queryTokens (maxParams : Option Nat) (slots : Slots) (rawQuery : Bytes) : List (Bytes × Slot) :=
  slots.queries.flatMap fun name =>
    ((values (parseQuery maxParams rawQuery) name).filter shaped).map fun token =>
      (token, { header := [], query := name })

/-- Whatever is in the token's own header. -/
def ownTokens (header : Header) : List (Bytes × Slot) :=
  (header.values agentTokenHeader).map fun token =>
    (token, { header := agentTokenHeader, query := [] })

/-- What `authenticateProxy` finds presented, and where. -/
def presented (maxParams : Option Nat) (slots : Slots) (header : Header) (rawQuery : Bytes) :
    List (Bytes × Slot) :=
  headerTokens equalFold slots header ++ basicAuthTokens equalFold slots header ++
    queryTokens maxParams slots rawQuery ++ ownTokens header

end Extract

/-- What the access service says against a token. -/
inductive TokenError where
  | invalid
  | expired
  | revoked
  | failed
deriving DecidableEq

/-- How a request is turned away. -/
inductive Refusal where
  | unauthorized (text : String)
  | abandoned
  | internal
deriving DecidableEq

section Authenticate

variable {τ : Type} (authenticate : Bytes → Except TokenError τ) (abandoned : Bool)

/-- `verifyAgentToken`. -/
def verifyAgentToken (presented : List Bytes) : Except Refusal τ :=
  match presented with
  | [] => .error (.unauthorized "Agent Token required")
  | [token] =>
    match authenticate token with
    | .ok tok => .ok tok
    | .error .invalid => .error (.unauthorized "invalid Agent Token")
    | .error .expired => .error (.unauthorized "Agent Token expired")
    | .error .revoked => .error (.unauthorized "Agent Token revoked")
    | .error .failed => .error (if abandoned then .abandoned else .internal)
  | _ => .error (.unauthorized "present the Agent Token once")

/-- `authenticateProxy`. -/
def authenticateProxy (equalFold : Bytes → Bytes → Bool) (maxParams : Option Nat) (slots : Slots)
    (header : Header) (rawQuery : Bytes) : Except Refusal (τ × Slot) :=
  let found := presented equalFold maxParams slots header rawQuery
  match verifyAgentToken authenticate abandoned (found.map Prod.fst), found with
  | .ok tok, (_, slot) :: _ => .ok (tok, slot)
  | .ok _, [] => .error .internal
  | .error refusal, _ => .error refusal

/-- Authentication succeeds on exactly one presented token, and names its slot. -/
theorem authenticateProxy_ok {equalFold : Bytes → Bytes → Bool} {maxParams : Option Nat}
    {slots : Slots} {header : Header} {rawQuery : Bytes} {tok : τ} {slot : Slot}
    (accepted : authenticateProxy authenticate abandoned equalFold maxParams slots header rawQuery =
      .ok (tok, slot)) :
    ∃ token, presented equalFold maxParams slots header rawQuery = [(token, slot)] := by
  unfold authenticateProxy at accepted
  match found : presented equalFold maxParams slots header rawQuery with
  | [] => simp [found, verifyAgentToken] at accepted
  | [(token, place)] =>
    simp only [found, List.map_cons, List.map_nil] at accepted
    cases checked : verifyAgentToken authenticate abandoned [token] with
    | error refusal => simp [checked] at accepted
    | ok value =>
      simp only [checked, Except.ok.injEq, Prod.mk.injEq] at accepted
      exact ⟨token, by rw [accepted.2]⟩
  | first :: second :: rest => simp [found, verifyAgentToken] at accepted

end Authenticate

/-! ## Rendering the Secret -/

/-- A Secret rendered for one request: the header and its value, or the parameter and
its escaped value, and every form of the Secret the request carries. -/
structure Credential where
  header : Bytes
  headerValue : Bytes
  query : Bytes
  queryValue : Bytes
  needles : List Bytes

/-- Why a Secret cannot go where its template puts it. -/
inductive RenderError where
  | released
  | headerControl
  | usernameColon
deriving DecidableEq

def RenderError.text : RenderError → String
  | .released => "secret: use after Release"
  | .headerControl => "the Secret contains a control character, which a header cannot carry"
  | .usernameColon => "the Secret contains ':', which a basic auth username cannot carry"

/-- `renderBasicAuth`. -/
def renderBasicAuth (t : BasicAuthTemplate) (value : Option Bytes) :
    Except RenderError Credential :=
  match value with
  | none => .error .released
  | some secret =>
    let colon : Bytes := bytes ":"
    let pair := t.username ++ (if !t.secretIsUsername then colon else []) ++ secret ++
      (if t.secretIsUsername then colon else []) ++ t.password
    let raw := if t.secretIsUsername then pair.take (pair.length - t.password.length - 1)
      else pair.drop (t.username.length + 1)
    if t.secretIsUsername && contains raw colon then .error .usernameColon
    else
      let scheme := bytes "Basic "
      let header := scheme ++ Base64.encodeToString pair
      .ok { header := authorization, headerValue := header, query := [], queryValue := [],
            needles := [raw, header.drop scheme.length] }

/-- `render`. -/
def render (t : InjectionTemplate) (value : Option Bytes) : Except RenderError Credential :=
  match t with
  | .basicAuth t => renderBasicAuth t value
  | .query t =>
    match value with
    | none => .error .released
    | some raw =>
      .ok { header := [], headerValue := [], query := t.name, queryValue := queryEscape raw,
            needles := [raw, queryEscape raw] }
  | .header t =>
    match value with
    | none => .error .released
    | some secret =>
      if hasControl secret then .error .headerControl
      else
        let v := t.prefixText ++ secret ++ t.suffixText
        .ok { header := t.name, headerValue := v, query := [], queryValue := [],
              needles := [(v.take (v.length - t.suffixText.length)).drop t.prefixText.length] }

end TrustedCourier.AgentApi
