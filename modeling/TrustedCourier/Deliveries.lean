import TrustedCourier.AuditEntry
import TrustedCourier.Authorize
import TrustedCourier.CredentialSwap
import TrustedCourier.ForwardedPath
import TrustedCourier.ProxyResponse
import TrustedCourier.Snapshots

/-!
# The two Delivery handlers

`reveal` writes a Secret to the Agent, and `proxy` sends the Agent's request to an Upstream
with the Secret in it. Both check an Agent Token first. From there on the request is a
Delivery attempt, whose Audit Record is filled in on the way and appended when the
handler is left, by return or by panic.

A run of a handler is the list of what it does to the world, in order: the calls it
makes with their answers, what it gives to the server to send, how it is left, and the
record it appends. The world answers as it likes. The config snapshot is the one the
request has obtained, with the config it was made from.

A Delivery that never ends, because an Upstream never ends its response, has no run. The
middleware in front of the handlers and their logging are not modelled.
-/

namespace TrustedCourier.AgentApi

open ByteStrings UrlEscapes Config Access Headers ForwardedPath Queries

/-! ## Requests and the world they are served in -/

/-- What the handlers read of a request. Its Secret Name and Upstream are the parts of
its path that the route names. -/
structure Request where
  method : Bytes
  header : Header
  rawQuery : Bytes
  escapedPath : Bytes
  secretName : Bytes
  upstream : Bytes

/-- The snapshot a request has obtained, and its config. -/
structure View where
  cfg : Config
  snap : Snapshot
  serves : Serves cfg snap

/-- Why a Secret could not be resolved. -/
inductive ResolveError where
  | lockedMemory
  | other
deriving DecidableEq

/-- How everything around a handler behaves while it serves one request: the access
service, whether the Agent is gone when that fails, the Secret Resolver, the Upstreams,
the Agent's connection, and what can be asked when a proxied exchange fails before or
after the response has started. A Secret that has been released has no value. -/
structure World where
  authenticate : Bytes → Except TokenError AgentToken
  gone : Bool
  resolve : Config → Bytes → Except ResolveError (Option Bytes)
  upstream : Transport → Outgoing → Answer
  protocol : Protocol
  agent : Connection
  atError : Circumstances
  atAbort : Circumstances

/-- What a handler does. -/
inductive Event where
  | checked (token : Bytes) (answer : Except TokenError AgentToken)
  | resolved (cfg : Config) (secretName : Bytes) (answer : Except ResolveError (Option Bytes))
  | rendered (answer : Except RenderError Credential)
  | released
  | contacted (transport : Transport) (out : Outgoing) (answer : Answer)
  | sent (s : Sent)
  /-- The response is given up after it has started. -/
  | aborted
  /-- The server panics at a status that it does not take for one. -/
  | panicked (status : Int64)
  | appended (record : Audit.Record)

/-- What is given to the server. -/
def tell (sent : List Sent) : List Event := sent.map .sent

/-! ## Attempts -/

/-- What is done for a Delivery attempt, and its record in the end. -/
structure Attempt where
  events : List Event
  record : Audit.Record

/-- The deferred `record` is the last thing done. -/
def Attempt.run (a : Attempt) : List Event := a.events ++ [.appended a.record]

/-- Something is done first. -/
def Attempt.after (front : List Event) (a : Attempt) : Attempt :=
  { a with events := front ++ a.events }

/-- `audit.Allowed`. -/
def allowed : Bytes := bytes "allowed"

/-- `audit.Denied`. -/
def denied : Bytes := bytes "denied"

def deniedMessage : String := "denied: no Policy on this Agent Token allows this Delivery"

/-- The attempt is denied, and answered with an error. -/
def Attempt.refuse (header : Header) (record : Audit.Record) (reason : Bytes) (status : Int64)
    (msg : String) :
    Attempt :=
  ⟨tell (writeError header status msg), { record with decision := denied, reason := reason }⟩

/-- The attempt fails before a response has started, and is answered with an error. -/
def Attempt.fail (header : Header) (record : Audit.Record) (failure : Bytes) (status : Int64)
    (msg : String) :
    Attempt :=
  ⟨tell (writeError header status msg), { record with failure := failure }⟩

/-- `resolve`, and what is done with the Secret. -/
def resolve (w : World) (view : View) (header : Header) (record : Audit.Record) (secretName : Bytes)
    (deliver : Option Bytes → Attempt) : Attempt :=
  let answer := w.resolve view.cfg secretName
  Attempt.after [.resolved view.cfg secretName answer] <|
    match answer with
    | .error .lockedMemory =>
      Attempt.fail header record (bytes "no locked memory to hold the Secret") 503
        "the Secret cannot be held safely right now; try again later"
    | .error .other =>
      Attempt.fail header record (bytes "the Secret could not be fetched") 502
        "the Secret could not be fetched"
    | .ok value => deliver value

/-! ## Checking the token -/

/-- The call to the access service, which is made for a single token. -/
def checks (w : World) : List Bytes → List Event
  | [token] => [.checked token (w.authenticate token)]
  | _ => []

/-- A request without an accepted token is turned away. -/
def turnAway (header : Header) : Refusal → List Event
  | .unauthorized text =>
    tell (writeError
      (header.set (bytes "WWW-Authenticate") (bytes "Bearer realm=\"TrustedCourier\"")) 401 text)
  | .abandoned => []
  | .internal => tell (writeError header 500 "internal error")

/-- `verifyAgentToken`, with its call and its answer, and the attempt that follows. -/
def checkThen (w : World) (header : Header) (presented : List Bytes)
    (attempt : AgentToken → Attempt) : List Event :=
  checks w presented ++
    match verifyAgentToken w.authenticate w.gone presented with
    | .error refusal => turnAway header refusal
    | .ok tok => (attempt tok).run

/-- The loop of `authenticate` over the values of Authorization. -/
def bearerTokens (equalFold : Bytes → Bytes → Bool) : List Bytes → Except Refusal (List Bytes)
  | [] => .ok []
  | v :: rest =>
    let parts := cut v 0x20
    if equalFold parts.1 (bytes "Bearer") then (bearerTokens equalFold rest).map (parts.2.1 :: ·)
    else .error (.unauthorized "Authorization must be a Bearer Agent Token")

/-- What `authenticate` finds presented. -/
def presentedBearer (lib : Library) (header : Header) : Except Refusal (List Bytes) :=
  (bearerTokens lib.equalFold (header.values authorization)).map
    (· ++ header.values agentTokenHeader)

/-! ## Reveal Delivery -/

/-- The Secret is written to the Agent, and released. -/
def writeSecret (w : World) (header : Header) (record : Audit.Record) (value : Option Bytes) :
    Attempt :=
  let header := (header.set (bytes "Content-Type") (bytes "application/octet-stream")).set
    (bytes "Content-Length") (Decimal.digits (value.getD []).length)
  let start : List Sent := [.head 200 header]
  let interrupted := { record with failure := bytes "the Secret could not be written to the Agent" }
  match value with
  | none => ⟨tell start ++ [.aborted, .released], interrupted⟩
  | some secret =>
    if (w.agent 0 secret).2.isSome then
      ⟨tell (start ++ [.body secret, .failed]) ++ [.aborted, .released], interrupted⟩
    else ⟨tell (start ++ [.body secret]) ++ [.released], record⟩

/-- The record of a Reveal Delivery to start with. -/
def revealRecord (req : Request) (tok : AgentToken) : Audit.Record where
  agentTokenID := tok.id
  secretName := req.secretName
  delivery := DeliveryMode.reveal.text
  upstream := []
  upstreamHost := []
  decision := []
  reason := []
  upstreamStatus := 0
  failure := []

/-- `reveal`, from where the token is known. -/
def revealAttempt (w : World) (view : View) (header : Header) (req : Request) (tok : AgentToken) :
    Attempt :=
  let record := revealRecord req tok
  match authorize view.cfg tok req.secretName .reveal with
  | some reason => Attempt.refuse header record reason.text 403 deniedMessage
  | none =>
    let record := { record with decision := allowed }
    resolve w view header record req.secretName (writeSecret w header record)

/-- `reveal`. -/
def reveal (lib : Library) (w : World) (view : View) (header : Header) (req : Request) :
    List Event :=
  if req.method ≠ bytes "GET" then
    tell (writeError (header.set (bytes "Allow") (bytes "GET")) 405 "method not allowed")
  else
    match presentedBearer lib req.header with
    | .error refusal => turnAway header refusal
    | .ok presented => checkThen w header presented (revealAttempt w view header req)

/-! ## Proxy Delivery -/

/-- An offer of h2c is dropped. -/
def dropOffer (lib : Library) (header : Header) : Header :=
  if lib.equalFold (header.get (bytes "Upgrade")) (bytes "h2c") then
    (header.del (bytes "Upgrade")).del (bytes "Http2-Settings")
  else header

/-- Where the request is sent. -/
def targetOf (up : Upstream) (rest : Bytes) : Url :=
  let escaped := up.basePath ++ rest
  let escaped := if escaped = [] then bytes "/" else escaped
  { scheme := up.scheme, host := up.host, path := (pathUnescape escaped).getD [],
    rawPath := escaped, rawQuery := [] }

/-- What `Rewrite` is given. Of the URL only the query counts. -/
def handed (lib : Library) (header : Header) (rawQuery : Bytes) : Outgoing where
  url :=
    { scheme := [], host := [], path := [], rawPath := [],
      rawQuery := cleanQueryParams lib.maxParams rawQuery }
  host := []
  header := lib.handedOn header

/-- The request goes to the Upstream, and the response to the Agent. -/
def exchange (lib : Library) (w : World) (header : Header) (record : Audit.Record) (method : Bytes)
    (transport : Transport) (out : Outgoing) (needles : List Bytes) : Attempt :=
  let answer := w.upstream transport out
  let served := (newRelay w.protocol header needles).serve lib w.agent method w.atError answer
  let record := { record with upstreamStatus := served.upstreamStatus, failure := served.failure }
  Attempt.after [.contacted transport out answer] <|
    match served.ending with
    | .completed => ⟨tell (served.relay.finish lib w.agent).sent, record⟩
    | .aborted =>
      ⟨tell served.relay.sent ++ [.aborted],
        { record with failure := abortFailure w.atAbort served.relay.writeErr }⟩
    | .panicked => ⟨tell served.relay.sent ++ [.panicked served.upstreamStatus], record⟩

/-- The Secret is rendered and released, and the request made with it. -/
def inject (lib : Library) (w : World) (header : Header) (record : Audit.Record) (req : Request)
    (inbound : Header) (rest : Bytes) (slot : Slot) (rt : Route) (value : Option Bytes) : Attempt :=
  let answer := render rt.template value
  Attempt.after [.rendered answer, .released] <|
    match answer with
    | .error _ =>
      Attempt.fail header record (bytes "the Secret cannot go where the Injection Template puts it")
        502 "the Secret could not be delivered"
    | .ok cred =>
      exchange lib w header record req.method rt.transport
        ((handed lib inbound req.rawQuery).rewrite (targetOf rt.upstream rest) slot cred)
          cred.needles

/-- The route of a request. -/
def routeOf (view : View) (req : Request) : Option Route :=
  view.snap.routes.lookup ⟨req.secretName, req.upstream⟩

/-- The record of a Proxy Delivery to start with. -/
def proxyRecord (view : View) (req : Request) (tok : AgentToken) : Audit.Record where
  agentTokenID := tok.id
  secretName := req.secretName
  delivery := DeliveryMode.proxy.text
  upstream := req.upstream
  upstreamHost := ((routeOf view req).map fun rt => rt.upstream.host).getD []
  decision := []
  reason := []
  upstreamStatus := 0
  failure := []

/-- `proxy`, from where the token is known. -/
def proxyAttempt (lib : Library) (w : World) (view : View) (header : Header) (req : Request)
    (tok : AgentToken) (slot : Slot) : Attempt :=
  let record := proxyRecord view req tok
  let inbound := dropOffer lib req.header
  if inbound.get (bytes "Upgrade") ≠ [] then
    Attempt.refuse header record (bytes "protocol upgrade") 400
      "Proxy Delivery does not support protocol upgrades"
  else
    match forwardedPath req.escapedPath with
    | none =>
      Attempt.refuse header record (bytes "the path contains a dot segment") 400
        "the path must not contain dot segments"
    | some rest =>
      match authorizeProxy view.cfg tok req.secretName req.method rest, routeOf view req with
      | some reason, _ => Attempt.refuse header record reason.text 403 deniedMessage
      | none, none => Attempt.refuse header record (bytes "unknown Upstream") 403 deniedMessage
      | none, some rt =>
        let record := { record with decision := allowed }
        resolve w view header record req.secretName
          (inject lib w header record req inbound rest slot rt)

/-- `proxy`. -/
def proxy (lib : Library) (w : World) (view : View) (header : Header) (req : Request) :
    List Event :=
  let found := presented lib.equalFold lib.maxParams view.snap.slots req.header req.rawQuery
  checks w (found.map Prod.fst) ++
    match authenticateProxy w.authenticate w.gone lib.equalFold lib.maxParams view.snap.slots
      req.header req.rawQuery with
    | .error refusal => turnAway header refusal
    | .ok (tok, slot) => (proxyAttempt lib w view header req tok slot).run

/-- The handler of a Delivery mode. -/
def handle (mode : DeliveryMode) (lib : Library) (w : World) (view : View) (header : Header)
    (req : Request) :
    List Event :=
  match mode with
  | .reveal => reveal lib w view header req
  | .proxy => proxy lib w view header req

/-! ## The run of a request -/

/-- What the Agent gets. -/
def response (run : List Event) : List Sent :=
  run.filterMap fun
    | .sent s => some s
    | _ => none

@[simp] theorem response_append (front back : List Event) :
    response (front ++ back) = response front ++ response back :=
  List.filterMap_append

@[simp] theorem response_tell (sent : List Sent) : response (tell sent) = sent := by
  simp [response, tell, List.filterMap_map]

@[simp] theorem response_checks (w : World) (presented : List Bytes) :
    response (checks w presented) = [] := by
  unfold checks
  split <;> rfl

@[simp] theorem response_run (a : Attempt) : response a.run = response a.events := by
  simp [Attempt.run, response]

/-- A run in which the access service accepts a token. -/
def Accepts (tok : AgentToken) (run : List Event) : Prop :=
  ∃ token, Event.checked token (.ok tok) ∈ run

section Verify

variable {w : World} {presented : List Bytes}

theorem verifyAgentToken_ok {tok : AgentToken} :
    verifyAgentToken w.authenticate w.gone presented = .ok tok ↔
    ∃ token, presented = [token] ∧ w.authenticate token = .ok tok := by
  match presented with
  | [] | first :: second :: rest => simp [verifyAgentToken]
  | [token] =>
    cases answer : w.authenticate token with
    | ok found => simp [verifyAgentToken, answer]
    | error e => cases e <;> simp [verifyAgentToken, answer]

theorem mem_checks {e : Event} : e ∈ checks w presented ↔
    ∃ token, presented = [token] ∧ e = .checked token (w.authenticate token) := by
  match presented with
  | [] | [token] | first :: second :: rest => simp [checks]

/-- The call that was made for a request turned away did not accept its token. -/
theorem checks_refused {refusal : Refusal}
    (refused : verifyAgentToken w.authenticate w.gone presented = .error refusal) :
    ∀ e ∈ checks w presented, ∃ token error, e = .checked token (.error error) := by
  intro e member
  obtain ⟨token, only, rfl⟩ := mem_checks.mp member
  cases answer : w.authenticate token with
  | error error => exact ⟨token, error, rfl⟩
  | ok tok =>
    rw [verifyAgentToken_ok.mpr ⟨token, only, answer⟩] at refused
    cases refused

/-- A request is turned away, or the one token it presents is accepted and an attempt
made. -/
theorem checkThen_cases (header : Header) (attempt : AgentToken → Attempt) :
    (∃ refusal, verifyAgentToken w.authenticate w.gone presented = .error refusal ∧
        checkThen w header presented attempt = checks w presented ++ turnAway header refusal) ∨
      (∃ token tok, presented = [token] ∧ w.authenticate token = .ok tok ∧
        checkThen w header presented attempt = .checked token (.ok tok) :: (attempt tok).run) := by
  unfold checkThen
  cases verified : verifyAgentToken w.authenticate w.gone presented with
  | error refusal => exact Or.inl ⟨refusal, rfl, rfl⟩
  | ok tok =>
    obtain ⟨token, rfl, answer⟩ := verifyAgentToken_ok.mp verified
    exact Or.inr ⟨token, tok, rfl, answer, by simp [checks, answer]⟩

end Verify

section Handlers

variable {lib : Library} {w : World} {view : View} {header : Header} {req : Request}

/-- Only what is given to the server. -/
def Event.IsSent : Event → Prop
  | .sent _ => True
  | _ => False

theorem isSent_tell {sent : List Sent} {e : Event} (member : e ∈ tell sent) : e.IsSent := by
  obtain ⟨s, _, rfl⟩ := List.mem_map.mp member
  trivial

theorem isSent_turnAway {refusal : Refusal} {e : Event} (member : e ∈ turnAway header refusal) :
    e.IsSent := by
  cases refusal with
  | unauthorized text => exact isSent_tell member
  | abandoned => exact absurd member List.not_mem_nil
  | internal => exact isSent_tell member

/-- The token `proxy` accepts is the only one presented, so its slot is the first. -/
theorem proxy_checkThen (lib : Library) (w : World) (view : View) (header : Header)
    (req : Request) :
    ∃ slot, proxy lib w view header req =
      checkThen w header
        ((presented lib.equalFold lib.maxParams view.snap.slots req.header req.rawQuery).map
          Prod.fst)
        fun tok => proxyAttempt lib w view header req tok slot := by
  unfold proxy checkThen authenticateProxy
  dsimp only
  cases found : presented lib.equalFold lib.maxParams view.snap.slots req.header req.rawQuery with
  | nil => exact ⟨⟨[], []⟩, by simp [verifyAgentToken]⟩
  | cons first rest =>
    refine ⟨first.2, ?_⟩
    cases verifyAgentToken w.authenticate w.gone ((first :: rest).map Prod.fst) with
    | error refusal | ok tok => rfl

/-- A Reveal Delivery is denied, or the Secret is resolved. -/
theorem revealAttempt_cases (w : World) (view : View) (header : Header) (req : Request)
    (tok : AgentToken) :
    (∃ reason : Denial, revealAttempt w view header req tok =
        Attempt.refuse header (revealRecord req tok) reason.text 403 deniedMessage) ∨
      (authorize view.cfg tok req.secretName .reveal = none ∧
        let record := { revealRecord req tok with decision := allowed }
        revealAttempt w view header req tok =
          resolve w view header record req.secretName (writeSecret w header record)) := by
  unfold revealAttempt
  cases authorize view.cfg tok req.secretName .reveal with
  | some reason => exact Or.inl ⟨reason, rfl⟩
  | none => exact Or.inr ⟨rfl, rfl⟩

/-- A request for Proxy Delivery that asks for an upgrade. -/
abbrev Upgrades (lib : Library) (req : Request) : Prop :=
  (dropOffer lib req.header).get (bytes "Upgrade") ≠ []

/-- A Proxy Delivery is refused for an upgrade or for its path, or denied, or the Secret is
resolved. -/
theorem proxyAttempt_cases (lib : Library) (w : World) (view : View) (header : Header)
    (req : Request) (tok : AgentToken) (slot : Slot) :
    let attempt := proxyAttempt lib w view header req tok slot
    let refuse := Attempt.refuse header (proxyRecord view req tok)
    (Upgrades lib req ∧
        attempt = refuse (bytes "protocol upgrade") 400
          "Proxy Delivery does not support protocol upgrades") ∨
      (¬ Upgrades lib req ∧ forwardedPath req.escapedPath = none ∧
        attempt = refuse (bytes "the path contains a dot segment") 400
          "the path must not contain dot segments") ∨
      (¬ Upgrades lib req ∧ forwardedPath req.escapedPath ≠ none ∧
        ∃ reason, reason ≠ [] ∧ attempt = refuse reason 403 deniedMessage) ∨
      (∃ rest rt, forwardedPath req.escapedPath = some rest ∧
        authorizeProxy view.cfg tok req.secretName req.method rest = none ∧
        routeOf view req = some rt ∧
        let record := { proxyRecord view req tok with decision := allowed }
        attempt = resolve w view header record req.secretName
          (inject lib w header record req (dropOffer lib req.header) rest slot rt)) := by
  intro attempt refuse
  simp only [attempt, refuse, proxyAttempt]
  by_cases upgrades : Upgrades lib req
  · exact Or.inl ⟨upgrades, if_pos upgrades⟩
  · refine Or.inr ?_
    rw [if_neg upgrades]
    cases path : forwardedPath req.escapedPath with
    | none => exact Or.inl ⟨upgrades, rfl, rfl⟩
    | some rest =>
      refine Or.inr ?_
      dsimp only
      cases decision : authorizeProxy view.cfg tok req.secretName req.method rest with
      | some reason =>
        exact Or.inl ⟨upgrades, by simp, reason.text, by cases reason <;> decide, rfl⟩
      | none =>
        cases route : routeOf view req with
        | none => exact Or.inl ⟨upgrades, by simp, bytes "unknown Upstream", by decide, rfl⟩
        | some rt => exact Or.inr ⟨rest, rt, rfl, decision, rfl, rfl⟩

end Handlers

/-! ## A world to serve in -/

/-- The view of a server that has served under one config only. -/
def viewOf (cfg : Config) : View :=
  ⟨cfg, ⟨0, (newRoutes cfg ∅ 0).1, slotsOf cfg⟩, serves_newRoutes cfg 0 trusted_empty⟩

/-- A library that knows no other letters and spaces than the plain ones. -/
def plainLibrary : Library where
  equalFold := (· == ·)
  trimSpace := id
  toLower := id
  maxParams := none
  handedOn := id
  gunzip := id

/-- A world in which every token and every Secret is good, and Upstreams do not answer. -/
def plainWorld : World where
  authenticate := fun _ => .ok limitedToken
  gone := false
  resolve := fun _ _ => .ok (some (bytes "s1"))
  upstream := fun _ _ => ⟨[], none⟩
  protocol := .http1
  agent := fun _ b => (b.length, none)
  atError := ⟨false, false, false, false⟩
  atAbort := ⟨false, false, false, false⟩

/-- A request to read something of an Upstream, with a token in its own header. -/
def readRequest (what : Bytes) : Request where
  method := bytes "GET"
  header := fun key => if key = bytes "X-Tc-Agent-Token" then [bytes "tcat_a"] else []
  rawQuery := []
  escapedPath := bytes "/proxy/github/api/" ++ what
  secretName := github.name
  upstream := bytes "api"

end TrustedCourier.AgentApi
