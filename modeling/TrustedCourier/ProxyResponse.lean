import TrustedCourier.Headers
import TrustedCourier.Json
import TrustedCourier.RedactWriter

/-!
# The response on its way to the Agent

What an Upstream answers is handed to the Agent by `httputil.ReverseProxy`, through two
writers: one that masks the Secret in headers, body and trailers, and one that remembers
a failed write. They are one state here, beside the header map and what the server's own
`ResponseWriter` has been given.

A response ends in one of three ways. It is complete; or `ReverseProxy`, unable to go on
after it has started, aborts it with a panic; or the server refuses a status that is not
one and panics for that reason. Everything the two ends of the exchange may do is a
parameter: the answer with its informational responses, the reads its body gives and
whether they break off, and what each write to the Agent returns. So are the functions
of the standard library on texts in Unicode, and gzip.

The keys of a header that a transport returns are canonical, so adding one header to
another goes by the keys themselves. The headers of an answer are those that
`ReverseProxy` hands on, without the ones that end at a hop. Deadlines and flushes are
not modelled but for the failure of a flush, which is remembered like that of a write.
-/

namespace TrustedCourier.AgentApi

open ByteStrings Option

/-- The reads a body gives, and whether they end in an error. -/
structure Body where
  reads : List Bytes
  broken : Bool

/-- What the standard library does: with texts, with a compressed body, and with the
header of a request before `Rewrite` sees it. -/
structure Library where
  equalFold : Bytes → Bytes → Bool
  trimSpace : Bytes → Bytes
  toLower : Bytes → Bytes
  maxParams : Option Nat
  handedOn : Header → Header
  gunzip : Body → Body

/-- What the server's `ResponseWriter` is given: a status with the header map at that
moment, bytes of the body, that a write failed before the eyes of the handler, and the
header map at the end, from which the trailers are taken. -/
inductive Sent where
  | head (status : Int64) (header : Header)
  | body (b : Bytes)
  | failed
  | trailers (header : Header)

/-! ## Errors -/

/-- `json.Encoder.Encode` of an `errorResponse`. -/
def errorBody (msg : String) : Bytes := Json.marshal [(bytes "error", .text (bytes msg))] ++ [0x0A]

/-- `writeError`, before anything else has been written. -/
def writeError (header : Header) (status : Int64) (msg : String) : List Sent :=
  [.head status (header.set (bytes "Content-Type") (bytes "application/json")),
    .body (errorBody msg)]

/-! ## What an Upstream answers -/

/-- An informational response. -/
structure Informational where
  status : Int64
  header : Header
  range : 100 ≤ status ∧ status ≤ 199

/-- A response, with the trailers it announces and those it has in the end. -/
structure Response where
  status : Int64
  header : Header
  announced : List Bytes
  body : Body
  trailers : List (Bytes × List Bytes)

/-- What `RoundTrip` comes to: informational responses, then a response or an error. -/
structure Answer where
  early : List Informational
  response : Option Response

section Decode

variable (lib : Library)

/-- The parts of a header value that is a list. -/
def listed (values : List Bytes) : List Bytes :=
  (values.flatMap fun v => v.splitOn 0x2C).map lib.trimSpace

/-- The encodings of a body, identity aside. -/
def encodings (header : Header) : List Bytes :=
  (listed lib (header.values (bytes "Content-Encoding"))).filter fun enc =>
    enc ≠ [] && !lib.equalFold enc (bytes "identity")

/-- `decodeBody`; none if Redaction cannot read the body. -/
def decodeBody (method : Bytes) (res : Response) : Option Response :=
  if method = bytes "HEAD" || res.status = 204 || res.status = 304 then some res
  else
    match encodings lib res.header with
    | [] => some res
    | [enc] =>
      if lib.equalFold enc (bytes "gzip") then
        some { res with
          header := (res.header.del (bytes "Content-Encoding")).del (bytes "Content-Length")
          body := lib.gunzip res.body }
      else none
    | _ => none

end Decode

/-! ## Redaction of headers -/

section Redaction

variable (lib : Library) (needles : List Bytes)

/-- `namesSecret`. -/
def namesSecret (name : Bytes) : Bool :=
  needles.any fun n => n ≠ [] && contains (lib.toLower name) (lib.toLower n)

/-- The loop of `redactHeader` over the header map. -/
def maskValues (header : Header) : Header := fun name =>
  if namesSecret lib needles name then [] else (header name).map fun v => Redact.string v needles

/-- `redactHeader`. -/
def redactHeader (header : Header) : Header :=
  let h := maskValues lib needles header
  let announced := h.values (bytes "Trailer")
  if announced = [] then h
  else
    let kept := (listed lib announced).filter fun name => name ≠ [] && !namesSecret lib needles name
    let h := h.del (bytes "Trailer")
    if kept = [] then h else h.set (bytes "Trailer") ((bytes ", ").intercalate kept)

end Redaction

/-! ## The writers -/

/-- What the server speaks with the Agent. The Agent API serves both. -/
inductive Protocol where
  | http1
  | http2
deriving DecidableEq

/-- The `redactingWriter` and the `progressWriter` around it, with the header map and
what the server has been given. The server's own writer has `committed` itself to a
status, and has been called to write so many times. -/
structure Relay where
  protocol : Protocol
  header : Header
  needles : List Bytes
  body : Redact.Writer
  wroteHeader : Bool
  writeErr : Bool
  committed : Bool
  writes : Nat
  sent : List Sent

/-- `newRedactingWriter`. -/
def newRelay (protocol : Protocol) (header : Header) (needles : List Bytes) : Relay where
  protocol := protocol
  header := header
  needles := needles
  body := Redact.newWriter needles
  wroteHeader := false
  writeErr := false
  committed := false
  writes := 0
  sent := []

/-- What the Agent's connection answers to each write. -/
abbrev Connection := Nat → Redact.Underlying Unit

/-- A status that the server answers with and then goes on. A 101 is one of them on
HTTP/2; on HTTP/1 it is the status of the response. -/
def informational (protocol : Protocol) (code : Int64) : Bool :=
  100 ≤ code && code ≤ 199 && (protocol = .http2 || code ≠ 101)

/-- `WriteHeader` of the server's `ResponseWriter`, or none if it panics. -/
def Relay.commit (r : Relay) (code : Int64) : Option Relay :=
  if r.committed then some r
  else if code < 100 || 999 < code then none
  else
    some { r with
      committed := !informational r.protocol code
      sent := r.sent ++ [.head code r.header] }

section Writers

variable (lib : Library) (agent : Connection)

/-- `WriteHeader`. -/
def Relay.writeHeader (r : Relay) (code : Int64) : Option Relay :=
  let header := redactHeader lib r.needles r.header
  if 200 ≤ code then
    Relay.commit
      { r with
        wroteHeader := true
        header := (header.set (bytes "Cache-Control") (bytes "no-store")).set
          (bytes "X-Content-Type-Options") (bytes "nosniff") }
      code
  else Relay.commit { r with header := header } code

/-- The header is written before the body. -/
def Relay.start (r : Relay) : Option Relay :=
  if r.wroteHeader then some r else r.writeHeader lib 200

/-- One write to the server's `ResponseWriter`, and whether it failed. -/
def Relay.pass (r : Relay) (b : Bytes) (failed : Bool) : Relay :=
  { r with writes := r.writes + 1, sent := r.sent ++ .body b :: if failed then [.failed] else [] }

/-- `Write`, with how much was written and whether there was an error. -/
def Relay.write (r : Relay) (p : Bytes) : Option (Relay × Nat × Bool) := do
  let r ← r.start lib
  let (body, given, n, err) := r.body.write (agent r.writes) p
  let failed := err.isSome
  return ({ r.pass given failed with body := body, writeErr := r.writeErr || failed }, n, failed)

/-- `writeError`, through the writers. What becomes of the body is not asked. -/
def Relay.writeError (r : Relay) (status : Int64) (msg : String) : Option Relay := do
  let header := r.header.set (bytes "Content-Type") (bytes "application/json")
  let r ← ({ r with header := header } : Relay).writeHeader lib status
  let (r, _, _) ← r.write lib agent (errorBody msg)
  return r

/-- `finish`. An error of the last write is not looked at. -/
def Relay.finish (r : Relay) : Relay :=
  let (body, given, err) := r.body.close (agent r.writes)
  let r := if r.body.pending = 0 then r else r.pass given err.isSome
  let header := redactHeader lib r.needles r.header
  { r with body := body, header := header, sent := r.sent ++ [.trailers header] }

/-! ## The exchange -/

/-- How a response ends. -/
inductive Ending where
  | completed
  | aborted
  | panicked
deriving DecidableEq

/-- The loop of `copyBuffer`, with the panic that follows if it cannot finish. -/
def Relay.copy (broken : Bool) : List Bytes → Relay → Relay × Ending
  | [], r => (r, if broken then .aborted else .completed)
  | p :: rest, r =>
    if p = [] then r.copy broken rest
    else
      match r.write lib agent p with
      | none => (r, .panicked)
      | some (r, n, failed) => if failed || n ≠ p.length then (r, .aborted) else r.copy broken rest

/-- `copyHeader`. -/
def copyHeader (dst src : Header) : Header := fun name => dst name ++ src name

/-- `Header.Add`, for each of some values. -/
def addValues (header : Header) (name : Bytes) (values : List Bytes) : Header := fun key =>
  if key = Headers.canonicalHeaderKey name then header key ++ values else header key

/-- The names of trailers are announced in the header. -/
def announce (names : List Bytes) (header : Header) : Header :=
  if names = [] then header else addValues header (bytes "Trailer") [(bytes ", ").intercalate names]

/-- The trailers go into the header map, under names of their own unless there are as
many as were announced. -/
def addTrailers (res : Response) (header : Header) : Header :=
  let under := if res.trailers.length = res.announced.length then [] else bytes "Trailer:"
  res.trailers.foldl (fun header entry => addValues header (under ++ entry.1) entry.2) header

/-- `Got1xxResponse`: an informational response is passed on, and the header map is
empty after it. -/
def Relay.inform (r : Relay) (info : Informational) : Option Relay :=
  (({ r with header := copyHeader r.header info.header } : Relay).writeHeader lib info.status).map
    fun r =>
    { r with header := fun _ => [] }

/-- What can be asked when a Delivery fails: whether the idle timer has fired, whether
the request's context is done, whether the server is stopping, whether a flush failed. -/
structure Circumstances where
  idle : Bool
  done : Bool
  stopping : Bool
  flushFailed : Bool

/-- What `ErrorHandler` notes, and what it answers if it answers. -/
def errorHandler (unreadable : Bool) (c : Circumstances) : Bytes × Option (Int64 × String) :=
  if unreadable then
    (bytes "Redaction cannot read the Upstream's response",
      some (502, "the Upstream's response could not be delivered"))
  else if c.idle then
    (bytes "the Upstream sent nothing in time", some (504, "the Upstream did not respond in time"))
  else if c.done && c.stopping then (bytes "cut off by server shutdown", none)
  else if c.done then (bytes "abandoned by the Agent", none)
  else (bytes "the Upstream could not be reached", some (502, "the Upstream could not be reached"))

/-- What is noted when a response is aborted. -/
def abortFailure (c : Circumstances) (writeErr : Bool) : Bytes :=
  if c.idle then bytes "the Upstream sent nothing in time"
  else if c.done && c.stopping then bytes "cut off by server shutdown"
  else if c.done then bytes "abandoned by the Agent"
  else if writeErr || c.flushFailed then bytes "the response could not be written to the Agent"
  else bytes "the Upstream's response broke off"

/-- What `ServeHTTP` leaves behind: the writers, what the closures put in the record,
and how it ended. -/
structure Relayed where
  relay : Relay
  upstreamStatus : Int64
  failure : Bytes
  ending : Ending

/-- `ServeHTTP` ends in the `ErrorHandler`. -/
def Relay.fail (r : Relay) (upstreamStatus : Int64) (handled : Bytes × Option (Int64 × String)) :
    Relayed :=
  match handled.2 with
  | none => ⟨r, upstreamStatus, handled.1, .completed⟩
  | some (status, msg) =>
    match r.writeError lib agent status msg with
    | none => ⟨r, upstreamStatus, handled.1, .panicked⟩
    | some r => ⟨r, upstreamStatus, handled.1, .completed⟩

/-- A response that can be read is copied to the Agent. -/
def Relay.deliver (r : Relay) (res : Response) : Relayed :=
  let header := announce res.announced (copyHeader r.header res.header)
  match ({ r with header := header } : Relay).writeHeader lib res.status with
  | none => ⟨r, res.status, [], .panicked⟩
  | some r =>
    match r.copy lib agent res.body.broken res.body.reads with
    | (r, .completed) => ⟨{ r with header := addTrailers res r.header }, res.status, [], .completed⟩
    | (r, ending) => ⟨r, res.status, [], ending⟩

/-- `ServeHTTP`, once the transport has answered. No upgrade was asked for, so a switch of
protocols is an error. -/
def Relay.serve (method : Bytes) (atError : Circumstances) (answer : Answer) (r : Relay) :
    Relayed :=
  match answer.early.foldlM (Relay.inform lib) r with
  | none => ⟨r, 0, [], .panicked⟩
  | some r =>
    match answer.response with
    | none => r.fail lib agent 0 (errorHandler false atError)
    | some res =>
      match decodeBody lib method res with
      | none => r.fail lib agent res.status (errorHandler true atError)
      | some plain =>
        if res.status = 101 then r.fail lib agent res.status (errorHandler false atError)
        else r.deliver lib agent plain

/-! ## How an exchange ends -/

/-- What is noted for every error is a text. -/
theorem errorHandler_failure (unreadable : Bool) (c : Circumstances) :
    (errorHandler unreadable c).1 ≠ [] := by
  unfold errorHandler
  repeat' split
  all_goals decide

theorem abortFailure_ne_nil (c : Circumstances) (writeErr : Bool) :
    abortFailure c writeErr ≠ [] := by
  unfold abortFailure
  repeat' split
  all_goals decide

/-- A status in the server's range. -/
def ValidStatus (code : Int64) : Prop := 100 ≤ code ∧ code ≤ 999

instance (code : Int64) : Decidable (ValidStatus code) := inferInstanceAs (Decidable (_ ∧ _))

variable {lib agent} {r : Relay} {code : Int64}

/-- Only an invalid status panics. -/
theorem commit_none : r.commit code = none ↔ r.committed = false ∧ ¬ ValidStatus code := by
  unfold Relay.commit ValidStatus
  cases r.committed with
  | true => simp
  | false =>
    simp only [Bool.false_eq_true, if_false, true_and, Bool.or_eq_true, decide_eq_true_eq]
    split
    · next outside =>
      refine iff_of_true rfl fun inside => ?_
      rcases outside with low | high
      · exact absurd (Int64.lt_of_le_of_lt inside.1 low) (Int64.lt_irrefl)
      · exact absurd (Int64.lt_of_le_of_lt inside.2 high) (Int64.lt_irrefl)
    · next inside =>
      simp only [not_or, Int64.not_lt] at inside
      simp [inside]

/-- The server panics at a status exactly if it is none and no other has been written. -/
theorem writeHeader_none : r.writeHeader lib code = none ↔ r.committed = false ∧
    ¬ ValidStatus code := by
  unfold Relay.writeHeader
  dsimp only
  split
  · exact commit_none
  · exact commit_none

theorem writeHeader_some (valid : ValidStatus code) : ∃ r', r.writeHeader lib code = some r' := by
  apply ne_none_iff_exists'.mp
  rw [ne_eq, writeHeader_none]
  exact fun refused => refused.2 valid

/-- A body can always be begun. -/
theorem start_some : ∃ r', r.start lib = some r' := by
  unfold Relay.start
  split
  · exact ⟨r, rfl⟩
  · exact writeHeader_some (by decide)

theorem write_some (p : Bytes) : ∃ result, r.write lib agent p = some result := by
  obtain ⟨r', started⟩ : ∃ r', r.start lib = some r' := start_some
  exact ⟨_, by simp only [Relay.write, started, bind_eq_bind, bind_some]; rfl⟩

/-- An error can always be answered. -/
theorem writeError_some (valid : ValidStatus code) (msg : String) :
    ∃ r', r.writeError lib agent code msg = some r' := by
  let typed : Relay :=
    { r with header := r.header.set (bytes "Content-Type") (bytes "application/json") }
  obtain ⟨r₁, headed⟩ : ∃ r₁, typed.writeHeader lib code = some r₁ := writeHeader_some valid
  obtain ⟨⟨r₂, n, failed⟩, written⟩ : ∃ result, r₁.write lib agent (errorBody msg) = some result :=
    write_some _
  exact ⟨r₂, by simp only [Relay.writeError, bind_eq_bind]; rw [headed, bind_some, written]; rfl⟩

theorem inform_some (info : Informational) : ∃ r', r.inform lib info = some r' := by
  have valid : ValidStatus info.status := ⟨info.range.1, Int64.le_trans info.range.2 (by decide)⟩
  let told : Relay := { r with header := copyHeader r.header info.header }
  obtain ⟨r₁, headed⟩ : ∃ r₁, told.writeHeader lib info.status = some r₁ := writeHeader_some valid
  exact ⟨_, by rw [Relay.inform, headed]; rfl⟩

/-- Informational responses are all passed on. -/
theorem early_some (early : List Informational) (r : Relay) :
    ∃ r', early.foldlM (Relay.inform lib) r = some r' := by
  induction early generalizing r with
  | nil => exact ⟨r, rfl⟩
  | cons info rest ih =>
    obtain ⟨r₁, informed⟩ : ∃ r₁, r.inform lib info = some r₁ := inform_some info
    obtain ⟨r₂, others⟩ := ih r₁
    exact ⟨r₂, by rw [List.foldlM_cons, informed]; exact others⟩

/-- The copy of a body ends in the one way or the other, without another panic. -/
theorem copy_ending (broken : Bool) (reads : List Bytes) (r : Relay) :
    (r.copy lib agent broken reads).2 ≠ .panicked := by
  induction reads generalizing r with
  | nil =>
    rw [Relay.copy]
    split <;> simp
  | cons p rest ih =>
    obtain ⟨⟨r₁, n, failed⟩, written⟩ : ∃ result, r.write lib agent p = some result := write_some p
    rw [Relay.copy, written]
    dsimp only
    repeat' split
    · exact ih r
    · simp
    · exact ih r₁

/-- What `ErrorHandler` answers with is a status. -/
theorem errorHandler_valid (unreadable : Bool) (c : Circumstances) :
    ∀ answer ∈ (errorHandler unreadable c).2, ValidStatus answer.1 := by
  unfold errorHandler
  repeat' split
  all_goals simp only [mem_def, some.injEq, forall_eq', reduceCtorEq, false_imp_iff, implies_true]
  all_goals decide

/-- After an error the handler returns, and the failure is noted. -/
theorem fail_errorHandler (upstreamStatus : Int64) (unreadable : Bool) (c : Circumstances) :
    ∃ r', r.fail lib agent upstreamStatus (errorHandler unreadable c) =
      ⟨r', upstreamStatus, (errorHandler unreadable c).1, .completed⟩ := by
  unfold Relay.fail
  cases answers : (errorHandler unreadable c).2 with
  | none => exact ⟨r, rfl⟩
  | some answer =>
    obtain ⟨r', answered⟩ : ∃ r', r.writeError lib agent answer.1 answer.2 = some r' :=
      writeError_some (errorHandler_valid unreadable c answer answers) _
    exact ⟨r', by simp only [answered]⟩

/-- A response that can be read, as `decodeBody` leaves it. -/
def Answer.Reads (lib : Library) (method : Bytes) (answer : Answer) (plain : Response) : Prop :=
  ∃ res, answer.response = some res ∧ decodeBody lib method res = some plain ∧ res.status ≠ 101

/-- A response that can be read is completed or aborted, unless its status is none. -/
theorem deliver_ending (res : Response) :
    let served := r.deliver lib agent res
    served.failure = [] ∧ (served.ending = .panicked → ¬ ValidStatus served.upstreamStatus) := by
  unfold Relay.deliver
  dsimp only
  split
  · next refused =>
    refine ⟨rfl, fun _ (valid : ValidStatus res.status) => ?_⟩
    obtain ⟨r₁, headed⟩ := writeHeader_some valid
    cases refused.symm.trans headed
  · next r₁ _ =>
    have ending : (r₁.copy lib agent res.body.broken res.body.reads).2 ≠ .panicked :=
      copy_ending _ _ r₁
    split
    · exact ⟨rfl, fun other => absurd other (by simp)⟩
    · next copied =>
      refine ⟨rfl, fun other => absurd ?_ ending⟩
      rw [copied]
      exact other

/-- `ServeHTTP` on an answer. Without a response that can be read, a failure is noted and
the handler returns. Otherwise none is noted, and the response is completed or aborted,
unless its status is none. -/
theorem serve_cases (lib : Library) (agent : Connection) (method : Bytes) (atError : Circumstances)
    (answer : Answer) (r : Relay) :
    let served := r.serve lib agent method atError answer
    ((¬ ∃ plain, answer.Reads lib method plain) ∧ served.failure ≠ [] ∧
      served.ending = .completed) ∨
      (∃ plain, answer.Reads lib method plain ∧ served.failure = [] ∧
        (served.ending = .panicked → ¬ ValidStatus served.upstreamStatus)) := by
  intro served
  obtain ⟨r₁, told⟩ : ∃ r₁, answer.early.foldlM (Relay.inform lib) r = some r₁ := early_some _ r
  have failing (status : Int64) (unreadable : Bool)
      (fails : served = r₁.fail lib agent status (errorHandler unreadable atError)) :
      served.failure ≠ [] ∧ served.ending = .completed := by
    obtain ⟨r₂, handled⟩ : ∃ r₂, r₁.fail lib agent status (errorHandler unreadable atError) =
        ⟨r₂, status, (errorHandler unreadable atError).1, .completed⟩ :=
          fail_errorHandler status unreadable atError
    rw [fails, handled]
    exact ⟨errorHandler_failure unreadable atError, rfl⟩
  cases responds : answer.response with
  | none =>
    have fails : served = r₁.fail lib agent 0 (errorHandler false atError) := by
      simp only [served, Relay.serve, told, responds]
    refine Or.inl ⟨?_, failing 0 false fails⟩
    rintro ⟨_, _, same, -⟩
    cases responds.symm.trans same
  | some res =>
    have only {plain : Response} (reads : answer.Reads lib method plain) :
        decodeBody lib method res = some plain ∧ res.status ≠ 101 := by
      obtain ⟨_, same, reads⟩ := reads
      cases responds.symm.trans same
      exact reads
    cases decoded : decodeBody lib method res with
    | none =>
      have fails : served = r₁.fail lib agent res.status (errorHandler true atError) := by
        simp only [served, Relay.serve, told, responds, decoded]
      refine Or.inl ⟨?_, failing res.status true fails⟩
      rintro ⟨plain, reads⟩
      cases decoded.symm.trans (only reads).1
    | some plain =>
      by_cases switching : res.status = 101
      · have fails : served = r₁.fail lib agent res.status (errorHandler false atError) := by
          simp only [served, Relay.serve, told, responds, decoded, if_pos switching]
        exact Or.inl ⟨fun ⟨_, reads⟩ => (only reads).2 switching, failing res.status false fails⟩
      · have delivers : served = r₁.deliver lib agent plain := by
          simp only [served, Relay.serve, told, responds, decoded, if_neg switching]
        rw [delivers]
        exact Or.inr ⟨plain, ⟨res, responds, decoded, switching⟩, deliver_ending plain⟩

end Writers

end TrustedCourier.AgentApi
