import TrustedCourier.ByteStrings
import TrustedCourier.Runs

/-!
# The certificate manager with ACME

`runACME` first waits until the Backend answers a read of the stored pair. Then it goes
round a loop: it waits for the loaded certificate's renewal, obtains a pair from the CA,
writes it to the Backend, the key first, and serves it. What fails is tried again after a
wait that doubles, and a pair that was issued is written again rather than ordered again.

The loop is a machine. An action is one call to the Backend or the CA that comes to its
end, or a wait that is over, with the time at which the loop goes on; a clock that never
goes back gives these times. Which calls fail and what they return is given with the
action. The machine keeps a history of what happened when. Times are in nanoseconds since
the Unix epoch. What PEM and X.509 parsing make of bytes, whether keys match, and how a
time prints are parameters. A run may stop at any moment, as it does when the context ends.
-/

namespace TrustedCourier.CertManager

/-! ## Certificates -/

/-- What a leaf certificate says. -/
structure Leaf (Public : Type) where
  notBefore : Int
  notAfter : Int
  dnsNames : List Bytes
  publicKey : Public

/-- Parsing, comparing keys, and printing a time. -/
structure Pem (Public Signer : Type) where
  parseChain : Bytes → Except String (Bytes × List Bytes)
  parseCertificate : Bytes → Option (Leaf Public)
  parseSigner : Bytes → Except String Signer
  keyMatches : Public → Signer → Bool
  rfc3339 : Int → String

/-- A certificate that can be served. -/
structure Certificate (Public Signer : Type) where
  chain : Bytes × List Bytes
  privateKey : Signer
  leaf : Leaf Public

/-- A pair from the CA: the chain and the key as PEM. -/
structure Issued where
  chain : Bytes
  key : Bytes
deriving DecidableEq, Repr

def second : Int := 1000000000

/-- `minRetry` and `maxRetry`, of loading. -/
def minRetry : Int := 250000000

def maxRetry : Int := 5 * second

/-- `acmeMinRetry` and `acmeMaxRetry`, of obtaining and storing. -/
def acmeMinRetry : Int := 30 * second

def acmeMaxRetry : Int := 3600 * second

/-- The zero `time.Time`. -/
def zeroTime : Int := -62135596800 * second

section Functions

variable {Public Signer : Type}

/-- `time.Time.Sub`, which saturates. -/
def sub (t u : Int) : Int := max (-9223372036854775808) (min (t - u) 9223372036854775807)

/-- `lifetime`: at least a second and at most a hundred years. -/
def lifetime (leaf : Leaf Public) : Int :=
  min (max (sub leaf.notAfter leaf.notBefore) second) (100 * 365 * 24 * 3600 * second)

/-- `renewAt`: at two thirds of the lifetime. -/
def renewAt (leaf : Leaf Public) : Int := leaf.notBefore + lifetime leaf / 3 * 2

variable (pem : Pem Public Signer)

/-- `expired`. -/
def expired (leaf : Leaf Public) (now : Int) : Option String :=
  if now > leaf.notAfter then some ("the TLS certificate expired at " ++ pem.rfc3339 leaf.notAfter)
  else if now < leaf.notBefore then
    some ("the TLS certificate is not valid until " ++ pem.rfc3339 leaf.notBefore)
  else none

/-- `parsePEM` at this time. -/
def parsePEM (now : Int) (certPEM keyPEM : Bytes) : Except String (Certificate Public Signer) := do
  let chain ← pem.parseChain certPEM
  let leaf ←
    match pem.parseCertificate chain.1 with
    | some leaf => .ok leaf
    | none => .error "the TLS certificate is not a valid X.509 certificate"
  match expired pem leaf now with
  | some err => .error err
  | none => do
    let signer ← pem.parseSigner keyPEM
    if pem.keyMatches leaf.publicKey signer then
      .ok { chain := chain, privateKey := signer, leaf := leaf }
    else .error "the TLS key does not match the TLS certificate"

/-- What `loadStored` makes of a pair that was read: the certificate, if it is usable for
the domains. Reading a Secret that is held may fail too. -/
def usable (domains : List Bytes) (now : Int) (fault : Option String) (chain key : Bytes) :
    Option (Certificate Public Signer) :=
  match fault, parsePEM pem now chain key with
  | none, .ok cert => if domains.all fun d => cert.leaf.dnsNames.contains d then some cert else none
  | _, _ => none

end Functions

/-! ## The machine -/

section Machine

variable {Public Signer : Type}

/-- How a read of a Courier Key ends. -/
inductive Reply where
  | found (value : Bytes)
  | notFound
  | failed (err : String)

/-- Where a served certificate comes from. -/
inductive Source where
  | stored (chain key : Bytes)
  | issued (pair : Issued)

/-- What happened, and when. `answered` is the Backend's answer to the read of the stored
pair, with the certificate if it is usable; `failed` is the failure of a round, with the
wait that follows and whether the CA had been asked; `written` is the moment both writes of
a pair have succeeded; `served` tells when the certificate was parsed. -/
inductive Event (Public Signer : Type) where
  | read (t : Int) (chain key : Bytes)
  | answered (t : Int) (stored : Option (Certificate Public Signer))
  | started (t : Int)
  | failed (t wait : Int) (asked : Bool)
  | issued (t : Int) (pair : Issued)
  | written (t : Int) (pair : Issued)
  | served (t : Int) (cert : Certificate Public Signer) (parsed : Int) (source : Source)

/-- Where `runACME` is. -/
inductive Point where
  | loading (retry : Int)
  | loadingKey (retry : Int) (chain : Bytes)
  | parsingStored (chain key : Bytes)
  | resting (retry until' : Int)
  | top
  | waiting (due : Int)
  | attempting
  | obtaining
  | writingKey
  | writingCertificate
  | parsing
  | backing (until' : Int)
  | ended

/-- The manager between two of its acts. -/
structure State (Public Signer : Type) where
  point : Point
  clock : Int
  cert : Option (Certificate Public Signer)
  detail : String
  renewalErr : String
  renewAt : Int
  backoff : Int
  earliest : Int
  pending : Option Issued
  history : List (Event Public Signer)

/-- `StartACME` at this time. -/
def State.start (now : Int) : State Public Signer where
  point := .loading minRetry
  clock := now
  cert := none
  detail := "loading"
  renewalErr := ""
  renewAt := zeroTime
  backoff := acmeMinRetry
  earliest := zeroTime
  pending := none
  history := []

/-- What can happen, and when the loop goes on. -/
inductive Act where
  | readCertificate (t : Int) (reply : Reply)
  | readKey (t : Int) (reply : Reply)
  | parseStored (t : Int) (fault : Option String)
  | rest (t : Int)
  | check (t : Int)
  | wake (t : Int)
  | checkWritable (t : Int) (err : Option String)
  | obtained (t : Int) (reply : Except String Issued)
  | wroteKey (t : Int) (err : Option String)
  | wroteCertificate (t : Int) (err : Option String)
  | parsed (t now : Int)
  | retry (t : Int)
  | stop

/-- The time of an act. -/
def Act.time : Act → Option Int
  | .readCertificate t _ | .readKey t _ | .parseStored t _ | .rest t | .check t | .wake t
  | .checkWritable t _ | .obtained t _ | .wroteKey t _ | .wroteCertificate t _ | .parsed t _
  | .retry t => some t
  | .stop => none

/-- The loop goes on at this point and time. -/
def State.move (s : State Public Signer) (t : Int) (point : Point) : State Public Signer :=
  { s with clock := t, point := point }

/-- Something is entered into the history. -/
def State.log (s : State Public Signer) (event : Event Public Signer) : State Public Signer :=
  { s with history := s.history ++ [event] }

/-- A read of the stored pair fails: it is tried again after a while. -/
def State.unanswered (s : State Public Signer) (t retry : Int) (err : String) :
    State Public Signer :=
  { s.move t (.resting retry (t + retry)) with detail := err }

/-- `Manager.serve`. -/
def State.serve (s : State Public Signer) (cert : Certificate Public Signer) :
    State Public Signer :=
  { s with
    cert := some cert, detail := "", renewalErr := "", renewAt := CertManager.renewAt cert.leaf }

/-- When the loaded certificate is renewed. -/
def State.due (s : State Public Signer) (leaf : Leaf Public) : Int :=
  if CertManager.renewAt leaf < s.earliest then s.earliest else CertManager.renewAt leaf

/-- A round fails. -/
def State.fail (s : State Public Signer) (t : Int) (asked : Bool) (err : String) :
    State Public Signer :=
  let said :=
    match s.cert with
    | none => { s with detail := err }
    | some _ => { s with renewalErr := err }
  (said.log (.failed t s.backoff asked)).move t (.backing (t + s.backoff))

variable (pem : Pem Public Signer) (domains : List Bytes)

/-- One action, given that the clock has not gone back, or `none` if the loop is not
there. -/
def State.go (s : State Public Signer) : Act → Option (State Public Signer)
  | .readCertificate t reply =>
    match s.point, reply with
    | .loading retry, .found chain => some (s.move t (.loadingKey retry chain))
    | .loading _, .notFound => some ((s.log (.answered t none)).move t .top)
    | .loading retry, .failed err =>
      some (s.unanswered t retry ("fetch the TLS certificate: " ++ err))
    | _, _ => none
  | .readKey t reply =>
    match s.point, reply with
    | .loadingKey _ chain, .found key =>
      some ((s.log (.read t chain key)).move t (.parsingStored chain key))
    | .loadingKey _ _, .notFound => some ((s.log (.answered t none)).move t .top)
    | .loadingKey retry _, .failed err => some (s.unanswered t retry ("fetch the TLS key: " ++ err))
    | _, _ => none
  | .parseStored t fault =>
    match s.point with
    | .parsingStored chain key =>
      match usable pem domains t fault chain key with
      | some cert =>
        some ((((s.log (.answered t (some cert))).log (.served t cert t (.stored chain key))).serve
          cert).move t .top)
      | none => some ((s.log (.answered t none)).move t .top)
    | _ => none
  | .rest t =>
    match s.point with
    | .resting retry until' =>
      if until' ≤ t then some (s.move t (.loading (min (retry * 2) maxRetry))) else none
    | _ => none
  | .check t =>
    match s.point, s.pending, s.cert with
    | .top, some _, _ => some (s.move t .writingKey)
    | .top, none, none => some (s.move t .attempting)
    | .top, none, some cert =>
      if t < s.due cert.leaf then some (s.move t (.waiting (s.due cert.leaf)))
      else some (s.move t .attempting)
    | _, _, _ => none
  | .wake t =>
    match s.point with
    | .waiting due => if due ≤ t then some (s.move t .top) else none
    | _ => none
  | .checkWritable t err =>
    match s.point, err with
    | .attempting, some err =>
      some (s.fail t false (err ++ "; ACME needs a Backend that stores Courier Keys, or supply " ++
        "agent_api.tls.certificate and key yourself"))
    | .attempting, none => some ((s.log (.started t)).move t .obtaining)
    | _, _ => none
  | .obtained t reply =>
    match s.point, reply with
    | .obtaining, .error err => some (s.fail t true err)
    | .obtaining, .ok pair =>
      match parsePEM pem t pair.chain pair.key with
      | .error err => some (s.fail t true ("the obtained certificate is unusable: " ++ err))
      | .ok _ => some ({ s.log (.issued t pair) with pending := some pair }.move t .writingKey)
    | _, _ => none
  | .wroteKey t err =>
    match s.point, err with
    | .writingKey, some err => some (s.fail t false ("store the TLS key: " ++ err))
    | .writingKey, none => some (s.move t .writingCertificate)
    | _, _ => none
  | .wroteCertificate t err =>
    match s.point, s.pending, err with
    | .writingCertificate, some _, some err =>
      some (s.fail t false ("store the TLS certificate: " ++ err))
    | .writingCertificate, some pair, none => some ((s.log (.written t pair)).move t .parsing)
    | _, _, _ => none
  | .parsed t now =>
    match s.point, s.pending with
    | .parsing, some pair =>
      match parsePEM pem t pair.chain pair.key with
      | .error err => some (s.fail t false ("the obtained certificate is unusable: " ++ err))
      | .ok cert =>
        if t ≤ now then
          some (({ s.log (.served now cert t (.issued pair)) with
            pending := none, backoff := acmeMinRetry, earliest :=
              now + lifetime cert.leaf / 3 }.serve cert).move now .top)
        else none
    | _, _ => none
  | .retry t =>
    match s.point with
    | .backing until' =>
      if until' ≤ t then some ({ s with backoff := min (s.backoff * 2) acmeMaxRetry }.move t .top)
      else none
    | _ => none
  | .stop => some { s with point := .ended }

/-- One action at a time that is not before the last one. -/
def State.step (s : State Public Signer) (act : Act) : Option (State Public Signer) :=
  if act.time.all (s.clock ≤ ·) then s.go pem domains act else none

/-! ## What an action does -/

/-- What an action does where it can be taken, one case for each way through the loop. -/
inductive Goes (s : State Public Signer) : Act → State Public Signer → Prop
  | chainRead {t retry : Int} {chain : Bytes} (here : s.point = .loading retry) :
    Goes s (.readCertificate t (.found chain)) (s.move t (.loadingKey retry chain))
  | noChain {t retry : Int} (here : s.point = .loading retry) :
    Goes s (.readCertificate t .notFound) ((s.log (.answered t none)).move t .top)
  | chainUnread {t retry : Int} {err : String} (here : s.point = .loading retry) :
    Goes s (.readCertificate t (.failed err))
      (s.unanswered t retry ("fetch the TLS certificate: " ++ err))
  | keyRead {t retry : Int} {chain key : Bytes} (here : s.point = .loadingKey retry chain) :
    Goes s (.readKey t (.found key)) ((s.log (.read t chain key)).move t (.parsingStored chain key))
  | noKey {t retry : Int} {chain : Bytes} (here : s.point = .loadingKey retry chain) :
    Goes s (.readKey t .notFound) ((s.log (.answered t none)).move t .top)
  | keyUnread {t retry : Int} {chain : Bytes} {err : String}
  (here : s.point = .loadingKey retry chain) :
    Goes s (.readKey t (.failed err)) (s.unanswered t retry ("fetch the TLS key: " ++ err))
  | loaded {t : Int} {fault : Option String} {chain key : Bytes} {cert : Certificate Public Signer}
    (here : s.point = .parsingStored chain key)
    (fits : usable pem domains t fault chain key = some cert) :
    Goes s (.parseStored t fault)
      ((((s.log (.answered t (some cert))).log (.served t cert t (.stored chain key))).serve
        cert).move t .top)
  | unusable {t : Int} {fault : Option String} {chain key : Bytes}
  (here : s.point = .parsingStored chain key) :
    Goes s (.parseStored t fault) ((s.log (.answered t none)).move t .top)
  | rested {t retry until' : Int} (here : s.point = .resting retry until') :
    Goes s (.rest t) (s.move t (.loading (min (retry * 2) maxRetry)))
  | again {t : Int} {pair : Issued} (here : s.point = .top) (held : s.pending = some pair) :
    Goes s (.check t) (s.move t .writingKey)
  | wait {t : Int} {cert : Certificate Public Signer} (here : s.point = .top)
    (idle : s.pending = none) (served : s.cert = some cert) (early : t < s.due cert.leaf) :
    Goes s (.check t) (s.move t (.waiting (s.due cert.leaf)))
  | attempt {t : Int} (here : s.point = .top) (idle : s.pending = none)
    (late : ∀ cert, s.cert = some cert → s.due cert.leaf ≤ t) : Goes s (.check t)
      (s.move t .attempting)
  | woke {t due : Int} (here : s.point = .waiting due) (elapsed : due ≤ t) : Goes s (.wake t)
    (s.move t .top)
  | unwritable {t : Int} {err text : String} (here : s.point = .attempting) :
    Goes s (.checkWritable t (some err)) (s.fail t false text)
  | started {t : Int} (here : s.point = .attempting) :
    Goes s (.checkWritable t none) ((s.log (.started t)).move t .obtaining)
  | refused {t : Int} {err : String} (here : s.point = .obtaining) :
  Goes s (.obtained t (.error err)) (s.fail t true err)
  | unfit {t : Int} {pair : Issued} {err text : String} (here : s.point = .obtaining)
    (unparsed : parsePEM pem t pair.chain pair.key = .error err) : Goes s (.obtained t (.ok pair))
      (s.fail t true text)
  | issued {t : Int} {pair : Issued} {cert : Certificate Public Signer}
    (here : s.point = .obtaining) (parses : parsePEM pem t pair.chain pair.key = .ok cert) :
    Goes s (.obtained t (.ok pair))
      ({ s.log (.issued t pair) with pending := some pair }.move t .writingKey)
  | keyUnwritten {t : Int} {err text : String} (here : s.point = .writingKey) :
    Goes s (.wroteKey t (some err)) (s.fail t false text)
  | keyWritten {t : Int} (here : s.point = .writingKey) : Goes s (.wroteKey t none)
    (s.move t .writingCertificate)
  | chainUnwritten {t : Int} {err text : String} (here : s.point = .writingCertificate) :
    Goes s (.wroteCertificate t (some err)) (s.fail t false text)
  | chainWritten {t : Int} {pair : Issued} (here : s.point = .writingCertificate)
  (held : s.pending = some pair) :
    Goes s (.wroteCertificate t none) ((s.log (.written t pair)).move t .parsing)
  | expired {t now : Int} {pair : Issued} {err text : String} (here : s.point = .parsing)
    (held : s.pending = some pair) (unparsed : parsePEM pem t pair.chain pair.key = .error err) :
    Goes s (.parsed t now) (s.fail t false text)
  | served {t now : Int} {pair : Issued} {cert : Certificate Public Signer}
    (here : s.point = .parsing) (held : s.pending = some pair)
    (parses : parsePEM pem t pair.chain pair.key = .ok cert) (since : t ≤ now) :
    Goes s (.parsed t now) (({ s.log (.served now cert t (.issued pair)) with
      pending := none, backoff := acmeMinRetry, earliest := now + lifetime cert.leaf / 3 }.serve
        cert).move now .top)
  | retried {t until' : Int} (here : s.point = .backing until') (elapsed : until' ≤ t) :
    Goes s (.retry t) ({ s with backoff := min (s.backoff * 2) acmeMaxRetry }.move t .top)
  | stopped : Goes s .stop { s with point := .ended }

variable {pem domains}

/-- An action is taken in one of these ways. -/
theorem goes_of_go {s next : State Public Signer} {act : Act}
    (taken : s.go pem domains act = some next) :
    Goes pem domains s act next := by
  revert taken
  -- What is left are the branches in which the action can be taken.
  fun_cases s.go pem domains act <;> rintro ⟨⟩
  case case1 here => exact .chainRead here
  case case2 here => exact .noChain here
  case case3 here => exact .chainUnread here
  case case5 here => exact .keyRead here
  case case6 here => exact .noKey here
  case case7 here => exact .keyUnread here
  case case9 here cert fits => exact .loaded here fits
  case case10 here _ => exact .unusable here
  case case12 here _ => exact .rested here
  case case15 held here => exact .again here held
  case case16 unserved idle here => exact .attempt here idle (by simp [unserved])
  case case17 served idle here early => exact .wait here idle served early
  case case18 served idle here late =>
    refine .attempt here idle fun cert same => ?_
    cases served.symm.trans same
    exact Int.not_lt.mp late
  case case20 here elapsed => exact .woke here elapsed
  case case23 here => exact .unwritable here
  case case24 here => exact .started here
  case case26 here => exact .refused here
  case case27 here err unparsed => exact .unfit here unparsed
  case case28 here cert parses => exact .issued here parses
  case case30 here => exact .keyUnwritten here
  case case31 here => exact .keyWritten here
  case case33 held here => exact .chainUnwritten here
  case case34 held here => exact .chainWritten here held
  case case36 held here err unparsed => exact .expired here held unparsed
  case case37 held here cert parses since => exact .served here held parses since
  case case40 here elapsed => exact .retried here elapsed
  case case43 => exact .stopped

end Machine

end TrustedCourier.CertManager
