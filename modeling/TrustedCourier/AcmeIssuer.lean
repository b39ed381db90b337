import TrustedCourier.Base64
import TrustedCourier.CertManager
import TrustedCourier.CourierKeys
import TrustedCourier.Dialogues
import TrustedCourier.HeaderRedaction

/-!
# Obtaining a certificate from an ACME directory

`Issuer.Obtain` is a conversation with the Backend, the CA, the DNS provider and the
solver that serves challenge responses. Each call it makes may succeed or fail; what it
does next depends on nothing else. Contexts and timeouts show as calls that fail. Wiping
of plain memory and logging are left out; a Secret that is fetched is named by a handle, so
that its release shows.

What the standard library and the ACME client compute without asking anyone (parsing,
comparing keys, the responses to challenges) are parameters. What they draw at random (keys,
requests, challenge certificates) is replied.
-/

namespace TrustedCourier.AcmeIssuer

open Dialogues ByteStrings Config
open CertManager (Leaf Issued Pem usable parsePEM expired)

/-! ## Calls and replies -/

/-- What a caller tells apart about an error. -/
inductive FaultKind where
  | other
  | notFound
  | noAccount
  | accountAlreadyExists
  | order
deriving DecidableEq, Repr

/-- What went wrong in an exchange with the CA. -/
structure Fault where
  kind : FaultKind
  text : String

/-- A Secret that was fetched, and what reading it gives. -/
structure Held where
  handle : Nat
  contents : Except Fault Bytes

/-- A challenge the CA offers for a name. -/
structure Challenge where
  type : Bytes
  token : Bytes
  uri : Bytes
deriving DecidableEq

/-- The CA's record of one name of an order. -/
structure Authorization where
  uri : Bytes
  status : Bytes
  identifier : Bytes
  challenges : List Challenge

/-- The CA's record of an order. -/
structure Order where
  uri : Bytes
  status : Bytes
  authzURLs : List Bytes
  finalizeURL : Bytes
  certURL : Bytes

/-- `dnsprovider.Record`. -/
structure Record where
  name : Bytes
  value : Bytes
deriving DecidableEq

/-- The calls. Those to the CA are signed with the account key. -/
inductive Call (Signer Cert : Type) where
  | courierKey (key : CourierKey)
  | release (handle : Nat)
  | writeCourierKey (key : CourierKey) (value : Bytes)
  | generateKey
  | discover
  | getReg (account : Signer)
  | register (account : Signer) (contact : List Bytes) (eab : Option (Bytes × Bytes))
  | authorizeOrder (account : Signer) (domains : List Bytes)
  | getAuthorization (account : Signer) (url : Bytes)
  | tlsALPN01ChallengeCert (account : Signer) (token domain : Bytes)
  | presentTLSALPN (domain : Bytes) (cert : Cert)
  | removeTLSALPN (domain : Bytes)
  | presentHTTP (token keyAuth : Bytes)
  | removeHTTP (token : Bytes)
  | accept (account : Signer) (challenge : Challenge)
  | waitAuthorization (account : Signer) (url : Bytes)
  | waitOrder (account : Signer) (url : Bytes)
  | createCertificateRequest (domains : List Bytes) (key : Signer)
  | createOrderCert (account : Signer) (url csr : Bytes)
  | fetchCert (account : Signer) (url : Bytes)
  | newProvider (provider : Bytes) (credentials : List (Bytes × Bytes))
  | present (record : Record)
  | cleanup (record : Record)
  | closeProvider
  | waitPropagated (records : List Record)

/-- What each call is replied. -/
def Call.Reply {Signer Cert : Type} : Call Signer Cert → Type
  | .courierKey _ => Except Fault Held
  | .generateKey => Except Fault Signer
  | .authorizeOrder _ _ | .waitOrder _ _ => Except Fault Order
  | .getAuthorization _ _ => Except Fault Authorization
  | .tlsALPN01ChallengeCert _ _ _ => Except Fault Cert
  | .createCertificateRequest _ _ => Except Fault Bytes
  | .createOrderCert _ _ _ | .fetchCert _ _ => Except Fault (List Bytes)
  | .release _ | .presentTLSALPN _ _ | .removeTLSALPN _ | .presentHTTP _ _ | .removeHTTP _
  | .closeProvider => Unit
  | .writeCourierKey _ _ | .discover | .getReg _ | .register _ _ _ | .accept _ _
  | .waitAuthorization _ _ | .newProvider _ _ | .present _ | .cleanup _ | .waitPropagated _ =>
    Except Fault Unit

/-- What is computed without asking anyone. -/
structure Library (Public Signer : Type) where
  text : Bytes → String
  parseSigner : Bytes → Except String Signer
  marshalSigner : Signer → Except String Bytes
  parseCertificate : Bytes → Except String (Leaf Public)
  keyMatches : Public → Signer → Bool
  marshalChain : List Bytes → Bytes
  http01ChallengeResponse : Signer → Bytes → Except String Bytes
  dns01ChallengeRecord : Signer → Bytes → Except String Bytes

/-- A conversation that may fail. -/
abbrev Talk (Signer Cert α : Type) : Type :=
  ExceptT String (Program (Call Signer Cert) Call.Reply) α

def statusValid : Bytes := bytes "valid"

/-- `dns01Prefix`. -/
def dns01Label : Bytes := bytes "_acme-challenge."

/-- `minEABKeyBytes`. -/
def minEABKeyBytes : Nat := 14

/-! ## The External Account Binding key -/

/-- The six bits of a digit of the URL alphabet. -/
def urlSextet (c : UInt8) : Option UInt8 :=
  if c = 0x2D then some 62 else if c = 0x5F then some 63 else if c = 0x2B ∨ c = 0x2F then none
  else Base64.sextet c

/-- Groups of four digits, the last one perhaps shorter. -/
def decodeRawQuanta : List UInt8 → Option Bytes
  | [] => some []
  | [i, j] => some [i * 4 + j / 16]
  | [i, j, k] => some [i * 4 + j / 16, j % 16 * 16 + k / 4]
  | i :: j :: k :: l :: rest =>
    (decodeRawQuanta rest).map fun tail => (i * 4 + j / 16) :: (j % 16 * 16 + k / 4) ::
      (k % 4 * 64 + l) :: tail
  | _ => none

/-- `base64.RawURLEncoding.Decode`. -/
def decodeRawURL (s : Bytes) : Option Bytes :=
  ((s.filter fun c => c ≠ 0x0A ∧ c ≠ 0x0D).mapM urlSextet).bind decodeRawQuanta

/-- What `hmacKey` makes of the bytes stored. -/
def decodeHMACKey (stored : Bytes) : Except String Bytes :=
  -- bytes.TrimRight(bytes.TrimSpace(stored), "=")
  let encoded := ((AgentApi.trimSpace stored).reverse.dropWhile (· = 0x3D)).reverse
  match decodeRawURL encoded with
  | none => .error "the ACME External Account Binding key is not base64url"
  | some mac =>
    if mac.length < minEABKeyBytes then
      .error ("the ACME External Account Binding key decodes to " ++ toString mac.length ++
        " bytes; a MAC key is at least " ++ toString minEABKeyBytes)
    else .ok mac

/-! ## The functions -/

section Functions

variable {Public Signer Cert : Type} (lib : Library Public Signer) (cfg : ACME)

/-- A call whose reply is looked at where it is made. -/
abbrev tell (c : Call Signer Cert) : Program (Call Signer Cert) Call.Reply c.Reply := Program.call c

/-- A call whatever comes of it. -/
def say (c : Call Signer Cert) : Talk Signer Cert c.Reply := ExceptT.lift (Program.call c)

/-- A reply, or its error behind what was tried. -/
def orFail {α : Type} (context : String) : Except Fault α → Talk Signer Cert α
  | .ok value => pure value
  | .error fault => throw (context ++ fault.text)

/-- Give up under a condition. -/
def refuse (bad : Prop) [Decidable bad] (complaint : String) : Talk Signer Cert Unit :=
  if bad then throw complaint else pure ()

/-- Read a Secret and release it. -/
def readHeld (held : Held) (context : String) {α : Type} (use : Bytes → Talk Signer Cert α) :
    Talk Signer Cert α :=
  deferring (do use (← orFail context held.contents)) (tell (Call.release held.handle))

/-- `courierKeyBytes`. -/
def courierKeyBytes (key : CourierKey) (what : String) : Talk Signer Cert Bytes := do
  let held ← orFail ("fetch " ++ what ++ ": ") (← say (.courierKey key))
  readHeld held ("read " ++ what ++ ": ") pure

/-- `hmacKey`. -/
def hmacKey (eab : ExternalAccountBinding) : Talk Signer Cert Bytes := do
  let held ← orFail "fetch the ACME External Account Binding key: "
    (← say (.courierKey eab.hmacKey))
  readHeld held "read the ACME External Account Binding key: " fun stored =>
    ExceptT.mk (pure (decodeHMACKey stored))

/-- `accountKey`: the key, and whether it was created. -/
def accountKey : Talk Signer Cert (Signer × Bool) := do
  match ← say (.courierKey cfg.accountKey) with
  | .ok held =>
    readHeld held "read the ACME account key: " fun stored =>
      ExceptT.mk (pure ((lib.parseSigner stored).map fun key => (key, false)))
  | .error fault =>
    refuse (fault.kind ≠ .notFound) ("fetch the ACME account key: " ++ fault.text)
    let generated ← orFail "" (← say .generateKey)
    let pem ← ExceptT.mk (pure (lib.marshalSigner generated))
    orFail "store the ACME account key: " (← say (.writeCourierKey cfg.accountKey pem))
    return (generated, true)

/-- Whether the CA knows the account already. -/
def registered (account : Signer) : Talk Signer Cert Bool := do
  match ← say (.getReg account) with
  | .ok _ => return true
  | .error fault =>
    refuse (fault.kind ≠ .noAccount) ("look up the ACME account at " ++ lib.text cfg.directory ++
      ": " ++ fault.text)
    return false

/-- The binding of an account to be registered. -/
def binding : Talk Signer Cert (Option (Bytes × Bytes)) :=
  match cfg.eab with
  | none => pure none
  | some eab => do return some (eab.keyID, ← hmacKey eab)

/-- Register the account. One that exists already is as good. -/
def registerAccount (account : Signer) : Talk Signer Cert Unit := do
  let contact := if cfg.contact ≠ [] then [cfg.contact] else []
  let eab ← binding cfg
  match ← say (.register account contact eab) with
  | .ok _ => pure ()
  | .error fault =>
    refuse (fault.kind ≠ .accountAlreadyExists)
      ("register the ACME account at " ++ lib.text cfg.directory ++ ": " ++ fault.text)

/-- The part of `client` that has the account key: an account that is not known to the CA
is registered. -/
def introduce (key : Signer) (created : Bool) : Talk Signer Cert Unit := do
  orFail ("reach the ACME directory " ++ lib.text cfg.directory ++ ": ") (← say .discover)
  let known ← (if created then pure false else registered lib cfg key)
  if known then return () else registerAccount lib cfg key

/-- `client`: the key of an account that the CA knows. -/
def client : Talk Signer Cert Signer := do
  let (key, created) ← accountKey lib cfg
  introduce lib cfg key created
  return key

/-- The challenge of this type, or the complaint that there is none. -/
def challengeOf (authz : Authorization) (type : Bytes) : Except String Challenge :=
  match authz.challenges.find? fun c => c.type = type with
  | some challenge => .ok challenge
  | none => .error (lib.text cfg.directory ++ " offers no " ++ lib.text type ++ " challenge for " ++
      lib.text authz.identifier)

/-- Ask the CA to validate a challenge, and wait for its verdict. -/
def validated (account : Signer) (authz : Authorization) (challenge : Challenge) :
    Talk Signer Cert Unit := do
  orFail ("accept the " ++ lib.text cfg.challenge ++ " challenge for " ++
    lib.text authz.identifier ++ ": ") (← say (.accept account challenge))
  orFail ("validate " ++ lib.text authz.identifier ++ " by " ++ lib.text cfg.challenge ++ ": ")
    (← say (.waitAuthorization account authz.uri))

/-- `authorize`: TLS-ALPN-01 or HTTP-01. -/
def authorize (account : Signer) (authzURL : Bytes) : Talk Signer Cert Unit := do
  let authz ← orFail "fetch an authorization: " (← say (.getAuthorization account authzURL))
  if authz.status = statusValid then return ()
  let challenge ← ExceptT.mk (pure (challengeOf lib cfg authz cfg.challenge))
  if cfg.challenge = challengeTLSALPN01 then
    let cert ← orFail "" (← say (.tlsALPN01ChallengeCert account challenge.token authz.identifier))
    let _ ← say (.presentTLSALPN authz.identifier cert)
    deferring (validated lib cfg account authz challenge)
      (tell (Call.removeTLSALPN authz.identifier))
  else if cfg.challenge = challengeHTTP01 then
    let keyAuth ← ExceptT.mk (pure (lib.http01ChallengeResponse account challenge.token))
    let _ ← say (.presentHTTP challenge.token keyAuth)
    deferring (validated lib cfg account authz challenge)
      (tell (Call.removeHTTP challenge.token))
  else validated lib cfg account authz challenge

/-! ### DNS-01 -/

/-- `dnsChallenge`. -/
structure DnsChallenge where
  domain : Bytes
  authzURL : Bytes
  challenge : Challenge
  record : Record
deriving DecidableEq

/-- The credentials, field by field, as the iteration visits them. -/
def fetchCredentials (dns : DNS) : List (Sigma fun _ : Bytes => CourierKey) →
    Talk Signer Cert (List (Bytes × Bytes))
  | [] => return []
  | ⟨field, key⟩ :: rest => do
    let value ← courierKeyBytes key ("the " ++ lib.text dns.provider ++ " DNS credential " ++
      lib.text field)
    return (field, value) :: (← fetchCredentials dns rest)

/-- The check at the start of `dnsprovider.New`: no credential of the provider is empty. -/
def emptyCredential (dns : DNS) (creds : List (Bytes × Bytes)) : Option Bytes :=
  ((dnsProviders.lookup dns.provider).getD []).find? fun field =>
    ((creds.lookup field).getD []).length = 0

/-- `dnsProvider`. -/
def dnsProvider (dns : DNS) : Talk Signer Cert Unit := do
  let creds ← fetchCredentials lib dns dns.credentials.entries
  match emptyCredential dns creds with
  | some field => throw ("the " ++ lib.text dns.provider ++ " DNS credential " ++ lib.text field ++
      " is empty")
  | none => orFail "" (← say (.newProvider dns.provider creds))

/-- The record of an authorization that is not valid yet. -/
def dnsChallenge (account : Signer) (authz : Authorization) : Except String DnsChallenge := do
  let challenge ← challengeOf lib cfg authz challengeDNS01
  let value ← lib.dns01ChallengeRecord account challenge.token
  return { domain := authz.identifier, authzURL := authz.uri, challenge := challenge,
           record := { name := dns01Label ++ authz.identifier, value := value } }

/-- The first loop of `authorizeByDNS`: the challenges pending at its end, and how it
ended. A challenge is pending before its record is set. -/
def setRecords (account : Signer) : List DnsChallenge → List Bytes →
    Program (Call Signer Cert) Call.Reply (List DnsChallenge × Except String Unit)
  | pending, [] => return (pending, .ok ())
  | pending, authzURL :: rest => do
    match ← tell (Call.getAuthorization account authzURL) with
    | .error fault => return (pending, .error ("fetch an authorization: " ++ fault.text))
    | .ok authz =>
      if authz.status = statusValid then setRecords account pending rest
      else
        match dnsChallenge lib cfg account authz with
        | .error err => return (pending, .error err)
        | .ok c =>
          match ← tell (Call.present c.record) with
          | .error fault =>
            return (pending ++ [c], .error
              ("set the DNS-01 record for " ++ lib.text authz.identifier ++ ": " ++ fault.text))
          | .ok _ => setRecords account (pending ++ [c]) rest

/-- Tells the CA of every published challenge. -/
def acceptAll (account : Signer) : List DnsChallenge → Talk Signer Cert Unit
  | [] => pure ()
  | c :: rest => do
    orFail ("accept the " ++ lib.text challengeDNS01 ++ " challenge for " ++ lib.text c.domain ++
      ": ") (← say (.accept account c.challenge))
    acceptAll account rest

/-- Waits until the CA has validated every name. -/
def waitAll (account : Signer) : List DnsChallenge → Talk Signer Cert Unit
  | [] => pure ()
  | c :: rest => do
    orFail ("validate " ++ lib.text c.domain ++ " by " ++ lib.text challengeDNS01 ++ ": ")
      (← say (.waitAuthorization account c.authzURL))
    waitAll account rest

/-- The rest of `authorizeByDNS` once every record is set. -/
def validateAll (account : Signer) (pending : List DnsChallenge) : Talk Signer Cert Unit := do
  orFail ("validate by " ++ lib.text challengeDNS01 ++ ": ")
    (← say (.waitPropagated (pending.map (·.record))))
  acceptAll lib account pending
  waitAll lib account pending

/-- The deferred removal: a removal that fails is logged, and the next one is made. -/
def cleanUp : List DnsChallenge → Program (Call Signer Cert) Call.Reply Unit
  | [] => return ()
  | c :: rest => do
    let _ ← tell (Call.cleanup c.record)
    cleanUp rest

/-- `authorizeByDNS`. -/
def authorizeByDNS (dns : DNS) (account : Signer) (authzURLs : List Bytes) :
    Talk Signer Cert Unit := do
  dnsProvider lib dns
  deferring
    (ExceptT.mk do
      let (pending, set) ← setRecords lib cfg account [] authzURLs
      let ended ← (match set with
        | .error err => pure (.error err)
        | .ok _ => (validateAll lib account pending).run)
      cleanUp pending
      return ended)
    (tell Call.closeProvider)

/-! ### The order -/

/-- `fetchIssued`, after finalizing failed with this fault. -/
def fetchIssued (account : Signer) (orderURL : Bytes) (finalizeErr : Fault) :
    Program (Call Signer Cert) Call.Reply (Except Fault (List Bytes)) :=
  if orderURL = [] then return .error finalizeErr
  else do
    match ← tell (Call.waitOrder account orderURL) with
    | .error fault => return .error (if fault.kind = .order then fault else finalizeErr)
    | .ok order =>
      if order.status ≠ statusValid ∨ order.certURL = [] then return .error finalizeErr
      else tell (Call.fetchCert account order.certURL)

/-- The authorizations of an order. -/
def authorizeOrder (account : Signer) (order : Order) : Talk Signer Cert Unit :=
  if cfg.challenge = challengeDNS01 then
    match cfg.dns with
    | some dns => authorizeByDNS lib cfg dns account order.authzURLs
    -- A validated config names a provider for this challenge; without one the source
    -- dereferences nil.
    | none => throw "runtime error: invalid memory address or nil pointer dereference"
  else order.authzURLs.forM (authorize lib cfg account)

/-- The chain of the certificate for a request. -/
def finalize (account : Signer) (order : Order) (csr : Bytes) : Talk Signer Cert (List Bytes) := do
  match ← say (.createOrderCert account order.finalizeURL csr) with
  | .ok chain => return chain
  | .error fault =>
    orFail "finalize the order: " (← ExceptT.lift (fetchIssued account order.uri fault))

/-- What is checked of the chain the CA returned. -/
def checkChain (leafKey : Signer) (chain : List Bytes) : Except String (Leaf Public) :=
  match chain with
  | [] => .error "the CA returned no certificate"
  | first :: _ =>
    match lib.parseCertificate first with
    | .error err => .error ("the CA returned an invalid certificate: " ++ err)
    | .ok leaf =>
      if lib.keyMatches leaf.publicKey leafKey = false then
        .error "the CA returned a certificate for another key"
      else
        match cfg.domains.find? fun d => !leaf.dnsNames.contains d with
        | some d => .error ("the CA returned a certificate that does not name " ++ lib.text d)
        | none => .ok leaf

/-- `Obtain`: the pair and the parsed leaf. -/
def obtain : Talk Signer Cert (Issued × Leaf Public) := do
  let account ← client lib cfg
  let order ← orFail ("order a certificate from " ++ lib.text cfg.directory ++ ": ")
    (← say (.authorizeOrder account cfg.domains))
  authorizeOrder lib cfg account order
  let _ ← orFail "wait for the order to be ready: " (← say (.waitOrder account order.uri))
  let leafKey ← orFail "" (← say .generateKey)
  let csr ← orFail "" (← say (.createCertificateRequest cfg.domains leafKey))
  let chain ← finalize account order csr
  let leaf ← ExceptT.mk (pure (checkChain lib cfg leafKey chain))
  let keyPEM ← ExceptT.mk (pure (lib.marshalSigner leafKey))
  return ({ chain := lib.marshalChain chain, key := keyPEM }, leaf)

end Functions

/-! ## Rules for conversations -/

section Rules

variable {Signer Cert α β σ : Type} {world : World (Call Signer Cert) Call.Reply σ}
  {invariant : σ → Prop} {s : σ}
  {post : Except String β → σ → Prop}

theorem wp_say {c : Call Signer Cert} {rest : c.Reply → Talk Signer Cert β} (now : invariant s)
    (more : ∀ reply t, world s c reply t → wp world invariant (rest reply).run post t) :
    wp world invariant (say c >>= rest).run post s := by
  unfold say
  rw [wp_exceptBind, wp_lift, wp_call]
  exact ⟨now, fun reply t answered => ⟨wp_now (more reply t answered), more reply t answered⟩⟩

variable {rest : α → Talk Signer Cert β}

theorem wp_orFail {context : String} {reply : Except Fault α} (now : invariant s)
    (failed : ∀ fault, reply = .error fault → post (.error (context ++ fault.text)) s)
    (went : ∀ value, reply = .ok value → wp world invariant (rest value).run post s) :
    wp world invariant (orFail context reply >>= rest).run post s := by
  cases reply with
  | error fault => exact ⟨now, failed fault rfl⟩
  | ok value => exact went value rfl

/-- What is computed without asking anyone. -/
theorem wp_given {value : Except String α} (now : invariant s)
    (failed : ∀ err, value = .error err → post (.error err) s)
    (went : ∀ given, value = .ok given → wp world invariant (rest given).run post s) :
    wp world invariant (ExceptT.mk (pure value) >>= rest).run post s := by
  cases value with
  | error err => exact ⟨now, failed err rfl⟩
  | ok given => exact went given rfl

end Rules

/-! ## What the parts ask -/

section Asks

variable {Public Signer Cert : Type}

/-- The call leaves records and responses as they are. -/
def Call.still : Call Signer Cert → Bool
  | .present _ | .cleanup _ | .presentTLSALPN _ _ | .removeTLSALPN _ | .presentHTTP _ _
  | .removeHTTP _ => false
  | _ => true

/-- The call tells the CA to validate, or waits for its verdict. -/
def Call.validates : Call Signer Cert → Bool
  | .accept _ _ | .waitAuthorization _ _ => true
  | _ => false

/-- Neither. -/
def Call.quiet (c : Call Signer Cert) : Bool := c.still && !c.validates

/-- The account key that a call is signed with. -/
def Call.account : Call Signer Cert → Option Signer
  | .getReg account | .register account _ _ | .authorizeOrder account _
  | .getAuthorization account _ | .tlsALPN01ChallengeCert account _ _ | .accept account _
  | .waitAuthorization account _ | .waitOrder account _
  | .createOrderCert account _ _ | .fetchCert account _ => some account
  | _ => none

/-- The call is signed with this key if with any, and does not write the account key. -/
def By (cfg : ACME) (account : Signer) : Call Signer Cert → Prop
  | .writeCourierKey key _ => key ≠ cfg.accountKey
  | c => c.account = none ∨ c.account = some account

/-- The call is such a one and quiet. -/
def Aside (cfg : ACME) (account : Signer) (c : Call Signer Cert) : Prop :=
  By cfg account c ∧ c.quiet = true

/-- The program makes only such calls. -/
abbrev Asks {α : Type} (allowed : Call Signer Cert → Prop) (program : Talk Signer Cert α) : Prop :=
  Only allowed program.run

variable {allowed : Call Signer Cert → Prop} {α β : Type}

theorem asks_orFail (context : String) (reply : Except Fault α) :
    Asks allowed (orFail context reply) := by
  cases reply <;> trivial

theorem asks_refuse (bad : Prop) [Decidable bad] (complaint : String) :
    Asks allowed (refuse bad complaint) := by
  unfold refuse
  split <;> trivial

theorem asks_say {c : Call Signer Cert} (fine : allowed c) : Asks allowed (say c) :=
  only_lift (only_call fine)

/-- A call, and what is done with its reply. -/
theorem asks_then {c : Call Signer Cert} (fine : allowed c) {rest : c.Reply → Talk Signer Cert α}
    (more : ∀ reply, Asks allowed (rest reply)) : Asks allowed (say c >>= rest) :=
  only_exceptBind (asks_say fine) more

theorem asks_orFail_then {context : String} {reply : Except Fault α} {rest : α → Talk Signer Cert β}
    (more : ∀ value, Asks allowed (rest value)) : Asks allowed (orFail context reply >>= rest) :=
  only_exceptBind (asks_orFail context reply) more

/-- A call whose failure ends the program. -/
theorem asks_ok {c : Call Signer Cert} (fine : allowed c) {context : String}
    {told : c.Reply → Except Fault α} {rest : α → Talk Signer Cert β}
    (more : ∀ value, Asks allowed (rest value)) :
    Asks allowed (say c >>= fun reply => orFail context (told reply) >>= rest) :=
  asks_then fine fun _ => asks_orFail_then more

variable {use : Bytes → Talk Signer Cert α}

theorem asks_readHeld (released : ∀ handle, allowed (.release handle)) (held : Held)
    (context : String) (more : ∀ stored, Asks allowed (use stored)) :
    Asks allowed (readHeld held context use) :=
  only_deferring (asks_orFail_then more) (only_call (released _))

/-- Read the Secret at a Courier Key. -/
theorem asks_read (released : ∀ handle, allowed (.release handle)) {key : CourierKey}
    (read : allowed (.courierKey key)) {fetching reading : String}
    (more : ∀ stored, Asks allowed (use stored)) :
    Asks allowed (do
      let held ← orFail fetching (← say (.courierKey key))
      readHeld held reading use) :=
  asks_ok read fun _ => asks_readHeld released _ _ more

variable (lib : Library Public Signer) (cfg : ACME)

theorem quiet_accountKey : Asks (fun c => c.quiet = true)
    (accountKey lib cfg : Talk Signer Cert (Signer × Bool)) := by
  refine asks_then (by rfl) fun reply => ?_
  cases reply with
  | ok held => exact asks_readHeld (fun _ => rfl) _ _ fun _ => trivial
  | error fault =>
    refine only_exceptBind (asks_refuse _ _) fun _ => ?_
    refine asks_ok (by rfl) fun key => ?_
    refine only_exceptBind trivial fun text => ?_
    exact asks_ok (by rfl) fun _ => trivial

variable (account : Signer)

/-- Reading any Courier Key is aside. -/
theorem aside_read {key : CourierKey} {fetching reading : String}
    (more : ∀ stored, Asks (Aside cfg account) (use stored)) :
    Asks (Aside cfg account) (do
      let held ← orFail fetching (← say (.courierKey key))
      readHeld held reading use) :=
  asks_read (fun _ => ⟨.inl rfl, rfl⟩) ⟨.inl rfl, rfl⟩ more

/-- The CA is asked whether it knows the account. -/
theorem aside_registered : Asks (Aside cfg account)
    (registered lib cfg account : Talk Signer Cert Bool) := by
  refine asks_then ⟨.inr rfl, rfl⟩ fun reply => ?_
  cases reply with
  | ok _ => trivial
  | error fault =>
    refine only_exceptBind (asks_refuse _ _) fun _ => ?_
    trivial

/-- The External Account Binding is read if there is one. -/
theorem aside_binding : Asks (Aside cfg account) (binding cfg : Talk Signer Cert _) := by
  unfold binding
  split
  · trivial
  · refine only_exceptBind ?_ fun _ => trivial
    exact aside_read cfg account fun _ => trivial

/-- The account is registered with it. -/
theorem aside_registerAccount :
    Asks (Aside cfg account) (registerAccount lib cfg account : Talk Signer Cert Unit) := by
  refine only_exceptBind (aside_binding cfg account) fun eab => ?_
  refine asks_then ⟨.inr rfl, rfl⟩ fun reply => ?_
  cases reply with
  | ok _ => trivial
  | error fault => exact asks_refuse _ _

/-- The CA gets to know the account without a record or a response being touched. -/
theorem aside_introduce (created : Bool) :
    Asks (Aside cfg account) (introduce lib cfg account created : Talk Signer Cert Unit) := by
  refine asks_ok ⟨.inl rfl, rfl⟩ fun _ => ?_
  have looked : Asks (Aside cfg account)
      (if created then pure false else registered lib cfg account : Talk Signer Cert Bool) :=
    only_ite trivial (aside_registered lib cfg account)
  refine only_exceptBind looked fun known => ?_
  exact only_ite trivial (aside_registerAccount lib cfg account)

/-- The DNS provider is made from its credentials. -/
theorem aside_dnsProvider (dns : DNS) : Asks (Aside cfg account)
    (dnsProvider lib dns : Talk Signer Cert Unit) := by
  have credentials (entries) : Asks (Aside cfg account)
      (fetchCredentials lib dns entries : Talk Signer Cert _) := by
    induction entries with
    | nil => trivial
    | cons entry rest ih =>
      refine only_exceptBind (aside_read cfg account fun _ => trivial) fun _ => ?_
      exact only_exceptBind ih fun _ => trivial
  refine only_exceptBind (credentials _) fun creds => ?_
  split
  · trivial
  · exact asks_then ⟨.inl rfl, rfl⟩ fun _ => asks_orFail _ _

/-- What follows the authorizations. -/
theorem aside_issue (order : Order) {rest : Signer → List Bytes → Talk Signer Cert α}
    (more : ∀ key chain, Asks (Aside cfg account) (rest key chain)) :
    Asks (Aside cfg account) (do
      let _ ← orFail "wait for the order to be ready: " (← say (.waitOrder account order.uri))
      let leafKey ← orFail "" (← say .generateKey)
      let csr ← orFail "" (← say (.createCertificateRequest cfg.domains leafKey))
      let chain ← finalize account order csr
      rest leafKey chain) := by
  refine asks_ok ⟨.inr rfl, rfl⟩ fun _ => ?_
  refine asks_ok ⟨.inl rfl, rfl⟩ fun leafKey => ?_
  refine asks_ok ⟨.inl rfl, rfl⟩ fun csr => ?_
  refine only_exceptBind ?_ fun chain => more leafKey chain
  refine asks_then ⟨.inr rfl, rfl⟩ fun reply => ?_
  cases reply with
  | ok chain => trivial
  | error fault =>
    refine only_exceptBind (only_lift ?_) fun _ => asks_orFail _ _
    refine only_ite trivial (only_bind (only_call ⟨.inr rfl, rfl⟩) fun waited => ?_)
    cases waited with
    | error fault => trivial
    | ok order => exact only_ite trivial (only_call ⟨.inr rfl, rfl⟩)

end Asks

/-! ## A small order -/

/-- Keys are their own PEM. A certificate is for one domain: a byte each for the times it is
valid from and until, and then its key. -/
def plainLibrary : Library Bytes Bytes where
  text := fun _ => ""
  parseSigner := .ok
  marshalSigner := .ok
  parseCertificate
    | first :: last :: key =>
      .ok { notBefore := first.toNat, notAfter := last.toNat,
            dnsNames := [bytes "a.example"], publicKey := key }
    | _ => .error "malformed certificate"
  keyMatches := fun pub key => pub == key
  marshalChain := fun chain => [0x0A].intercalate (chain.map Base64.encodeToString)
  http01ChallengeResponse := fun _ token => .ok token
  dns01ChallengeRecord := fun _ token => .ok token

/-- A provider without credentials; the other fields are not looked at. -/
def plainDNS : DNS := ⟨bytes "none", ∅, [], [], [], [], none, [], 0, [], [], [], [], []⟩

/-- An order by DNS-01 for that domain. -/
def plainACME : ACME where
  directory := bytes "https://ca.example"
  domains := [bytes "a.example"]
  contact := []
  challenge := challengeDNS01
  httpListen := []
  dns := some plainDNS
  caBundle := []
  rootCAs := none
  accountKey := { backend := bytes "vault", location := bytes "account" }
  eab := none

/-- Everything succeeds, except that the verdict on the challenge is not good. -/
def refusing : (c : Call Bytes Bytes) → c.Reply
  | .courierKey _ => .ok { handle := 0, contents := .ok (bytes "key") }
  | .generateKey => .ok (bytes "leaf")
  | .authorizeOrder _ _ | .waitOrder _ _ =>
    .ok { uri := bytes "order", status := bytes "ready", authzURLs := [bytes "authz"],
          finalizeURL := [], certURL := [] }
  | .getAuthorization _ _ =>
    .ok { uri := bytes "authz", status := bytes "pending", identifier := bytes "a.example",
          challenges := [{ type := challengeDNS01, token := bytes "t", uri := bytes "chal" }] }
  | .tlsALPN01ChallengeCert _ _ _ => .ok []
  | .createCertificateRequest _ _ => .ok []
  | .createOrderCert _ _ _ | .fetchCert _ _ => .ok [5 :: 90 :: bytes "leaf"]
  | .release _ | .presentTLSALPN _ _ | .removeTLSALPN _ | .presentHTTP _ _ | .removeHTTP _
  | .closeProvider => ()
  | .waitAuthorization _ _ => .error { kind := .other, text := "unauthorized" }
  | .writeCourierKey _ _ | .discover | .getReg _ | .register _ _ _ | .accept _ _
  | .newProvider _ _ | .present _ | .cleanup _ | .waitPropagated _ => .ok ()

/-! ## What is issued can be served -/

section Issued

variable {Public Signer Cert : Type} {pem : Pem Public Signer} {lib : Library Public Signer}
  {cfg : ACME}

/-- The certificate manager reads what the Issuer writes. -/
structure Agree (pem : Pem Public Signer) (lib : Library Public Signer) : Prop where
  chain : ∀ leaf rest, pem.parseChain (lib.marshalChain (leaf :: rest)) = .ok (leaf, rest)
  certificate : ∀ der leaf, lib.parseCertificate der = .ok leaf →
    pem.parseCertificate der = some leaf
  signer : ∀ key text, lib.marshalSigner key = .ok text → pem.parseSigner text = .ok key
  matching : pem.keyMatches = lib.keyMatches

/-- The pair is loaded, and served with this leaf, as long as the leaf is valid. -/
def Servable (pem : Pem Public Signer) (domains : List Bytes) (pair : Issued) (leaf : Leaf Public) :
    Prop :=
  ∀ now, leaf.notBefore ≤ now → now ≤ leaf.notAfter →
    ∃ cert, usable pem domains now none pair.chain pair.key = some cert ∧ cert.leaf = leaf

/-- What `Obtain` checks of a chain is what the manager checks when it loads it. -/
theorem servable_of_checkChain (agree : Agree pem lib) {key : Signer} {chain : List Bytes}
    {leaf : Leaf Public} {text : Bytes} (checked : checkChain lib cfg key chain = .ok leaf)
    (written : lib.marshalSigner key = .ok text) :
    Servable pem cfg.domains { chain := lib.marshalChain chain, key := text } leaf := by
  intro now begun ongoing
  unfold checkChain at checked
  repeat' split at checked
  all_goals cases checked
  rename_i first rest _ _ parsed fits missing
  have fits : pem.keyMatches leaf.publicKey key = true := by simpa [agree.matching] using fits
  have named : cfg.domains.all (fun d => leaf.dnsNames.contains d) = true := by simpa using missing
  have fresh : expired pem leaf now = none := by
    rw [expired, if_neg (Int.not_lt.mpr ongoing), if_neg (Int.not_lt.mpr begun)]
  have read : parsePEM pem now (lib.marshalChain (first :: rest)) text =
      .ok { chain := (first, rest), privateKey := key, leaf := leaf } := by
    simp [parsePEM, agree.chain, agree.certificate _ _ parsed, fresh, agree.signer _ _ written,
      fits, bind, Except.bind]
  refine ⟨{ chain := (first, rest), privateKey := key, leaf := leaf }, ?_, rfl⟩
  simp only [usable, read, named, if_true]

/-- Whatever is replied to `Obtain`: a pair that it returns is one that the certificate
manager loads from the Backend and serves, with the leaf that was returned, at every time at
which the leaf is valid. -/
theorem issued_servable (agree : Agree pem lib) {pair : Issued} {leaf : Leaf Public}
    {h : List (Exchange (Call Signer Cert) Call.Reply)}
    (ran : Run recorded [] (obtain lib cfg).run (.ok (pair, leaf)) h) :
    Servable pem cfg.domains pair leaf := by
  have spec : wp recorded (fun _ => True)
    (obtain lib cfg : Talk Signer Cert (Issued × Leaf Public)).run
      (onOk (fun issued _ => Servable pem cfg.domains issued.1 issued.2) fun _ _ => True) [] := by
    refine wp_whatever fun account _ => wp_whatever fun _ _ => wp_whatever fun order _ => ?_
    refine wp_whatever fun _ _ => wp_whatever fun _ _ => wp_whatever fun _ _ => ?_
    refine wp_whatever fun _ _ => wp_whatever fun key _ => wp_whatever fun _ _ => ?_
    refine wp_whatever fun _ _ => wp_whatever fun chain _ => ?_
    refine wp_given trivial (fun _ _ => trivial) fun leaf checked => ?_
    exact wp_given trivial (fun _ _ => trivial) fun text written =>
      ⟨trivial, servable_of_checkChain agree checked written⟩
  have served := wp_run spec ran
  exact served

end Issued

/-- What reads the PEM of that library. -/
def plainPem : Pem Bytes Bytes where
  parseChain := fun text =>
    match (text.splitOn 0x0A).mapM Base64.decodeString with
    | some (leaf :: rest) => .ok (leaf, rest)
    | _ => .error ""
  parseCertificate := fun der => (plainLibrary.parseCertificate der).toOption
  parseSigner := .ok
  keyMatches := plainLibrary.keyMatches
  rfc3339 := fun _ => ""

theorem agree_plain : Agree plainPem plainLibrary := by
  refine ⟨fun leaf rest => ?_, fun der leaf parsed => ?_, fun _ _ same => same.symm, rfl⟩
  · have lines : ∀ line ∈ (leaf :: rest).map Base64.encodeToString, 0x0A ∉ line :=
      List.forall_mem_map.mpr fun _ _ inside => (Base64.encodeToString_lineless _ _ inside).1 rfl
    have decoded : ((leaf :: rest).map Base64.encodeToString).mapM Base64.decodeString =
        some (leaf :: rest) :=
      (mapM_some_iff _ _ _).mpr (by simp [Base64.decodeString_encodeToString])
    simp only [plainPem, plainLibrary, List.splitOn_intercalate 0x0A lines (by simp), decoded]
  · simp [plainPem, parsed, Except.toOption]

/-- The verdict on the challenge is good. -/
def issuing : (c : Call Bytes Bytes) → c.Reply
  | .waitAuthorization _ _ => .ok ()
  | c => refusing c

/-- What is issued is loaded and served halfway through its validity. -/
theorem issued_servable_plain :
    ∃ pair leaf h cert,
      Run recorded [] (obtain plainLibrary plainACME : Talk Bytes Bytes _).run
        (.ok (pair, leaf)) h ∧
      usable plainPem plainACME.domains 47 none pair.chain pair.key = some cert ∧
      cert.leaf = leaf := by
  obtain ⟨pair, leaf, h, ran, first, last⟩ : ∃ pair leaf h,
      Run recorded [] (obtain plainLibrary plainACME : Talk Bytes Bytes _).run
        (.ok (pair, leaf)) h ∧
      leaf.notBefore = 5 ∧ leaf.notAfter = 90 :=
    ⟨_, _, _, run_replying issuing _ [], rfl, rfl⟩
  obtain ⟨cert, loaded, same⟩ := issued_servable agree_plain ran 47 (by omega) (by omega)
  exact ⟨pair, leaf, h, cert, ran, loaded, same⟩

end TrustedCourier.AcmeIssuer
