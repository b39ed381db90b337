import TrustedCourier.ConfigFile

/-!
# The config file: listeners, automatic certificates and the audit signing key

The parts of the config file that name Courier Keys. A Courier Key is checked against
the Backend Plugins and the Secret Names that are checked already, where it is named;
that no two name the same location is checked at the end, over all of them.
-/

namespace TrustedCourier.Config

open Checks FilePaths ByteStrings Option

variable (host : Host)

/-! ## One Courier Key -/

/-- A Courier Key as the file names it. -/
structure FileCourierKey where
  backend : Bytes
  location : Bytes

/-- `validateCourierKey`, on a pointer. -/
def validateCourierKey (k : Option FileCourierKey) (configKey what : String) (cfg : Config) :
    Except String CourierKey := do
  let k ← need k (configKey ++ ": backend is required")
  refuse (k.backend = []) (configKey ++ ": backend is required")
  refuse (k.location = []) (configKey ++ ": location is required")
  (PluginContract.location k.location).mapError fun e => configKey ++ ": " ++ e
  refuse ((cfg.backendPlugins.lookup k.backend).isNone = true)
    (configKey ++ ": unknown backend " ++ host.quote k.backend ++ "; name one of backend_plugins")
  (inOrder byName cfg.secrets).forM fun entry =>
    refuse (entry.2.backend = k.backend ∧ entry.2.location = k.location)
      ("Secret Name " ++ host.quote entry.1 ++ " maps to the location of " ++ what ++
        "; a Courier Key is never delivered to Agents")
  return { backend := k.backend, location := k.location }

/-! ## Addresses and names -/

/-- `sameBind`. -/
def sameBind (a b : Bytes) : Bool :=
  match host.parseAddrPort a, host.parseAddrPort b with
  | some x, some y =>
    -- The kernel chooses a free port for port 0.
    x.port == y.port && x.port != 0 &&
      (x.addr.isUnspecified || y.addr.isUnspecified || x.addr.unmap == y.addr.unmap)
  | _, _ => a == b

/-- The letters and digits of a label. -/
def labelByte (c : UInt8) : Bool := (0x61 ≤ c && c ≤ 0x7A) || (0x30 ≤ c && c ≤ 0x39)

/-- One label of a DNS name. -/
def domainLabel (label : Bytes) : Bool :=
  label ≠ [] && label.length ≤ 63 && label.all (fun c => labelByte c || c == 0x2D) &&
    label.head? != some 0x2D && label.getLast? != some 0x2D

/-- `domainPattern`. -/
def domainPattern (s : Bytes) : Bool := (s.splitOn 0x2E).all domainLabel

/-- `validateAgentPublicURL`. -/
def validateAgentPublicURL (raw : Bytes) : Except String Bytes := do
  let absolute := "agent_api.public_url must be an absolute http or https URL with a host"
  let u ← (host.parseURL raw).mapError fun _ => absolute
  refuse (u.opaquePart ≠ [] ∨ u.host = [] ∨ (u.scheme ≠ bytes "https" ∧ u.scheme ≠ bytes "http"))
    absolute
  refuse (u.user.isSome = true) "agent_api.public_url must not contain credentials"
  refuse ((u.path ≠ [] ∧ u.path ≠ bytes "/") ∨ u.rawPath ≠ [] ∨ u.rawQuery ≠ [] ∨
      u.forceQuery = true ∨
      contains raw (bytes "#") = true)
    "agent_api.public_url must be an origin without a path, query, or fragment"
  match host.parseAddr u.hostname with
  | some addr =>
    refuse (addr.zone ≠ [] ∨ addr.unmap.isUnspecified = true ∨ addr.isMulticast = true)
      "agent_api.public_url must name a reachable host, not a wildcard, multicast, or scoped address"
    refuse (addr.six ≠ (bytes "[").isPrefixOf u.host)
      "agent_api.public_url must bracket only IPv6 addresses"
  | none =>
    refuse (u.host.any (fun c => c == 0x5B || c == 0x5D) = true ∨
        domainPattern (host.toLower (trimTrailing u.hostname (bytes "."))) = false ∨
        u.hostname.length > 253)
      "agent_api.public_url must name a valid DNS host or IP address"
  if u.port ≠ [] then
    refuse ((host.atoi u.port).all (fun n => n < 1 || n > 65535) = true)
      "agent_api.public_url port must be from 1 to 65535"
  else
    refuse ((bytes ":").isSuffixOf u.host = true) "agent_api.public_url must not contain an empty port"
  refuse (u.scheme = bytes "http" ∧
      (host.parseAddr u.hostname).all (fun addr => !addr.unmap.isLoopback) = true)
    "agent_api.public_url requires https except for literal loopback IP addresses"
  return trimTrailing u.string (bytes "/")

/-! ## DNS providers -/

/-- `agent_api.tls.acme.dns` of the file. -/
structure FileDNS where
  provider : Bytes
  credentials : NameMap (Option FileCourierKey)
  zone : Bytes
  endpoint : Bytes
  authority : Bytes
  caBundle : Bytes
  resolvers : List Bytes
  propagationTimeout : Bytes
  tenantID : Bytes
  clientID : Bytes
  subscriptionID : Bytes
  resourceGroup : Bytes
  project : Bytes

/-- The built-in DNS providers by name, and the credential fields each needs. -/
def dnsProviders : List (Bytes × List Bytes) :=
  [(bytes "azure", [bytes "client_secret"]),
   (bytes "cloudflare", [bytes "api_token"]),
   (bytes "google", [bytes "service_account_key"]),
   (bytes "route53", [bytes "access_key_id", bytes "secret_access_key"])]

/-- The settings of each provider beside the common ones, and whether each is required. -/
def dnsProviderSettings : List (Bytes × List (Bytes × Bool)) :=
  [(bytes "azure", [(bytes "tenant_id", true), (bytes "client_id", true),
      (bytes "subscription_id", true), (bytes "resource_group", true), (bytes "authority", false)]),
   (bytes "cloudflare", []),
   (bytes "google", [(bytes "project", false)]),
   (bytes "route53", [])]

/-- Two minutes. -/
def defaultDNSPropagationTimeout : Int := 120 * second

/-- The key under which the provider is configured. -/
def dnsKey : String := "agent_api.tls.acme.dns"

/-- Whether a text is an https URL without query, fragment, or user information. -/
def plainHTTPS (value : Bytes) : Bool :=
  match host.parseURL value with
  | .ok u => u.scheme == bytes "https" && u.host != [] && u.rawQuery == [] && u.fragment == [] &&
      u.user.isNone
  | .error _ => false

/-- The credentials that the provider takes, each a Courier Key. -/
def FileDNS.validateCredentials (d : FileDNS) (cfg : Config) (fields : List Bytes) :
    Except String (NameMap CourierKey) := do
  (sortedNames d.credentials).forM fun field => refuse (fields.contains field = false)
    (dnsKey ++ ".credentials." ++ host.text field ++ " is not a credential of " ++
      host.text d.provider ++ " (want " ++ joined host fields ++ ")")
  fields.foldlM (fun (credentials : NameMap CourierKey) field => do
    let key ← validateCourierKey host (d.credentials.lookup field).join
      (dnsKey ++ ".credentials." ++ host.text field)
      ("the " ++ host.text d.provider ++ " DNS credential " ++ host.text field) cfg
    return credentials.insert field key) ∅

/-- The zone, which holds every domain, or none. -/
def FileDNS.validateZone (d : FileDNS) (domains : List Bytes) : Except String Bytes :=
  if d.zone = [] then .ok [] else do
    let zone := host.toLower (trimTrailing d.zone (bytes "."))
    refuse (domainPattern zone = false ∨ contains zone (bytes ".") = false)
      (dnsKey ++ ".zone " ++ host.quote d.zone ++ " is not a DNS zone name")
    domains.forM fun domain =>
      let name := trimLeading domain (bytes "*.")
      refuse (name ≠ zone ∧ (bytes "." ++ zone).isSuffixOf name = false)
        (dnsKey ++ ".zone " ++ host.quote d.zone ++ " does not hold " ++ host.text domain)
    return zone

/-- The resolvers, at port 53 unless another is named. -/
def FileDNS.validateResolvers (d : FileDNS) : Except String (List Bytes) :=
  d.resolvers.mapM fun r =>
    match host.parseAddrPort r with
    | some addrPort => .ok (host.addrPortString addrPort)
    | none => match host.parseAddr r with
      | some addr => .ok (host.addrPortString { addr, port := 53 })
      | none => .error (dnsKey ++ ".resolvers: " ++ host.quote r ++
          " must be an IP address with an optional port, such as 192.0.2.53 or 192.0.2.53:5353")

/-- The propagation timeout, or its default. -/
def FileDNS.validateTimeout (d : FileDNS) : Except String Int :=
  if d.propagationTimeout = [] then .ok defaultDNSPropagationTimeout else do
    let t ← need (host.parseDuration d.propagationTimeout)
      (dnsKey ++ ".propagation_timeout " ++ host.quote d.propagationTimeout ++
        " is not a duration such as 2m")
    refuse (t < second ∨ t > 1800 * second)
      (dnsKey ++ ".propagation_timeout " ++ host.quote d.propagationTimeout ++
        " must be from 1s to 30m")
    return t

/-- The settings that only some providers take, in the order of their names. -/
def FileDNS.settings (d : FileDNS) : List (Bytes × Bytes) :=
  [(bytes "authority", d.authority), (bytes "client_id", d.clientID), (bytes "project", d.project),
   (bytes "resource_group", d.resourceGroup), (bytes "subscription_id", d.subscriptionID),
   (bytes "tenant_id", d.tenantID)]

/-- The settings of the provider and of no other. -/
def FileDNS.validateSettings (d : FileDNS) : Except String Unit :=
  d.settings.forM fun setting =>
    match ((dnsProviderSettings.lookup d.provider).getD []).lookup setting.1 with
    | none => refuse (setting.2 ≠ [])
        (dnsKey ++ "." ++ host.text setting.1 ++ " is not a setting of " ++ host.text d.provider)
    | some required => refuse (required = true ∧ setting.2 = [])
        (dnsKey ++ "." ++ host.text setting.1 ++ " is required for " ++ host.text d.provider)

/-- `fileDNS.validate`. -/
def FileDNS.validate (d : FileDNS) (cfg : Config) (baseDir : Bytes) (domains : List Bytes) :
    Except String DNS := do
  let providers := joined host (dnsProviders.map Prod.fst)
  refuse (d.provider = []) (dnsKey ++ ".provider is required: one of " ++ providers)
  let fields ← need (dnsProviders.lookup d.provider)
    (dnsKey ++ ".provider " ++ host.quote d.provider ++
      " is not a built-in DNS provider (want one of " ++ providers ++ ")")
  let credentials ← d.validateCredentials host cfg fields
  let zone ← d.validateZone host domains
  [("endpoint", d.endpoint), ("authority", d.authority)].forM fun u =>
    refuse (u.2 ≠ [] ∧ plainHTTPS host u.2 = false)
      (dnsKey ++ "." ++ u.1 ++ " " ++ host.quote u.2 ++
      " must be an https URL without query, fragment, or user information")
  let bundle ← validateBundle host (dnsKey ++ ".ca_bundle") baseDir d.caBundle
  let resolvers ← d.validateResolvers host
  let propagationTimeout ← d.validateTimeout host
  d.validateSettings host
  return { provider := d.provider, credentials, zone,
           endpoint := trimTrailing d.endpoint (bytes "/"),
           authority := trimTrailing d.authority (bytes "/"), caBundle := bundle.1,
           rootCAs := bundle.2,
           resolvers,
           propagationTimeout, tenantID := d.tenantID, clientID := d.clientID,
           subscriptionID := d.subscriptionID,
           resourceGroup := d.resourceGroup, project := d.project }

/-! ## Automatic certificates -/

/-- An external account binding of the file. -/
structure FileEAB where
  keyID : Bytes
  hmacKey : Option FileCourierKey

/-- `agent_api.tls.acme` of the file. -/
structure FileACME where
  directory : Bytes
  domains : List Bytes
  contact : Bytes
  challenge : Bytes
  httpListen : Bytes
  dns : Option FileDNS
  caBundle : Bytes
  accountKey : Option FileCourierKey
  eab : Option FileEAB

/-- The default challenge. -/
def challengeTLSALPN01 : Bytes := bytes "tls-alpn-01"

/-- The challenge over plain HTTP. -/
def challengeHTTP01 : Bytes := bytes "http-01"

/-- The challenge with DNS records. -/
def challengeDNS01 : Bytes := bytes "dns-01"

/-- The directory of Let's Encrypt. -/
def defaultACMEDirectory : Bytes := bytes "https://acme-v02.api.letsencrypt.org/directory"

/-- Port 80, as the challenge needs it. -/
def defaultACMEHTTPListen : Bytes := bytes "0.0.0.0:80"

/-- The challenge, one of the three. -/
def FileACME.validateChallenge (a : FileACME) : Except String Bytes :=
  if a.challenge = [] then .ok challengeTLSALPN01 else do
    refuse ([challengeTLSALPN01, challengeHTTP01, challengeDNS01].contains a.challenge = false)
      ("agent_api.tls.acme.challenge " ++ host.quote a.challenge ++
        " is not a challenge type (want tls-alpn-01, http-01, or dns-01)")
    return a.challenge

/-- The domains, with wildcards only for dns-01. -/
def FileACME.validateDomains (a : FileACME) (challenge : Bytes) : Except String (List Bytes) :=
  a.domains.foldlM (fun (domains : List Bytes) d => do
    let domain := host.toLower (trimTrailing d (bytes "."))
    let wildcard := (bytes "*.").isPrefixOf domain
    let name := trimLeading domain (bytes "*.")
    refuse (wildcard = true ∧ challenge ≠ challengeDNS01)
      ("agent_api.tls.acme.domains: " ++ host.quote d ++
        " is a wildcard, which only dns-01 can validate; set challenge: dns-01")
    refuse (host.parseIP name = true ∨ domainPattern name = false ∨
        (contains name (bytes ".") = false ∧ (name ≠ bytes "localhost" ∨ wildcard = true)))
      ("agent_api.tls.acme.domains: " ++ host.quote d ++ " is not a DNS name")
    refuse (domains.contains domain = true)
      ("agent_api.tls.acme.domains lists " ++ host.quote d ++ " more than once")
    return domains ++ [domain]) []

/-- The directory, an https URL. -/
def FileACME.validateDirectory (a : FileACME) : Except String Bytes :=
  if a.directory = [] then .ok defaultACMEDirectory else do
    let bad := "agent_api.tls.acme.directory " ++ host.quote a.directory ++
      " must be an https URL; omit it for Let's Encrypt"
    let u ← (host.parseURL a.directory).mapError fun _ => bad
    refuse (u.scheme ≠ bytes "https" ∨ u.host = []) bad
    return a.directory

/-- The contact, a mail address. -/
def FileACME.validateContact (a : FileACME) : Except String Bytes :=
  if a.contact = [] then .ok [] else do
    let contact := if contains a.contact (bytes ":") then a.contact
      else bytes "mailto:" ++ a.contact
    let bad := "agent_api.tls.acme.contact " ++ host.quote a.contact ++ " must be an email address"
    let u ← (host.parseURL contact).mapError fun _ => bad
    refuse (u.scheme ≠ bytes "mailto" ∨ u.opaquePart = [] ∨
      contains u.opaquePart (bytes "@") = false) bad
    return contact

/-- The listener of http-01, apart from the Agent API's. -/
def FileACME.validateHTTPListen (a : FileACME) (challenge : Bytes) (cfg : Config) (listen : Bytes) :
    Except String Bytes :=
  if challenge = challengeHTTP01 then do
    refuse (a.httpListen ≠ [] ∧ (host.parseAddrPort a.httpListen).isNone = true)
      ("agent_api.tls.acme.http_listen " ++ host.quote a.httpListen ++
        " must be an IP address and port, such as 0.0.0.0:80")
    let httpListen := if a.httpListen = [] then defaultACMEHTTPListen else a.httpListen
    refuse (sameBind host httpListen listen = true)
      ("agent_api.tls.acme.http_listen " ++ host.quote httpListen ++
        " is the Agent API's own address; HTTP-01 is validated over plain HTTP on a different port")
    refuse (sameBind host httpListen cfg.admin.listen = true)
      ("agent_api.tls.acme.http_listen " ++ host.quote httpListen ++
        " is the remote admin listener's address (admin.listen); HTTP-01 needs its own port")
    return httpListen
  else do
    refuse (a.httpListen ≠ []) "agent_api.tls.acme.http_listen is only for challenge http-01"
    return []

/-- The DNS provider, with dns-01 only. -/
def FileACME.validateDNS (a : FileACME) (challenge : Bytes) (cfg : Config) (baseDir : Bytes)
    (domains : List Bytes) :
    Except String (Option DNS) :=
  if challenge = challengeDNS01 then do
    let dns ← need a.dns
      "agent_api.tls.acme.dns is required for challenge dns-01: the DNS provider that sets the validation records"
    return some (← dns.validate host cfg baseDir domains)
  else do
    refuse (a.dns.isSome = true) "agent_api.tls.acme.dns is only for challenge dns-01"
    return none

/-- Both the key's id and the key. -/
def FileEAB.validate (cfg : Config) (b : FileEAB) : Except String ExternalAccountBinding := do
  refuse (b.keyID = []) "agent_api.tls.acme.external_account_binding.key_id is required"
  let hmacKey ← validateCourierKey host b.hmacKey
    "agent_api.tls.acme.external_account_binding.hmac_key"
    "the ACME External Account Binding key" cfg
  return { keyID := b.keyID, hmacKey }

/-- `fileACME.validate`. -/
def FileACME.validate (cfg : Config) (baseDir listen : Bytes) (a : FileACME) :
    Except String ACME := do
  refuse (a.domains = [])
    "agent_api.tls.acme.domains is required: the DNS names the certificate is issued for"
  let challenge ← a.validateChallenge host
  let domains ← a.validateDomains host challenge
  let directory ← a.validateDirectory host
  let contact ← a.validateContact host
  let httpListen ← a.validateHTTPListen host challenge cfg listen
  let dns ← a.validateDNS host challenge cfg baseDir domains
  let bundle ← validateBundle host "agent_api.tls.acme.ca_bundle" baseDir a.caBundle
  let accountKey ← validateCourierKey host a.accountKey "agent_api.tls.acme.account_key"
    "the ACME account key" cfg
  let eab ← a.eab.mapM (FileEAB.validate host cfg)
  return { directory, domains, contact, challenge, httpListen, dns, caBundle := bundle.1,
           rootCAs := bundle.2, accountKey, eab }

/-! ## Listeners -/

/-- `admin.tls` of the file. -/
structure FileAdminTLS where
  certificate : Option FileCourierKey
  key : Option FileCourierKey
  clientCA : Bytes

/-- `admin` of the file. -/
structure FileAdmin where
  socket : Bytes
  allowedUIDs : Option (List Int)
  listen : Bytes
  tls : Option FileAdminTLS

/-- Where the Admin API listens by default. -/
def defaultAdminSocket : Bytes := bytes "/run/trustedcourier/admin.sock"

/-- Both Courier Keys and the client CAs. -/
def FileAdminTLS.validate (cfg : Config) (baseDir : Bytes) (t : FileAdminTLS) :
    Except String AdminTLS := do
  let certificate ← validateCourierKey host t.certificate "admin.tls.certificate"
    "the remote admin listener's TLS certificate" cfg
  let key ← validateCourierKey host t.key "admin.tls.key" "the remote admin listener's TLS key" cfg
  refuse (certificate = key)
    "admin.tls.certificate and admin.tls.key name the same location; each Courier Key needs its own"
  refuse (t.clientCA = [])
    "admin.tls.client_ca is required: the PEM file of CA certificates that Operator client certificates must chain to"
  let clientCA := resolve baseDir t.clientCA
  let clientCAs ← (loadCABundle host clientCA).mapError fun e => "admin.tls.client_ca: " ++ e
  return { certificate, key, clientCA, clientCAs }

/-- `validateListener`: what becomes of `cfg.Admin`. -/
def FileAdmin.validateListener (a : FileAdmin) (cfg : Config) (baseDir : Bytes) :
    Except String Admin :=
  match a.tls with
  | none => do
    refuse (a.listen ≠ [])
      ("admin.listen " ++ host.quote a.listen ++
        " is a network listener, so admin.tls is required: remote administration takes a client certificate and the Operator Credential")
    return cfg.admin
  | some t => do
    refuse (a.listen = [])
      "admin.tls needs admin.listen: the admin socket serves plain HTTP to local users"
    refuse ((host.parseAddrPort a.listen).isNone = true)
      ("admin.listen " ++ host.quote a.listen ++
        " must be an IP address and port, such as 0.0.0.0:8300")
    let tls ← t.validate host cfg baseDir
    return { cfg.admin with listen := a.listen, tls := some tls }

/-- `agent_api.tls` of the file. -/
structure FileAgentTLS where
  certificate : Option FileCourierKey
  key : Option FileCourierKey
  acme : Option FileACME

/-- `agent_api` of the file. -/
structure FileAgentAPI where
  listen : Bytes
  socket : Bytes
  publicURL : Bytes
  tls : Option FileAgentTLS

/-- Both Courier Keys, and ACME if it is set. -/
def FileAgentTLS.validate (cfg : Config) (baseDir listen : Bytes) (t : FileAgentTLS) :
    Except String AgentTLS := do
  let certificate ← validateCourierKey host t.certificate "agent_api.tls.certificate"
    "the Agent API's TLS certificate" cfg
  let key ← validateCourierKey host t.key "agent_api.tls.key" "the Agent API's TLS key" cfg
  let acme ← t.acme.mapM (FileACME.validate host cfg baseDir listen)
  return { certificate, key, acme }

/-- The listener, with TLS unless it is a loopback one. -/
def FileAgentAPI.validateListen (a : FileAgentAPI) (cfg : Config) : Except String Unit :=
  if a.listen = [] then .ok () else do
    let addr ← need (host.parseAddrPort a.listen)
      ("agent_api.listen " ++ host.quote a.listen ++
        " must be an IP address and port, such as 127.0.0.1:8200")
    refuse (a.tls.isNone = true ∧ addr.addr.unmap.isLoopback = false)
      ("agent_api.listen " ++ host.quote a.listen ++
        " is not a loopback address, so agent_api.tls is required: Agent Tokens and Reveal Deliveries never cross a network in plaintext")
    refuse (sameBind host a.listen cfg.admin.listen = true)
      ("agent_api.listen " ++ host.quote a.listen ++
        " is the remote admin listener's address (admin.listen); give the Agent API its own")

/-- `fileAgentAPI.validate`: what becomes of `cfg.AgentAPI`. -/
def FileAgentAPI.validate (a : FileAgentAPI) (cfg : Config) (baseDir : Bytes) :
    Except String AgentAPI := do
  refuse (a.listen ≠ [] ∧ a.socket ≠ []) "set agent_api.listen or agent_api.socket, not both"
  refuse (a.tls.isSome = true ∧ a.listen = [])
    "agent_api.tls needs agent_api.listen: a unix socket serves plain HTTP"
  refuse (a.publicURL ≠ [] ∧ a.listen = []) "agent_api.public_url needs agent_api.listen"
  let publicURL ← (if a.publicURL = [] then .ok [] else validateAgentPublicURL host a.publicURL)
  a.validateListen host cfg
  let socket := if a.socket = [] then [] else resolve baseDir a.socket
  refuse (a.socket ≠ [] ∧ socket = cfg.admin.socket)
    ("agent_api.socket " ++ host.text socket ++ " is the admin socket; give the Agent API its own")
  let tls ← a.tls.mapM (FileAgentTLS.validate host cfg baseDir a.listen)
  return { listen := a.listen, socket, publicURL, tls }

/-! ## The audit signing key -/

/-- `audit` of the file. -/
structure FileAudit where
  signingKey : Option FileCourierKey
  records : Node Int
  interval : Bytes

/-- A checkpoint for every thousand records. -/
def defaultCheckpointRecords : Int := 1000

/-- A checkpoint a minute. -/
def defaultCheckpointInterval : Int := 60 * second

/-- The records between checkpoints, or the default. -/
def FileAudit.validateRecords (a : FileAudit) : Except String Int :=
  let bad := "audit.checkpoints.records must be at least 1; omit it for the default of 1000"
  match a.records with
  | .omitted => .ok defaultCheckpointRecords
  | .null | .undecodable _ => .error bad
  | .value records => do
    refuse (records < 1) bad
    return records

/-- The time between checkpoints, or the default. -/
def FileAudit.validateInterval (a : FileAudit) : Except String Int :=
  if a.interval = [] then .ok defaultCheckpointInterval else do
    let d ← need (host.parseDuration a.interval)
      ("audit.checkpoints.interval " ++ host.quote a.interval ++ " is not a duration such as 1m")
    refuse (d < second) ("audit.checkpoints.interval " ++ host.quote a.interval ++
      " must be at least 1s")
    return d

/-- `fileAudit.validate`: what becomes of `cfg.Audit`. -/
def FileAudit.validate (a : FileAudit) (cfg : Config) : Except String Audit := do
  refuse (a.signingKey.isNone = true ∧ cfg.agentAPI.served = true)
    "audit.signing_key is required with agent_api: every Delivery attempt is audited, and TrustedCourier signs the audit chain with that Courier Key"
  let signingKey ← a.signingKey.mapM fun key =>
    validateCourierKey host (some key) "audit.signing_key" "the audit signing key" cfg
  let checkpointRecords ← a.validateRecords
  let checkpointInterval ← a.validateInterval host
  return { signingKey, checkpointRecords, checkpointInterval }

/-! ## Where Courier Keys are named -/

/-- A place of the config at which a Courier Key is named. -/
inductive KeyPlace where
  | agentCertificate
  | agentKey
  | accountKey
  | bindingKey
  | dnsCredential (field : Bytes)
  | adminCertificate
  | adminKey
  | signingKey
deriving DecidableEq

/-- How an error names the place. -/
def KeyPlace.text : KeyPlace → String
  | .agentCertificate => "agent_api.tls.certificate"
  | .agentKey => "agent_api.tls.key"
  | .accountKey => "agent_api.tls.acme.account_key"
  | .bindingKey => "agent_api.tls.acme.external_account_binding.hmac_key"
  | .dnsCredential field => "agent_api.tls.acme.dns.credentials." ++ host.text field
  | .adminCertificate => "admin.tls.certificate"
  | .adminKey => "admin.tls.key"
  | .signingKey => "audit.signing_key"

/-- The same half of the other listener's pair. -/
def KeyPlace.twin : KeyPlace → KeyPlace
  | .agentCertificate => .adminCertificate
  | .agentKey => .adminKey
  | .adminCertificate => .agentCertificate
  | .adminKey => .agentKey
  | place => place

/-- The Courier Key ACME names at a place. -/
def ACME.keyAt (a : ACME) : KeyPlace → Option CourierKey
  | .accountKey => some a.accountKey
  | .bindingKey => a.eab.map ExternalAccountBinding.hmacKey
  | .dnsCredential field => a.dns.bind fun d => d.credentials.lookup field
  | _ => none

/-- The Courier Key the Agent API's TLS names at a place. -/
def AgentTLS.keyAt (t : AgentTLS) : KeyPlace → Option CourierKey
  | .agentCertificate => some t.certificate
  | .agentKey => some t.key
  | place => t.acme.bind fun a => a.keyAt place

/-- The Courier Key the Admin API's TLS names at a place. -/
def AdminTLS.keyAt (t : AdminTLS) : KeyPlace → Option CourierKey
  | .adminCertificate => some t.certificate
  | .adminKey => some t.key
  | _ => none

/-- The Courier Key a config names at a place. -/
def keyAt (cfg : Config) : KeyPlace → Option CourierKey
  | .signingKey => cfg.audit.signingKey
  | .adminCertificate => cfg.admin.tls.bind fun t => t.keyAt .adminCertificate
  | .adminKey => cfg.admin.tls.bind fun t => t.keyAt .adminKey
  | place => cfg.agentAPI.tls.bind fun t => t.keyAt place

/-! ## No two at one location -/

/-- `namedCourierKey`, which is named by its place. -/
structure NamedCourierKey where
  place : KeyPlace
  key : CourierKey

/-- The Courier Keys of ACME, in the source's order. -/
def ACME.named (a : ACME) : List NamedCourierKey :=
  ⟨.accountKey, a.accountKey⟩ ::
    ((a.eab.map fun b => NamedCourierKey.mk .bindingKey b.hmacKey).toList ++
      (a.dns.map fun d => (inOrder byName d.credentials).map fun entry =>
        NamedCourierKey.mk (.dnsCredential entry.1) entry.2).getD [])

/-- Those of the Agent API's TLS. -/
def AgentTLS.named (t : AgentTLS) : List NamedCourierKey :=
  ⟨.agentCertificate, t.certificate⟩ :: ⟨.agentKey, t.key⟩ :: (t.acme.map ACME.named).getD []

/-- Those of the Admin API's TLS. -/
def AdminTLS.named (t : AdminTLS) : List NamedCourierKey :=
  [⟨.adminCertificate, t.certificate⟩, ⟨.adminKey, t.key⟩]

/-- `SharesAgentCertificate`. -/
def sharesAgentCertificate (cfg : Config) : Bool :=
  match cfg.admin.tls, cfg.agentAPI.tls with
  | some admin, some agent => admin.certificate == agent.certificate && admin.key == agent.key
  | _, _ => false

/-- Whether the admin pair and the Agent API's have a half in common. -/
def sharesHalf (cfg : Config) : Bool :=
  match cfg.admin.tls, cfg.agentAPI.tls with
  | some admin, some agent => admin.certificate == agent.certificate || admin.key == agent.key
  | _, _ => false

/-- The keys that need locations of their own. A shared pair counts once. -/
def namedCourierKeys (cfg : Config) : List NamedCourierKey :=
  (cfg.agentAPI.tls.map AgentTLS.named).getD [] ++
    ((if sharesAgentCertificate cfg then [] else (cfg.admin.tls.map AdminTLS.named).getD []) ++
      (cfg.audit.signingKey.map (NamedCourierKey.mk .signingKey)).toList)

/-- The nested loop over the keys, after those it has passed. -/
def distinct (passed : List NamedCourierKey) : List NamedCourierKey → Except String Unit
  | [] => .ok ()
  | k :: rest => do
    passed.forM fun other => refuse (k.key = other.key)
      (other.place.text host ++ " and " ++ k.place.text host ++
        " name the same location; each Courier Key needs its own")
    distinct (passed ++ [k]) rest

/-- `validateCourierKeyLocations`. -/
def validateCourierKeyLocations (cfg : Config) : Except String Unit := do
  refuse (sharesAgentCertificate cfg = false ∧ sharesHalf cfg = true)
    "admin.tls shares only one of agent_api.tls.certificate and agent_api.tls.key; name both to share the Agent API's certificate, or neither"
  distinct host [] (namedCourierKeys cfg)

/-! ## What is accepted -/

/-- A key in a configured Backend, at a location that no Secret Name maps to. -/
structure Guarded (plugins : NameMap BackendPlugin) (secrets : NameMap SecretName)
    (key : CourierKey) : Prop where
  backed : key.backend ∈ plugins
  kept : ∀ name s, secrets.lookup name = some s →
    ¬ (s.backend = key.backend ∧ s.location = key.location)

variable {host} {key : CourierKey} {cfg : Config}

/-- An accepted Courier Key is guarded. -/
theorem validateCourierKey_ok {k : Option FileCourierKey} {configKey what : String}
    (checked : validateCourierKey host k configKey what cfg = .ok key) :
    Guarded cfg.backendPlugins cfg.secrets key := by
  simp only [validateCourierKey, bind_ok, need_ok, refuse_ok, mapError_ok, forM_ok,
    pure_ok] at checked
  obtain ⟨k, -, _, -, _, -, _, -, _, known, _, apart, rfl⟩ := checked
  refine ⟨mem_of_found known, ?_⟩
  intro name s listed
  exact apart ⟨name, s⟩ (mem_inOrder.mpr listed)

variable {baseDir : Bytes}

/-- So are those of the DNS provider. -/
theorem FileDNS.validate_ok {d : FileDNS} {domains : List Bytes} {dns : DNS}
    (checked : d.validate host cfg baseDir domains = .ok dns) {field : Bytes}
    (named : dns.credentials.lookup field = some key) :
    Guarded cfg.backendPlugins cfg.secrets key := by
  simp only [FileDNS.validate, FileDNS.validateCredentials, bind_ok, pure_ok] at checked
  obtain ⟨_, -, fields, -, credentials, ⟨_, -, collected⟩, _, -, _, -, _, -, _, -, _, -, _, -,
    rfl⟩ := checked
  have every : ∀ field key, credentials.lookup field = some key →
      Guarded cfg.backendPlugins cfg.secrets key := by
    refine foldlM_ok (I := fun credentials => ∀ field key, credentials.lookup field = some key →
      Guarded cfg.backendPlugins cfg.secrets key) collected (by simp) ?_
    intro added _ before after known once field key found
    simp only [bind_ok, pure_ok] at once
    obtain ⟨new, accepted, rfl⟩ := once
    by_cases same : field = added
    · subst same
      rw [AList.lookup_insert] at found
      exact some.inj found ▸ validateCourierKey_ok accepted
    · rw [AList.lookup_insert_ne same] at found
      exact known field key found
  exact every field key named

variable {place : KeyPlace}

/-- So are those of ACME. -/
theorem FileACME.validate_ok {a : FileACME} {listen : Bytes} {acme : ACME}
    (checked : a.validate host cfg baseDir listen = .ok acme)
    (named : acme.keyAt place = some key) : Guarded cfg.backendPlugins cfg.secrets key := by
  simp only [FileACME.validate, bind_ok, pure_ok] at checked
  obtain ⟨_, -, challenge, -, domains, -, _, -, _, -, _, -, dns, checkedDNS, _, -, account,
    checkedAccount, eab, checkedEAB, rfl⟩ := checked
  cases place with
  | accountKey => exact some.inj named ▸ validateCourierKey_ok checkedAccount
  | bindingKey =>
    obtain ⟨binding, rfl, rfl⟩ := map_eq_some_iff.mp named
    obtain ⟨raw, -, accepted⟩ := optional_some checkedEAB
    simp only [FileEAB.validate, bind_ok, pure_ok] at accepted
    obtain ⟨_, -, hmac, accepted, rfl⟩ := accepted
    exact validateCourierKey_ok accepted
  | dnsCredential field =>
    obtain ⟨provider, rfl, credential⟩ := bind_eq_some_iff.mp named
    unfold FileACME.validateDNS at checkedDNS
    split at checkedDNS
    · simp only [bind_ok, pure_ok, some.injEq] at checkedDNS
      obtain ⟨raw, -, _, accepted, rfl⟩ := checkedDNS
      exact FileDNS.validate_ok accepted credential
    · simp only [bind_ok, pure_ok, reduceCtorEq, and_false, exists_false] at checkedDNS
  | _ => exact absurd named (by simp [ACME.keyAt])

/-- So are those of the Agent API. -/
theorem FileAgentAPI.validate_ok {a : FileAgentAPI} {api : AgentAPI}
    (checked : a.validate host cfg baseDir = .ok api) {tls : AgentTLS} (served : api.tls = some tls)
    (named : tls.keyAt place = some key) : Guarded cfg.backendPlugins cfg.secrets key := by
  simp only [FileAgentAPI.validate, bind_ok, pure_ok] at checked
  obtain ⟨_, -, _, -, _, -, _, -, _, -, _, -, tls, checkedTLS, rfl⟩ := checked
  subst served
  obtain ⟨raw, -, accepted⟩ := optional_some checkedTLS
  simp only [FileAgentTLS.validate, bind_ok, pure_ok] at accepted
  obtain ⟨certificate, checkedCertificate, own, checkedKey, acme, checkedACME, rfl⟩ := accepted
  have automatic : ∀ place, acme.bind (fun a => a.keyAt place) = some key →
      Guarded cfg.backendPlugins cfg.secrets key := by
    intro place named
    obtain ⟨a, rfl, named⟩ := bind_eq_some_iff.mp named
    obtain ⟨raw, -, accepted⟩ := optional_some checkedACME
    exact FileACME.validate_ok accepted named
  cases place with
  | agentCertificate => exact some.inj named ▸ validateCourierKey_ok checkedCertificate
  | agentKey => exact some.inj named ▸ validateCourierKey_ok checkedKey
  | _ => exact automatic _ named

/-- So are those of the Admin API. -/
theorem FileAdmin.validateListener_ok {a : FileAdmin} {admin : Admin}
    (checked : a.validateListener host cfg baseDir = .ok admin) (before : cfg.admin.tls = none)
    {tls : AdminTLS} (served : admin.tls = some tls) (named : tls.keyAt place = some key) :
    Guarded cfg.backendPlugins cfg.secrets key := by
  unfold FileAdmin.validateListener at checked
  split at checked
  · simp only [bind_ok, pure_ok] at checked
    obtain ⟨_, -, rfl⟩ := checked
    cases before.symm.trans served
  · simp only [FileAdminTLS.validate, bind_ok, mapError_ok, pure_ok] at checked
    obtain ⟨_, -, _, -, _, ⟨certificate, checkedCertificate, own, checkedKey, _, -, _, -, _, -,
      rfl⟩, rfl⟩ := checked
    cases served
    cases place with
    | adminCertificate => exact some.inj named ▸ validateCourierKey_ok checkedCertificate
    | adminKey => exact some.inj named ▸ validateCourierKey_ok checkedKey
    | _ => exact absurd named (by simp [AdminTLS.keyAt])

/-- An accepted signing key is guarded, and a served Agent API has one. -/
theorem FileAudit.validate_ok {a : FileAudit} {audit : Audit}
    (checked : a.validate host cfg = .ok audit) :
    (∀ key, audit.signingKey = some key → Guarded cfg.backendPlugins cfg.secrets key) ∧
      (cfg.agentAPI.served = true → audit.signingKey.isSome = true) := by
  simp only [FileAudit.validate, bind_ok, refuse_ok, pure_ok] at checked
  obtain ⟨_, required, signingKey, checkedKey, _, -, _, -, rfl⟩ := checked
  constructor
  · rintro key rfl
    obtain ⟨raw, -, accepted⟩ := optional_some checkedKey
    exact validateCourierKey_ok accepted
  · intro served
    cases found : signingKey with
    | some key => rfl
    | none =>
      subst found
      have missing := optional_none checkedKey
      exact absurd ⟨by simp [missing], served⟩ required

/-! ### Locations -/

/-- What ACME names at a place is listed with it. -/
theorem ACME.mem_named {a : ACME} (named : a.keyAt place = some key) :
    ⟨place, key⟩ ∈ a.named := by
  cases place with
  | accountKey => simp_all [ACME.keyAt, ACME.named]
  | bindingKey =>
    obtain ⟨binding, there, rfl⟩ := map_eq_some_iff.mp named
    simp [ACME.named, there]
  | dnsCredential field =>
    obtain ⟨dns, there, credential⟩ := bind_eq_some_iff.mp named
    have listed : (⟨field, key⟩ : Sigma fun _ : Bytes => CourierKey) ∈
        inOrder byName dns.credentials :=
      mem_inOrder.mpr credential
    simp only [ACME.named, there, List.mem_cons, List.mem_append, map_some, getD_some, List.mem_map]
    exact Or.inr (Or.inr ⟨_, listed, rfl⟩)
  | _ => exact absurd named (by simp [ACME.keyAt])

/-- The same of the Agent API's TLS. -/
theorem AgentTLS.mem_named {t : AgentTLS} (named : t.keyAt place = some key) :
    ⟨place, key⟩ ∈ t.named := by
  have automatic : ∀ place, t.acme.bind (fun a => a.keyAt place) = some key →
      ⟨place, key⟩ ∈ t.named := by
    intro place named
    obtain ⟨a, there, named⟩ := bind_eq_some_iff.mp named
    simp [AgentTLS.named, there, ACME.mem_named named]
  cases place with
  | agentCertificate | agentKey => simp_all [AgentTLS.keyAt, AgentTLS.named]
  | _ => exact automatic _ named

/-- Two keys with locations of their own. -/
def NamedCourierKey.Apart (a b : NamedCourierKey) : Prop := a.key ≠ b.key

instance : Std.Symm NamedCourierKey.Apart := ⟨fun _ _ apart => Ne.symm apart⟩

/-- What the nested loop has passed is pairwise apart. -/
theorem distinct_ok {rest passed : List NamedCourierKey} {done : Unit}
    (checked : distinct host passed rest = .ok done)
    (before : passed.Pairwise NamedCourierKey.Apart) :
    (passed ++ rest).Pairwise NamedCourierKey.Apart := by
  induction rest generalizing passed with
  | nil => simpa using before
  | cons k rest ih =>
    simp only [distinct, bind_ok, forM_ok, refuse_ok] at checked
    obtain ⟨_, apart, others⟩ := checked
    have longer : (passed ++ [k]).Pairwise NamedCourierKey.Apart := by
      refine List.pairwise_append.mpr ⟨before, List.pairwise_singleton _ k, ?_⟩
      intro other member new last
      rw [List.mem_singleton.mp last]
      exact Ne.symm (apart other member)
    simpa using ih others longer

end TrustedCourier.Config
