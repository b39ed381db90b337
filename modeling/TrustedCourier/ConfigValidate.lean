import TrustedCourier.CourierKeys
import TrustedCourier.Decimal

/-!
# Validating a config

`fileConfig.validate` puts the checks of the parts together, each over what the ones
before it have built, and `Load` makes a snapshot of a file's contents with it. What is
accepted is fit for Delivery: whatever an Agent may ask for is defined and has somewhere
to go, and no Courier Key can be asked for.
-/

namespace TrustedCourier.Config

open Checks FilePaths Option

/-- The config file as it is written. -/
structure FileConfig where
  dataDir : Bytes
  admin : FileAdmin
  agentAPI : FileAgentAPI
  policies : NameMap FilePolicy
  backendPlugins : NameMap FileBackendPlugin
  secrets : NameMap FileSecretName
  audit : FileAudit

section Validate

variable (host : Host)

/-- Every entry of every Policy is defined, and has somewhere to go if it says so. -/
def validateEntries (policies : NameMap Policy) (secrets : NameMap SecretName) :
    Except String Unit :=
  (inOrder byName policies).forM fun policy => policy.2.secrets.forM fun a => do
    let s ← need (secrets.lookup a.secretName)
      ("Policy " ++ host.quote policy.1 ++ " names Secret Name " ++ host.quote a.secretName ++
        ", which is not defined under secrets")
    refuse (a.delivery.contains .proxy = true ∧ s.upstreams.entries.length = 0)
      ("Policy " ++ host.quote policy.1 ++ " allows Proxy Delivery of Secret Name " ++
        host.quote a.secretName ++ ", which has no upstreams")

/-- `fileConfig.validate`. -/
def FileConfig.validate (raw : FileConfig) (baseDir : Bytes) : Except String Config := do
  refuse (raw.dataDir = []) "data_dir is required"
  refuse (raw.admin.allowedUIDs = some [])
    "admin.allowed_uids is empty, so no local user could administer TrustedCourier; omit it to allow only the server's own user"
  let policies ← checkAll byName (FilePolicy.validate host) raw.policies
  let backendPlugins ← checkAll byName (FileBackendPlugin.validate host baseDir) raw.backendPlugins
  let secrets ← checkAll byName (FileSecretName.validate host baseDir backendPlugins) raw.secrets
  validateEntries host policies secrets
  let cfg : Config := {
    path := []
    dataDir := resolve baseDir raw.dataDir
    admin := {
      socket := if raw.admin.socket = [] then defaultAdminSocket
        else resolve baseDir raw.admin.socket
      allowedUIDs := raw.admin.allowedUIDs.getD [host.getuid]
      listen := []
      tls := none }
    agentAPI := { listen := [], socket := [], publicURL := [], tls := none }
    policies, backendPlugins, secrets
    audit := { signingKey := none, checkpointRecords := 0, checkpointInterval := 0 } }
  let admin ← raw.admin.validateListener host cfg baseDir
  let cfg := { cfg with admin }
  let agentAPI ← raw.agentAPI.validate host cfg baseDir
  let cfg := { cfg with agentAPI }
  let audit ← raw.audit.validate host cfg
  let cfg := { cfg with audit }
  validateCourierKeyLocations host cfg
  return cfg

/-- What reading and decoding the config file comes to. An empty file is a document that
sets nothing. -/
inductive File where
  | unreadable (message : String)
  | malformed (message : String)
  | severalDocuments
  | document (raw : FileConfig)

/-- `Load`, with what the file holds. -/
def load (file : File) (path : Bytes) : Except String Config :=
  match file with
  | .unreadable message => .error message
  | .malformed message => .error (host.text path ++ ": " ++ message)
  | .severalDocuments => .error (host.text path ++ ": config must be a single YAML document")
  | .document raw => do
    let baseDir ← abs host.getwd (dir path)
    let cfg ← (raw.validate host baseDir).mapError fun e => host.text path ++ ": " ++ e
    let absolute ← abs host.getwd path
    return { cfg with path := absolute }

end Validate

/-! ## What is accepted -/

/-- Which of the three fields of a checked template are set. -/
def InjectionTemplate.kinds (t : InjectionTemplate) : List Bool :=
  [t matches .header _, t matches .query _, t matches .basicAuth _]

/-- Which of the three fields are set in the file. -/
def FileInjectionTemplate.kinds (t : FileInjectionTemplate) : List Bool :=
  [t.header.isSome, t.query.isSome, t.basicAuth.isSome]

/-- A config that Delivery can rely on. -/
structure WellFormed (cfg : Config) : Prop where
  /-- A Courier Key is in a configured Backend, where no Secret Name reaches it. -/
  guarded : ∀ place key, keyAt cfg place = some key → Guarded cfg.backendPlugins cfg.secrets key
  /-- A location is named once, or by the two halves of a pair that is shared whole. -/
  apart : ∀ place other key, keyAt cfg place = some key → keyAt cfg other = some key →
    place = other ∨ (sharesAgentCertificate cfg = true ∧ other = place.twin)
  backed : ∀ name s, cfg.secrets.lookup name = some s → s.backend ∈ cfg.backendPlugins
  pinned : ∀ name s, cfg.secrets.lookup name = some s →
    (s.upstreams.entries ≠ [] ↔ s.injectionTemplate.isSome)
  oneKind : ∀ name s t, cfg.secrets.lookup name = some s → s.injectionTemplate = some t →
    t.kinds.count true = 1
  listed : ∀ name policy, cfg.policies.lookup name = some policy → policy.Listed
  defined : ∀ name policy a, cfg.policies.lookup name = some policy → a ∈ policy.secrets →
    ∃ s, cfg.secrets.lookup a.secretName = some s ∧
      (DeliveryMode.proxy ∈ a.delivery → s.upstreams.entries ≠ [])
  audited : cfg.agentAPI.served = true → cfg.audit.signingKey.isSome = true

theorem InjectionTemplate.kinds_count (t : InjectionTemplate) : t.kinds.count true = 1 := by
  cases t <;> rfl

/-- What is checked has the kind that the file sets, and the file sets one. -/
theorem FileInjectionTemplate.validate_kinds {raw : FileInjectionTemplate} {t : InjectionTemplate}
    (checked : raw.validate = .ok t) : raw.kinds = t.kinds := by
  unfold FileInjectionTemplate.validate at checked
  split at checked
  · simp at checked
  · next h header query basicAuth =>
    cases valid : h.validate <;> simp_all [Except.map, FileInjectionTemplate.kinds]
    subst checked
    rfl
  · next q header query basicAuth =>
    cases valid : q.validate <;> simp_all [Except.map, FileInjectionTemplate.kinds]
    subst checked
    rfl
  · next b header query basicAuth =>
    cases valid : b.validate <;> simp_all [Except.map, FileInjectionTemplate.kinds]
    subst checked
    rfl
  · simp at checked

variable {host : Host} {raw : FileConfig} {baseDir : Bytes} {cfg : Config}

/-- A template of the file is accepted only without a Preset, and then it is the one of
the Secret Name. -/
theorem FileSecretName.validate_template {name : Bytes} {plugins : NameMap BackendPlugin}
    {entry : FileSecretName} {s : SecretName} {own : FileInjectionTemplate}
    (checked : entry.validate host baseDir plugins name = .ok s)
    (given : entry.injectionTemplate = some own) :
    ∃ t, own.validate = .ok t ∧ s.injectionTemplate = some t := by
  simp only [FileSecretName.validate, bind_ok, pure_ok] at checked
  obtain ⟨_, -, _, -, _, -, _, -, _, -, _, -, pinning, pins, rfl⟩ := checked
  unfold FileSecretName.validatePinning at pins
  simp only [given] at pins
  split at pins
  · simp only [bind_ok, refuse_ok, isSome_some, not_true_eq_false, false_and, and_false,
      exists_false] at pins
  · split at pins
    · simp at pins
    · simp only [bind_ok, mapError_ok, pure_ok, checkTemplate] at pins
      obtain ⟨t, valid, _, -, rfl⟩ := pins
      exact ⟨t, valid, rfl⟩

/-- A config's keys are those of its three parts. -/
theorem guarded_parts
    (agent : ∀ tls place key, cfg.agentAPI.tls = some tls → tls.keyAt place = some key →
      Guarded cfg.backendPlugins cfg.secrets key)
    (admin : ∀ tls place key, cfg.admin.tls = some tls → tls.keyAt place = some key →
      Guarded cfg.backendPlugins cfg.secrets key)
    (signing : ∀ key, cfg.audit.signingKey = some key → Guarded cfg.backendPlugins cfg.secrets key)
    {place : KeyPlace} {key : CourierKey} (named : keyAt cfg place = some key) :
    Guarded cfg.backendPlugins cfg.secrets key := by
  unfold keyAt at named
  split at named
  · exact signing key named
  all_goals obtain ⟨tls, there, named⟩ := bind_eq_some_iff.mp named
  · exact admin tls _ key there named
  · exact admin tls _ key there named
  · exact agent tls _ key there named

theorem validateEntries_ok {policies : NameMap Policy} {secrets : NameMap SecretName} {done : Unit}
    (checked : validateEntries host policies secrets = .ok done) {name : Bytes} {policy : Policy}
    {a : SecretAccess} (listed : policies.lookup name = some policy) (member : a ∈ policy.secrets) :
    ∃ s, secrets.lookup a.secretName = some s ∧
      (DeliveryMode.proxy ∈ a.delivery → s.upstreams.entries ≠ []) := by
  simp only [validateEntries, forM_ok, bind_ok, need_ok, refuse_ok] at checked
  obtain ⟨s, defined, reachable⟩ := checked ⟨name, policy⟩ (mem_inOrder.mpr listed) a member
  refine ⟨s, defined, ?_⟩
  intro proxied none
  exact reachable ⟨List.contains_iff_mem.mpr proxied, List.length_eq_zero_iff.mpr none⟩

/-! ## Locations -/

/-- A key stands among those that need a location of their own, or is a half of a shared
pair, whose other place stands there. -/
theorem mem_namedCourierKeys {place : KeyPlace} {key : CourierKey}
    (named : keyAt cfg place = some key) :
    ⟨place, key⟩ ∈ namedCourierKeys cfg ∨ (sharesAgentCertificate cfg = true ∧
      (place = .adminCertificate ∨ place = .adminKey) ∧
      ⟨place.twin, key⟩ ∈ namedCourierKeys cfg) := by
  have agent : ∀ place, cfg.agentAPI.tls.bind (fun t => t.keyAt place) = some key →
      ⟨place, key⟩ ∈ namedCourierKeys cfg := by
    intro place named
    obtain ⟨tls, there, named⟩ := bind_eq_some_iff.mp named
    simp [namedCourierKeys, there, AgentTLS.mem_named named]
  have admin : ∀ tls, cfg.admin.tls = some tls → tls.keyAt place = some key →
      ⟨place, key⟩ ∈ namedCourierKeys cfg ∨ (sharesAgentCertificate cfg = true ∧
        (place = .adminCertificate ∨ place = .adminKey) ∧
        ⟨place.twin, key⟩ ∈ namedCourierKeys cfg) := by
    intro tls there named
    cases shared : sharesAgentCertificate cfg with
    | false =>
      left
      have listed : (⟨place, key⟩ : NamedCourierKey) ∈ tls.named := by
        cases place <;> simp_all [AdminTLS.keyAt, AdminTLS.named]
      simp [namedCourierKeys, there, shared, listed]
    | true =>
      right
      unfold sharesAgentCertificate at shared
      simp only [there] at shared
      split at shared
      · next own other first second =>
        cases first
        simp only [Bool.and_eq_true, beq_iff_eq] at shared
        cases place <;> simp_all [AdminTLS.keyAt, KeyPlace.twin, namedCourierKeys, AgentTLS.named]
      · simp at shared
  cases place with
  | signingKey =>
    have there : cfg.audit.signingKey = some key := named
    exact Or.inl (by simp [namedCourierKeys, there])
  | adminCertificate | adminKey =>
    obtain ⟨tls, there, named⟩ := bind_eq_some_iff.mp named
    exact admin tls there named
  | _ => exact Or.inl (agent _ named)

/-- Distinct locations, except for the halves of a shared pair. -/
theorem validateCourierKeyLocations_ok {done : Unit}
    (checked : validateCourierKeyLocations host cfg = .ok done) {place other : KeyPlace}
    {key : CourierKey} (here : keyAt cfg place = some key) (there : keyAt cfg other = some key) :
    place = other ∨ (sharesAgentCertificate cfg = true ∧ other = place.twin) := by
  simp only [validateCourierKeyLocations, bind_ok] at checked
  obtain ⟨_, -, passed⟩ := checked
  have pairwise : (namedCourierKeys cfg).Pairwise NamedCourierKey.Apart := by
    simpa using distinct_ok passed List.Pairwise.nil
  have single : ∀ p q, ⟨p, key⟩ ∈ namedCourierKeys cfg → ⟨q, key⟩ ∈ namedCourierKeys cfg →
      p = q := by
    intro p q first second
    by_contra different
    have unequal : (⟨p, key⟩ : NamedCourierKey) ≠ ⟨q, key⟩ :=
      fun same => different (NamedCourierKey.mk.inj same).1
    exact pairwise.forall first second unequal rfl
  rcases mem_namedCourierKeys here with first | ⟨shared, admin, first⟩
  · rcases mem_namedCourierKeys there with second | ⟨shared, admin, second⟩
    · exact Or.inl (single place other first second)
    · right
      rw [single place other.twin first second]
      rcases admin with rfl | rfl
      · exact ⟨shared, rfl⟩
      · exact ⟨shared, rfl⟩
  · rcases mem_namedCourierKeys there with second | ⟨_, admin', second⟩
    · exact Or.inr ⟨shared, (single place.twin other first second).symm⟩
    · left
      have same := single place.twin other.twin first second
      rcases admin with rfl | rfl <;> rcases admin' with rfl | rfl <;> simp_all [KeyPlace.twin]

/-- Every config that `fileConfig.validate` accepts can be relied on: each part was
checked against the Backend Plugins and Secret Names that the config has, and the
locations of all Courier Keys against each other at the end. A template that the file
spells out sets exactly one kind. -/
theorem accepted_config (host : Host) (raw : FileConfig) (baseDir : Bytes) (cfg : Config)
    (accepted : raw.validate host baseDir = .ok cfg) :
    WellFormed cfg ∧ ∀ name entry own, raw.secrets.lookup name = some entry →
      entry.injectionTemplate = some own →
      own.kinds.count true = 1 := by
  simp only [FileConfig.validate, bind_ok, pure_ok] at accepted
  obtain ⟨_, -, _, -, policies, checkedPolicies, plugins, -, secrets, checkedSecrets, _, entries,
    admin, checkedAdmin, agentAPI, checkedAgent, audit, checkedAudit, _, locations, rfl⟩ := accepted
  have signing := FileAudit.validate_ok checkedAudit
  constructor
  · refine ⟨?_, ?_, ?_, ?_, ?_, ?_, ?_, signing.2⟩
    · intro place key named
      refine guarded_parts ?_ ?_ signing.1 named
      · intro tls place key there named
        exact FileAgentAPI.validate_ok checkedAgent there named
      · intro tls place key there named
        have guarded := FileAdmin.validateListener_ok checkedAdmin rfl there named
        exact guarded
    · intro place other key here there
      exact validateCourierKeyLocations_ok locations here there
    · intro name s found
      obtain ⟨entry, -, checked⟩ := checkAll_lookup checkedSecrets found
      exact FileSecretName.validate_ok checked
    · intro name s _
      exact s.pinned.symm
    · intro name s t _ _
      exact t.kinds_count
    · intro name policy found
      obtain ⟨entry, -, checked⟩ := checkAll_lookup checkedPolicies found
      exact FilePolicy.validate_ok checked
    · intro name policy a listed member
      exact validateEntries_ok entries listed member
  · intro name entry own listed given
    have collected : name ∈ secrets :=
      checkAll_mem checkedSecrets (AList.lookup_isSome.mp (by simp [listed]))
    obtain ⟨s, found⟩ := isSome_iff_exists.mp (AList.lookup_isSome.mpr collected)
    obtain ⟨same, listed', checked⟩ := checkAll_lookup checkedSecrets found
    cases listed.symm.trans listed'
    obtain ⟨t, valid, -⟩ := FileSecretName.validate_template checked given
    rw [FileInjectionTemplate.validate_kinds valid]
    exact t.kinds_count

/-! ## A config that names every Courier Key

An Agent API with automatic certificates, whose pair the remote admin listener shares. -/

/-- An IPv4 address and port, as `netip.ParseAddrPort` reads them. -/
def parseDottedPort (text : Bytes) : Option AddrPort :=
  let parts := (text.takeWhile (· ≠ 0x3A)).splitOn 0x2E
  let port := (text.dropWhile (· ≠ 0x3A)).drop 1
  let numbers := parts.map Decimal.value
  if numbers.map Decimal.digits = parts ∧ numbers.length = 4 ∧ numbers.all (· < 256) ∧
      port ≠ [] ∧ port.all Decimal.isDigit ∧ Decimal.value port < 65536 then
    some { addr := { six := false, bits := numbers.foldl (256 * · + ·) 0, zone := [] },
           port := Decimal.value port }
  else none

/-- A host whose addresses are IPv4 ones, whose URLs are https ones without a path, and every
file of which is a certificate. -/
def plainHost : Host where
  quote := fun _ => ""
  text := fun _ => ""
  toLower := id
  toUpper := id
  parseAddr := fun _ => none
  parseAddrPort := parseDottedPort
  addrPortString := fun _ => []
  parseIP := fun _ => false
  parseURL := fun text => .ok
    { scheme := bytes "https", opaquePart := [], user := none, host := text.drop 8,
      hostname := text.drop 8, port := [],
      path := [], rawPath := [], escapedPath := [], rawQuery := [], forceQuery := false, fragment :=
        [], string := text }
  parseDuration := fun _ => some second
  atoi := fun _ => none
  getuid := 0
  getwd := .ok (bytes "/")
  rooted := by
    intro wd here
    cases here
    rfl
  readFile := fun path => .ok path
  certificates := fun data => [data]
  presetsYAML := .ok ∅

/-- A key in the one Backend of the sample. -/
def keyOf (location : String) : Option FileCourierKey :=
  some { backend := bytes "vault", location := bytes location }

def sampleFile : FileConfig where
  dataDir := bytes "data"
  admin := {
    socket := []
    allowedUIDs := none
    listen := bytes "127.0.0.1:8300"
    tls := some { certificate := keyOf "tls#certificate", key := keyOf "tls#key",
                  clientCA := bytes "ca.pem" } }
  agentAPI := {
    listen := bytes "0.0.0.0:443"
    socket := []
    publicURL := []
    tls := some {
      certificate := keyOf "tls#certificate"
      key := keyOf "tls#key"
      acme := some {
        directory := []
        domains := [bytes "agents.example.com"]
        contact := []
        challenge := bytes "dns-01"
        httpListen := []
        dns := some {
          provider := bytes "cloudflare"
          credentials := AList.singleton (bytes "api_token") (keyOf "dns#token")
          zone := [], endpoint := [], authority := [], caBundle := [],
          resolvers := [], propagationTimeout := []
          tenantID := [], clientID := [], subscriptionID := [], resourceGroup := [], project := [] }
        caBundle := []
        accountKey := keyOf "acme#account"
        eab := some { keyID := bytes "kid", hmacKey := keyOf "acme#eab" } } } }
  policies := AList.singleton (bytes "ci")
    { secrets :=
        [{ name := bytes "github", delivery := [bytes "proxy"], methods := .value [bytes "GET"],
           paths := .omitted }] }
  backendPlugins := AList.singleton (bytes "vault")
    { path := bytes "vault", sha256 := List.replicate 64 0x61,
      user := bytes "vault", insecureShareCoreUser := false, env := ∅ }
  secrets := AList.singleton (bytes "github")
    { backend := bytes "vault", location := bytes "github#token", cacheTTL := [], preset := []
      injectionTemplate :=
        some { header := none, query := some { name := bytes "key" }, basicAuth := none }
      upstreams := AList.singleton (bytes "api")
        { url := bytes "https://api.github.com", caBundle := [] } }
  audit := { signingKey := keyOf "audit#key", records := .omitted, interval := [] }

/-- A file that shares the Agent's certificate. -/
theorem accepted_config_shared : ∃ cfg, sampleFile.validate plainHost
    (bytes "/etc/trustedcourier") = .ok cfg ∧
    WellFormed cfg ∧ sharesAgentCertificate cfg = true ∧
      [.agentCertificate, .agentKey, .accountKey, .bindingKey, .dnsCredential (bytes "api_token"),
        .signingKey].map
        (fun place => (keyAt cfg place).map CourierKey.location) =
        ["tls#certificate", "tls#key", "acme#account", "acme#eab", "dns#token", "audit#key"].map
          fun l => some (bytes l) := by
  have run : (sampleFile.validate plainHost (bytes "/etc/trustedcourier")).toOption.map (fun cfg =>
      (sharesAgentCertificate cfg,
        [.agentCertificate, .agentKey, .accountKey, .bindingKey, .dnsCredential (bytes "api_token"),
          .signingKey].map
          (fun place => (keyAt cfg place).map CourierKey.location))) =
      some (true, ["tls#certificate", "tls#key", "acme#account", "acme#eab", "dns#token",
        "audit#key"].map
        fun l => some (bytes l)) := by decide +kernel
  obtain ⟨cfg, found, seen⟩ := map_eq_some_iff.mp run
  have accepted := toOption_some.mp found
  obtain ⟨shared, located⟩ := Prod.mk.inj seen
  exact ⟨cfg, accepted, (accepted_config plainHost sampleFile _ cfg accepted).1, shared, located⟩

end TrustedCourier.Config
