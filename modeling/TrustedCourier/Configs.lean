import Mathlib.Data.List.AList
import TrustedCourier.Templates

/-!
# Config snapshots

The records a validated config is made of, field by field as the source declares them.
A Go map from names is an association list with distinct names. Its order stands for
the order in which one iteration happens to visit it, so whatever is said about all
such lists is said about every order. A pointer that may be nil is an option, and so is
a slice whose being nil means something else than its being empty.

A certificate pool is the list of the certificates added to it. Durations are in
nanoseconds.
-/

namespace TrustedCourier

namespace Config

/-- A Go map from names. -/
abbrev NameMap (α : Type) := AList fun _ : Bytes => α

/-- An `x509.CertPool`: the certificates added to it. -/
structure CertPool where
  certs : List Bytes
deriving DecidableEq

/-- `CertPool.Equal`, on pointers: the same certificates, in whatever order. -/
def CertPool.equal : Option CertPool → Option CertPool → Bool
  | none, none => true
  | some a, some b => a.certs.all b.certs.contains && b.certs.all a.certs.contains
  | _, _ => false

/-- Equal pools have the same certificates. -/
theorem CertPool.equal_iff (a b : Option CertPool) : CertPool.equal a b = true ↔
    a.isSome = b.isSome ∧ ∀ x ∈ a, ∀ y ∈ b, ∀ cert, cert ∈ x.certs ↔ cert ∈ y.certs := by
  cases a with
  | none => cases b <;> simp [CertPool.equal]
  | some x =>
    cases b with
    | none => simp [CertPool.equal]
    | some y =>
      simp only [CertPool.equal, Bool.and_eq_true, List.all_eq_true, List.contains_iff_mem,
        Option.isSome_some, Option.mem_some_iff, forall_eq', true_and]
      exact ⟨fun both cert => ⟨both.1 cert, both.2 cert⟩,
        fun each => ⟨fun c => (each c).mp, fun c => (each c).mpr⟩⟩

theorem CertPool.equal_refl (a : Option CertPool) : CertPool.equal a a = true := by
  cases a <;> simp [CertPool.equal]

theorem CertPool.equal_symm {a b : Option CertPool} (same : CertPool.equal a b = true) :
    CertPool.equal b a = true := by
  cases a <;> cases b <;> simp_all [CertPool.equal]

theorem CertPool.equal_trans {a b c : Option CertPool} (first : CertPool.equal a b = true)
    (second : CertPool.equal b c = true) : CertPool.equal a c = true := by
  cases a <;> cases b <;> cases c <;> simp_all [CertPool.equal]

/-- Where a Courier Key lives in a Backend. -/
structure CourierKey where
  backend : Bytes
  location : Bytes
deriving DecidableEq

/-! ## What a reload cannot change -/

/-- The account at the CA's owner that an ACME account is bound to. -/
structure ExternalAccountBinding where
  keyID : Bytes
  hmacKey : CourierKey
deriving DecidableEq

/-- The DNS provider that DNS-01 validation sets records with. -/
structure DNS where
  provider : Bytes
  credentials : NameMap CourierKey
  zone : Bytes
  endpoint : Bytes
  authority : Bytes
  caBundle : Bytes
  rootCAs : Option CertPool
  resolvers : List Bytes
  propagationTimeout : Int
  tenantID : Bytes
  clientID : Bytes
  subscriptionID : Bytes
  resourceGroup : Bytes
  project : Bytes

/-- Automatic certificates for the Agent API. -/
structure ACME where
  directory : Bytes
  domains : List Bytes
  contact : Bytes
  challenge : Bytes
  httpListen : Bytes
  dns : Option DNS
  caBundle : Bytes
  rootCAs : Option CertPool
  accountKey : CourierKey
  eab : Option ExternalAccountBinding

/-- The TLS settings of the Agent listener. -/
structure AgentTLS where
  certificate : CourierKey
  key : CourierKey
  acme : Option ACME

/-- The Agent API listener: a TCP address or a unix socket. -/
structure AgentAPI where
  listen : Bytes
  socket : Bytes
  publicURL : Bytes
  tls : Option AgentTLS

/-- Whether an Agent API is served at all. -/
def AgentAPI.served (a : AgentAPI) : Bool := a.listen ≠ [] || a.socket ≠ []

/-- The TLS settings of the Admin listener. -/
structure AdminTLS where
  certificate : CourierKey
  key : CourierKey
  clientCA : Bytes
  clientCAs : CertPool

/-- The admin API. -/
structure Admin where
  socket : Bytes
  allowedUIDs : List Int
  listen : Bytes
  tls : Option AdminTLS

/-- A Backend Plugin binary the Operator approved. -/
structure BackendPlugin where
  name : Bytes
  path : Bytes
  sha256 : Bytes
  user : Bytes
  insecureShareCoreUser : Bool
  env : List Bytes
deriving DecidableEq

/-- The audit chain's signed checkpoints. -/
structure Audit where
  signingKey : Option CourierKey
  checkpointRecords : Int
  checkpointInterval : Int
deriving DecidableEq

/-! ## What a reload may change -/

/-- One Upstream a Secret Name is pinned to. -/
structure Upstream where
  name : Bytes
  scheme : Bytes
  host : Bytes
  basePath : Bytes
  rootCAs : Option CertPool
deriving DecidableEq

/-- What an environment variable holds. -/
inductive EnvSource where
  | baseURL
  | username
  | password
  | agentToken
deriving DecidableEq

/-- A variable that a Preset sets for the Agent. -/
structure EnvVar where
  name : Bytes
  source : EnvSource
deriving DecidableEq

/-- A Secret Name and where its Secret lives. A template is there exactly when there is
an Upstream to deliver to. -/
structure SecretName where
  name : Bytes
  backend : Bytes
  location : Bytes
  cacheTTL : Int
  injectionTemplate : Option InjectionTemplate
  upstreams : NameMap Upstream
  preset : Bytes
  env : List EnvVar
  pinned : injectionTemplate.isSome ↔ upstreams.entries ≠ []

/-- How a Secret reaches an Agent. -/
inductive DeliveryMode where
  | proxy
  | reveal
deriving DecidableEq

def DeliveryMode.text : DeliveryMode → Bytes
  | .proxy => bytes "proxy"
  | .reveal => bytes "reveal"

/-- One Secret Name a Policy allows, in the listed modes. No list of methods or of paths
is no limit. -/
structure SecretAccess where
  secretName : Bytes
  delivery : List DeliveryMode
  methods : Option (List Bytes)
  paths : Option (List PathPrefix)
deriving DecidableEq

/-- What the Agents under a Policy may reach. -/
structure Policy where
  name : Bytes
  secrets : List SecretAccess
deriving DecidableEq

end Config

open Config

/-- A config snapshot. -/
structure Config where
  path : Bytes
  dataDir : Bytes
  admin : Admin
  agentAPI : AgentAPI
  policies : NameMap Policy
  backendPlugins : NameMap BackendPlugin
  secrets : NameMap SecretName
  audit : Audit

/-- The entries of a Policy. One that the config does not have has none. -/
def Config.entriesOf (cfg : Config) (policy : Bytes) : List SecretAccess :=
  ((cfg.policies.lookup policy).map Policy.secrets).getD []

/-- A snapshot in which nothing is configured. -/
def Config.empty : Config where
  path := bytes "/etc/trustedcourier/config.yaml"
  dataDir := bytes "/var/lib/trustedcourier"
  admin :=
    { socket := bytes "/run/trustedcourier/admin.sock", allowedUIDs := [0], listen := [],
      tls := none }
  agentAPI := { listen := [], socket := [], publicURL := [], tls := none }
  policies := ∅
  backendPlugins := ∅
  secrets := ∅
  audit := { signingKey := none, checkpointRecords := 1000, checkpointInterval := 60000000000 }

theorem key_named : queryNamePattern (bytes "key") = true := by decide

/-- A Secret Name whose Secret goes to one Upstream as a parameter. -/
def github : SecretName where
  name := bytes "github"
  backend := bytes "vault"
  location := bytes "kv/github"
  cacheTTL := 60000000000
  injectionTemplate := some (.query { name := bytes "key", named := key_named })
  upstreams := AList.singleton (bytes "api")
    { name := bytes "api", scheme := bytes "https", host := bytes "api.github.com", basePath := [],
      rootCAs := none }
  preset := []
  env := []
  pinned := by simp

end TrustedCourier
