import TrustedCourier.Configs
import TrustedCourier.FilePaths
import TrustedCourier.PluginContract

/-!
# The config file: Policies, Backend Plugins and Secret Names

What the config file says, as it is decoded, and the checks that make a snapshot of it.
The checks are made one after another in the order of the source, so the first complaint
is the one that is reported. Every check over a map goes by the order of its names.

What validation takes from outside the package is a parameter: the parsers of addresses,
URLs and durations, letter case, the quoting of texts, and what is in the files that the
config names.
-/

namespace TrustedCourier.Config

open Checks FilePaths List

/-! ## What validation takes from outside -/

/-- A `netip.Addr`. -/
structure Addr where
  six : Bool
  bits : Nat
  zone : Bytes
deriving DecidableEq

/-- An IPv6 address that stands for one of IPv4. -/
def Addr.is4In6 (a : Addr) : Bool := a.six && a.bits / 0x100000000 == 0xFFFF

/-- An IPv4 address mapped into IPv6, as the IPv4 address it is. -/
def Addr.unmap (a : Addr) : Addr :=
  if a.is4In6 then { six := false, bits := a.bits % 0x100000000, zone := [] } else a

/-- `127.0.0.0/8` or `::1`. -/
def Addr.isLoopback (a : Addr) : Bool :=
  if a.unmap.six then a.unmap.bits == 1 else a.unmap.bits / 0x1000000 == 127

def Addr.isUnspecified (a : Addr) : Bool := a.bits == 0 && a.zone == []

def Addr.isMulticast (a : Addr) : Bool :=
  if a.unmap.six then a.unmap.bits / 0x1000000000000000000000000000000 == 0xFF
  else a.unmap.bits / 0x10000000 == 0xE

/-- A `netip.AddrPort`. -/
structure AddrPort where
  addr : Addr
  port : Nat

/-- A parsed `url.URL`, with what its methods give. -/
structure URL where
  scheme : Bytes
  opaquePart : Bytes
  user : Option Bytes
  host : Bytes
  hostname : Bytes
  port : Bytes
  path : Bytes
  rawPath : Bytes
  escapedPath : Bytes
  rawQuery : Bytes
  forceQuery : Bool
  fragment : Bytes
  string : Bytes

/-- A value that is kept as a node, so that a key without a value is told apart from an
omitted one. -/
inductive Node (α : Type) where
  | omitted
  | null
  | undecodable (message : String)
  | value (decoded : α)

/-- An Upstream as the file writes it. -/
structure FileUpstream where
  url : Bytes
  caBundle : Bytes

/-- A Preset as the file writes it. -/
structure FilePreset where
  injectionTemplate : Option FileInjectionTemplate
  upstreams : NameMap FileUpstream
  env : NameMap Bytes

/-- What validation takes from the standard library and from the host. A working
directory is always a rooted path. -/
structure Host where
  quote : Bytes → String
  text : Bytes → String
  toLower : Bytes → Bytes
  toUpper : Bytes → Bytes
  parseAddr : Bytes → Option Addr
  parseAddrPort : Bytes → Option AddrPort
  addrPortString : AddrPort → Bytes
  parseIP : Bytes → Bool
  parseURL : Bytes → Except String URL
  parseDuration : Bytes → Option Int
  atoi : Bytes → Option Int
  getuid : Int
  getwd : Except String Bytes
  rooted : ∀ wd, getwd = .ok wd → isAbs wd = true
  readFile : Bytes → Except String Bytes
  certificates : Bytes → List Bytes
  presetsYAML : Except String (NameMap FilePreset)

variable (host : Host)

/-- `LoadCABundle`. -/
def loadCABundle (path : Bytes) : Except String CertPool := do
  let data ← host.readFile path
  refuse (host.certificates data = []) (host.text path ++ " holds no certificates")
  return { certs := host.certificates data }

/-- `resolve`: a path of the config file, from the file's directory. -/
def resolve (baseDir path : Bytes) : Bytes := if isAbs path then path else join baseDir path

/-- A CA bundle that may be set: its path, and what it holds. -/
def validateBundle (configKey : String) (baseDir path : Bytes) :
    Except String (Bytes × Option CertPool) :=
  if path = [] then .ok ([], none) else do
    let pool ← (loadCABundle host (resolve baseDir path)).mapError fun e => configKey ++ ": " ++ e
    return (resolve baseDir path, some pool)

/-- The order in which maps are checked. -/
abbrev byName (a b : Bytes) : Prop := a ≤ b

/-- `slices.Sorted(maps.Keys(m))`. -/
def sortedNames {α : Type} (m : NameMap α) : List Bytes := (inOrder byName m).map Sigma.fst

/-- Names in an error, separated by commas. -/
def joined (names : List Bytes) : String := ", ".intercalate (names.map host.text)

def nameByte (c : UInt8) : Bool := (0x41 ≤ c && c ≤ 0x5A) || (0x61 ≤ c && c ≤ 0x7A) ||
    (0x30 ≤ c && c ≤ 0x39)

/-- `namePattern`. -/
def namePattern (s : Bytes) : Bool :=
  s ≠ [] && s.length ≤ 64 && (s.take 1).all nameByte &&
    s.all fun c => nameByte c || c == 0x2E || c == 0x5F || c == 0x2D

/-- How names are to be spelled. -/
def nameRule : String :=
  ": use up to 64 letters, digits, '.', '_' or '-', starting with a letter or digit"

/-! ## Policies -/

/-- The methods a Policy may limit Proxy Delivery to. -/
def proxyMethods : List Bytes :=
  ["GET", "HEAD", "POST", "PUT", "PATCH", "DELETE", "OPTIONS"].map bytes

/-- One Secret of a Policy, as written. -/
structure FileSecretAccess where
  name : Bytes
  delivery : List Bytes
  methods : Node (List Bytes)
  paths : Node (List Bytes)

/-- A Policy as the file writes it. -/
structure FilePolicy where
  secrets : List FileSecretAccess

/-- `limitList`: the list under a key, if the key is there. -/
def limitList (n : Node (List Bytes)) (key item : String) : Except String (Option (List Bytes)) :=
  match n with
  | .omitted => .ok none
  | .undecodable message => .error (key ++ " must be a list: " ++ message)
  | .null | .value [] => .error (key ++ " is empty; omit it to allow any " ++ item)
  | .value list => .ok (some list)

/-- A list with one more element, unless it is there. -/
def addOnce {α : Type} [BEq α] (l : List α) (a : α) : List α := if l.contains a then l else l ++ [a]

/-- Check the elements of a list, and collect what comes of them, each once. -/
def collectOnce {α β : Type} [BEq β] (check : α → Except String β) (l : List α) :
    Except String (List β) :=
  l.foldlM (fun done a => do return addOnce done (← check a)) []

/-- The method in upper case, if the proxy forwards it. -/
def validateMethod (m : Bytes) : Except String Bytes := do
  refuse (proxyMethods.contains (host.toUpper m) = false)
    ("unknown method " ++ host.quote m ++ " (want " ++ joined host proxyMethods ++ ")")
  return host.toUpper m

/-- Every Path Prefix, parsed. -/
def validatePaths (paths : List Bytes) : Except String (List PathPrefix) :=
  paths.mapM fun p => (parsePathPrefix p).mapError fun e => "path " ++ host.quote p ++ ": " ++ e

/-- The access with its methods and paths, if both are valid. -/
def FileSecretAccess.validateLimits (s : FileSecretAccess) (access : SecretAccess) :
    Except String SecretAccess := do
  let methods ← limitList s.methods "methods" "method"
  let paths ← limitList s.paths "paths" "path"
  if methods.isNone && paths.isNone then return access
  refuse (access.delivery.contains .proxy = false)
    "methods and paths limit Proxy Delivery, which the entry does not allow"
  let methods ← methods.mapM (collectOnce (validateMethod host))
  let paths ← paths.mapM (validatePaths host)
  return { access with methods := methods, paths := paths }

/-- The mode a text names. -/
def DeliveryMode.ofText (m : Bytes) : Option DeliveryMode :=
  if m = DeliveryMode.proxy.text then some .proxy
  else if m = DeliveryMode.reveal.text then some .reveal
  else none

/-- The Delivery Mode that a Policy names. -/
def validateMode (policy secretName m : Bytes) : Except String DeliveryMode :=
  need (DeliveryMode.ofText m)
    ("Policy " ++ host.quote policy ++ ": Secret Name " ++ host.quote secretName ++
      ": unknown Delivery mode " ++ host.quote m ++ " (want proxy or reveal)")

/-- One round of the loop over a Policy's entries. -/
def FileSecretAccess.validate (policy : Bytes) (accepted : List SecretAccess)
    (entry : FileSecretAccess × Nat) :
    Except String (List SecretAccess) := do
  let s := entry.1
  refuse (s.name = [])
    ("Policy " ++ host.quote policy ++ ": secrets[" ++ toString entry.2 ++
      "]: Secret Name is required")
  refuse (namePattern s.name = false)
    ("Policy " ++ host.quote policy ++ ": invalid Secret Name " ++ host.quote s.name)
  refuse (accepted.any (fun a => a.secretName == s.name) = true)
    ("Policy " ++ host.quote policy ++ " lists Secret Name " ++ host.quote s.name ++
      " more than once")
  refuse (s.delivery = [])
    ("Policy " ++ host.quote policy ++ ": Secret Name " ++ host.quote s.name ++
      " needs at least one Delivery mode (proxy, reveal)")
  let delivery ← collectOnce (validateMode host policy s.name) s.delivery
  let access ←
    (s.validateLimits host
      { secretName := s.name, delivery, methods := none, paths := none }).mapError
    fun e => "Policy " ++ host.quote policy ++ ": Secret Name " ++ host.quote s.name ++ ": " ++ e
  return accepted ++ [access]

/-- The Policy, or what is wrong with it. -/
def FilePolicy.validate (name : Bytes) (p : FilePolicy) : Except String Policy := do
  refuse (namePattern name = false) ("invalid Policy name " ++ host.quote name ++ nameRule)
  refuse (p.secrets.length = 0) ("Policy " ++ host.quote name ++ " lists no Secret Names")
  let secrets ← p.secrets.zipIdx.foldlM (FileSecretAccess.validate host name) []
  return { name, secrets }

/-! ## Backend Plugins -/

/-- A Backend Plugin as the file writes it. -/
structure FileBackendPlugin where
  path : Bytes
  sha256 : Bytes
  user : Bytes
  insecureShareCoreUser : Bool
  env : NameMap Bytes

/-- `sha256Pattern`. -/
def sha256Pattern (s : Bytes) : Bool := s.length == 64 && s.all UrlEscapes.ishex

/-- The environment that a plugin is given. -/
def FileBackendPlugin.validateEnv (name : Bytes) (p : FileBackendPlugin) :
    Except String (List Bytes) :=
  (inOrder byName p.env).mapM fun entry => do
    (PluginContract.env host.quote host.text entry.1 entry.2).mapError
      fun e => "Backend Plugin " ++ host.quote name ++ ": " ++ e
    return entry.1 ++ bytes "=" ++ entry.2

/-- The Backend Plugin, or what is wrong with it. -/
def FileBackendPlugin.validate (baseDir name : Bytes) (p : FileBackendPlugin) :
    Except String BackendPlugin := do
  let plugin := "Backend Plugin " ++ host.quote name
  refuse (namePattern name = false) ("invalid Backend Plugin name " ++ host.quote name ++ nameRule)
  refuse (p.path = []) (plugin ++ ": path is required")
  refuse (p.sha256 = []) (plugin ++ ": sha256 is required; print it with tc plugin sha256 <path>")
  refuse (sha256Pattern p.sha256 = false) (plugin ++ ": sha256 must be 64 hexadecimal digits")
  refuse (p.user = [] ∧ p.insecureShareCoreUser = false)
    (plugin ++ ": user is required, naming the separate OS user the plugin runs as")
  refuse (p.user ≠ [] ∧ p.insecureShareCoreUser = true)
    (plugin ++ ": set user or insecure_share_core_user, not both")
  let env ← p.validateEnv host name
  return { name, path := resolve baseDir p.path, sha256 := host.toLower p.sha256, user := p.user,
           insecureShareCoreUser := p.insecureShareCoreUser, env }

/-! ## Upstreams -/

/-- The Upstream, or what is wrong with it. -/
def FileUpstream.validate (baseDir name : Bytes) (u : FileUpstream) : Except String Upstream := do
  let upstream := "Upstream " ++ host.quote name
  refuse (namePattern name = false) ("invalid Upstream name " ++ host.quote name ++ nameRule)
  refuse (u.url = []) (upstream ++ ": url is required")
  let parsed ← (host.parseURL u.url).mapError fun e => upstream ++ ": " ++ e
  refuse (parsed.scheme ≠ bytes "https")
    (upstream ++ ": url must use https; Upstream TLS is always verified")
  refuse (parsed.user.isSome = true) (upstream ++ ": url must not contain user information")
  refuse (parsed.host = [] ∨ parsed.opaquePart ≠ []) (upstream ++ ": url needs a host")
  refuse (parsed.rawQuery ≠ [] ∨ parsed.forceQuery = true)
    (upstream ++ ": url must not contain a query")
  refuse (parsed.fragment ≠ []) (upstream ++ ": url must not contain a fragment")
  let bundle ← validateBundle host (upstream ++ ": ca_bundle") baseDir u.caBundle
  return { name, scheme := parsed.scheme, host := parsed.host,
           basePath := (parsed.escapedPath.reverse.dropWhile (· == 0x2F)).reverse,
           rootCAs := bundle.2 }

/-- Upstreams, of which there is at least one. -/
abbrev Pins := { upstreams : NameMap Upstream // upstreams.entries ≠ [] }

theorem entries_ne_nil {α : Type} {m : NameMap α} : m.entries ≠ [] ↔ ∃ name, name ∈ m := by
  constructor
  · intro some
    obtain ⟨entry, rest, listed⟩ := exists_cons_of_ne_nil some
    exact ⟨entry.1, AList.mem_keys.mpr (by simp [AList.keys, List.keys, listed])⟩
  · rintro ⟨name, member⟩ none
    have listed := AList.mem_keys.mp member
    simp [AList.keys, List.keys, none] at listed

theorem mem_of_found {α : Type} {m : NameMap α} {name : Bytes}
    (found : ¬ (m.lookup name).isNone = true) : name ∈ m := by
  rw [Bool.not_eq_true, Option.isNone_eq_false_iff] at found
  exact AList.lookup_isSome.mp found

/-- Of some entries, checking leaves some. -/
theorem checkAll_ne_nil {α β : Type} {check : Bytes → α → Except String β} {m : NameMap α}
    {out : NameMap β} (checked : checkAll byName check m = .ok out) (some : m.entries ≠ []) :
    out.entries ≠ [] := by
  obtain ⟨name, member⟩ := entries_ne_nil.mp some
  exact entries_ne_nil.mpr ⟨name, checkAll_mem checked member⟩

/-- `validateUpstreams`, which is asked only about some Upstreams. -/
def validateUpstreams (raw : NameMap FileUpstream) (baseDir : Bytes) (some : raw.entries ≠ []) :
    Except String Pins :=
  match checked : checkAll byName (FileUpstream.validate host baseDir) raw with
  | .ok out => .ok ⟨out, checkAll_ne_nil checked some⟩
  | .error e => .error e

/-! ## Presets -/

/-- The word the file has for a source. -/
def EnvSource.text : EnvSource → String
  | .baseURL => "base_url"
  | .username => "username"
  | .password => "password"
  | .agentToken => "agent_token"

/-- The sources, in the order in which variables are printed. -/
def envSources : List EnvSource := [.baseURL, .username, .password, .agentToken]

/-- The source that a word stands for. -/
def EnvSource.ofText (s : Bytes) : Option EnvSource :=
  envSources.find? fun source => bytes source.text == s

/-- Whether a template has what the source names. -/
def EnvSource.allowed (t : InjectionTemplate) : EnvSource → Bool
  | .baseURL | .agentToken => true
  | .username => match t with
    | .basicAuth b => !b.secretIsUsername
    | _ => false
  | .password => match t with
    | .basicAuth b => b.secretIsUsername
    | _ => false

def envUpper (c : UInt8) : Bool := (0x41 ≤ c && c ≤ 0x5A) || c == 0x5F

/-- `envNamePattern`. -/
def envNamePattern (s : Bytes) : Bool :=
  s ≠ [] && s.length ≤ 64 && (s.take 1).all envUpper && s.all fun c => envUpper c ||
    (0x30 ≤ c && c ≤ 0x39)

/-- The variables in the order of their names. -/
def sortEnv (env : List EnvVar) : List EnvVar :=
  env.insertionSort fun a b => envSources.idxOf a.source ≤ envSources.idxOf b.source

/-- `validateEnv`: a base URL, the Agent Token, and only the literal basic auth fields
the template has, each once. -/
def validateEnv (env : NameMap Bytes) (t : InjectionTemplate) : Except String (List EnvVar) := do
  let out ← (inOrder byName env).foldlM (fun (out : List EnvVar) entry => do
    refuse (envNamePattern entry.1 = false)
      ("invalid variable name " ++ host.quote entry.1 ++
        ": use up to 64 upper-case letters, digits, or '_', not starting with a digit")
    let source ← need (EnvSource.ofText entry.2)
      (host.text entry.1 ++ ": unknown source " ++ host.quote entry.2 ++
        " (want base_url, agent_token, username, or password)")
    refuse (source.allowed t = false)
      (host.text entry.1 ++ ": the Injection Template has no literal " ++ source.text)
    refuse (out.any (fun v => v.source = source) = true)
      (host.text entry.1 ++ ": " ++ source.text ++ " is named twice")
    return out ++ [{ name := entry.1, source }]) []
  [EnvSource.baseURL, EnvSource.agentToken].forM fun source =>
    refuse (out.any (fun v => v.source = source) = false) ("no variable holds " ++ source.text)
  return sortEnv out

/-- A checked Preset: a template, and at least one Upstream. -/
structure Preset where
  template : InjectionTemplate
  upstreams : Pins
  env : List EnvVar

/-- A template of the file, with the texts of what is wrong with it. -/
def checkTemplate (t : FileInjectionTemplate) : Except String InjectionTemplate :=
  t.validate.mapError (TemplateError.text host.quote)

/-- The Preset, or what is wrong with it. -/
def FilePreset.validate (p : FilePreset) : Except String Preset := do
  let raw ← need p.injectionTemplate "injection_template is required"
  if none : p.upstreams.entries = [] then .error "upstreams is required" else
  let template ← (checkTemplate host raw).mapError fun e => "injection_template: " ++ e
  p.upstreams.entries.forM fun entry => refuse (entry.2.caBundle ≠ [])
    ("Upstream " ++ host.quote entry.1 ++ ": a Preset cannot set ca_bundle")
  let upstreams ← validateUpstreams host p.upstreams [] none
  let env ← (validateEnv host p.env template).mapError fun e => "env: " ++ e
  return { template, upstreams, env }

/-- `parsePresets`, after decoding. A name that breaks the rules is reported whatever
else is wrong with the Preset. -/
def parsePresets (raw : NameMap FilePreset) : Except String (NameMap Preset) :=
  checkAll byName (fun name p =>
    (do refuse (namePattern name = false) "invalid name"; p.validate host).mapError
      fun e => "preset " ++ host.quote name ++ ": " ++ e) raw

/-- The Presets that ship with the Courier. -/
def builtinPresets : Except String (NameMap Preset) :=
  (do parsePresets host (← host.presetsYAML)).mapError fun e => "built-in presets: " ++ e

/-! ## Secret Names -/

/-- A Secret Name as the file writes it. -/
structure FileSecretName where
  backend : Bytes
  location : Bytes
  cacheTTL : Bytes
  preset : Bytes
  injectionTemplate : Option FileInjectionTemplate
  upstreams : NameMap FileUpstream

/-- `defaultEnv`: variables named after the Secret Name, which is one that the pattern
admits. -/
def defaultEnv (secretName : Bytes) (t : InjectionTemplate) : List EnvVar :=
  let upper := secretName.map fun c =>
    if 0x61 ≤ c && c ≤ 0x7A then c - 0x20
    else if (0x41 ≤ c && c ≤ 0x5A) || (0x30 ≤ c && c ≤ 0x39) then c
    else 0x5F
  let lead := if upper.head?.any fun c => 0x30 ≤ c && c ≤ 0x39 then bytes "_" ++ upper else upper
  sortEnv ({ name := lead ++ bytes "_BASE_URL", source := .baseURL } :: match t with
    | .header _ | .query _ => [{ name := lead ++ bytes "_API_KEY", source := .agentToken }]
    | .basicAuth b =>
      if b.secretIsUsername then
        { name := lead ++ bytes "_USERNAME", source := .agentToken } ::
          if b.password ≠ [] then [{ name := lead ++ bytes "_PASSWORD", source := .password }]
          else []
      else
        (if b.username ≠ [] then [{ name := lead ++ bytes "_USERNAME", source := .username }]
          else []) ++ [{ name := lead ++ bytes "_PASSWORD", source := .agentToken }])

/-- Durations are in nanoseconds. -/
def second : Int := 1000000000

/-- No Secret is cached for more than an hour. -/
def maxCacheTTL : Int := 3600 * second

/-- The cache TTL; without one, nothing is cached. -/
def FileSecretName.validateTTL (name : Bytes) (s : FileSecretName) : Except String Int :=
  if s.cacheTTL = [] then .ok 0 else do
    let d ← need (host.parseDuration s.cacheTTL)
      ("Secret Name " ++ host.quote name ++ ": cache_ttl " ++ host.quote s.cacheTTL ++
        " is not a duration such as 30s")
    refuse (d < second ∨ d > maxCacheTTL)
      ("Secret Name " ++ host.quote name ++ ": cache_ttl " ++ host.quote s.cacheTTL ++
        " must be from 1s to 1h; omit it to fetch the Secret on every Delivery")
    return d

/-- What a Secret Name says about Proxy Delivery. -/
structure Pinning where
  injectionTemplate : Option InjectionTemplate
  upstreams : NameMap Upstream
  preset : Bytes
  env : List EnvVar
  pinned : injectionTemplate.isSome ↔ upstreams.entries ≠ []

/-- A Secret Name that Proxy Delivery does not know. -/
def Pinning.nowhere : Pinning :=
  { injectionTemplate := none, upstreams := ∅, preset := [], env := [], pinned := by simp }

/-- A template, and Upstreams to deliver to. -/
def Pinning.somewhere (template : InjectionTemplate) (upstreams : Pins) (preset : Bytes)
    (env : List EnvVar) : Pinning :=
  { injectionTemplate := some template, upstreams := upstreams.1, preset, env,
    pinned := by simp [upstreams.2] }

/-- The second half of `fileSecretName.validate`. -/
def FileSecretName.validatePinning (baseDir name : Bytes) (s : FileSecretName) :
    Except String Pinning :=
  let secret := "Secret Name " ++ host.quote name
  if s.preset ≠ [] then do
    let presets ← builtinPresets host
    let p ← need (presets.lookup s.preset)
      (secret ++ ": unknown preset " ++ host.quote s.preset ++ "; use one of " ++
        joined host (sortedNames presets))
    refuse (s.injectionTemplate.isSome = true)
      (secret ++ ": set preset or injection_template, not both")
    -- Upstreams beside a Preset replace its own.
    if none : s.upstreams.entries = [] then return .somewhere p.template p.upstreams s.preset p.env
    else
      let upstreams ← (validateUpstreams host s.upstreams baseDir none).mapError fun e =>
        secret ++ ": " ++ e
      return .somewhere p.template upstreams s.preset p.env
  else match s.injectionTemplate with
    | none =>
      if s.upstreams.entries.length = 0 then .ok .nowhere
      else .error
        (secret ++ ": injection_template is required with upstreams, unless preset is set")
    | some raw =>
      if none : s.upstreams.entries = [] then
        .error (secret ++ ": injection_template needs upstreams to deliver to")
      else do
        let template ← (checkTemplate host raw).mapError fun e =>
          secret ++ ": injection_template: " ++ e
        let upstreams ← (validateUpstreams host s.upstreams baseDir none).mapError fun e =>
          secret ++ ": " ++ e
        return .somewhere template upstreams [] (defaultEnv name template)

/-- The Secret Name, or what is wrong with it. -/
def FileSecretName.validate (baseDir : Bytes) (plugins : NameMap BackendPlugin) (name : Bytes)
    (s : FileSecretName) :
    Except String SecretName := do
  let secret := "Secret Name " ++ host.quote name
  refuse (namePattern name = false) ("invalid Secret Name " ++ host.quote name ++ nameRule)
  refuse (s.backend = []) (secret ++ ": backend is required")
  refuse (s.location = []) (secret ++ ": location is required")
  (PluginContract.location s.location).mapError fun e => secret ++ ": " ++ e
  refuse ((plugins.lookup s.backend).isNone = true)
    (secret ++ ": unknown backend " ++ host.quote s.backend ++ "; name one of backend_plugins")
  let cacheTTL ← s.validateTTL host name
  let pinning ← s.validatePinning host baseDir name
  return { name, backend := s.backend, location := s.location, cacheTTL,
           injectionTemplate := pinning.injectionTemplate, upstreams := pinning.upstreams, preset :=
             pinning.preset,
           env := pinning.env, pinned := pinning.pinned }

/-! ## What is accepted -/

/-- The limits of an entry are there only for Proxy Delivery, and none of them is empty. -/
structure SecretAccess.Limited (a : SecretAccess) : Prop where
  proxied : a.methods.isSome ∨ a.paths.isSome → DeliveryMode.proxy ∈ a.delivery
  methods : a.methods ≠ some []
  paths : a.paths ≠ some []

/-- No Secret Name is listed twice; every entry has a mode, and limits that mean something. -/
structure Policy.Listed (p : Policy) : Prop where
  once : (p.secrets.map SecretAccess.secretName).Nodup
  modes : ∀ a ∈ p.secrets, a.delivery ≠ []
  limited : ∀ a ∈ p.secrets, a.Limited

theorem limitList_ne_nil {n : Node (List Bytes)} {key item : String} {list : List Bytes}
    (decoded : limitList n key item = .ok (some list)) : list ≠ [] := by
  rintro rfl
  unfold limitList at decoded
  split at decoded <;> simp_all

theorem addOnce_ne_nil {α : Type} [BEq α] (l : List α) (a : α) : addOnce l a ≠ [] := by
  unfold addOnce
  split
  · next there =>
    rintro rfl
    simp at there
  · simp

/-- Of some elements, something is collected. -/
theorem collectOnce_ne_nil {α β : Type} [BEq β] {check : α → Except String β} {l : List α}
    {out : List β} (collected : collectOnce check l = .ok out) (some : l ≠ []) : out ≠ [] := by
  obtain ⟨a, rest, rfl⟩ := exists_cons_of_ne_nil some
  have adds : ∀ (other : α) (before after : List β),
      (do return addOnce before (← check other) : Except String (List β)) = .ok after →
      after ≠ [] := by
    intro other before after once
    obtain ⟨value, -, rfl⟩ : ∃ value, check other = .ok value ∧ addOnce before value = after := by
      simpa only [bind_ok, pure_ok] using once
    exact addOnce_ne_nil before value
  exact foldlM_reaches (P := fun out => out ≠ []) collected mem_cons_self (adds a)
    fun other before after _ => adds other before after

theorem validatePaths_ne_nil {host : Host} {paths : List Bytes} {prefixes : List PathPrefix}
    (checked : validatePaths host paths = .ok prefixes) (some : paths ≠ []) : prefixes ≠ [] := by
  have same := congrArg List.length ((ByteStrings.mapM_ok_iff _ _ _).mp checked)
  rintro rfl
  exact some (length_eq_zero_iff.mp (by simpa using same))

variable {host}

theorem validateLimits_ok {s : FileSecretAccess} {access out : SecretAccess}
    (free : access.methods = none ∧ access.paths = none)
    (checked : s.validateLimits host access = .ok out) :
    out.secretName = access.secretName ∧ out.delivery = access.delivery ∧ out.Limited := by
  simp only [FileSecretAccess.validateLimits, bind_ok] at checked
  obtain ⟨methods, someMethods, paths, somePaths, checked⟩ := checked
  split at checked
  · obtain rfl := pure_ok.mp checked
    exact ⟨rfl, rfl, by simp [free], by simp [free], by simp [free]⟩
  · simp only [bind_ok, refuse_ok, pure_ok] at checked
    obtain ⟨_, proxied, allowed, checkedMethods, prefixes, checkedPaths, rfl⟩ := checked
    refine ⟨rfl, rfl, fun _ => by simpa using proxied, ?_, ?_⟩
    · rintro rfl
      obtain ⟨list, rfl, collected⟩ := optional_some checkedMethods
      exact collectOnce_ne_nil collected (limitList_ne_nil someMethods) rfl
    · rintro rfl
      obtain ⟨list, rfl, parsed⟩ := optional_some checkedPaths
      exact validatePaths_ne_nil parsed (limitList_ne_nil somePaths) rfl

/-- One more entry keeps the entries of a Policy in order. -/
theorem FileSecretAccess.validate_ok {policy : Bytes} {accepted out : List SecretAccess}
    {entry : FileSecretAccess × Nat}
    (before : Policy.Listed { name := policy, secrets := accepted })
    (checked : FileSecretAccess.validate host policy accepted entry = .ok out) :
    Policy.Listed { name := policy, secrets := out } := by
  simp only [FileSecretAccess.validate, bind_ok, refuse_ok, mapError_ok, pure_ok] at checked
  obtain ⟨_, -, _, -, _, unlisted, _, some, delivery, collected, access, limits, rfl⟩ := checked
  obtain ⟨named, modes, limited⟩ := validateLimits_ok ⟨rfl, rfl⟩ limits
  refine ⟨?_, ?_, ?_⟩
  · rw [map_append, map_singleton, named]
    simp only [Bool.not_eq_true, any_eq_false, beq_iff_eq] at unlisted
    refine before.once.append (nodup_singleton _) ?_
    simpa using unlisted
  · intro a member
    rcases mem_append.mp member with earlier | new
    · exact before.modes a earlier
    · rw [mem_singleton.mp new, modes]
      exact collectOnce_ne_nil collected some
  · intro a member
    rcases mem_append.mp member with earlier | new
    · exact before.limited a earlier
    · rw [mem_singleton.mp new]
      exact limited

/-- A valid Policy lists what it should. -/
theorem FilePolicy.validate_ok {name : Bytes} {p : FilePolicy} {policy : Policy}
    (checked : p.validate host name = .ok policy) : policy.Listed := by
  simp only [FilePolicy.validate, bind_ok, refuse_ok, pure_ok] at checked
  obtain ⟨_, -, _, -, secrets, ran, rfl⟩ := checked
  refine foldlM_ok (I := fun secrets => Policy.Listed { name, secrets }) ran ⟨?_, ?_, ?_⟩ ?_
  · exact nodup_nil
  · simp
  · simp
  · intro entry _ before after known once
    exact FileSecretAccess.validate_ok known once

theorem FileSecretName.validate_ok {baseDir name : Bytes} {plugins : NameMap BackendPlugin}
    {s : FileSecretName} {secret : SecretName}
    (checked : s.validate host baseDir plugins name = .ok secret) :
    secret.backend ∈ plugins := by
  simp only [FileSecretName.validate, bind_ok, refuse_ok, mapError_ok, pure_ok] at checked
  obtain ⟨_, -, _, -, _, -, _, -, _, known, _, -, _, -, rfl⟩ := checked
  exact mem_of_found known

end TrustedCourier.Config
