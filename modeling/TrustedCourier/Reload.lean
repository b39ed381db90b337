import Mathlib.Data.Multiset.Basic
import TrustedCourier.ConfigValidate
import TrustedCourier.Runs

/-!
# Reloading the config

A reload loads the file that the running snapshot came from, refuses a config that
changes what only a restart can change, and otherwise puts it in effect and tells those
who asked to be told. What a restart is needed for is compared by hand-written methods,
field by field and through optional parts, maps and lists.

What such a comparison should see is said once for each record, as a value: the record
itself with the parts blanked that are compared in another way, next to what those parts
hold. Two records agree when these values are equal, so a field that the comparison
forgot would still be in the value, and that nothing but access changes over any number
of reloads is that one value stays the same.

Reloads exclude each other, so that a run takes them one after another. A hook is known
by its identity only: what it does with a snapshot is not part of this.
-/

namespace TrustedCourier.Config

open Runs FilePaths Checks Option

/-! ## The comparisons -/

/-- Both nil, or both there and equal. -/
def pointersEqual {α : Type} (equal : α → α → Bool) : Option α → Option α → Bool
  | none, none => true
  | some a, some b => equal a b
  | _, _ => false

/-- `maps.EqualFunc`. -/
def mapsEqual {α : Type} (equal : α → α → Bool) (a b : NameMap α) : Bool :=
  a.entries.length == b.entries.length &&
    a.entries.all fun entry => (b.lookup entry.1).any fun other => equal entry.2 other

/-- `DNS.equal`: the credentials as a map, the root certificates as a set. -/
def DNS.equal (d e : DNS) : Bool :=
  d.provider == e.provider && mapsEqual (· == ·) d.credentials e.credentials &&
    d.zone == e.zone && d.endpoint == e.endpoint && d.authority == e.authority &&
    d.caBundle == e.caBundle && CertPool.equal d.rootCAs e.rootCAs &&
    d.resolvers == e.resolvers && d.propagationTimeout == e.propagationTimeout &&
    d.tenantID == e.tenantID && d.clientID == e.clientID &&
    d.subscriptionID == e.subscriptionID && d.resourceGroup == e.resourceGroup &&
    d.project == e.project

/-- `ACME.equal`. -/
def ACME.equal (a b : ACME) : Bool :=
  a.directory == b.directory && a.domains == b.domains &&
    a.contact == b.contact && a.challenge == b.challenge && a.httpListen == b.httpListen &&
    a.caBundle == b.caBundle && CertPool.equal a.rootCAs b.rootCAs &&
      a.accountKey == b.accountKey &&
    pointersEqual (· == ·) a.eab b.eab && pointersEqual DNS.equal a.dns b.dns

/-- `AgentTLS.equal`. -/
def AgentTLS.equal (a b : AgentTLS) : Bool :=
  a.certificate == b.certificate && a.key == b.key && pointersEqual ACME.equal a.acme b.acme

/-- `AgentAPI.equal`. -/
def AgentAPI.equal (a b : AgentAPI) : Bool :=
  a.listen == b.listen && a.socket == b.socket && a.publicURL == b.publicURL &&
    pointersEqual AgentTLS.equal a.tls b.tls

/-- `AdminTLS.equal`: the client CAs as a set. -/
def AdminTLS.equal (a b : AdminTLS) : Bool :=
  a.certificate == b.certificate && a.key == b.key &&
    a.clientCA == b.clientCA && CertPool.equal (some a.clientCAs) (some b.clientCAs)

/-- `slices.Sorted`. -/
def sortedUIDs (uids : List Int) : List Int := uids.insertionSort (· ≤ ·)

/-- `Admin.equal`: the allowed UIDs in any order. -/
def Admin.equal (a b : Admin) : Bool :=
  a.socket == b.socket && a.listen == b.listen &&
    sortedUIDs a.allowedUIDs == sortedUIDs b.allowedUIDs && pointersEqual AdminTLS.equal a.tls b.tls

/-- `BackendPlugin.equal`. -/
def BackendPlugin.equal (a b : BackendPlugin) : Bool :=
  a.name == b.name && a.path == b.path && a.sha256 == b.sha256 && a.user == b.user &&
    a.insecureShareCoreUser == b.insecureShareCoreUser && a.env == b.env

/-- `restartKeys`: the keys that differ and cannot change while the server runs. -/
def restartKeys (old cfg : Config) : List String :=
  (if old.dataDir ≠ cfg.dataDir then ["data_dir"] else []) ++
    (if old.admin.equal cfg.admin = false then ["admin"] else []) ++
    (if old.agentAPI.equal cfg.agentAPI = false then ["agent_api"] else []) ++
    (if mapsEqual BackendPlugin.equal old.backendPlugins cfg.backendPlugins =
      false then ["backend_plugins"] else []) ++
    (if pointersEqual (· == ·) old.audit.signingKey cfg.audit.signingKey = false ∨
        old.audit.checkpointRecords ≠ cfg.audit.checkpointRecords ∨
        old.audit.checkpointInterval ≠ cfg.audit.checkpointInterval then ["audit"] else [])

/-! ## What they compare -/

/-- The certificates of a pool. -/
def CertPool.set (pool : CertPool) : Set Bytes := { cert | cert ∈ pool.certs }

/-- What `DNS.equal` compares. -/
def DNS.fixed (d : DNS) : DNS × (Bytes → Option CourierKey) × Option (Set Bytes) :=
  ({ d with credentials := ∅, rootCAs := none }, d.credentials.lookup, d.rootCAs.map CertPool.set)

/-- What `ACME.equal` compares. -/
def ACME.fixed (a : ACME) :=
  (({ a with rootCAs := none, dns := none } : ACME), a.rootCAs.map CertPool.set,
    a.dns.map DNS.fixed)

/-- What `AgentTLS.equal` compares. -/
def AgentTLS.fixed (t : AgentTLS) := (({ t with acme := none } : AgentTLS), t.acme.map ACME.fixed)

/-- What `AgentAPI.equal` compares. -/
def AgentAPI.fixed (a : AgentAPI) := (({ a with tls := none } : AgentAPI), a.tls.map AgentTLS.fixed)

/-- What `AdminTLS.equal` compares. -/
def AdminTLS.fixed (t : AdminTLS) := (({ t with clientCAs := ⟨[]⟩ } : AdminTLS), t.clientCAs.set)

/-- What `Admin.equal` compares. -/
def Admin.fixed (a : Admin) :=
  (({ a with allowedUIDs := [], tls := none } : Admin), (a.allowedUIDs : Multiset Int),
    a.tls.map AdminTLS.fixed)

/-- Everything of a config but its Policies and its Secret Names. -/
def fixed (cfg : Config) :=
  (({ cfg with
      admin := cfg.admin.fixed.1, agentAPI := cfg.agentAPI.fixed.1, policies := ∅,
      backendPlugins := ∅, secrets := ∅ } : Config),
    cfg.admin.fixed, cfg.agentAPI.fixed, fun name => cfg.backendPlugins.lookup name)

/-! ## That they do -/

/-- Two pointers are equal if what they point to is compared as equal. -/
theorem pointersEqual_iff {α β : Type} {equal : α → α → Bool} {value : α → β}
    (decides : ∀ a b, equal a b = true ↔ value a = value b) (a b : Option α) :
    pointersEqual equal a b = true ↔ a.map value = b.map value := by
  cases a <;> cases b <;> simp [pointersEqual, decides]

/-- The same, for values compared with `==`. -/
theorem pointersEqual_beq {α : Type} [BEq α] [LawfulBEq α] (a b : Option α) :
    pointersEqual (· == ·) a b = true ↔ a = b := by
  cases a <;> cases b <;> simp [pointersEqual]

/-- A map with as many entries as another, all of which are in the other, is the other. -/
theorem mapsEqual_iff {α : Type} {equal : α → α → Bool} (decides : ∀ a b, equal a b = true ↔ a = b)
    (a b : NameMap α) :
    mapsEqual equal a b = true ↔ (fun name => a.lookup name) = fun name => b.lookup name := by
  have inside :
    (a.entries.all fun entry => (b.lookup entry.1).any fun other => equal entry.2 other) = true ↔
      a.entries ⊆ b.entries := by
    rw [List.all_eq_true]
    refine forall₂_congr fun entry _ => ?_
    simp only [any_eq_true, decides, exists_eq_right']
    exact AList.mem_lookup_iff
  rw [mapsEqual, Bool.and_eq_true, beq_iff_eq, inside]
  constructor
  · rintro ⟨counted, included⟩
    have same : a.entries.Perm b.entries :=
      (List.subperm_of_subset a.nodupKeys.nodup included).perm_of_length_le
        (Nat.le_of_eq counted.symm)
    exact funext fun name => AList.perm_lookup same
  · intro found
    have same : a.entries.Perm b.entries := by
      refine List.lookup_ext a.nodupKeys b.nodupKeys ?_
      intro name value
      exact iff_of_eq (congrArg (value ∈ ·) (congrFun found name))
    exact ⟨same.length_eq, same.subset⟩

/-- Pools are equal if they hold the same certificates. -/
theorem CertPool.equal_iff_set (a b : Option CertPool) : CertPool.equal a b = true ↔
    a.map CertPool.set = b.map CertPool.set := by
  rw [CertPool.equal_iff]
  cases a <;> cases b <;> simp [CertPool.set, Set.ext_iff]

/-- Sorted lists are equal if the lists hold the same UIDs. -/
theorem sortedUIDs_iff (a b : List Int) : sortedUIDs a = sortedUIDs b ↔ (a : Multiset Int) = b := by
  have permuted : ∀ uids : List Int, (sortedUIDs uids).Perm uids := List.perm_insertionSort (· ≤ ·)
  have sorted : ∀ uids : List Int, (sortedUIDs uids).Pairwise (· ≤ ·) :=
    List.pairwise_insertionSort (· ≤ ·)
  rw [Multiset.coe_eq_coe]
  constructor
  · intro same
    exact (permuted a).symm.trans (same ▸ permuted b)
  · intro same
    exact ((permuted a).trans (same.trans (permuted b).symm)).eq_of_pairwise' (sorted a) (sorted b)

/-! ### Record by record -/

/-- Courier Keys are compared field by field. -/
theorem key_beq_iff (a b : CourierKey) : (a == b) = true ↔ a = b := beq_iff_eq

/-- The comparison decides that the fixed parts are the same. -/
theorem DNS.equal_iff (d e : DNS) : d.equal e = true ↔ d.fixed = e.fixed := by
  simp only [DNS.equal, DNS.fixed, Bool.and_eq_true, beq_iff_eq, mapsEqual_iff key_beq_iff,
    CertPool.equal_iff_set, Prod.mk.injEq, DNS.mk.injEq]
  tauto

/-- The same for ACME. -/
theorem ACME.equal_iff (a b : ACME) : a.equal b = true ↔ a.fixed = b.fixed := by
  simp only [ACME.equal, ACME.fixed, Bool.and_eq_true, beq_iff_eq, pointersEqual_beq,
    pointersEqual_iff DNS.equal_iff, CertPool.equal_iff_set, Prod.mk.injEq, ACME.mk.injEq]
  tauto

/-- The same for the Agent API's TLS. -/
theorem AgentTLS.equal_iff (a b : AgentTLS) : a.equal b = true ↔ a.fixed = b.fixed := by
  simp only [AgentTLS.equal, AgentTLS.fixed, Bool.and_eq_true, beq_iff_eq,
    pointersEqual_iff ACME.equal_iff, Prod.mk.injEq, AgentTLS.mk.injEq]
  tauto

/-- The same for the Agent API. -/
theorem AgentAPI.equal_iff (a b : AgentAPI) : a.equal b = true ↔ a.fixed = b.fixed := by
  simp only [AgentAPI.equal, AgentAPI.fixed, Bool.and_eq_true, beq_iff_eq,
    pointersEqual_iff AgentTLS.equal_iff, Prod.mk.injEq, AgentAPI.mk.injEq]
  tauto

/-- The same for the Admin API's TLS. -/
theorem AdminTLS.equal_iff (a b : AdminTLS) : a.equal b = true ↔ a.fixed = b.fixed := by
  simp only [AdminTLS.equal, AdminTLS.fixed, Bool.and_eq_true, beq_iff_eq, CertPool.equal_iff_set,
    map_some, some.injEq, Prod.mk.injEq, AdminTLS.mk.injEq]
  tauto

/-- The same for the Admin API. -/
theorem Admin.equal_iff (a b : Admin) : a.equal b = true ↔ a.fixed = b.fixed := by
  simp only [Admin.equal, Admin.fixed, Bool.and_eq_true, beq_iff_eq, sortedUIDs_iff,
    pointersEqual_iff AdminTLS.equal_iff, Prod.mk.injEq, Admin.mk.injEq]
  tauto

/-- Plugins are compared whole. -/
theorem BackendPlugin.equal_iff (a b : BackendPlugin) : a.equal b = true ↔ a = b := by
  cases a
  cases b
  simp [BackendPlugin.equal, and_assoc]

/-- Two configs of one file agree on everything but access exactly when no key is named. -/
theorem restartKeys_nil {old cfg : Config} (path : old.path = cfg.path) :
    restartKeys old cfg = [] ↔ fixed old = fixed cfg := by
  have audit : old.audit = cfg.audit ↔ old.audit.signingKey = cfg.audit.signingKey ∧
      old.audit.checkpointRecords = cfg.audit.checkpointRecords ∧
      old.audit.checkpointInterval = cfg.audit.checkpointInterval := by
    cases old.audit
    cases cfg.audit
    simp
  have parts : fixed old = fixed cfg ↔
      old.dataDir = cfg.dataDir ∧ old.admin.fixed = cfg.admin.fixed ∧
      old.agentAPI.fixed = cfg.agentAPI.fixed ∧
      ((fun name => old.backendPlugins.lookup name) = fun name => cfg.backendPlugins.lookup name) ∧
      old.audit = cfg.audit := by
    simp only [fixed, Prod.mk.injEq, Config.mk.injEq]
    constructor
    · tauto
    · rintro ⟨dataDir, admin, agentAPI, plugins, audit⟩
      simp [path, dataDir, admin, agentAPI, plugins, audit]
  rw [parts, audit, ← Admin.equal_iff, ← AgentAPI.equal_iff,
    ← mapsEqual_iff BackendPlugin.equal_iff,
    ← pointersEqual_beq]
  simp only [restartKeys, List.append_eq_nil_iff, ite_eq_right_iff, List.cons_ne_nil, imp_false,
    not_not, not_or,
    Bool.not_eq_false, and_assoc]

/-! ## Reloading -/

/-- The running snapshot, and who is told of a new one. -/
structure Running (Hook : Type) where
  current : Config
  reloaded : List Hook

/-- What a call does to the outside: it puts a snapshot in effect, or calls a hook with a
snapshot while one is in effect. -/
inductive Effect (Hook : Type) where
  | stored (cfg : Config)
  | called (hook : Hook) (cfg inEffect : Config)

/-- What a call leaves, does and returns. -/
structure Reloaded (Hook : Type) where
  running : Running Hook
  effects : List (Effect Hook)
  result : Except String Config

variable {Hook : Type}

/-- `NewRunning`. -/
def newRunning (cfg : Config) : Running Hook := { current := cfg, reloaded := [] }

/-- `OnReload`. -/
def Running.onReload (r : Running Hook) (f : Hook) : Running Hook :=
  { r with reloaded := r.reloaded ++ [f] }

/-- `Running.Reload`, with what the files hold at the time and what the outside makes of
a config. -/
def Running.reload (r : Running Hook) (host : Host) (files : Bytes → File)
    (check : Config → Except String Unit) :
    Reloaded Hook :=
  let old := r.current
  match load host (files old.path) old.path with
  | .error message => { running := r, effects := [], result := .error message }
  | .ok cfg =>
    if restartKeys old cfg ≠ [] then
      { running := r, effects := []
        result := .error (", ".intercalate (restartKeys old cfg) ++
          " changed, which takes effect only on restart; restore it to reload the rest") }
    else match check cfg with
    | .error message => { running := r, effects := [], result := .error message }
    | .ok () =>
      let r := { r with current := cfg }
      { running := r, effects := .stored cfg :: r.reloaded.map fun f => .called f cfg r.current,
        result := .ok cfg }

/-- A call of the running server. -/
inductive Call (Hook : Type) where
  | onReload (f : Hook)
  | reload (host : Host) (files : Bytes → File) (check : Config → Except String Unit)

/-- One call on the running config. -/
def Running.step (r : Running Hook) : Call Hook → Option (Running Hook)
  | .onReload f => some (r.onReload f)
  | .reload host files check => some (r.reload host files check).running

/-- What a reload comes to: nothing at all with an error, or the loaded config. -/
theorem reload_cases (r : Running Hook) (host : Host) (files : Bytes → File)
    (check : Config → Except String Unit) :
    (∃ message, r.reload host files check =
    { running := r, effects := [], result := .error message }) ∨
    ∃ cfg, load host (files r.current.path) r.current.path = .ok cfg ∧
    restartKeys r.current cfg = [] ∧
      check cfg = .ok () ∧ r.reload host files check =
        { running := { r with current := cfg }
          effects := .stored cfg :: r.reloaded.map fun f => .called f cfg cfg
          result := .ok cfg } := by
  cases loaded : load host (files r.current.path) r.current.path with
  | error message => exact Or.inl ⟨message, by simp [Running.reload, loaded]⟩
  | ok cfg =>
    by_cases same : restartKeys r.current cfg = []
    · cases accepted : check cfg with
      | error message => exact Or.inl ⟨message, by simp [Running.reload, loaded, same, accepted]⟩
      | ok done =>
        exact Or.inr ⟨cfg, rfl, same, accepted, by simp [Running.reload, loaded, same, accepted]⟩
    · refine Or.inl ⟨", ".intercalate (restartKeys r.current cfg) ++
        " changed, which takes effect only on restart; restore it to reload the rest", ?_⟩
      simp [Running.reload, loaded, same]

/-- A loaded config has the absolute path of its file. -/
theorem load_path {host : Host} {file : File} {path : Bytes} {cfg : Config}
    (loaded : load host file path = .ok cfg) :
    abs host.getwd path = .ok cfg.path := by
  unfold load at loaded
  split at loaded
  · simp at loaded
  · simp at loaded
  · simp at loaded
  · simp only [bind_ok, pure_ok] at loaded
    obtain ⟨_, -, _, -, absolute, named, rfl⟩ := loaded
    exact named

/-- The path of the config file is fixed. -/
theorem path_of_fixed {a b : Config} (same : fixed a = fixed b) : a.path = b.path :=
  congrArg (fun value => value.1.path) same

/-- One call keeps what the startup snapshot fixed. The path is its own absolute form, so
the reloaded config has it too. -/
theorem step_fixed {startup : Config} (settled : ∀ getwd, abs getwd startup.path = .ok startup.path)
    (r : Running Hook) (call : Call Hook) (next : Running Hook)
    (before : fixed r.current = fixed startup) (taken : r.step call = some next) :
    fixed next.current = fixed startup := by
  cases call with
  | onReload f =>
    cases taken
    exact before
  | reload host files check =>
    cases taken
    rcases reload_cases r host files check with ⟨message, failed⟩ | ⟨cfg, loaded, same, -, done⟩
    · rw [failed]
      exact before
    · rw [done]
      have path : r.current.path = cfg.path := by
        have named := load_path loaded
        rw [path_of_fixed before, settled] at named
        exact (path_of_fixed before).trans (Except.ok.inj named)
      exact ((restartKeys_nil path).mp same).symm.trans before

/-- Over any calls from startup on, only Policies and Secret Names change. A reload that
fails leaves the snapshot that was in effect and calls nobody; one that succeeds puts
what it loaded in effect first and then calls each hook once. -/
theorem reload_changes_only_access (host : Host) (file : File) (path : Bytes) (startup : Config)
    (started : load host file path = .ok startup) (calls : List (Call Hook)) (r : Running Hook)
    (ran : after Running.step (newRunning startup) calls = some r) :
    fixed r.current = fixed startup ∧
    ∀ (host : Host) (files : Bytes → File) (check : Config → Except String Unit),
      (∀ message, (r.reload host files check).result = .error message →
        (r.reload host files check).running = r ∧ (r.reload host files check).effects = []) ∧
      ∀ cfg, (r.reload host files check).result = .ok cfg →
        load host (files r.current.path) r.current.path = .ok cfg ∧
        (r.reload host files check).running = { r with current := cfg } ∧
        (r.reload host files check).effects = .stored cfg :: r.reloaded.map fun f =>
          .called f cfg cfg := by
  have settled := abs_abs host.rooted (load_path started)
  refine ⟨after_invariant (I := fun r => fixed r.current = fixed startup) (step_fixed settled) ran
    rfl, ?_⟩
  intro host files check
  rcases reload_cases r host files check with ⟨message, failed⟩ | ⟨cfg, loaded, -, -, done⟩
  · rw [failed]
    refine ⟨fun _ _ => ⟨rfl, rfl⟩, ?_⟩
    intro cfg succeeded
    cases succeeded
  · rw [done]
    refine ⟨?_, ?_⟩
    · intro message failed
      cases failed
    · intro other succeeded
      cases succeeded
      exact ⟨loaded, rfl, rfl⟩

/-- The sample file with a Policy that allows every method. -/
def widerFile : FileConfig :=
  { sampleFile with
    policies := AList.singleton (bytes "ci")
      { secrets :=
        [{ name := bytes "github", delivery := [bytes "proxy"], methods := .omitted,
           paths := .omitted }] } }

/-- The sample file with another data directory. -/
def movedFile : FileConfig := { sampleFile with dataDir := bytes "elsewhere" }

/-- Two hooks, a reload of a wider Policy, and one of a moved data directory. -/
def widenCalls : List (Call Nat) :=
  [.onReload 1, .onReload 2, .reload plainHost (fun _ => .document widerFile) fun _ => .ok ()]

/-- A reload that widens a Policy succeeds, and one that moves the data directory does not. -/
theorem reload_changes_only_access_moved : ∃ (startup : Config) (r : Running Nat),
    load plainHost (.document sampleFile) (bytes "/etc/trustedcourier/config.yaml") = .ok startup ∧
    after Running.step (newRunning startup) widenCalls = some r ∧
    fixed r.current = fixed startup ∧
      r.current.entriesOf (bytes "ci") ≠ startup.entriesOf (bytes "ci") ∧
    (r.reload plainHost (fun _ => .document movedFile) fun _ => .ok ()).running = r := by
  have run : (load plainHost (.document sampleFile)
      (bytes "/etc/trustedcourier/config.yaml")).toOption.bind
      (fun startup =>
      (after Running.step (newRunning startup) widenCalls).map fun r =>
        (decide (r.current.entriesOf (bytes "ci") ≠ startup.entriesOf (bytes "ci")),
          (r.reload plainHost (fun _ => .document movedFile)
            fun _ => .ok ()).result.toOption.isNone)) =
      some (true, true) := by decide +kernel
  obtain ⟨startup, loaded, later⟩ := bind_eq_some_iff.mp run
  obtain ⟨r, ran, seen⟩ := map_eq_some_iff.mp later
  simp only [Prod.mk.injEq, decide_eq_true_eq, isNone_iff_eq_none] at seen
  obtain ⟨message, refused⟩ := toOption_none.mp seen.2
  have started := toOption_some.mp loaded
  have kept := reload_changes_only_access plainHost (.document sampleFile) _ startup
    started widenCalls r ran
  exact ⟨startup, r, started, ran, kept.1, seen.1, ((kept.2 _ _ _).1 message refused).1⟩

end TrustedCourier.Config
