import TrustedCourier.Configs

/-!
# What an Agent Token's Policies allow

A token names Policies, and a Policy's entries allow Secret Names in Delivery modes.
For Proxy Delivery an entry may limit methods and paths, and one entry must admit both.
The loops stop at the first entry that allows the request and remember, until then, the
reason for a denial: how far the best entry came. The reason is overwritten in one
direction only, so it depends on which entries there are and not on their order.
-/

namespace TrustedCourier.Access

open Config List

/-- An Agent Token's stored metadata. Times are in Unix milliseconds. -/
structure AgentToken where
  id : Bytes
  policies : List Bytes
  createdAt : Int
  expiresAt : Int
  lastUsedAt : Option Int
  revokedAt : Option Int
deriving DecidableEq

/-- Why a Delivery was denied. -/
inductive Denial where
  | unknownSecretName
  | policy
  | method
  | path
deriving DecidableEq

/-- The reason as the audit record has it. -/
def Denial.text : Denial → Bytes
  | .unknownSecretName => bytes "unknown Secret Name"
  | .policy => bytes "no Policy allows it"
  | .method => bytes "no Policy allows the method"
  | .path => bytes "no Policy allows the path"

/-- The entries of the Policies a token names, as the loops visit them. -/
def entries (cfg : Config) (tok : AgentToken) : List SecretAccess :=
  tok.policies.flatMap cfg.entriesOf

/-- `Authorize`: the denial, if it is denied. -/
def authorize (cfg : Config) (tok : AgentToken) (secretName : Bytes) (mode : DeliveryMode) :
    Option Denial :=
  if secretName ∉ cfg.secrets then some .unknownSecretName
  else if tok.policies.any fun name =>
      (cfg.entriesOf name).any fun a => a.secretName == secretName && a.delivery.contains mode
    then none
  else some .policy

section Loops

variable (secretName method escapedPath : Bytes)

/-- Whether an entry has a list of methods that the method is not on. -/
def refusesMethod (a : SecretAccess) : Bool :=
  match a.methods with
  | none => false
  | some methods => !methods.contains method

/-- Whether an entry has a list of prefixes of which none matches. -/
def refusesPath (a : SecretAccess) : Bool :=
  match a.paths with
  | none => false
  | some paths => !paths.any fun p => p.matches escapedPath

/-- The inner loop of `AuthorizeProxy`: the denial after a Policy's entries, or none if
one of them allowed the request. -/
def scanEntries (denial : Denial) : List SecretAccess → Option Denial
  | [] => some denial
  | a :: rest =>
    if a.secretName ≠ secretName || !a.delivery.contains .proxy then scanEntries denial rest
    else if refusesMethod method a then
      scanEntries (if denial = .policy then .method else denial) rest
    else if refusesPath escapedPath a then scanEntries .path rest
    else none

/-- The outer loop, over the names of Policies. -/
def scanPolicies (cfg : Config) (denial : Denial) : List Bytes → Option Denial
  | [] => some denial
  | name :: rest =>
    match scanEntries secretName method escapedPath denial (cfg.entriesOf name) with
    | none => none
    | some denial => scanPolicies cfg denial rest

end Loops

/-- `AuthorizeProxy`: the denial, if it is denied. -/
def authorizeProxy (cfg : Config) (tok : AgentToken) (secretName method escapedPath : Bytes) :
    Option Denial :=
  if secretName ∉ cfg.secrets then some .unknownSecretName
  else scanPolicies secretName method escapedPath cfg .policy tok.policies

/-! ## What an entry allows -/

/-- An entry for a Secret Name that lists a mode. -/
def Lists (secretName : Bytes) (mode : DeliveryMode) (a : SecretAccess) : Prop :=
  a.secretName = secretName ∧ mode ∈ a.delivery

/-- An entry without a limit on methods, or with this one on its list. -/
def AdmitsMethod (method : Bytes) (a : SecretAccess) : Prop :=
  ∀ methods, a.methods = some methods → method ∈ methods

/-- An entry without a limit on paths, or with a prefix that matches this one. -/
def AdmitsPath (escapedPath : Bytes) (a : SecretAccess) : Prop :=
  ∀ paths, a.paths = some paths → ∃ p ∈ paths, p.matches escapedPath = true

theorem refusesMethod_iff (method : Bytes) (a : SecretAccess) :
    refusesMethod method a = true ↔ ¬ AdmitsMethod method a := by
  unfold refusesMethod AdmitsMethod
  cases a.methods with
  | none | some methods => simp

theorem refusesPath_iff (escapedPath : Bytes) (a : SecretAccess) :
    refusesPath escapedPath a = true ↔ ¬ AdmitsPath escapedPath a := by
  unfold refusesPath AdmitsPath
  cases a.paths with
  | none | some paths => simp

theorem passedOver_iff (secretName : Bytes) (a : SecretAccess) :
    (a.secretName ≠ secretName || !a.delivery.contains .proxy) = true ↔
    ¬ Lists secretName .proxy a := by
  simp only [Lists, Bool.or_eq_true, decide_eq_true_eq, Bool.not_eq_true', not_and_or, ne_eq]
  rw [← Bool.not_eq_true, contains_iff_mem]

section Laws

variable {secretName method escapedPath : Bytes} {denial last : Denial} {l : List SecretAccess}

/-- One step of the inner loop, in terms of what the entry allows. -/
theorem scanEntries_cons (denial : Denial) (a : SecretAccess) (rest : List SecretAccess) :
    (¬ Lists secretName .proxy a ∧ scanEntries secretName method escapedPath denial (a :: rest) =
        scanEntries secretName method escapedPath denial rest) ∨
      (Lists secretName .proxy a ∧ ¬ AdmitsMethod method a ∧
        scanEntries secretName method escapedPath denial (a :: rest) =
          scanEntries secretName method escapedPath (if denial = .policy then .method else denial)
            rest) ∨
      (Lists secretName .proxy a ∧ AdmitsMethod method a ∧ ¬ AdmitsPath escapedPath a ∧
        scanEntries secretName method escapedPath denial (a :: rest) =
          scanEntries secretName method escapedPath .path rest) ∨
      (Lists secretName .proxy a ∧ AdmitsMethod method a ∧ AdmitsPath escapedPath a ∧
        scanEntries secretName method escapedPath denial (a :: rest) = none) := by
  rw [scanEntries]
  split
  · next other => exact Or.inl ⟨(passedOver_iff secretName a).mp other, rfl⟩
  · next listed =>
    rw [passedOver_iff, not_not] at listed
    split
    · next refused => exact Or.inr (Or.inl ⟨listed, (refusesMethod_iff method a).mp refused, rfl⟩)
    · next admitted =>
      rw [refusesMethod_iff, not_not] at admitted
      split
      · next refused =>
        exact Or.inr
          (Or.inr (Or.inl ⟨listed, admitted, (refusesPath_iff escapedPath a).mp refused, rfl⟩))
      · next matching =>
        rw [refusesPath_iff, not_not] at matching
        exact Or.inr (Or.inr (Or.inr ⟨listed, admitted, matching, rfl⟩))

/-- The inner loop allows the request when one entry does, whatever came before. -/
theorem scanEntries_none : scanEntries secretName method escapedPath denial l = none ↔
    ∃ a ∈ l, Lists secretName .proxy a ∧ AdmitsMethod method a ∧ AdmitsPath escapedPath a := by
  induction l generalizing denial with
  | nil => simp [scanEntries]
  | cons a rest ih =>
    rw [exists_mem_cons_iff]
    rcases scanEntries_cons denial a rest with ⟨other, same⟩ | ⟨_, refused, same⟩ |
      ⟨_, _, refused, same⟩ | ⟨listed, admitted, matching, same⟩
    · rw [same, ih]
      simp [other]
    · rw [same, ih]
      simp [refused]
    · rw [same, ih]
      simp [refused]
    · rw [same]
      simp [listed, admitted, matching]

/-- The reason only moves from the Policy to the method to the path: it ends at the path
if an entry admitted the method, and stays at the Policy if there was no entry. -/
theorem scanEntries_some (scanned : scanEntries secretName method escapedPath denial l = some last)
    (known : denial ≠ .unknownSecretName) :
    last ≠ .unknownSecretName ∧
      (last = .path ↔ denial = .path ∨ ∃ a ∈ l, Lists secretName .proxy a ∧ AdmitsMethod method a) ∧
      (last = .policy ↔ denial = .policy ∧ ∀ a ∈ l, ¬ Lists secretName .proxy a) := by
  induction l generalizing denial with
  | nil =>
    obtain rfl : denial = last := Option.some.inj scanned
    simp [known]
  | cons a rest ih =>
    rw [exists_mem_cons_iff, forall_mem_cons]
    rcases scanEntries_cons denial a rest with ⟨other, same⟩ | ⟨listed, refused, same⟩ |
      ⟨listed, admitted, _, same⟩ | ⟨_, _, _, same⟩
    · rw [same] at scanned
      obtain ⟨named, path, policy⟩ := ih scanned known
      refine ⟨named, path.trans ?_, policy.trans ?_⟩
      · simp [other]
      · simp [other]
    · rw [same] at scanned
      obtain ⟨named, path, policy⟩ := ih scanned (by split <;> simp_all)
      refine ⟨named, path.trans ?_, policy.trans ?_⟩
      · by_cases first : denial = .policy
        · simp [first, refused]
        · simp [first, refused]
      · by_cases first : denial = .policy
        · simp [first, listed]
        · simp [first]
    · rw [same] at scanned
      obtain ⟨named, path, policy⟩ := ih scanned (by simp)
      refine ⟨named, path.trans ?_, policy.trans ?_⟩
      · simp [listed, admitted]
      · simp [listed]
    · rw [same] at scanned
      cases scanned

theorem scanEntries_append (front back : List SecretAccess) :
    scanEntries secretName method escapedPath denial (front ++ back) =
      (scanEntries secretName method escapedPath denial front).bind
        fun d => scanEntries secretName method escapedPath d back := by
  induction front generalizing denial with
  | nil => rfl
  | cons a rest ih =>
    simp only [cons_append, scanEntries, ih]
    repeat' split
    all_goals rfl

/-- The two loops are one loop over all entries. -/
theorem scanPolicies_eq (cfg : Config) (names : List Bytes) :
    scanPolicies secretName method escapedPath cfg denial names =
      scanEntries secretName method escapedPath denial (names.flatMap cfg.entriesOf) := by
  induction names generalizing denial with
  | nil => rfl
  | cons name rest ih =>
    rw [flatMap_cons, scanEntries_append, scanPolicies]
    cases scanEntries secretName method escapedPath denial (cfg.entriesOf name) with
    | none => rfl
    | some d => exact ih

end Laws

/-! ## The decision -/

section Decision

variable {cfg cfg' : Config} {tok tok' : AgentToken} {secretName method escapedPath : Bytes}

/-- Some entry of the token's Policies has a property. -/
def HasEntry (cfg : Config) (tok : AgentToken) (P : SecretAccess → Prop) : Prop :=
  ∃ a ∈ entries cfg tok, P a

/-- The five outcomes and when each of them occurs. -/
theorem authorizeProxy_cases (cfg : Config) (tok : AgentToken)
    (secretName method escapedPath : Bytes) :
    let result := authorizeProxy cfg tok secretName method escapedPath
    let listed := Lists secretName .proxy
    let admitted := fun a => Lists secretName .proxy a ∧ AdmitsMethod method a
    let allowed := fun a => Lists secretName .proxy a ∧ AdmitsMethod method a ∧
      AdmitsPath escapedPath a
    (secretName ∉ cfg.secrets ∧ result = some .unknownSecretName) ∨
      (secretName ∈ cfg.secrets ∧ HasEntry cfg tok allowed ∧ result = none) ∨
      (secretName ∈ cfg.secrets ∧ ¬ HasEntry cfg tok allowed ∧ HasEntry cfg tok admitted ∧
        result = some .path) ∨
      (secretName ∈ cfg.secrets ∧ ¬ HasEntry cfg tok admitted ∧ HasEntry cfg tok listed ∧
        result = some .method) ∨
      (secretName ∈ cfg.secrets ∧ ¬ HasEntry cfg tok listed ∧ result = some .policy) := by
  intro result listed admitted allowed
  by_cases known : secretName ∈ cfg.secrets
  · have scanned : result = scanEntries secretName method escapedPath .policy
        (entries cfg tok) := by
      simp only [result, authorizeProxy, known, not_true_eq_false, if_false]
      exact scanPolicies_eq cfg tok.policies
    refine Or.inr ?_
    cases found : result with
    | none =>
      rw [found] at scanned
      exact Or.inl ⟨known, scanEntries_none.mp scanned.symm, rfl⟩
    | some denial =>
      rw [found] at scanned
      obtain ⟨named, path, policy⟩ := scanEntries_some scanned.symm (by simp)
      have denied : ¬ HasEntry cfg tok allowed := by
        intro passes
        rw [scanEntries_none.mpr passes] at scanned
        cases scanned
      have overlooked : HasEntry cfg tok admitted → denial = .path :=
        fun passes => path.mpr (Or.inr passes)
      cases denial with
      | unknownSecretName => exact absurd rfl named
      | path => exact Or.inr (Or.inl ⟨known, denied, (path.mp rfl).resolve_left (by simp), rfl⟩)
      | method =>
        refine Or.inr
          (Or.inr (Or.inl ⟨known, fun passes => by simpa using overlooked passes, ?_, rfl⟩))
        by_contra unlisted
        have silent : ∀ a ∈ entries cfg tok, ¬ Lists secretName .proxy a :=
          fun a member lists => unlisted ⟨a, member, lists⟩
        cases policy.mpr ⟨rfl, silent⟩
      | policy =>
        refine Or.inr (Or.inr (Or.inr ⟨known, ?_, rfl⟩))
        rintro ⟨a, member, lists⟩
        exact (policy.mp rfl).2 a member lists
  · exact Or.inl ⟨known, by simp only [result, authorizeProxy, known, not_false_eq_true, if_true]⟩

/-- More Policies and more entries leave every entry in its place. -/
theorem hasEntry_mono {P : SecretAccess → Prop} (names : tok.policies ⊆ tok'.policies)
    (more : ∀ name, cfg.entriesOf name ⊆ cfg'.entriesOf name) (found : HasEntry cfg tok P) :
    HasEntry cfg' tok' P := by
  obtain ⟨a, member, holds⟩ := found
  obtain ⟨name, named, inside⟩ := mem_flatMap.mp member
  exact ⟨a, mem_flatMap.mpr ⟨name, names named, more name inside⟩, holds⟩

theorem HasEntry.imp {P Q : SecretAccess → Prop} (found : HasEntry cfg tok P)
    (weaker : ∀ a, P a → Q a) :
    HasEntry cfg tok Q := by
  obtain ⟨a, member, holds⟩ := found
  exact ⟨a, member, weaker a holds⟩

/-- When a request is denied for a reason: the Secret Name is undefined, or it is defined
and the best entry for it fails at its path, at its method, or is missing. -/
def DeniedFor (cfg : Config) (tok : AgentToken) (secretName method escapedPath : Bytes) :
    Denial → Prop
  | .unknownSecretName => secretName ∉ cfg.secrets
  | .path => secretName ∈ cfg.secrets ∧
      ¬ HasEntry cfg tok (fun a => Lists secretName .proxy a ∧ AdmitsMethod method a ∧
        AdmitsPath escapedPath a) ∧
      HasEntry cfg tok (fun a => Lists secretName .proxy a ∧ AdmitsMethod method a)
  | .method => secretName ∈ cfg.secrets ∧
      ¬ HasEntry cfg tok (fun a => Lists secretName .proxy a ∧ AdmitsMethod method a) ∧
      HasEntry cfg tok (Lists secretName .proxy)
  | .policy => secretName ∈ cfg.secrets ∧ ¬ HasEntry cfg tok (Lists secretName .proxy)

/-- Every denial is for the first reason there is. -/
theorem authorizeProxy_denied (denial : Denial) :
    authorizeProxy cfg tok secretName method escapedPath = some denial ↔
    DeniedFor cfg tok secretName method escapedPath denial := by
  have admits : HasEntry cfg tok (fun a => Lists secretName .proxy a ∧ AdmitsMethod method a ∧
    AdmitsPath escapedPath a) →
      HasEntry cfg tok (fun a => Lists secretName .proxy a ∧ AdmitsMethod method a) :=
    fun found => found.imp fun _ holds => ⟨holds.1, holds.2.1⟩
  have lists : HasEntry cfg tok (fun a => Lists secretName .proxy a ∧ AdmitsMethod method a) →
      HasEntry cfg tok (Lists secretName .proxy) := fun found => found.imp fun _ holds => holds.1
  rcases authorizeProxy_cases cfg tok secretName method escapedPath with
    ⟨known, result⟩ | ⟨known, found, result⟩ |
    ⟨known, none, found, result⟩ | ⟨known, none, found, result⟩ | ⟨known, none, result⟩ <;>
    rw [result] <;> cases denial <;> simp only [DeniedFor] <;> grind

/-- A reason excludes the others. -/
theorem deniedFor_reasons {denial : Denial}
    (reason : DeniedFor cfg tok secretName method escapedPath denial) :
    (denial = .unknownSecretName ↔ secretName ∉ cfg.secrets) ∧
      (secretName ∈ cfg.secrets →
        (denial = .path ↔ HasEntry cfg tok fun a => Lists secretName .proxy a ∧
          AdmitsMethod method a) ∧
        (denial = .method ↔ HasEntry cfg tok (Lists secretName .proxy) ∧
          ¬ HasEntry cfg tok fun a => Lists secretName .proxy a ∧ AdmitsMethod method a) ∧
        (denial = .policy ↔ ¬ HasEntry cfg tok (Lists secretName .proxy))) := by
  have lists : HasEntry cfg tok (fun a => Lists secretName .proxy a ∧ AdmitsMethod method a) →
      HasEntry cfg tok (Lists secretName .proxy) := fun found => found.imp fun _ holds => holds.1
  cases denial with
  | unknownSecretName =>
    have undefined : secretName ∉ cfg.secrets := reason
    exact ⟨iff_of_true rfl undefined, fun known => absurd known undefined⟩
  | path =>
    obtain ⟨known, _, found⟩ := reason
    simp [known, found, lists found]
  | method =>
    obtain ⟨known, none, found⟩ := reason
    simp [known, none, found]
  | policy =>
    obtain ⟨known, none⟩ := reason
    have unadmitted := mt lists none
    simp [known, none, unadmitted]

/-- Who may have a request forwarded. -/
theorem authorizeProxy_allowed : authorizeProxy cfg tok secretName method escapedPath = none ↔
    secretName ∈ cfg.secrets ∧ HasEntry cfg tok fun a =>
      Lists secretName .proxy a ∧ AdmitsMethod method a ∧ AdmitsPath escapedPath a := by
  rcases authorizeProxy_cases cfg tok secretName method escapedPath with
    ⟨known, result⟩ | ⟨known, found, result⟩ |
    ⟨known, none, found, result⟩ | ⟨known, none, found, result⟩ | ⟨known, none, result⟩
  · simp [result, known]
  · simp [result, known, found]
  · simp [result, none]
  · simp only [result, reduceCtorEq, false_iff, not_and]
    exact fun _ allowed => none (allowed.imp fun _ holds => ⟨holds.1, holds.2.1⟩)
  · simp only [result, reduceCtorEq, false_iff, not_and]
    exact fun _ allowed => none (allowed.imp fun _ holds => holds.1)

/-- Who may have a Secret delivered. -/
theorem authorize_allowed {mode : DeliveryMode} : authorize cfg tok secretName mode = none ↔
    secretName ∈ cfg.secrets ∧ HasEntry cfg tok (Lists secretName mode) := by
  have found : (tok.policies.any fun name =>
      (cfg.entriesOf name).any fun a => a.secretName == secretName && a.delivery.contains mode) =
        true ↔
      HasEntry cfg tok (Lists secretName mode) := by
    simp only [HasEntry, entries, Lists, any_eq_true, mem_flatMap, Bool.and_eq_true, beq_iff_eq,
      contains_iff_mem]
    constructor
    · rintro ⟨name, named, a, member, holds⟩
      exact ⟨a, ⟨name, named, member⟩, holds⟩
    · rintro ⟨a, ⟨name, named, member⟩, holds⟩
      exact ⟨name, named, a, member, holds⟩
  unfold authorize
  by_cases known : secretName ∈ cfg.secrets
  · simp [known, ← found]
  · simp [known]

/-- The decision depends on which entries there are, and on nothing else about them. -/
theorem authorizeProxy_congr (defined : secretName ∈ cfg.secrets ↔ secretName ∈ cfg'.secrets)
    (same : ∀ P, HasEntry cfg tok P ↔ HasEntry cfg' tok' P) :
    authorizeProxy cfg tok secretName method escapedPath =
      authorizeProxy cfg' tok' secretName method escapedPath := by
  apply Option.ext
  intro denial
  rw [authorizeProxy_denied, authorizeProxy_denied]
  cases denial <;> simp only [DeniedFor, defined, same]

/-- Authorization of Proxy Delivery. A request is allowed when the Secret Name is defined
and one entry of one Policy that the token names and the config has lists proxy for it
and admits both the method and the path. Otherwise the denial says that the Secret Name
is undefined, or how far the best entry came.

The result is the same for every order and multiplicity of Policies and entries. More
Policies or entries never deny what was allowed. What is allowed is allowed by one entry
by itself, so the limits of several entries are not taken together. -/
theorem proxy_authorization (cfg : Config) (tok : AgentToken)
    (secretName method escapedPath : Bytes) :
    let result := authorizeProxy cfg tok secretName method escapedPath
    let listed := Lists secretName .proxy
    (result = none ↔ secretName ∈ cfg.secrets ∧ ∃ name ∈ tok.policies, ∃ policy,
      cfg.policies.lookup name = some policy ∧
      ∃ a ∈ policy.secrets, listed a ∧ AdmitsMethod method a ∧ AdmitsPath escapedPath a) ∧
    (∀ denial, result = some denial →
      (denial = .unknownSecretName ↔ secretName ∉ cfg.secrets) ∧
      (secretName ∈ cfg.secrets →
        (denial = .path ↔ ∃ a ∈ entries cfg tok, listed a ∧ AdmitsMethod method a) ∧
        (denial = .method ↔ (∃ a ∈ entries cfg tok, listed a) ∧ ∀ a ∈ entries cfg tok, listed a →
          ¬ AdmitsMethod method a) ∧
        (denial = .policy ↔ ∀ a ∈ entries cfg tok, ¬ listed a))) ∧
    (∀ cfg' tok', (secretName ∈ cfg'.secrets ↔ secretName ∈ cfg.secrets) →
      (∀ name, name ∈ tok'.policies ↔ name ∈ tok.policies) →
      (∀ name a, a ∈ cfg'.entriesOf name ↔ a ∈ cfg.entriesOf name) →
      authorizeProxy cfg' tok' secretName method escapedPath = result) ∧
    (∀ cfg' tok', (secretName ∈ cfg.secrets → secretName ∈ cfg'.secrets) →
      tok.policies ⊆ tok'.policies →
      (∀ name, cfg.entriesOf name ⊆ cfg'.entriesOf name) → result = none →
      authorizeProxy cfg' tok' secretName method escapedPath = none) ∧
    (result = none → ∃ name ∈ tok.policies, ∃ a ∈ cfg.entriesOf name, ∀ cfg' tok',
      secretName ∈ cfg'.secrets →
      tok'.policies = [name] → cfg'.entriesOf name = [a] →
      authorizeProxy cfg' tok' secretName method escapedPath = none) := by
  intro result listed
  refine ⟨?_, ?_, ?_, ?_, ?_⟩
  · simp only [result, authorizeProxy_allowed, HasEntry, entries, mem_flatMap, Config.entriesOf]
    refine and_congr_right fun _ => ⟨?_, ?_⟩
    · rintro ⟨a, ⟨name, named, member⟩, holds⟩
      cases known : cfg.policies.lookup name with
      | none => simp [known] at member
      | some policy => exact ⟨name, named, policy, known, a, by simpa [known] using member, holds⟩
    · rintro ⟨name, named, policy, known, a, member, holds⟩
      exact ⟨a, ⟨name, named, by simpa [known] using member⟩, holds⟩
  · intro denial denied
    obtain ⟨unknown, reasons⟩ := deniedFor_reasons ((authorizeProxy_denied denial).mp denied)
    have silent : (∀ a ∈ entries cfg tok, ¬ listed a) ↔ ¬ HasEntry cfg tok listed := by
      simp [HasEntry]
    have unadmitted : (∀ a ∈ entries cfg tok, listed a → ¬ AdmitsMethod method a) ↔
        ¬ HasEntry cfg tok (fun a => listed a ∧ AdmitsMethod method a) := by
      simp [HasEntry]
    rw [silent, unadmitted]
    exact ⟨unknown, reasons⟩
  · intro cfg' tok' defined names members
    apply authorizeProxy_congr defined
    refine fun P => ⟨hasEntry_mono (fun name => (names name).mp) fun name a => (members name a).mp,
      ?_⟩
    exact hasEntry_mono (fun name => (names name).mpr) fun name a => (members name a).mpr
  · intro cfg' tok' defined names members allowed
    obtain ⟨known, found⟩ := authorizeProxy_allowed.mp allowed
    exact authorizeProxy_allowed.mpr ⟨defined known, hasEntry_mono names members found⟩
  · intro allowed
    obtain ⟨_, a, member, holds⟩ := authorizeProxy_allowed.mp allowed
    obtain ⟨name, named, inside⟩ := mem_flatMap.mp member
    refine ⟨name, named, a, inside, fun cfg' tok' known only alone => authorizeProxy_allowed.mpr
      ⟨known, a, ?_, holds⟩⟩
    simp [entries, only, alone]

end Decision

/-- A Policy that allows reading below a path, and one that allows posting anywhere. -/
def limited : Config :=
  { Config.empty with
    secrets := AList.singleton github.name github
    policies := (AList.singleton (bytes "reader")
        { name := bytes "reader"
          secrets :=
            [{ secretName := github.name, delivery := [.proxy], methods := some [bytes "GET"],
               paths := some [⟨bytes "/repos", [bytes "repos"]⟩] }] }).insert
        (bytes "poster")
        { name := bytes "poster"
          secrets :=
            [{ secretName := github.name, delivery := [.proxy], methods := some [bytes "POST"],
               paths := none }] } }

def limitedToken : AgentToken where
  id := bytes "t"
  policies := [bytes "reader", bytes "poster"]
  createdAt := 0
  expiresAt := 1
  lastUsedAt := none
  revokedAt := none

/-- Reading somewhere else is denied for its path, although another entry admits it. -/
theorem proxy_authorization_unpooled :
    authorizeProxy limited limitedToken github.name (bytes "GET") (bytes "/users") = some .path ∧
      ∃ a ∈ entries limited limitedToken, Lists github.name .proxy a ∧
        AdmitsMethod (bytes "GET") a := by
  have denied : authorizeProxy limited limitedToken github.name (bytes "GET") (bytes "/users") =
      some .path := by
    decide +kernel
  have spec := proxy_authorization limited limitedToken github.name (bytes "GET") (bytes "/users")
  exact ⟨denied, (((spec.2.1 .path denied).2 (by decide +kernel)).1).mp rfl⟩

end TrustedCourier.Access
