import TrustedCourier.Configs
import TrustedCourier.Credentials

/-!
# Routes and their transports

A route is one Upstream of one Secret Name, and it has a transport of its own, which
trusts the certificates the Upstream is to be verified with. A reload builds the routes
anew and lets a route keep its transport if the route of the same name had one for the
same scheme, host and certificates.

A transport is known by the order of its creation, and remembers for which Upstream it
was created. The nested loops over Secret Names and their Upstreams are one loop over
the routes they visit.
-/

namespace TrustedCourier.AgentApi

open Config List

/-- The name of a route. -/
structure RouteKey where
  secretName : Bytes
  upstream : Bytes
deriving DecidableEq

/-- A transport, with the Upstream it was created for. -/
structure Transport where
  ref : Nat
  madeFor : Upstream
deriving DecidableEq

/-- How a request to an Upstream is made. -/
structure Route where
  template : InjectionTemplate
  upstream : Upstream
  transport : Transport
deriving DecidableEq

/-- The routes by their keys. -/
abbrev Routes := AList fun _ : RouteKey => Route

/-- `sameTransport`. -/
def sameTransport (a b : Upstream) : Bool :=
  a.scheme == b.scheme && a.host == b.host && CertPool.equal a.rootCAs b.rootCAs

/-- The routes of a Secret Name, as the inner loop of `newRoutes` comes to them. Without
a template there is no Upstream to visit. -/
def routesFor (name : Bytes) (s : SecretName) : List (RouteKey × InjectionTemplate × Upstream) :=
  match s.injectionTemplate with
  | none => []
  | some template => s.upstreams.entries.map fun up => (⟨name, up.1⟩, template, up.2)

/-- The routes of a config, in the order of the outer loop. -/
def routesOf (cfg : Config) : List (RouteKey × InjectionTemplate × Upstream) :=
  cfg.secrets.entries.flatMap fun s => routesFor s.1 s.2

/-- The body of the loop in `newRoutes`, with the number of the next transport. -/
def addRoute (old : Routes) (acc : Routes × Nat) (route : RouteKey × InjectionTemplate × Upstream) :
    Routes × Nat :=
  let (key, template, up) := route
  match (old.lookup key).filter fun prev => sameTransport prev.upstream up with
  | some prev => (acc.1.insert key ⟨template, up, prev.transport⟩, acc.2)
  | none => (acc.1.insert key ⟨template, up, ⟨acc.2, up⟩⟩, acc.2 + 1)

/-- `newRoutes`. -/
def newRoutes (cfg : Config) (old : Routes) (next : Nat) : Routes × Nat :=
  (routesOf cfg).foldl (addRoute old) (∅, next)

/-- The transports that `closeUnused` closes, one for each old route that had one. -/
def closeUnused (old routes : Routes) : List Nat :=
  let kept := routes.entries.map fun rt => rt.2.transport.ref
  (old.entries.map fun rt => rt.2.transport.ref).filter fun ref => !kept.contains ref

/-! ## What a route carries -/

theorem sameTransport_iff (a b : Upstream) : sameTransport a b = true ↔
    a.scheme = b.scheme ∧ a.host = b.host ∧ CertPool.equal a.rootCAs b.rootCAs = true := by
  simp [sameTransport, and_assoc]

theorem sameTransport_refl (a : Upstream) : sameTransport a a = true :=
  (sameTransport_iff a a).mpr ⟨rfl, rfl, CertPool.equal_refl _⟩

theorem sameTransport_symm {a b : Upstream} (same : sameTransport a b = true) :
    sameTransport b a = true := by
  obtain ⟨scheme, host, roots⟩ := (sameTransport_iff a b).mp same
  exact (sameTransport_iff b a).mpr ⟨scheme.symm, host.symm, CertPool.equal_symm roots⟩

theorem sameTransport_trans {a b c : Upstream} (first : sameTransport a b = true)
    (second : sameTransport b c = true) :
    sameTransport a c = true := by
  obtain ⟨scheme, host, roots⟩ := (sameTransport_iff a b).mp first
  obtain ⟨scheme', host', roots'⟩ := (sameTransport_iff b c).mp second
  exact (sameTransport_iff a c).mpr ⟨scheme.trans scheme', host.trans host',
    CertPool.equal_trans roots roots'⟩

variable {template : InjectionTemplate} {key : RouteKey} {up : Upstream}

/-- A Secret Name's routes are those of its Upstreams. -/
theorem mem_routesFor {name : Bytes} {s : SecretName} :
    (key, template, up) ∈ routesFor name s ↔ key.secretName = name ∧
    s.injectionTemplate = some template ∧
      s.upstreams.lookup key.upstream = some up := by
  unfold routesFor
  cases s.injectionTemplate with
  | none => simp
  | some t =>
    simp only [mem_map, Option.some.injEq]
    constructor
    · rintro ⟨⟨upName, u⟩, inside, same⟩
      obtain ⟨rfl, rfl, rfl⟩ := by simpa using same
      exact ⟨rfl, rfl, AList.mem_lookup_iff.mpr inside⟩
    · rintro ⟨rfl, rfl, inside⟩
      exact ⟨⟨key.upstream, up⟩, AList.mem_lookup_iff.mp inside, rfl⟩

/-- A config has a route for every Upstream of every Secret Name. -/
theorem mem_routesOf {cfg : Config} :
    (key, template, up) ∈ routesOf cfg ↔ ∃ s, cfg.secrets.lookup key.secretName = some s ∧
      s.injectionTemplate = some template ∧ s.upstreams.lookup key.upstream = some up := by
  simp only [routesOf, mem_flatMap, mem_routesFor]
  constructor
  · rintro ⟨⟨name, s⟩, member, rfl, templated, inside⟩
    exact ⟨s, AList.mem_lookup_iff.mpr member, templated, inside⟩
  · rintro ⟨s, known, templated, inside⟩
    exact ⟨⟨key.secretName, s⟩, AList.mem_lookup_iff.mp known, rfl, templated, inside⟩

theorem routesFor_nodup (name : Bytes) (s : SecretName) :
    ((routesFor name s).map Prod.fst).Nodup := by
  unfold routesFor
  cases s.injectionTemplate with
  | none => simp
  | some t =>
    simp only [map_map, Function.comp_def]
    have names : (s.upstreams.entries.map Sigma.fst).Nodup := s.upstreams.nodupKeys
    have keys : ((s.upstreams.entries.map Sigma.fst).map (RouteKey.mk name)).Nodup :=
      names.map fun a b same => (RouteKey.mk.inj same).2
    rwa [map_map] at keys

/-- No route is visited twice. -/
theorem routesOf_nodup (cfg : Config) : ((routesOf cfg).map Prod.fst).Nodup := by
  simp only [routesOf, map_flatMap]
  rw [nodup_flatMap]
  refine ⟨fun s _ => routesFor_nodup s.1 s.2, ?_⟩
  apply (nodupKeys_iff_pairwise.mp cfg.secrets.nodupKeys).imp
  intro s s' apart key first second
  obtain ⟨⟨_, _, _⟩, member, rfl⟩ := mem_map.mp first
  obtain ⟨⟨_, _, _⟩, member', same⟩ := mem_map.mp second
  have name := (mem_routesFor.mp member).1
  have name' := (mem_routesFor.mp member').1
  exact apart (name.symm.trans ((congrArg RouteKey.secretName same).symm.trans name'))

/-- How a route came by its transport: it kept that of the old route of its name, which
was for the same place, or there was none to keep and it got a new one. -/
def Carries (old : Routes) (base next : Nat) (key : RouteKey) (rt : Route) : Prop :=
  (∃ prev, old.lookup key = some prev ∧ sameTransport prev.upstream rt.upstream = true ∧
    rt.transport = prev.transport) ∨
  ((∀ prev, old.lookup key = some prev → sameTransport prev.upstream rt.upstream = false) ∧
    rt.transport.madeFor = rt.upstream ∧ base ≤ rt.transport.ref ∧ rt.transport.ref < next)

/-- What the loop of `newRoutes` has built after the routes it has come to: each of
them, and new transports that are all different. -/
structure Built (old : Routes) (base : Nat)
    (visited : List (RouteKey × InjectionTemplate × Upstream)) (acc : Routes × Nat) : Prop where
  rises : base ≤ acc.2
  complete : ∀ key template up, (key, template, up) ∈ visited →
    ∃ transport, acc.1.lookup key = some ⟨template, up, transport⟩
  sound : ∀ key rt, acc.1.lookup key = some rt →
    (key, rt.template, rt.upstream) ∈ visited ∧ Carries old base acc.2 key rt
  apart : ∀ key key' rt rt', acc.1.lookup key = some rt → acc.1.lookup key' = some rt' →
    base ≤ rt.transport.ref →
    rt.transport.ref = rt'.transport.ref → key = key'

theorem Carries.mono {old : Routes} {base next later : Nat} {rt : Route}
    (carries : Carries old base next key rt) (rises : next ≤ later) :
    Carries old base later key rt := by
  rcases carries with kept | ⟨none, made, low, high⟩
  · exact Or.inl kept
  · exact Or.inr ⟨none, made, low, by omega⟩

/-- One round of the loop: the route gets the transport it carries. -/
theorem addRoute_spec (old : Routes) (acc : Routes × Nat) (key : RouteKey)
    (template : InjectionTemplate) (up : Upstream) :
    ∃ transport, (addRoute old acc (key, template, up)).1 =
      acc.1.insert key ⟨template, up, transport⟩ ∧
      acc.2 ≤ (addRoute old acc (key, template, up)).2 ∧
      Carries old acc.2 (addRoute old acc (key, template, up)).2 key ⟨template, up, transport⟩ := by
  unfold addRoute
  cases found : (old.lookup key).filter fun prev => sameTransport prev.upstream up with
  | some prev =>
    obtain ⟨known, same⟩ := Option.filter_eq_some_iff.mp found
    exact ⟨prev.transport, by simp [found], by simp [found], Or.inl ⟨prev, known, same, rfl⟩⟩
  | none =>
    refine ⟨⟨acc.2, up⟩, by simp [found], by simp [found],
      Or.inr ⟨?_, rfl, Nat.le_refl _, by simp [found]⟩⟩
    intro prev known
    have refused := Option.filter_eq_none_iff.mp found prev known
    simpa using refused

theorem Built.start (old : Routes) (base : Nat) : Built old base [] (∅, base) where
  rises := Nat.le_refl _
  complete := fun _ _ _ member => absurd member not_mem_nil
  sound := fun key rt found => by simp at found
  apart := fun key key' rt rt' found => by simp at found

section Loop

variable {old : Routes} {base : Nat} {visited : List (RouteKey × InjectionTemplate × Upstream)}
  {acc : Routes × Nat}
  {key : RouteKey} {rt : Route}

/-- The number of a carried transport is old, or among the new ones. -/
theorem Carries.ref_lt {next : Nat}
    (known : ∀ key rt, old.lookup key = some rt → rt.transport.ref < base)
    (carries : Carries old base next key rt) :
    rt.transport.ref < base ∨ (base ≤ rt.transport.ref ∧ rt.transport.ref < next) := by
  rcases carries with ⟨prev, found, _, same⟩ | ⟨_, _, low, high⟩
  · exact Or.inl (same ▸ known key prev found)
  · exact Or.inr ⟨low, high⟩

/-- The loop builds one route more. -/
theorem Built.step (known : ∀ key rt, old.lookup key = some rt → rt.transport.ref < base)
    (built : Built old base visited acc)
    (fresh : key ∉ visited.map Prod.fst) :
    Built old base (visited ++ [(key, template, up)]) (addRoute old acc (key, template, up)) := by
  obtain ⟨transport, inserted, rises, carries⟩ := addRoute_spec old acc key template up
  have apart : ∀ other t u, (other, t, u) ∈ visited → other ≠ key := by
    rintro other t u member rfl
    exact fresh (mem_map.mpr ⟨_, member, rfl⟩)
  have new : Carries old base (addRoute old acc (key, template, up)).2 key
      ⟨template, up, transport⟩ := by
    rcases carries with kept | ⟨none, made, low, high⟩
    · exact Or.inl kept
    · exact Or.inr ⟨none, made, built.rises.trans low, high⟩
  have cases : ∀ other rt, (addRoute old acc (key, template, up)).1.lookup other = some rt →
      (other = key ∧ rt = ⟨template, up, transport⟩) ∨
      (other ≠ key ∧ acc.1.lookup other = some rt) := by
    intro other rt found
    rw [inserted] at found
    by_cases same : other = key
    · subst same
      rw [AList.lookup_insert, Option.some.injEq] at found
      exact Or.inl ⟨rfl, found.symm⟩
    · rw [AList.lookup_insert_ne same] at found
      exact Or.inr ⟨same, found⟩
  -- A new transport has the next number, which no transport before it has.
  have beyond : ∀ other rt, acc.1.lookup other = some rt → base ≤ transport.ref →
      rt.transport.ref ≠ transport.ref := by
    intro other rt found low same
    have before := ((built.sound other rt found).2).ref_lt known
    rcases carries with ⟨prev, there, _, kept⟩ | ⟨_, _, after, _⟩
    · have old := known key prev there
      simp only at kept
      rw [kept] at low
      omega
    · simp only at after
      omega
  refine ⟨built.rises.trans rises, ?_, ?_, ?_⟩
  · intro other t u member
    rw [inserted]
    rcases mem_append.mp member with before | last
    · obtain ⟨found, there⟩ := built.complete other t u before
      exact ⟨found, by rw [AList.lookup_insert_ne (apart other t u before), there]⟩
    · obtain ⟨rfl, rfl, rfl⟩ := by simpa using last
      exact ⟨transport, AList.lookup_insert _⟩
  · intro other rt found
    rcases cases other rt found with ⟨rfl, rfl⟩ | ⟨_, before⟩
    · exact ⟨mem_append_right _ (mem_singleton.mpr rfl), new⟩
    · obtain ⟨member, carried⟩ := built.sound other rt before
      exact ⟨mem_append_left _ member, carried.mono rises⟩
  · intro one other rt rt' found found' low same
    rcases cases one rt found with ⟨rfl, rfl⟩ | ⟨_, before⟩
    · rcases cases other rt' found' with ⟨rfl, _⟩ | ⟨_, before'⟩
      · rfl
      · exact absurd same.symm (beyond other rt' before' low)
    · rcases cases other rt' found' with ⟨rfl, rfl⟩ | ⟨_, before'⟩
      · exact absurd same (beyond one rt before (same ▸ low))
      · exact built.apart one other rt rt' before before' low same

/-- `newRoutes` builds the routes of the config. -/
theorem newRoutes_built (cfg : Config)
    (known : ∀ key rt, old.lookup key = some rt → rt.transport.ref < base) :
    Built old base (routesOf cfg) (newRoutes cfg old base) := by
  have general : ∀ rest visited acc, ((visited ++ rest).map Prod.fst).Nodup →
    Built old base visited acc →
      Built old base (visited ++ rest) (rest.foldl (addRoute old) acc) := by
    intro rest
    induction rest with
    | nil =>
      intro visited acc _ built
      rwa [append_nil]
    | cons route rest ih =>
      intro visited acc distinct built
      obtain ⟨key, template, up⟩ := route
      have fresh : key ∉ visited.map Prod.fst := by
        intro member
        rw [map_append, nodup_append] at distinct
        exact distinct.2.2 key member key mem_cons_self rfl
      have assoc : visited ++ (key, template, up) :: rest = visited ++ [(key, template, up)] ++
          rest := by simp
      rw [assoc] at distinct ⊢
      exact ih _ _ distinct (built.step known fresh)
  exact general (routesOf cfg) [] (∅, base) (routesOf_nodup cfg) (Built.start old base)

end Loop

/-! ## Along reloads -/

/-- Every transport was created for the place its route leads to, before this number, and
for no other route. -/
structure Trusted (routes : Routes) (next : Nat) : Prop where
  made : ∀ key rt, routes.lookup key = some rt →
    sameTransport rt.transport.madeFor rt.upstream = true
  known : ∀ key rt, routes.lookup key = some rt → rt.transport.ref < next
  apart : ∀ key key' rt rt', routes.lookup key = some rt → routes.lookup key' = some rt' →
    rt.transport.ref = rt'.transport.ref → key = key'

theorem trusted_empty : Trusted ∅ 0 where
  made := fun key rt found => by simp at found
  known := fun key rt found => by simp at found
  apart := fun key key' rt rt' found => by simp at found

/-- A reload keeps the trust: a kept transport was for the same place as the old route,
which was for the same place as the new one. -/
theorem newRoutes_trusted (cfg : Config) {old : Routes} {next : Nat} (trusted : Trusted old next) :
    Trusted (newRoutes cfg old next).1 (newRoutes cfg old next).2 := by
  have built := newRoutes_built cfg trusted.known
  refine ⟨?_, ?_, ?_⟩
  · intro key rt found
    rcases (built.sound key rt found).2 with ⟨prev, there, same, kept⟩ | ⟨_, made, _⟩
    · rw [kept]
      exact sameTransport_trans (trusted.made key prev there) same
    · rw [made]
      exact sameTransport_refl _
  · intro key rt found
    rcases ((built.sound key rt found).2).ref_lt trusted.known with low | ⟨_, high⟩
    · exact Nat.lt_of_lt_of_le low built.rises
    · exact high
  · intro key key' rt rt' found found' same
    by_cases new : next ≤ rt.transport.ref
    · exact built.apart key key' rt rt' found found' new same
    · -- Both are kept, so they were apart before.
      have kept {one : RouteKey} {route : Route}
        (there : (newRoutes cfg old next).1.lookup one = some route)
          (low : ¬ next ≤ route.transport.ref) :
          ∃ prev, old.lookup one = some prev ∧ route.transport = prev.transport := by
        rcases (built.sound one route there).2 with ⟨prev, before, _, kept⟩ | ⟨_, _, high, _⟩
        · exact ⟨prev, before, kept⟩
        · exact absurd high low
      obtain ⟨prev, before, same_transport⟩ := kept found new
      obtain ⟨prev', before', same_transport'⟩ := kept found' (same ▸ new)
      exact trusted.apart key key' prev prev' before before'
        (by rw [← same_transport, ← same_transport', same])

/-- The routes after configs have been served one after another. -/
def serve (first : Config) (later : List Config) : Routes × Nat :=
  later.foldl (fun acc cfg => newRoutes cfg acc.1 acc.2) (newRoutes first ∅ 0)

theorem serve_concat (first cfg : Config) (later : List Config) :
    serve first (later ++ [cfg]) = newRoutes cfg (serve first later).1 (serve first later).2 := by
  simp [serve]

/-- Whatever configs are served, the routes are trusted and those of the last config. -/
theorem serve_trusted (first : Config) (later : List Config) :
    Trusted (serve first later).1 (serve first later).2 ∧
      ∀ key rt, (serve first later).1.lookup key = some rt →
        (key, rt.template, rt.upstream) ∈ routesOf (later.getLastD first) := by
  induction later using List.reverseRecOn with
  | nil =>
    have built : Built ∅ 0 (routesOf first) (newRoutes first ∅ 0) :=
      newRoutes_built first trusted_empty.known
    exact ⟨newRoutes_trusted first trusted_empty, fun key rt found => (built.sound key rt found).1⟩
  | append_singleton before cfg ih =>
    rw [serve_concat]
    have built := newRoutes_built cfg ih.1.known
    refine ⟨newRoutes_trusted cfg ih.1, fun key rt found => ?_⟩
    simpa using (built.sound key rt found).1

/-- A reload that does not change where a route leads leaves its transport. -/
theorem newRoutes_keeps {cfg : Config} {old : Routes} {next : Nat} (trusted : Trusted old next)
    {rt : Route} (found : old.lookup key = some rt)
    (still : (key, template, up) ∈ routesOf cfg) (same : sameTransport rt.upstream up = true) :
    (newRoutes cfg old next).1.lookup key = some ⟨template, up, rt.transport⟩ := by
  have built := newRoutes_built cfg trusted.known
  obtain ⟨transport, there⟩ := built.complete key template up still
  rcases (built.sound key _ there).2 with ⟨prev, before, _, kept⟩ | ⟨none, _⟩
  · obtain rfl : prev = rt := Option.some.inj (before.symm.trans found)
    simp only at kept
    rw [there, kept]
  · have refused := none rt found
    simp only at refused
    rw [same] at refused
    cases refused

/-- A transport is closed when no route uses it. -/
theorem mem_closeUnused (old routes : Routes) (ref : Nat) : ref ∈ closeUnused old routes ↔
    (∃ key rt, old.lookup key = some rt ∧ rt.transport.ref = ref) ∧
      ∀ key rt, routes.lookup key = some rt → rt.transport.ref ≠ ref := by
  have used (m : Routes) : ref ∈ m.entries.map (fun rt => rt.2.transport.ref) ↔
      ∃ key rt, m.lookup key = some rt ∧ rt.transport.ref = ref := by
    simp only [mem_map, Sigma.exists]
    exact exists_congr fun key => exists_congr fun rt => and_congr_left fun _ =>
      AList.mem_lookup_iff.symm
  simp only [closeUnused, mem_filter, used, Bool.not_eq_true', ← Bool.not_eq_true, contains_iff_mem]
  refine and_congr_right fun _ => ?_
  simp

/-- Upstream trust survives reloads. After any configs have been served one after
another, every route is one of the last config, its transport was created for an
Upstream with the same scheme, host and certificates, and no other route has that
transport. A route whose scheme, host and certificates stay as they are through any
further configs keeps its transport. And a reload closes those transports of the old
routes that no new route has. -/
theorem upstream_trust (first : Config) (later : List Config) :
    let served := serve first later
    (∀ key rt, served.1.lookup key = some rt →
      (key, rt.template, rt.upstream) ∈ routesOf (later.getLastD first) ∧
        rt.transport.madeFor.scheme = rt.upstream.scheme ∧
          rt.transport.madeFor.host = rt.upstream.host ∧
        CertPool.equal rt.transport.madeFor.rootCAs rt.upstream.rootCAs = true) ∧
    (∀ key key' rt rt', served.1.lookup key = some rt → served.1.lookup key' = some rt' →
      rt.transport.ref = rt'.transport.ref → key = key') ∧
    (∀ after key rt, served.1.lookup key = some rt →
      (∀ cfg ∈ after, ∃ template up, (key, template, up) ∈ routesOf cfg ∧
        up.scheme = rt.upstream.scheme ∧
        up.host = rt.upstream.host ∧ CertPool.equal up.rootCAs rt.upstream.rootCAs = true) →
      ∃ rt', (serve first (later ++ after)).1.lookup key = some rt' ∧
        rt'.transport = rt.transport) ∧
    ∀ cfg ref, ref ∈ closeUnused served.1 (newRoutes cfg served.1 served.2).1 ↔
      (∃ key rt, served.1.lookup key = some rt ∧ rt.transport.ref = ref) ∧
        ∀ key rt, (newRoutes cfg served.1 served.2).1.lookup key = some rt →
          rt.transport.ref ≠ ref := by
  intro served
  obtain ⟨trusted, current⟩ := serve_trusted first later
  refine ⟨?_, trusted.apart, ?_, fun cfg ref => mem_closeUnused _ _ ref⟩
  · intro key rt found
    exact ⟨current key rt found, (sameTransport_iff _ _).mp (trusted.made key rt found)⟩
  · intro after key rt found unchanged
    -- The route after each config still leads where the first one did.
    have along : ∃ rt', (serve first (later ++ after)).1.lookup key = some rt' ∧
      rt'.transport = rt.transport ∧
        sameTransport rt.upstream rt'.upstream = true := by
      induction after using List.reverseRecOn with
      | nil =>
        rw [append_nil]
        exact ⟨rt, found, rfl, sameTransport_refl _⟩
      | append_singleton before cfg ih =>
        obtain ⟨rt', there, kept, same⟩ :=
          ih fun other member => unchanged other (mem_append_left _ member)
        obtain ⟨template, up, still, unmoved⟩ :=
          unchanged cfg (mem_append_right _ (mem_singleton.mpr rfl))
        have stays : sameTransport rt.upstream up = true :=
          sameTransport_symm ((sameTransport_iff _ _).mpr unmoved)
        have keeps := newRoutes_keeps (serve_trusted first (later ++ before)).1 there still
          (sameTransport_trans (sameTransport_symm same) stays)
        rw [← append_assoc, serve_concat]
        exact ⟨_, keeps, kept, stays⟩
    obtain ⟨rt', there, kept, _⟩ := along
    exact ⟨rt', there, kept⟩

/-- The Secret Name moved to another host. -/
def githubMoved : SecretName :=
  { github with
    upstreams := AList.singleton (bytes "api")
      { name := bytes "api", scheme := bytes "https", host := bytes "ghe.example.com",
        basePath := [], rootCAs := none }
    pinned := by simp [github] }

/-- A route that moves to another host loses its transport, which is closed. -/
theorem upstream_trust_moved :
    let first := { Config.empty with secrets := AList.singleton github.name github }
    let moved := { Config.empty with secrets := AList.singleton github.name githubMoved }
    0 ∈ closeUnused (serve first []).1 (newRoutes moved (serve first []).1 (serve first []).2).1 ∧
      ∃ rt, (serve first [moved]).1.lookup ⟨github.name, bytes "api"⟩ = some rt ∧
        rt.transport.madeFor.host = bytes "ghe.example.com" := by
  intro first moved
  obtain ⟨made, _⟩ := upstream_trust first [moved]
  refine ⟨by decide +kernel, ?_⟩
  have found : ∃ rt, (serve first [moved]).1.lookup ⟨github.name, bytes "api"⟩ = some rt ∧
      rt.upstream.host = bytes "ghe.example.com" := ⟨_, rfl, by decide +kernel⟩
  obtain ⟨rt, there, host⟩ := found
  exact ⟨rt, there, (made _ rt there).2.2.1.trans host⟩

end TrustedCourier.AgentApi
