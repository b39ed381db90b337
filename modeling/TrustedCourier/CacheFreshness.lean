import TrustedCourier.CacheOwnership

/-!
# What is cached is fresh and configured

An entry holds what was fetched from its place, by a fetch that began no earlier than the
time the entry remembers. Outside a reload, every entry is one the running config asks
for. A call that read the config before a reload stored its snapshot may still cache what
the reload removed, but it holds the lock by then, so `prune` comes after it.
-/

namespace TrustedCourier.Resolver

open Config Runs Option

/-- The Secret at the address was fetched from this place, after this time. -/
def Cache.From (c : Cache) (backend location : Bytes) (fetched : Int) (s : Nat) : Prop :=
  ∃ secret, c.secrets[s]? = some secret ∧ secret.origin.backend = backend ∧
    secret.origin.location = location ∧
    fetched ≤ secret.origin.began

/-- The config asks for what is cached under the name. -/
def Cache.Fits (c : Cache) (cfg : Config) (name : Bytes) : Prop :=
  ∀ address e, c.entry name = some (address, e) → ∃ s, cfg.secrets.lookup name = some s ∧
    s.backend = e.backend ∧
    s.location = e.location ∧ s.cacheTTL ≠ 0 ∧ e.ttl ≤ s.cacheTTL

/-- What a call on its way may rely on. The config it has read under the lock is the
running one, or a reload has yet to prune. -/
def Cache.Relies (c : Cache) (i : Nat) : Get → Prop
  | .timed _ fetched => fetched ≤ c.clock
  | .fetching _ fetched began => fetched ≤ began
  | .got q fetched value | .cloned q fetched value _ => c.From q.backend q.location fetched value
  | .inserting q fetched value _ current =>
    c.From q.backend q.location fetched value ∧ c.mu = .get i ∧
      (c.reload = .none → current = c.running.secrets.lookup q.name)
  | .idle | .called _ | .missed _ | .returned _ | .released => True

/-- How far a reload has brought the entries in line with the running config. -/
def Cache.InLine (c : Cache) : Reload → Prop
  | .none => ∀ name, c.Fits c.running name
  | .stored cfg => cfg = c.running
  | .pruning cfg todo =>
    cfg = c.running ∧ c.mu = .prune ∧ ∀ name, name ∉ todo → c.Fits c.running name

/-- What holds of the cache and its callers in every run. -/
structure Fresh (c : Cache) : Prop where
  filled : ∀ (address : Nat) (e : Entry), c.heap[address]? = some e →
    c.From e.backend e.location e.fetched e.value
  calls : ∀ i, c.Relies i (c.gets i)
  inLine : c.InLine c.reload
  closed : c.closed = true → c.entries = ∅

/-- A later cache: Secrets are still where they were, and have the same origin. -/
structure Ages (c c' : Cache) : Prop where
  clock : c.clock ≤ c'.clock
  secrets : ∀ (s : Nat) (secret : Secret), c.secrets[s]? = some secret →
    ∃ later : Secret, c'.secrets[s]? = some later ∧ later.origin = secret.origin

/-- A later cache with no new entry, and none that is cached longer than before. -/
structure Follows (c c' : Cache) : Prop extends Ages c c' where
  heap : ∀ (address : Nat) (e : Entry), c'.heap[address]? = some e →
    ∃ before : Entry, c.heap[address]? = some before ∧
    e.backend = before.backend ∧ e.location = before.location ∧ e.fetched = before.fetched ∧
    e.value = before.value ∧
    e.ttl ≤ before.ttl
  entries : ∀ name address, c'.entries.lookup name = some address →
    c.entries.lookup name = some address

section Steps

variable {c c' : Cache} {i : Nat} {g : Get}

theorem Fresh.new (running : Config) (clock : Int) : Fresh (Cache.new running clock) where
  filled := fun address e there => by simp [Cache.new] at there
  calls := fun _ => trivial
  inLine := fun name address e found => by simp [Cache.entry, Cache.new] at found
  closed := fun _ => rfl

theorem Cache.From.ages {backend location : Bytes} {fetched : Int} {s : Nat}
    (origin : c.From backend location fetched s) (ages : Ages c c') :
    c'.From backend location fetched s := by
  obtain ⟨secret, there, from_⟩ := origin
  obtain ⟨later, there', same⟩ := ages.secrets s secret there
  exact ⟨later, there', same ▸ from_⟩

variable {cfg : Config}

theorem Cache.Fits.follows {name : Bytes} (fits : c.Fits cfg name) (follows : Follows c c') :
    c'.Fits cfg name := by
  intro address e found
  obtain ⟨named, there⟩ := Cache.entry_eq_some.mp found
  obtain ⟨before, there', backend, location, _, _, shorter⟩ := follows.heap address e there
  obtain ⟨s, known, sameBackend, sameLocation, caches, bound⟩ :=
    fits address before (Cache.entry_eq_some.mpr ⟨follows.entries name address named, there'⟩)
  exact ⟨s, known, sameBackend.trans backend.symm, sameLocation.trans location.symm, caches,
    Int.le_trans shorter bound⟩

/-- What a call about to cache relies on, apart from its Secret. -/
def Cache.Guards (c : Cache) (i : Nat) : Get → Prop
  | .inserting q _ _ _ current =>
    c.mu = .get i ∧ (c.reload = .none → current = c.running.secrets.lookup q.name)
  | _ => True

/-- Time does not matter to a call, as long as it still has the lock it relies on. -/
theorem Cache.Relies.ages (relies : c.Relies i g) (ages : Ages c c')
    (guards : c.Guards i g → c'.Guards i g) :
    c'.Relies i g := by
  cases g with
  | idle | called | missed | returned | released => trivial
  | timed q fetched => exact Int.le_trans relies ages.clock
  | fetching q fetched began => exact relies
  | got q fetched value | cloned q fetched value delivered => exact Cache.From.ages relies ages
  | inserting q fetched value delivered current => exact ⟨relies.1.ages ages, guards relies.2⟩

/-- The lock, the reload and the running config. -/
def Cache.shared (c : Cache) : Lock × Reload × Config := (c.mu, c.reload, c.running)

theorem Cache.shared_eq (same : c'.shared = c.shared) :
    c'.mu = c.mu ∧ c'.reload = c.reload ∧ c'.running = c.running := by
  simpa only [Cache.shared, Prod.mk.injEq] using same

theorem Cache.Guards.shared (same : c'.shared = c.shared) (guards : c.Guards i g) :
    c'.Guards i g := by
  obtain ⟨mu, reload, running⟩ := Cache.shared_eq same
  cases g with
  | inserting q fetched value delivered current =>
    exact ⟨mu ▸ guards.1, fun none => running ▸ guards.2 (reload ▸ none)⟩
  | idle | called | missed | timed | fetching | got | cloned | returned | released => trivial

theorem Cache.InLine.follows {stage : Reload} (inLine : c.InLine stage) (follows : Follows c c')
    (same : c'.shared = c.shared) : c'.InLine stage := by
  obtain ⟨mu, _, running⟩ := Cache.shared_eq same
  cases stage with
  | none => exact fun name => running ▸ (inLine name).follows follows
  | stored cfg => exact inLine.trans running.symm
  | pruning cfg todo =>
    obtain ⟨same, held, visited⟩ := inLine
    exact ⟨same.trans running.symm, mu ▸ held, fun name member => running ▸
      (visited name member).follows follows⟩

theorem Fresh.still_filled (fresh : Fresh c) (follows : Follows c c') (address : Nat) (e : Entry)
    (there : c'.heap[address]? = some e) : c'.From e.backend e.location e.fetched e.value := by
  obtain ⟨before, there', backend, location, fetched, value, _⟩ := follows.heap address e there
  rw [backend, location, fetched, value]
  exact (fresh.filled address before there').ages follows.toAges

/-- A step that makes no entry, and does not touch the reload or the lock. -/
theorem Fresh.follows (fresh : Fresh c) (follows : Follows c c') (same : c'.shared = c.shared)
    (closed : c'.closed = true → c'.entries = ∅)
    (calls : ∀ j, c'.gets j = c.gets j ∨ c'.Relies j (c'.gets j)) : Fresh c' where
  filled := fresh.still_filled follows
  calls := by
    intro j
    rcases calls j with unmoved | relies
    · rw [unmoved]
      exact (fresh.calls j).ages follows.toAges (Cache.Guards.shared same)
    · exact relies
  inLine := (Cache.shared_eq same).2.1 ▸ fresh.inLine.follows follows same
  closed := closed

theorem Ages.same (clock : c.clock ≤ c'.clock) (secrets : c'.secrets = c.secrets) : Ages c c' where
  clock := clock
  secrets := fun _ secret there => ⟨secret, secrets ▸ there, rfl⟩

theorem Follows.same (clock : c.clock ≤ c'.clock) (secrets : c'.secrets = c.secrets)
    (heap : c'.heap = c.heap) (entries : c'.entries = c.entries) : Follows c c' where
  toAges := Ages.same clock secrets
  heap := fun _ e there => ⟨e, heap ▸ there, rfl, rfl, rfl, rfl, Int.le_refl _⟩
  entries := fun _ _ named => entries ▸ named

/-- Nothing about Secrets and entries has changed. -/
theorem Follows.unchanged
    (same : (c'.clock, c'.secrets, c'.heap, c'.entries) = (c.clock, c.secrets, c.heap, c.entries)) :
    Follows c c' := by
  obtain ⟨clock, secrets, heap, entries⟩ := by simpa only [Prod.mk.injEq] using same
  exact Follows.same (Int.le_of_eq clock.symm) secrets heap entries

/-- Secrets are appended. -/
theorem Follows.append (secrets : List Secret) (gets : Nat → Get) (mu : Lock) :
    Follows c { c with secrets := c.secrets ++ secrets, gets := gets, mu := mu } where
  clock := Int.le_refl _
  secrets := fun _ secret there =>
    ⟨secret, List.getElem?_append_left (List.getElem?_eq_some_iff.mp there).1 ▸ there, rfl⟩
  heap := fun _ e there => ⟨e, there, rfl, rfl, rfl, rfl, Int.le_refl _⟩
  entries := fun _ _ named => named

theorem Follows.wiped (wiped : Cache.Wiped c c') : Follows c c' where
  clock := Int.le_of_eq wiped.clock.symm
  secrets := by
    intro s secret there
    have mapped : (c'.secrets.map Secret.made)[s]? =
        some secret.made := by simp [wiped.secrets, there]
    obtain ⟨later, there', same⟩ := by simpa using mapped
    have origins : later.made.origin = secret.made.origin := congrArg Secret.origin same
    exact ⟨later, there', origins⟩
  heap := by
    intro address e there
    obtain ⟨before, there', same⟩ := Cache.getElem?_of_map wiped.heap there
    have fields := Entry.mk.inj same
    exact ⟨before, there', fields.2.1, fields.2.2.1, fields.2.2.2.1, fields.2.2.2.2.2.1,
      Int.le_of_eq fields.2.2.2.2.1⟩
  entries := fun _ _ named => wiped.entries ▸ named

theorem Follows.trans {c'' : Cache} (first : Follows c c') (second : Follows c' c'') :
    Follows c c'' where
  clock := Int.le_trans first.clock second.clock
  secrets := by
    intro s secret there
    obtain ⟨mid, there', same⟩ := first.secrets s secret there
    obtain ⟨later, there'', same'⟩ := second.secrets s mid there'
    exact ⟨later, there'', same'.trans same⟩
  heap := by
    intro address e there
    obtain ⟨mid, there', backend, location, fetched, value, shorter⟩ := second.heap address e there
    obtain ⟨before, there'', backend', location', fetched', value', shorter'⟩ :=
      first.heap address mid there'
    exact ⟨before, there'', backend.trans backend', location.trans location',
      fetched.trans fetched', value.trans value', Int.le_trans shorter shorter'⟩
  entries :=
    fun name address named => first.entries name address (second.entries name address named)

theorem Follows.release (follows : Follows c c') (s : Nat) : Follows c (c'.release s) :=
  follows.trans (Follows.wiped (Cache.wiped_release c' s))

theorem Follows.erase (name : Bytes) : Follows c { c with entries := c.entries.erase name } where
  clock := Int.le_refl _
  secrets := fun _ secret there => ⟨secret, there, rfl⟩
  heap := fun _ e there => ⟨e, there, rfl, rfl, rfl, rfl, Int.le_refl _⟩
  entries := by
    intro other address named
    by_cases same : other = name
    · subst same
      simp at named
    · rwa [AList.lookup_erase_ne same] at named

/-- A call goes on, and nothing else changes but what `Follows` allows. -/
theorem Fresh.turn (fresh : Fresh c) (follows : Follows c c') (same : c'.shared = c.shared)
    (closed : c'.closed = c.closed) (entries : c'.entries = c.entries)
    (gets : c'.gets = (c.turn i g).gets) (relies : c'.Relies i g) : Fresh c' := by
  refine fresh.follows follows same (fun shut => entries.trans (fresh.closed (closed ▸ shut)))
    fun j => ?_
  by_cases own : j = i
  · subst own
    rw [gets, c.turn_same]
    exact Or.inr relies
  · rw [gets, c.turn_other own]
    exact Or.inl rfl

/-- A call relies on the lock and the reload only while it is about to cache. -/
theorem Cache.Guards.unlocked (unheld : c.mu ≠ .get i) (guards : c.Guards i g) : c'.Guards i g := by
  cases g with
  | inserting q fetched value delivered current => exact absurd guards.1 unheld
  | idle | called | missed | timed | fetching | got | cloned | returned | released => trivial

/-- A step in which the lock, the reload or the running config changes. Calls that are not
about to cache do not rely on them. -/
theorem Fresh.relock (fresh : Fresh c) (ages : Ages c c')
    (filled : ∀ (address : Nat) (e : Entry), c'.heap[address]? = some e →
      c'.From e.backend e.location e.fetched e.value)
    (calls : ∀ j, (c'.gets j = c.gets j ∧ c.mu ≠ .get j) ∨ c'.Relies j (c'.gets j))
    (inLine : c'.InLine c'.reload) (closed : c'.closed = true → c'.entries = ∅) : Fresh c' where
  filled := filled
  calls := by
    intro j
    rcases calls j with ⟨same, unheld⟩ | relies
    · rw [same]
      exact (fresh.calls j).ages ages (Cache.Guards.unlocked unheld)
    · exact relies
  inLine := inLine
  closed := closed

/-- A call takes the lock and reads the running config. -/
theorem Fresh.lock (fresh : Fresh c) (free : c.mu = .free) {q : Query} {fetched : Int}
    {value delivered : Nat} (came : c.gets i = .cloned q fetched value delivered) :
    Fresh { c.turn i (.inserting q fetched value delivered (c.running.secrets.lookup q.name)) with
      mu := .get i } := by
  have relies := fresh.calls i
  rw [came] at relies
  have inLine := fresh.inLine
  refine fresh.relock (Ages.same (Int.le_refl _) rfl) fresh.filled (fun j => ?_) ?_ fresh.closed
  · by_cases same : j = i
    · subst same
      rw [c.turn_same]
      exact Or.inr ⟨relies, rfl, fun _ => rfl⟩
    · exact Or.inl ⟨c.turn_other same _, by simp [free]⟩
  · show Cache.InLine _ c.reload
    cases stage : c.reload with
    | none | stored cfg =>
      rw [stage] at inLine
      exact inLine
    | pruning cfg todo =>
      rw [stage] at inLine
      cases free.symm.trans inLine.2.1

theorem Cache.mayCache_some {q : Query} {current : Option SecretName} {s : SecretName}
    (may : c.mayCache q current = some s) : current = some s ∧ c.closed = false ∧
    s.backend = q.backend ∧
      s.location = q.location ∧ s.cacheTTL ≠ 0 := by
  obtain ⟨known, checks⟩ := filter_eq_some_iff.mp may
  obtain ⟨⟨⟨opened, backend⟩, location⟩, caches⟩ := by simpa using checks
  exact ⟨known, opened, backend, location, caches⟩

/-- A call gives up the lock. The reload, if there is one, has yet to begin to prune. -/
theorem Fresh.unlock (fresh : Fresh c) (held : c.mu = .get i) (ages : Ages c c')
    (filled : ∀ (address : Nat) (e : Entry), c'.heap[address]? = some e →
      c'.From e.backend e.location e.fetched e.value)
    {answer : Answer} (gets : c'.gets = (c.turn i (.returned answer)).gets)
    (running : c'.running = c.running) (reload : c'.reload = c.reload)
    (fits : c.reload = .none → ∀ name, c'.Fits c.running name)
    (closed : c'.closed = true → c'.entries = ∅) : Fresh c' := by
  refine fresh.relock ages filled (fun j => ?_) ?_ closed
  · rw [gets]
    by_cases same : j = i
    · subst same
      rw [c.turn_same]
      exact Or.inr trivial
    · rw [held]
      exact Or.inl ⟨c.turn_other same _, by simpa using Ne.symm same⟩
  · have inLine := fresh.inLine
    rw [reload]
    cases stage : c.reload with
    | none => exact fun name => running ▸ fits stage name
    | stored cfg =>
      rw [stage] at inLine
      exact inLine.trans running.symm
    | pruning cfg todo =>
      rw [stage] at inLine
      cases held.symm.trans inLine.2.1

/-- A call that caches its Secret keeps the cache fresh. -/
theorem Fresh.insert (kept : Kept c) (fresh : Fresh c) {q : Query} {fetched : Int}
    {value delivered : Nat} {current : Option SecretName}
    (came : c.gets i = .inserting q fetched value delivered current) :
    Fresh (c.insert i q fetched value delivered current) := by
  have relies := fresh.calls i
  rw [came] at relies
  obtain ⟨origin, held, read⟩ := relies
  have released : Follows c { c.turn i (.returned (.secret delivered)) with mu := .free } :=
    Follows.unchanged rfl
  unfold Cache.insert
  cases may : c.mayCache q current with
  | none =>
    have follows := released.release value
    refine fresh.unlock held follows.toAges (fresh.still_filled follows) rfl rfl rfl
      (fun none name => ?_) fresh.closed
    · have inLine := fresh.inLine
      rw [none] at inLine
      exact (inLine name).follows follows
  | some s =>
    obtain ⟨known, opened, backend, location, caches⟩ := Cache.mayCache_some may
    obtain ⟨wiped, same, replaced, _⟩ :=
      Cache.replace_eq { c.turn i (.returned (.secret delivered)) with mu := .free }
      (Cache.newEntry q fetched value s)
    simp only [replaced]
    have follows : Follows c wiped := released.trans (Follows.wiped same)
    have low : ∀ name address, wiped.entries.lookup name = some address →
        address < wiped.heap.length := by
      intro name address found
      rw [same.length]
      exact kept.placed_lt (follows.entries name address found)
    refine fresh.unlock held ⟨follows.clock, follows.secrets⟩ ?_ same.gets same.running same.reload
      ?_ ?_
    · intro address e there
      rcases Cache.getElem?_concat there with before | rfl
      · exact fresh.still_filled follows address e before
      · exact origin.ages ⟨follows.clock, follows.secrets⟩
    · intro none name address e found
      have inLine := fresh.inLine
      rw [none] at inLine
      obtain ⟨named, there⟩ := Cache.entry_eq_some.mp found
      by_cases own : name = q.name
      · subst own
        obtain rfl : wiped.heap.length = address := by simpa [Cache.newEntry] using named
        obtain rfl : Cache.newEntry q fetched value s = e := by simpa using there
        exact ⟨s, (read none).symm.trans known, backend, location, caches, Int.min_le_right _ _⟩
      · have before : wiped.entries.lookup name = some address :=
          (AList.lookup_insert_ne own).symm.trans named
        rw [List.getElem?_append_left (low name address before)] at there
        exact (inLine name).follows follows address e (Cache.entry_eq_some.mpr ⟨before, there⟩)
    · intro shut
      exact absurd (same.closed.symm.trans shut) (by simp [Cache.turn, opened])

theorem Cache.leaves_some {name : Bytes} {e : Entry} {ttl : Int}
    (left : c.leaves cfg name e = some ttl) :
    ∃ s, cfg.secrets.lookup name = some s ∧ s.backend = e.backend ∧ s.location = e.location ∧
      s.cacheTTL ≠ 0 ∧
      s.cacheTTL = ttl := by
  obtain ⟨s, kept, rfl⟩ := map_eq_some_iff.mp left
  obtain ⟨known, checks⟩ := filter_eq_some_iff.mp kept
  obtain ⟨⟨⟨backend, location⟩, caches⟩, _⟩ := by simpa using checks
  exact ⟨s, known, backend, location, caches, rfl⟩

/-- What `prune` does to one entry: afterwards the config asks for it, if it is still
there. -/
theorem Cache.pruneEntry_fits (c : Cache) (cfg : Config) (name : Bytes) :
    Follows c (c.pruneEntry cfg name) ∧ (c.pruneEntry cfg name).Fits cfg name := by
  rcases c.pruneEntry_cases cfg name with
    ⟨none, same⟩ | ⟨address, e, found, ⟨_, wiped⟩ | ⟨ttl, left, kept⟩⟩
  · rw [same]
    refine ⟨Follows.unchanged rfl, fun address e found => ?_⟩
    cases none.symm.trans found
  · rw [wiped]
    refine ⟨(Follows.wiped (Cache.wiped_wipe c address e)).trans (Follows.erase name),
      fun address e found => ?_⟩
    obtain ⟨named, _⟩ := Cache.entry_eq_some.mp found
    exact absurd named (by simp)
  · obtain ⟨s, known, backend, location, caches, rfl⟩ := Cache.leaves_some left
    obtain ⟨named, there⟩ := Cache.entry_eq_some.mp found
    rcases kept with ⟨shorter, shortened⟩ | ⟨enough, same⟩
    · rw [shortened]
      refine ⟨⟨Ages.same (Int.le_refl _) rfl, fun place e' found' => ?_, fun _ _ known => known⟩,
        fun place e' found' => ?_⟩
      · rcases Cache.getElem?_modify_cases found' with ⟨_, before⟩ | ⟨before, rfl, found, rfl⟩
        · exact ⟨e', before, rfl, rfl, rfl, rfl, Int.le_refl _⟩
        · obtain rfl : e = before := some.inj (there.symm.trans found)
          exact ⟨e, there, rfl, rfl, rfl, rfl, Int.le_of_lt shorter⟩
      · obtain ⟨named', there'⟩ := Cache.entry_eq_some.mp found'
        obtain rfl : address = place := some.inj (named.symm.trans named')
        rcases Cache.getElem?_modify_cases there' with ⟨apart, _⟩ | ⟨before, _, found, rfl⟩
        · exact absurd rfl apart
        · obtain rfl : e = before := some.inj (there.symm.trans found)
          exact ⟨s, known, backend, location, caches, Int.le_refl _⟩
    · rw [same]
      refine ⟨Follows.unchanged rfl, fun address' e' found' => ?_⟩
      obtain ⟨_, rfl⟩ := Prod.mk.inj (some.inj (found.symm.trans found'))
      exact ⟨s, known, backend, location, caches, enough⟩

theorem Cache.pruneEntry_frame (c : Cache) (cfg : Config) (name : Bytes) :
    (c.pruneEntry cfg name).mu = c.mu ∧ (c.pruneEntry cfg name).running = c.running ∧
      (c.pruneEntry cfg name).closed = c.closed ∧
      ((c.pruneEntry cfg name).entries = c.entries ∨
        (c.pruneEntry cfg name).entries = c.entries.erase name) := by
  rcases c.pruneEntry_cases cfg name with
    ⟨_, same⟩ | ⟨_, _, _, ⟨_, wiped⟩ | ⟨_, _, ⟨_, shorter⟩ | ⟨_, same⟩⟩⟩
  · rw [same]
    exact ⟨rfl, rfl, rfl, Or.inl rfl⟩
  · rw [wiped]
    exact ⟨rfl, rfl, rfl, Or.inr rfl⟩
  · rw [shorter]
    exact ⟨rfl, rfl, rfl, Or.inl rfl⟩
  · rw [same]
    exact ⟨rfl, rfl, rfl, Or.inl rfl⟩

section

variable (fresh : Fresh c)
include fresh

/-- `prune` visits one name more. -/
theorem Fresh.prune {todo : List Bytes} (pruning : c.reload = .pruning cfg todo)
    (name : Bytes) :
    Fresh { c.pruneEntry cfg name with reload := .pruning cfg (todo.erase name) } := by
  obtain ⟨follows, fits⟩ := c.pruneEntry_fits cfg name
  obtain ⟨mu, running, closed, entries⟩ := c.pruneEntry_frame cfg name
  have inLine := fresh.inLine
  rw [pruning] at inLine
  obtain ⟨rfl, held, visited⟩ := inLine
  have later : Follows c { c.pruneEntry c.running name with
      reload := .pruning c.running (todo.erase name) } :=
    ⟨⟨follows.clock, follows.secrets⟩, follows.heap, follows.entries⟩
  refine fresh.relock later.toAges (fresh.still_filled later) (fun j => ?_)
    ⟨running.symm, mu.trans held, fun other gone => ?_⟩ ?_
  · exact Or.inl ⟨congrFun (c.pruneEntry_gets c.running name) j, by simp [held]⟩
  · rw [running]
    by_cases same : other = name
    · exact same ▸ fits
    · have before : other ∉ todo := fun member => gone ((List.mem_erase_of_ne same).mpr member)
      exact (visited other before).follows later
  · intro shut
    have none := fresh.closed (closed ▸ shut)
    rcases entries with same | erased
    · exact same.trans none
    · exact erased.trans (by rw [none]; rfl)

/-- `prune` is about to begin: names that have no entry need no visit. -/
theorem Fresh.beginPrune (stored : c.reload = .stored cfg) (free : c.mu = .free) :
    Fresh { c with reload := .pruning cfg c.entries.keys, mu := .prune } := by
  have inLine := fresh.inLine
  rw [stored] at inLine
  refine fresh.relock (Ages.same (Int.le_refl _) rfl) fresh.filled
    (fun j => Or.inl ⟨rfl, by simp [free]⟩)
    ⟨inLine, rfl, fun name absent address e found => ?_⟩ fresh.closed
  obtain ⟨named, _⟩ := Cache.entry_eq_some.mp found
  have listed : name ∈ c.entries.keys :=
    AList.mem_keys.mp (AList.lookup_isSome.mp (by simp [named]))
  exact absurd listed absent

theorem Fresh.endPrune (pruning : c.reload = .pruning cfg []) :
    Fresh { c with reload := .none, mu := .free } := by
  have inLine := fresh.inLine
  rw [pruning] at inLine
  obtain ⟨_, held, visited⟩ := inLine
  exact fresh.relock (Ages.same (Int.le_refl _) rfl) fresh.filled
    (fun j => Or.inl ⟨rfl, by simp [held]⟩) (fun name => visited name List.not_mem_nil) fresh.closed

/-- A reload stores its snapshot. A call that has read the config before relies on the
reload to prune. -/
theorem Fresh.store (cfg : Config) : Fresh { c with running := cfg, reload := .stored cfg } := by
  refine fresh.relock (Ages.same (Int.le_refl _) rfl) fresh.filled (fun j => Or.inr ?_) rfl
    fresh.closed
  have relies := fresh.calls j
  cases came : c.gets j with
  | inserting q fetched value delivered current =>
    rw [came] at relies
    exact ⟨relies.1, relies.2.1, fun none => absurd none (by simp)⟩
  | idle | called | missed | timed | fetching | got | cloned | returned | released =>
    rw [came] at relies
    exact relies

/-- A call goes on, and nothing else changes. -/
theorem Fresh.pass (relies : (c.turn i g).Relies i g) : Fresh (c.turn i g) :=
  fresh.turn (Follows.unchanged rfl) rfl rfl rfl rfl relies

/-- A call makes a Secret. -/
theorem Fresh.append {new : Secret}
    (relies : { c.turn i g with secrets := c.secrets ++ [new] }.Relies i g) :
    Fresh { c.turn i g with secrets := c.secrets ++ [new] } :=
  fresh.turn (Follows.append [new] _ c.mu) rfl rfl rfl rfl relies

theorem Fresh.lookup (i : Nat) (q : Query) (memory : Bool) : Fresh (c.lookup i q memory) := by
  rcases c.lookup_cases i q memory with missed | ⟨failure, failed⟩ | ⟨_, _, _, _, _, _, _, hit⟩
  · rw [missed]
    exact fresh.pass trivial
  · rw [failed]
    exact fresh.pass trivial
  · rw [hit]
    exact fresh.append trivial

/-- A callback removes its entry, if it is still there, and releases its Secret. -/
theorem Fresh.expire (address : Nat) (e : Entry) : Fresh (c.expire address e) := by
  unfold Cache.expire
  split
  · have erased : Follows c { c with
      callbacks := c.callbacks.erase address, entries := c.entries.erase e.name } :=
      (Follows.erase e.name).trans (Follows.unchanged rfl)
    refine fresh.follows (erased.release e.value) rfl (fun shut => ?_) fun _ => Or.inl rfl
    have none := fresh.closed shut
    show c.entries.erase e.name = ∅
    rw [none]
    rfl
  · have same : Follows c { c with callbacks := c.callbacks.erase address } := Follows.unchanged rfl
    exact fresh.follows (same.release e.value) rfl fresh.closed fun _ => Or.inl rfl

theorem Fresh.close : Fresh c.close := by
  obtain ⟨wiped, same, closed, _⟩ := c.close_eq
  rw [closed]
  have follows : Follows c { wiped with closed := true, entries := ∅ } :=
    (Follows.wiped same).trans ⟨Ages.same (Int.le_refl _) rfl,
      fun _ e there => ⟨e, there, rfl, rfl, rfl, rfl, Int.le_refl _⟩,
      fun name address named => by simp at named⟩
  have shared : wiped.shared = c.shared := by
    rw [Cache.shared, same.mu, same.reload, same.running]; rfl
  exact fresh.follows follows shared (fun _ => rfl) fun j => Or.inl (congrFun same.gets j)

end

/-- Every step keeps the cache fresh. -/
theorem Fresh.step {act : Action} (kept : Kept c) (fresh : Fresh c) (taken : c.step act = some c') :
    Fresh c' := by
  cases Cache.takes taken with
  | tick later =>
    exact fresh.follows (Follows.same (Int.le_add_of_nonneg_right (Int.natCast_nonneg later)) rfl
      rfl rfl) rfl fresh.closed fun _ => Or.inl rfl
  | call came | failed came | uncached came => exact fresh.pass trivial
  | lookup came free => exact fresh.lookup _ _ _
  | time came => exact fresh.pass (Int.le_refl c.clock)
  | @fetch j q fetched came =>
    have early := fresh.calls j
    rw [came] at early
    exact fresh.pass early
  | @fetched j q fetched began value came =>
    have early := fresh.calls j
    rw [came] at early
    exact fresh.append ⟨_, List.getElem?_concat_length, rfl, rfl, early⟩
  | @clone j q fetched value memory copy came copied =>
    have origin := fresh.calls j
    rw [came] at origin
    exact fresh.append (Cache.From.ages origin (Follows.append [copy] _ c.mu).toAges)
  | lock came free => exact fresh.lock free came
  | insert came => exact fresh.insert kept came
  | @release j s came =>
    have same : Follows c (c.turn j .released) := Follows.unchanged rfl
    exact fresh.turn (same.release s) rfl rfl rfl rfl trivial
  | store none => exact fresh.store _
  | beginPrune stored free => exact fresh.beginPrune stored free
  | prune pruning => exact fresh.prune pruning _
  | endPrune pruning => exact fresh.endPrune pruning
  | @fire address =>
    have wiped : Cache.Wiped c (c.setTimer address none) :=
      ⟨rfl, rfl, rfl, rfl, rfl, rfl, Cache.untimed_setTimer c address none, rfl, rfl⟩
    have follows : Follows c { c.setTimer address none with callbacks := address :: c.callbacks } :=
      (Follows.wiped wiped).trans (Follows.unchanged rfl)
    exact fresh.follows follows rfl fresh.closed fun _ => Or.inl rfl
  | expire there free => exact fresh.expire _ _
  | close free => exact fresh.close

theorem Fresh.run {s : Cache} {acts : List Action} (ran : after Cache.step s acts = some c)
    (start : Kept s ∧ Fresh s) :
    Kept c ∧ Fresh c :=
  after_invariant (I := fun c => Kept c ∧ Fresh c)
    (fun _ _ _ both taken => ⟨both.1.step taken, both.2.step both.1 taken⟩) ran start

/-- Once closed, the cache stays closed. -/
theorem Cache.step_closed {act : Action} (shut : c.closed = true) (taken : c.step act = some c') :
    c'.closed = true := by
  cases Cache.takes taken with
  | tick | call | time | fetch | fetched | failed | clone | uncached | lock | release | store |
      beginPrune | endPrune
  | fire => exact shut
  | @lookup i q memory came free =>
    rcases c.lookup_cases i q memory with missed | ⟨_, failed⟩ | ⟨_, _, _, _, _, _, _, hit⟩
    · exact missed ▸ shut
    · exact failed ▸ shut
    · exact hit ▸ shut
  | @insert i q fetched value delivered current came =>
    unfold Cache.insert
    cases may : c.mayCache q current with
    | none => exact shut
    | some s => exact absurd (Cache.mayCache_some may).2.1 (by simp [shut])
  | prune pruning => exact (c.pruneEntry_frame _ _).2.2.1.trans shut
  | @expire address e there free =>
    unfold Cache.expire
    split <;> exact shut
  | close free => rfl

end Steps

/-- What is cached is fresh and configured. In every state the cache comes to, a call that
finds what it asks for cached returns a value that was fetched from its own Backend and
location, by a fetch that began less than its TTL before the lookup. When no reload is
between storing its snapshot and the end of `prune`, every entry is for a Secret Name that
the running config has with the same Backend and location and caches for at least as long.
And once the cache is closed it stays empty. -/
theorem cache_freshness (running : Config) (clock : Int) (acts : List Action) (c : Cache)
    (ran : after Cache.step (Cache.new running clock) acts = some c) :
    (∀ i q memory next s, c.gets i = .called q → c.step (.lookup i memory) = some next →
      next.gets i = .returned (.secret s) →
      ∃ secret : Secret, next.secrets[s]? = some secret ∧ secret.origin.backend = q.backend ∧
        secret.origin.location = q.location ∧ c.clock - secret.origin.began < q.ttl) ∧
    (c.reload = .none → ∀ name address, c.entries.lookup name = some address →
      ∃ (e : Entry) (s : SecretName), c.heap[address]? = some e ∧
        c.running.secrets.lookup name = some s ∧
        s.backend = e.backend ∧ s.location = e.location ∧ s.cacheTTL ≠ 0 ∧ e.ttl ≤ s.cacheTTL) ∧
    ∀ next more last, c.step .close = some next → after Cache.step next more = some last →
      last.entries = ∅ := by
  obtain ⟨kept, fresh⟩ := Fresh.run ran ⟨Kept.new running clock, Fresh.new running clock⟩
  refine ⟨?_, ?_, ?_⟩
  · intro i q memory next s came taken got
    have looked : c.lookup i q memory = next := by
      cases Cache.takes taken with
      | lookup called free =>
        obtain rfl := Get.called.inj (came.symm.trans called)
        rfl
    subst looked
    rcases c.lookup_cases i q memory with
      missed | ⟨_, failed⟩ | ⟨address, e, secret, found, fits, held, _, hit⟩
    · rw [missed, c.turn_same] at got
      cases got
    · rw [failed, c.turn_same] at got
      cases got
    · rw [hit] at got ⊢
      rw [c.turn_same] at got
      obtain rfl : c.secrets.length = s := by simpa using got
      obtain ⟨_, there⟩ := Cache.entry_eq_some.mp found
      obtain ⟨same, held', backend, location, began⟩ := fresh.filled address e there
      obtain rfl : secret = same := some.inj (held.symm.trans held')
      obtain ⟨⟨sameBackend, sameLocation⟩, age⟩ := by simpa [Cache.answers] using fits
      exact ⟨{ secret with maker := i }, List.getElem?_concat_length, backend.trans sameBackend,
        location.trans sameLocation, by simp only; omega⟩
  · intro none name address named
    have inLine := fresh.inLine
    rw [none] at inLine
    obtain ⟨e, there, _⟩ := kept.placed name address named
    obtain ⟨s, fits⟩ := inLine name address e (Cache.entry_eq_some.mpr ⟨named, there⟩)
    exact ⟨e, s, there, fits⟩
  · intro next more last closes further
    have shut : next.closed = true := by
      cases Cache.takes closes with
      | close free => rfl
    have both := Fresh.run further ⟨kept.step closes, fresh.step kept closes⟩
    exact both.2.closed (after_invariant (I := fun c => c.closed = true)
      (fun _ _ _ => Cache.step_closed) further shut)

/-- A second call asks for what the first has cached. -/
def askTwice : List Action := fetchAndCache 0 ++ [.tick 5, .call 1 githubQuery]

/-- What a call that has just been made asks for. -/
def Get.asks : Get → Option Query
  | .called q => some q
  | _ => none

theorem Get.asks_some {g : Get} {q : Query} : g.asks = some q ↔ g = .called q := by
  cases g <;> simp [Get.asks]

/-- The second call gets a value from the location it asks for. -/
theorem cache_freshness_hit :
    ∃ c next secret, after Cache.step
      (Cache.new { Config.empty with secrets := AList.singleton github.name github } 0)
        askTwice = some c ∧ c.step (.lookup 1 true) = some next ∧ next.secrets[2]? = some secret ∧
      secret.origin.location = github.location ∧
        c.clock - secret.origin.began < github.cacheTTL := by
  have outcome :
      ((after Cache.step
        (Cache.new { Config.empty with secrets := AList.singleton github.name github } 0)
      askTwice).map fun c => ((c.gets 1).asks, (c.step (.lookup 1 true)).map fun next =>
        (next.gets 1).holds .hand)) =
      some (some githubQuery, some (some 2)) := by decide +kernel
  obtain ⟨c, ran, facts⟩ := map_eq_some_iff.mp outcome
  obtain ⟨asks, looked⟩ := Prod.mk.inj facts
  obtain ⟨next, taken, got⟩ := map_eq_some_iff.mp looked
  obtain ⟨secret, there, _, location, age⟩ :=
    (cache_freshness _ 0 askTwice c ran).1 1 githubQuery true next 2
    (Get.asks_some.mp asks) taken (Get.holds_hand.mp got)
  exact ⟨c, next, secret, ran, taken, there, location, age⟩

end TrustedCourier.Resolver
