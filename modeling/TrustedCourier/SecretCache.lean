import TrustedCourier.Configs
import TrustedCourier.Runs

/-!
# The cache of Secrets

Calls of `get`, reloads, timers and `close` go on at once. What is done under the lock is
one step, with two exceptions: between reading the running config and caching a Secret a
reload may store its snapshot, and `prune` reads the clock for each entry. Around the lock
every load, every reading of the clock and the begin and the end of a fetch are steps.

Entries and Secrets have addresses, which are their places in the order of their
creation. A Secret remembers where and when its value was fetched, and a copy has this
from the Secret it was copied from. `get` is called with the place that its fetch reads,
as `Resolve` does. A timer may fire once its time has come; its callback then waits for
the lock, whatever becomes of the timer and the entry.
-/

namespace TrustedCourier.Resolver

open Config Runs List

/-- Where and when a value was fetched. -/
structure Origin where
  backend : Bytes
  location : Bytes
  began : Int
deriving DecidableEq

/-- A Secret, with the call of `get` that made it. -/
structure Secret where
  value : Bytes
  origin : Origin
  maker : Nat
  released : Bool
deriving DecidableEq

/-- An entry, with the name its timer's callback was made with and the time its timer is
set for. -/
structure Entry where
  name : Bytes
  backend : Bytes
  location : Bytes
  fetched : Int
  ttl : Int
  value : Nat
  timer : Option Int
deriving DecidableEq

/-- What `get` is called with. -/
structure Query where
  name : Bytes
  backend : Bytes
  location : Bytes
  ttl : Int
deriving DecidableEq

/-- Why a `Get` returns no Secret. -/
inductive Failure where
  | released
  | lockedMemory
  | fetch
deriving DecidableEq

/-- What `get` returns. -/
inductive Answer where
  | secret (address : Nat)
  | failed (failure : Failure)
deriving DecidableEq

/-- How far a call of `get` has come. -/
inductive Get where
  | idle
  /-- About to look up. -/
  | called (q : Query)
  /-- About to read the clock. -/
  | missed (q : Query)
  /-- About to fetch. -/
  | timed (q : Query) (fetched : Int)
  | fetching (q : Query) (fetched began : Int)
  /-- About to copy what it fetched. -/
  | got (q : Query) (fetched : Int) (value : Nat)
  /-- About to take the lock and read the running config. -/
  | cloned (q : Query) (fetched : Int) (value delivered : Nat)
  /-- About to cache what it fetched, or not, and give up the lock. -/
  | inserting (q : Query) (fetched : Int) (value delivered : Nat) (current : Option SecretName)
  | returned (answer : Answer)
  /-- The caller has released what it got. -/
  | released

/-- How far a reload has come. -/
inductive Reload where
  | none
  /-- The snapshot is stored; `prune` is about to take the lock. -/
  | stored (cfg : Config)
  /-- The names `prune` has yet to visit. -/
  | pruning (cfg : Config) (todo : List Bytes)

/-- Who holds the lock. -/
inductive Lock where
  | free
  | get (call : Nat)
  | prune
deriving DecidableEq

/-- An entry without its timer. -/
def Entry.untimed (e : Entry) : Entry := { e with timer := none }

/-- A Secret as it was made. -/
def Secret.made (s : Secret) : Secret := { s with released := false }

/-- The cache with the `Get`s that are in it. -/
structure Cache where
  clock : Int
  running : Config
  reload : Reload
  mu : Lock
  closed : Bool
  entries : NameMap Nat
  heap : List Entry
  callbacks : List Nat
  secrets : List Secret
  gets : Nat → Get

/-- One move of the cache, its callers or its timers. -/
inductive Action where
  | tick (later : Nat)
  | call (i : Nat) (q : Query)
  /-- With or without locked memory for a copy. -/
  | lookup (i : Nat) (memory : Bool)
  | time (i : Nat)
  | fetch (i : Nat)
  /-- The fetch ends with a value or an error. -/
  | fetched (i : Nat) (value : Option Bytes)
  | clone (i : Nat) (memory : Bool)
  | lock (i : Nat)
  | insert (i : Nat)
  | release (i : Nat)
  | store (cfg : Config)
  | beginPrune
  | prune (name : Bytes)
  | endPrune
  | fire (address : Nat)
  | expire (address : Nat)
  | close

/-- `newCache`. -/
def Cache.new (running : Config) (clock : Int) : Cache where
  clock := clock
  running := running
  reload := .none
  mu := .free
  closed := false
  entries := ∅
  heap := []
  callbacks := []
  secrets := []
  gets := fun _ => .idle

namespace Cache

/-- A call has come this far. -/
def turn (c : Cache) (i : Nat) (g : Get) : Cache := { c with gets := Function.update c.gets i g }

/-- The entry under a name, with its address. -/
def entry (c : Cache) (name : Bytes) : Option (Nat × Entry) :=
  (c.entries.lookup name).bind fun address => (c.heap[address]?).map fun e => (address, e)

/-- `Secret.Release`. -/
def release (c : Cache) (s : Nat) : Cache :=
  { c with secrets := c.secrets.modify s fun secret => { secret with released := true } }

/-- `Secret.Clone` in a call: the copy, which gets the next address. -/
def clone (c : Cache) (i s : Nat) (memory : Bool) : Except Failure Secret :=
  match c.secrets[s]? with
  | none => .error .released
  | some secret =>
    if secret.released then .error .released else if memory then .ok { secret with maker := i }
    else .error .lockedMemory

/-- `c` with the timer of an address set. -/
def setTimer (c : Cache) (address : Nat) (timer : Option Int) : Cache :=
  { c with heap := c.heap.modify address fun e => { e with timer := timer } }

/-- `entry.wipe`. -/
def wipe (c : Cache) (address : Nat) (e : Entry) : Cache :=
  (c.setTimer address none).release e.value

/-- Wipes the entry at an address. -/
def wipeAt (c : Cache) (address : Nat) : Cache :=
  match c.heap[address]? with
  | none => c
  | some e => c.wipe address e

/-- Whether an entry answers a call. -/
def answers (c : Cache) (q : Query) (e : Entry) : Bool :=
  e.backend == q.backend && e.location == q.location && decide (c.clock - e.fetched < q.ttl)

/-- The first part of `get`, under the lock. -/
def lookup (c : Cache) (i : Nat) (q : Query) (memory : Bool) : Cache :=
  match (c.entry q.name).filter fun found => c.answers q found.2 with
  | none => c.turn i (.missed q)
  | some (_, e) =>
    match c.clone i e.value memory with
    | .ok copy =>
      { c.turn i (.returned (.secret c.secrets.length)) with secrets := c.secrets ++ [copy] }
    | .error failure => c.turn i (.returned (.failed failure))

/-- Whether `get` may cache what it has fetched, by the config it has read. -/
def mayCache (c : Cache) (q : Query) (current : Option SecretName) : Option SecretName :=
  current.filter fun s =>
    !c.closed && s.backend == q.backend && s.location == q.location && !decide (s.cacheTTL = 0)

/-- The entry for what `get` has fetched. -/
def newEntry (q : Query) (fetched : Int) (value : Nat) (s : SecretName) : Entry where
  name := q.name
  backend := q.backend
  location := q.location
  fetched := fetched
  ttl := min q.ttl s.cacheTTL
  value := value
  timer := some (fetched + min q.ttl s.cacheTTL)

/-- An entry takes the place of the one under its name. -/
def replace (c : Cache) (e : Entry) : Cache :=
  let wiped := match c.entries.lookup e.name with
    | none => c
    | some address => c.wipeAt address
  { wiped with heap := wiped.heap ++ [e], entries := wiped.entries.insert e.name wiped.heap.length }

/-- The last part of `get`, under the lock. -/
def insert (c : Cache) (i : Nat) (q : Query) (fetched : Int) (value delivered : Nat)
    (current : Option SecretName) :
    Cache :=
  let done := { c.turn i (.returned (.secret delivered)) with mu := .free }
  match c.mayCache q current with
  | none => done.release value
  | some s => done.replace (newEntry q fetched value s)

/-- What a snapshot leaves an entry: nothing, or the time it is cached for. -/
def leaves (c : Cache) (cfg : Config) (name : Bytes) (e : Entry) : Option Int :=
  ((cfg.secrets.lookup name).filter fun s =>
    s.backend == e.backend && s.location == e.location && !decide (s.cacheTTL = 0) &&
      decide (0 < s.cacheTTL - (c.clock - e.fetched))).map SecretName.cacheTTL

/-- The body of the loop in `prune`. -/
def pruneEntry (c : Cache) (cfg : Config) (name : Bytes) : Cache :=
  match c.entry name with
  | none => c
  | some (address, e) =>
    match c.leaves cfg name e with
    | none => { c.wipe address e with entries := c.entries.erase name }
    | some ttl =>
      if ttl < e.ttl then
        { c with heap := c.heap.modify address fun e =>
            { e with ttl := ttl, timer := some (c.clock + (ttl - (c.clock - e.fetched))) } }
      else c

/-- `expire`, for the entry at an address. -/
def expire (c : Cache) (address : Nat) (e : Entry) : Cache :=
  let c' := { c with callbacks := c.callbacks.erase address }
  (if c.entries.lookup e.name = some address then { c' with entries := c.entries.erase e.name }
    else c').release e.value

/-- `close`. -/
def close (c : Cache) : Cache :=
  let wiped := (c.entries.entries.map Sigma.snd).foldl wipeAt c
  { wiped with closed := true, entries := ∅ }

/-- An action, where it can be taken. -/
def step (c : Cache) : Action → Option Cache
  | .tick later => some { c with clock := c.clock + later }
  | .call i q => match c.gets i with
    | .idle => some (c.turn i (.called q))
    | _ => none
  | .lookup i memory => match c.gets i with
    | .called q => if c.mu = .free then some (c.lookup i q memory) else none
    | _ => none
  | .time i => match c.gets i with
    | .missed q => some (c.turn i (.timed q c.clock))
    | _ => none
  | .fetch i => match c.gets i with
    | .timed q fetched => some (c.turn i (.fetching q fetched c.clock))
    | _ => none
  | .fetched i value => match c.gets i, value with
    | .fetching q fetched began, some value =>
      some { c.turn i (.got q fetched c.secrets.length) with
        secrets := c.secrets ++ [⟨value, ⟨q.backend, q.location, began⟩, i, false⟩] }
    | .fetching _ _ _, none => some (c.turn i (.returned (.failed .fetch)))
    | _, _ => none
  | .clone i memory => match c.gets i with
    | .got q fetched value => match c.clone i value memory with
      | .ok copy => some { c.turn i (.cloned q fetched value c.secrets.length) with
          secrets := c.secrets ++ [copy] }
      | .error _ => some (c.turn i (.returned (.secret value)))
    | _ => none
  | .lock i => match c.gets i with
    | .cloned q fetched value delivered =>
      if c.mu = .free then
        some { c.turn i (.inserting q fetched value delivered
          (c.running.secrets.lookup q.name)) with mu := .get i }
      else none
    | _ => none
  | .insert i => match c.gets i with
    | .inserting q fetched value delivered current =>
      some (c.insert i q fetched value delivered current)
    | _ => none
  | .release i => match c.gets i with
    | .returned (.secret s) => some ((c.turn i .released).release s)
    | _ => none
  | .store cfg => match c.reload with
    | .none => some { c with running := cfg, reload := .stored cfg }
    | _ => none
  | .beginPrune => match c.reload with
    | .stored cfg =>
      if c.mu = .free then some { c with reload := .pruning cfg c.entries.keys, mu := .prune }
      else none
    | _ => none
  | .prune name => match c.reload with
    | .pruning cfg todo =>
      if todo.contains name then
        some { c.pruneEntry cfg name with reload := .pruning cfg (todo.erase name) }
      else none
    | _ => none
  | .endPrune => match c.reload with
    | .pruning _ [] => some { c with reload := .none, mu := .free }
    | _ => none
  | .fire address => match (c.heap[address]?).bind Entry.timer with
    | some due =>
      if due ≤ c.clock then
        some { c.setTimer address none with callbacks := address :: c.callbacks }
      else none
    | none => none
  | .expire address => match c.heap[address]? with
    | some e => if c.mu = .free ∧ address ∈ c.callbacks then some (c.expire address e) else none
    | none => none
  | .close => if c.mu = .free then some c.close else none

/-! ## Reading a changed cache -/

/-- There is a Secret at the address, and it is not released. -/
def Live (c : Cache) (s : Nat) : Prop :=
  ∃ secret, c.secrets[s]? = some secret ∧ secret.released = false

/-- The address of the Secret cached under a name. -/
def cached (c : Cache) (name : Bytes) : Option Nat :=
  (c.entries.lookup name).bind fun address => (c.heap[address]?).map Entry.value

section Frames

variable {c c' : Cache} {name : Bytes} {address s i : Nat} {e : Entry}

@[simp] theorem turn_same (c : Cache) (i : Nat) (g : Get) :
    (c.turn i g).gets i = g := by simp [turn]

theorem turn_other {j : Nat} (apart : j ≠ i) (g : Get) :
    (c.turn i g).gets j = c.gets j := by simp [turn, apart]

theorem entry_eq_some : c.entry name = some (address, e) ↔
    c.entries.lookup name = some address ∧ c.heap[address]? = some e := by
  simp only [entry, Option.bind_eq_some_iff, Option.map_eq_some_iff, Prod.mk.injEq]
  constructor
  · rintro ⟨_, named, _, there, rfl, rfl⟩
    exact ⟨named, there⟩
  · rintro ⟨named, there⟩
    exact ⟨address, named, e, there, rfl, rfl⟩

theorem cached_eq_some : c.cached name = some s ↔ ∃ address e, c.entry name = some (address, e) ∧
    e.value = s := by
  simp only [cached, Option.bind_eq_some_iff, Option.map_eq_some_iff, entry_eq_some]
  constructor
  · rintro ⟨address, named, e, there, rfl⟩
    exact ⟨address, e, ⟨named, there⟩, rfl⟩
  · rintro ⟨address, e, ⟨named, there⟩, rfl⟩
    exact ⟨address, named, e, there, rfl⟩

theorem live_append {copy : Secret} (kept : copy.released = false)
    (same : c'.secrets = c.secrets ++ [copy]) (s : Nat) :
    c'.Live s ↔ c.Live s ∨ s = c.secrets.length := by
  simp only [Live, same, getElem?_append]
  by_cases before : s < c.secrets.length
  · simp [before]
    omega
  · have none : c.secrets[s]? = none := getElem?_eq_none (by omega)
    rw [if_neg before, none]
    by_cases last : s = c.secrets.length
    · simp [last, kept]
    · have beyond : s - c.secrets.length ≠ 0 := by omega
      simp [last, beyond]

theorem live_release (s r : Nat) : (c.release r).Live s ↔ c.Live s ∧ s ≠ r := by
  simp only [Live, release, getElem?_modify]
  by_cases same : r = s
  · simp [same]
  · simp [same, Ne.symm same]

/-- What is changed in an entry may leave something about it. -/
theorem map_modify {β : Type} (π : Entry → β) (f : Entry → Entry) (keeps : ∀ e, π (f e) = π e)
    (heap : List Entry) (address : Nat) : (heap.modify address f).map π = heap.map π := by
  apply ext_getElem?
  intro other
  simp only [getElem?_map, getElem?_modify]
  cases heap[other]? with
  | none => simp
  | some e => by_cases same : address = other <;> simp [same, keeps]

theorem getElem?_of_map {β : Type} {π : Entry → β} {heap heap' : List Entry}
    (same : heap'.map π = heap.map π) (there : heap'[address]? = some e) :
    ∃ before, heap[address]? = some before ∧ π e = π before := by
  have mapped : (heap.map π)[address]? = some (π e) := by simp [← same, there]
  obtain ⟨before, found, equal⟩ := by simpa using mapped
  exact ⟨before, found, equal.symm⟩

theorem getElem?_concat {heap : List Entry} {new : Entry}
    (there : (heap ++ [new])[address]? = some e) :
    heap[address]? = some e ∨ e = new := by
  by_cases before : address < heap.length
  · rw [getElem?_append_left before] at there
    exact Or.inl there
  · rw [getElem?_append_right (by omega)] at there
    have last := mem_of_getElem? there
    exact Or.inr (mem_singleton.mp last)

theorem getElem?_modify_cases {heap : List Entry} {f : Entry → Entry} {place : Nat}
    (there : (heap.modify address f)[place]? = some e) :
    (place ≠ address ∧ heap[place]? = some e) ∨ ∃ before, place = address ∧
      heap[address]? = some before ∧ e = f before := by
  rw [getElem?_modify] at there
  by_cases same : address = place
  · subst same
    obtain ⟨before, found, rfl⟩ : ∃ before, heap[address]? = some before ∧
      f before = e := by simpa using there
    exact Or.inr ⟨before, rfl, found, rfl⟩
  · exact Or.inl ⟨Ne.symm same, by simpa [same] using there⟩

theorem value_congr (heap : c'.heap.map Entry.value = c.heap.map Entry.value) (address : Nat) :
    (c'.heap[address]?).map Entry.value = (c.heap[address]?).map Entry.value := by
  rw [← getElem?_map, heap, getElem?_map]

theorem cached_congr (named : c'.entries = c.entries)
    (heap : c'.heap.map Entry.value = c.heap.map Entry.value) (name : Bytes) :
    c'.cached name = c.cached name := by
  simp only [cached, named, value_congr heap]

theorem cached_erase (erased : c'.entries = c.entries.erase name)
    (heap : c'.heap.map Entry.value = c.heap.map Entry.value) (other : Bytes) :
    c'.cached other = if other = name then none else c.cached other := by
  simp only [cached, erased, value_congr heap]
  split
  · next same =>
    subst same
    simp
  · next apart => rw [AList.lookup_erase_ne apart]

/-- A Secret is cached, and the others stay. -/
theorem cached_insert (placed : ∀ other address,
      c.entries.lookup other = some address → address < c.heap.length)
    (inserted : c'.entries = c.entries.insert name c.heap.length)
    (heap : c'.heap.map Entry.value = c.heap.map Entry.value ++ [s]) (other : Bytes) :
    c'.cached other = if other = name then some s else c.cached other := by
  have values : ∀ address : Nat, (c'.heap[address]?).map Entry.value =
      (c.heap.map Entry.value ++ [s])[address]? := by
    intro address
    rw [← getElem?_map, heap]
  simp only [cached, inserted, values]
  split
  · next same =>
    subst same
    simp
  · next apart =>
    rw [AList.lookup_insert_ne apart]
    cases found : c.entries.lookup other with
    | none => rfl
    | some address =>
      have low : address < (c.heap.map Entry.value).length := by
        simpa using placed other address found
      simp [getElem?_append_left low]

/-- A cache in which entries have been wiped: timers are stopped, and Secrets released. -/
structure Wiped (c c' : Cache) : Prop where
  clock : c'.clock = c.clock
  running : c'.running = c.running
  reload : c'.reload = c.reload
  mu : c'.mu = c.mu
  closed : c'.closed = c.closed
  entries : c'.entries = c.entries
  heap : c'.heap.map Entry.untimed = c.heap.map Entry.untimed
  secrets : c'.secrets.map Secret.made = c.secrets.map Secret.made
  gets : c'.gets = c.gets

theorem Wiped.refl (c : Cache) : Wiped c c := ⟨rfl, rfl, rfl, rfl, rfl, rfl, rfl, rfl, rfl⟩

theorem Wiped.trans {c'' : Cache} (first : Wiped c c') (second : Wiped c' c'') : Wiped c c'' where
  clock := second.clock.trans first.clock
  running := second.running.trans first.running
  reload := second.reload.trans first.reload
  mu := second.mu.trans first.mu
  closed := second.closed.trans first.closed
  entries := second.entries.trans first.entries
  heap := second.heap.trans first.heap
  secrets := second.secrets.trans first.secrets
  gets := second.gets.trans first.gets

theorem made_modify (secrets : List Secret) (s : Nat) :
    (secrets.modify s fun secret => { secret with released := true }).map Secret.made =
      secrets.map Secret.made := by
  apply ext_getElem?
  intro other
  simp only [getElem?_map, getElem?_modify]
  cases secrets[other]? with
  | none => simp
  | some secret => by_cases same : s = other <;> simp [same, Secret.made]

theorem Wiped.values (wiped : Wiped c c') : c'.heap.map Entry.value = c.heap.map Entry.value := by
  have same := congrArg (List.map Entry.value) wiped.heap
  rwa [map_map, map_map] at same

theorem Wiped.length (wiped : Wiped c c') : c'.heap.length = c.heap.length := by
  simpa using congrArg List.length wiped.heap

theorem untimed_setTimer (c : Cache) (address : Nat) (timer : Option Int) :
    (c.setTimer address timer).heap.map Entry.untimed = c.heap.map Entry.untimed :=
  map_modify Entry.untimed (fun e => { e with timer := timer }) (fun _ => rfl) c.heap address

theorem wiped_release (c : Cache) (s : Nat) : Wiped c (c.release s) :=
  ⟨rfl, rfl, rfl, rfl, rfl, rfl, rfl, made_modify c.secrets s, rfl⟩

theorem wiped_wipe (c : Cache) (address : Nat) (e : Entry) : Wiped c (c.wipe address e) :=
  ⟨rfl, rfl, rfl, rfl, rfl, rfl, untimed_setTimer c address none, made_modify c.secrets e.value,
    rfl⟩

theorem wiped_wipeAt (c : Cache) (address : Nat) : Wiped c (c.wipeAt address) := by
  unfold wipeAt
  split
  · exact Wiped.refl c
  · exact wiped_wipe c address _

theorem live_wipeAt (c : Cache) (address s : Nat) :
    (c.wipeAt address).Live s ↔ c.Live s ∧ (c.heap[address]?).map Entry.value ≠ some s := by
  unfold wipeAt
  cases there : c.heap[address]? with
  | none => simp
  | some e =>
    have released : (c.wipe address e).Live s ↔ (c.setTimer address none).Live s ∧ s ≠ e.value :=
      live_release s e.value
    simp only [released, Option.map_some, ne_eq, Option.some.injEq, eq_comm]
    exact Iff.rfl

/-- Several entries are wiped. -/
theorem wiped_foldl (addresses : List Nat) (c : Cache) : Wiped c (addresses.foldl wipeAt c) := by
  induction addresses generalizing c with
  | nil => exact Wiped.refl c
  | cons address rest ih => exact (wiped_wipeAt c address).trans (ih _)

theorem live_foldl (addresses : List Nat) (c : Cache) (s : Nat) :
    (addresses.foldl wipeAt c).Live s ↔
    c.Live s ∧ ∀ address ∈ addresses, (c.heap[address]?).map Entry.value ≠ some s := by
  induction addresses generalizing c with
  | nil => simp
  | cons address rest ih =>
    simp only [foldl_cons, ih, live_wipeAt, value_congr (wiped_wipeAt c address).values,
      forall_mem_cons, and_assoc]

/-- An entry takes the place of another: the other is wiped. -/
theorem replace_eq (c : Cache) (e : Entry) : ∃ wiped, Wiped c wiped ∧
    c.replace e = { wiped with
      heap := wiped.heap ++ [e], entries := wiped.entries.insert e.name wiped.heap.length } ∧
    ∀ s, wiped.Live s ↔ c.Live s ∧ c.cached e.name ≠ some s := by
  unfold replace cached
  cases named : c.entries.lookup e.name with
  | none => exact ⟨c, Wiped.refl c, rfl, by simp⟩
  | some address => exact ⟨c.wipeAt address, wiped_wipeAt c address, rfl, by simp [live_wipeAt]⟩

theorem insert_gets (c : Cache) (i : Nat) (q : Query) (fetched : Int) (value delivered : Nat)
    (current : Option SecretName) :
    (c.insert i q fetched value delivered current).gets =
      (c.turn i (.returned (.secret delivered))).gets := by
  unfold insert
  cases c.mayCache q current with
  | none => rfl
  | some s =>
    obtain ⟨wiped, same, replaced, _⟩ :=
      replace_eq { c.turn i (.returned (.secret delivered)) with mu := .free }
      (newEntry q fetched value s)
    simp only [replaced]
    exact same.gets

theorem close_eq (c : Cache) : ∃ wiped, Wiped c wiped ∧
    c.close = { wiped with closed := true, entries := ∅ } ∧
    ∀ s, wiped.Live s ↔ c.Live s ∧ ∀ name, c.cached name ≠ some s := by
  refine ⟨_, wiped_foldl (c.entries.entries.map Sigma.snd) c, rfl, fun s => ?_⟩
  rw [live_foldl]
  refine and_congr_right fun _ => ?_
  constructor
  · intro none name held
    obtain ⟨address, named, value⟩ := Option.bind_eq_some_iff.mp held
    exact none address (mem_map.mpr ⟨⟨name, address⟩, AList.mem_lookup_iff.mp named, rfl⟩) value
  · intro none address member held
    obtain ⟨⟨name, _⟩, listed, rfl⟩ := mem_map.mp member
    exact none name (Option.bind_eq_some_iff.mpr ⟨_, AList.mem_lookup_iff.mpr listed, held⟩)

/-- A copy is of a Secret that is not released. -/
theorem clone_ok {memory : Bool} {copy : Secret} (copied : c.clone i s memory = .ok copy) :
    ∃ secret, c.secrets[s]? = some secret ∧ secret.released = false ∧
      copy = { secret with maker := i } := by
  unfold clone at copied
  cases there : c.secrets[s]? with
  | none => simp [there] at copied
  | some secret =>
    cases released : secret.released with
    | true => simp [there, released] at copied
    | false =>
      cases memory with
      | false => simp [there, released] at copied
      | true =>
        have same : { secret with maker := i } = copy := by simpa [there, released] using copied
        exact ⟨secret, rfl, released, same.symm⟩

/-- A lookup misses, or fails to copy what it finds, or returns a copy of it. -/
theorem lookup_cases (c : Cache) (i : Nat) (q : Query) (memory : Bool) :
    c.lookup i q memory = c.turn i (.missed q) ∨
    (∃ failure, c.lookup i q memory = c.turn i (.returned (.failed failure))) ∨
    ∃ address e secret, c.entry q.name = some (address, e) ∧ c.answers q e = true ∧
      c.secrets[e.value]? = some secret ∧ secret.released = false ∧
      c.lookup i q memory = { c.turn i (.returned (.secret c.secrets.length)) with
        secrets := c.secrets ++ [{ secret with maker := i }] } := by
  unfold lookup
  cases found : (c.entry q.name).filter fun found => c.answers q found.2 with
  | none => exact Or.inl rfl
  | some both =>
    obtain ⟨address, e⟩ := both
    obtain ⟨there, fits⟩ := Option.filter_eq_some_iff.mp found
    cases copied : c.clone i e.value memory with
    | error failure => exact Or.inr (Or.inl ⟨failure, by simp only [copied]⟩)
    | ok copy =>
      obtain ⟨secret, held, kept, rfl⟩ := clone_ok copied
      exact Or.inr (Or.inr ⟨address, e, secret, there, fits, held, kept, by simp only [copied]⟩)

/-- An entry that is pruned is wiped, or kept for a shorter time, or left as it is. -/
theorem pruneEntry_cases (c : Cache) (cfg : Config) (name : Bytes) :
    (c.entry name = none ∧ c.pruneEntry cfg name = c) ∨
    ∃ address e, c.entry name = some (address, e) ∧
      ((c.leaves cfg name e = none ∧
          c.pruneEntry cfg name = { c.wipe address e with entries := c.entries.erase name }) ∨
        ∃ ttl, c.leaves cfg name e = some ttl ∧
          ((ttl < e.ttl ∧ c.pruneEntry cfg name = { c with heap := c.heap.modify address fun e =>
              { e with ttl := ttl, timer := some (c.clock + (ttl - (c.clock - e.fetched))) } }) ∨
            (e.ttl ≤ ttl ∧ c.pruneEntry cfg name = c))) := by
  unfold pruneEntry
  cases found : c.entry name with
  | none => exact Or.inl ⟨rfl, rfl⟩
  | some both =>
    obtain ⟨address, e⟩ := both
    refine Or.inr ⟨address, e, rfl, ?_⟩
    cases left : c.leaves cfg name e with
    | none => exact Or.inl ⟨rfl, by simp only [left]⟩
    | some ttl =>
      refine Or.inr ⟨ttl, rfl, ?_⟩
      by_cases shorter : ttl < e.ttl
      · exact Or.inl ⟨shorter, by simp only [left, if_pos shorter]⟩
      · exact Or.inr ⟨by omega, by simp only [left, if_neg shorter]⟩

theorem pruneEntry_gets (c : Cache) (cfg : Config) (name : Bytes) :
    (c.pruneEntry cfg name).gets = c.gets := by
  rcases c.pruneEntry_cases cfg name with
    ⟨_, same⟩ | ⟨_, _, _, ⟨_, wiped⟩ | ⟨_, _, ⟨_, shorter⟩ | ⟨_, same⟩⟩⟩
  · rw [same]
  · rw [wiped]
    rfl
  · rw [shorter]
  · rw [same]

end Frames

/-! ## What a step does -/

/-- What the actions do, and when they can be taken. -/
inductive Takes (c : Cache) : Action → Cache → Prop
  | tick (later : Nat) : c.Takes (.tick later) { c with clock := c.clock + later }
  | call {i : Nat} {q : Query} (came : c.gets i = .idle) :
      c.Takes (.call i q) (c.turn i (.called q))
  | lookup {i : Nat} {q : Query} {memory : Bool} (came : c.gets i = .called q)
      (free : c.mu = .free) :
      c.Takes (.lookup i memory) (c.lookup i q memory)
  | time {i : Nat} {q : Query} (came : c.gets i = .missed q) :
      c.Takes (.time i) (c.turn i (.timed q c.clock))
  | fetch {i : Nat} {q : Query} {fetched : Int} (came : c.gets i = .timed q fetched) :
      c.Takes (.fetch i) (c.turn i (.fetching q fetched c.clock))
  | fetched {i : Nat} {q : Query} {fetched began : Int} {value : Bytes}
      (came : c.gets i = .fetching q fetched began) :
      c.Takes (.fetched i (some value)) { c.turn i (.got q fetched c.secrets.length) with
        secrets := c.secrets ++ [⟨value, ⟨q.backend, q.location, began⟩, i, false⟩] }
  | failed {i : Nat} {q : Query} {fetched began : Int}
      (came : c.gets i = .fetching q fetched began) :
      c.Takes (.fetched i none) (c.turn i (.returned (.failed .fetch)))
  | clone {i : Nat} {q : Query} {fetched : Int} {value : Nat} {memory : Bool} {copy : Secret}
      (came : c.gets i = .got q fetched value) (copied : c.clone i value memory = .ok copy) :
      c.Takes (.clone i memory) { c.turn i (.cloned q fetched value c.secrets.length) with
        secrets := c.secrets ++ [copy] }
  | uncached {i : Nat} {q : Query} {fetched : Int} {value : Nat} {memory : Bool}
      (came : c.gets i = .got q fetched value) :
      c.Takes (.clone i memory) (c.turn i (.returned (.secret value)))
  | lock {i : Nat} {q : Query} {fetched : Int} {value delivered : Nat}
      (came : c.gets i = .cloned q fetched value delivered) (free : c.mu = .free) :
      c.Takes (.lock i)
        { c.turn i (.inserting q fetched value delivered (c.running.secrets.lookup q.name)) with
        mu := .get i }
  | insert {i : Nat} {q : Query} {fetched : Int} {value delivered : Nat}
      {current : Option SecretName}
      (came : c.gets i = .inserting q fetched value delivered current) :
      c.Takes (.insert i) (c.insert i q fetched value delivered current)
  | release {i s : Nat} (came : c.gets i = .returned (.secret s)) :
      c.Takes (.release i) ((c.turn i .released).release s)
  | store {cfg : Config} (none : c.reload = .none) :
      c.Takes (.store cfg) { c with running := cfg, reload := .stored cfg }
  | beginPrune {cfg : Config} (stored : c.reload = .stored cfg) (free : c.mu = .free) :
      c.Takes .beginPrune { c with reload := .pruning cfg c.entries.keys, mu := .prune }
  | prune {cfg : Config} {todo : List Bytes} {name : Bytes}
      (pruning : c.reload = .pruning cfg todo) :
      c.Takes (.prune name) { c.pruneEntry cfg name with reload := .pruning cfg (todo.erase name) }
  | endPrune {cfg : Config} (pruning : c.reload = .pruning cfg []) :
      c.Takes .endPrune { c with reload := .none, mu := .free }
  | fire {address : Nat} : c.Takes (.fire address)
      { c.setTimer address none with callbacks := address :: c.callbacks }
  | expire {address : Nat} {e : Entry} (there : c.heap[address]? = some e) (free : c.mu = .free) :
      c.Takes (.expire address) (c.expire address e)
  | close (free : c.mu = .free) : c.Takes .close c.close

/-- Every action is one of the moves. -/
theorem takes {c next : Cache} {act : Action} (taken : c.step act = some next) :
    c.Takes act next := by
  revert taken
  -- What is left are the branches in which the action can be taken.
  fun_cases c.step act <;> rintro ⟨⟩
  case case1 later => exact .tick later
  case case2 came => exact .call came
  case case4 came free => exact .lookup came free
  case case7 came => exact .time came
  case case9 came => exact .fetch came
  case case11 came => exact .fetched came
  case case12 came => exact .failed came
  case case14 came copy copied => exact .clone came copied
  case case15 came failure failed => exact .uncached came
  case case17 came free => exact .lock came free
  case case20 came => exact .insert came
  case case22 came => exact .release came
  case case24 none => exact .store none
  case case26 stored free => exact .beginPrune stored free
  case case29 pruning listed => exact .prune pruning
  case case32 pruning => exact .endPrune pruning
  case case34 due => exact .fire
  case case37 there guard => exact .expire there guard.1
  case case40 free => exact .close free

end Cache

/-- What `Resolve` asks the cache for. -/
def githubQuery : Query where
  name := github.name
  backend := github.backend
  location := github.location
  ttl := github.cacheTTL

/-- A call that finds nothing cached and caches what it fetches. -/
def fetchAndCache (i : Nat) : List Action :=
  [.call i githubQuery, .lookup i true, .time i, .fetch i, .fetched i (some (bytes "s")),
    .clone i true, .lock i, .insert i]

/-- The time of a cached Secret ends, and another call has cached a new one before the
timer's callback gets the lock. -/
def lateExpiry : List Action :=
  fetchAndCache 0 ++ [.tick 60000000000, .fire 0] ++ fetchAndCache 1 ++ [.expire 0]

end TrustedCourier.Resolver
