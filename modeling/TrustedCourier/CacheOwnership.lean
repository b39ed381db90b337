import TrustedCourier.Ownership
import TrustedCourier.SecretCache

/-!
# Who owns a Secret

A Secret is held by an entry of the cache, by a call of `get` that is on its way, or by
the caller that got it; then it is not released, and no other holder has it. An entry that
has left the cache has released its Secret, so that a callback that comes late finds
nothing to take away from anyone.
-/

namespace TrustedCourier.Resolver

open Config Runs Ownership List

/-- Where a call has a Secret: what it has fetched, the copy it is going to return, and
what its caller has got. -/
inductive Slot where
  | value
  | delivered
  | hand
deriving DecidableEq

/-- The Secret that a call holds in a slot. -/
def Get.holds : Get → Slot → Option Nat
  | .got _ _ value, .value => some value
  | .cloned _ _ value _, .value => some value
  | .cloned _ _ _ delivered, .delivered => some delivered
  | .inserting _ _ value _ _, .value => some value
  | .inserting _ _ _ delivered _, .delivered => some delivered
  | .returned (.secret s), .hand => some s
  | _, _ => none

/-- Who may hold a Secret. -/
inductive Holder where
  | entry (name : Bytes)
  | call (i : Nat) (slot : Slot)
deriving DecidableEq

/-- The holder has this Secret. -/
def Cache.Holds (c : Cache) : Holder → Nat → Prop
  | .entry name, s => c.cached name = some s
  | .call i slot, s => (c.gets i).holds slot = some s

/-- The name and the Secret of an entry. -/
def Entry.key (e : Entry) : Bytes × Nat := (e.name, e.value)

/-- Secrets are owned, and an entry that is not in the cache has none. What a call has not
yet returned it has made itself. -/
structure Kept (c : Cache) : Prop where
  owned : Owned c.Holds c.Live
  placed : ∀ name address, c.entries.lookup name = some address → ∃ e, c.heap[address]? = some e ∧
    e.name = name
  stored : ∀ (address : Nat) (e : Entry), c.heap[address]? = some e → e.value < c.secrets.length
  left : ∀ (address : Nat) (e : Entry), c.heap[address]? = some e →
    c.entries.lookup e.name ≠ some address → ¬ c.Live e.value
  made : ∀ i slot s, slot ≠ .hand → (c.gets i).holds slot = some s →
    ∃ secret, c.secrets[s]? = some secret ∧ secret.maker = i

section Steps

variable {c c' : Cache} {i : Nat} {g : Get}

/-- A new cache holds nothing. -/
theorem new_holds (running : Config) (clock : Int) (holder : Holder) (s : Nat) :
    ¬ (Cache.new running clock).Holds holder s := by
  cases holder with
  | entry name => simp [Cache.Holds, Cache.cached, Cache.new]
  | call i slot => cases slot <;> simp [Cache.Holds, Cache.new, Get.holds]

theorem Kept.new (running : Config) (clock : Int) : Kept (Cache.new running clock) where
  owned :=
    { live_iff := by
        intro s
        constructor
        · rintro ⟨secret, there, _⟩
          simp [Cache.new] at there
        · rintro ⟨holder, held⟩
          exact (new_holds _ _ _ _ held).elim
      unique := fun held => (new_holds _ _ _ _ held).elim }
  placed := fun name address named => by simp [Cache.new] at named
  stored := fun address e there => by simp [Cache.new] at there
  left := fun address e there => by simp [Cache.new] at there
  made := fun i slot s _ held => (new_holds running clock (.call i slot) s held).elim

theorem live_congr (same : c'.secrets = c.secrets) (s : Nat) : c'.Live s ↔ c.Live s := by
  simp only [Cache.Live, same]

theorem keys_values (heap : c'.heap.map Entry.key = c.heap.map Entry.key) :
    c'.heap.map Entry.value = c.heap.map Entry.value := by
  have same := congrArg (List.map Prod.snd) heap
  rwa [map_map, map_map] at same

/-- A Secret that a call has kept to itself is still its own, released or not. -/
theorem Kept.still_made (kept : Kept c)
    (secrets : c'.secrets.map Secret.made = c.secrets.map Secret.made) {j s : Nat} {slot : Slot}
    (early : slot ≠ .hand) (held : (c.gets j).holds slot = some s) :
    ∃ secret, c'.secrets[s]? = some secret ∧ secret.maker = j := by
  obtain ⟨secret, there, own⟩ := kept.made j slot s early held
  have mapped : (c'.secrets.map Secret.made)[s]? = some secret.made := by simp [secrets, there]
  obtain ⟨later, there', same⟩ := by simpa using mapped
  have makers : later.made.maker = secret.made.maker := congrArg Secret.maker same
  exact ⟨later, there', makers.trans own⟩

/-- A step that makes no Secret and caches none: some are released, or handed on. -/
theorem Kept.shrink (kept : Kept c) (owned : Owned c'.Holds c'.Live)
    (heap : c'.heap.map Entry.key = c.heap.map Entry.key)
    (secrets : c'.secrets.map Secret.made = c.secrets.map Secret.made)
    (fewer : ∀ s, c'.Live s → c.Live s)
    (entries : ∀ name address, c'.entries.lookup name = some address →
      c.entries.lookup name = some address)
    (leaves : ∀ (address : Nat) (e : Entry), c.heap[address]? = some e →
      c.entries.lookup e.name = some address →
      c'.entries.lookup e.name ≠ some address → ¬ c'.Live e.value)
    (early : ∀ j slot s, slot ≠ .hand → (c'.gets j).holds slot = some s →
      (c.gets j).holds slot = some s) : Kept c' where
  owned := owned
  placed := by
    intro name address named
    obtain ⟨e, there, own⟩ := kept.placed name address (entries name address named)
    obtain ⟨e', there', same⟩ := Cache.getElem?_of_map heap.symm there
    exact ⟨e', there', (Prod.mk.inj same).1.symm.trans own⟩
  stored := by
    intro address e there
    obtain ⟨before, there', same⟩ := Cache.getElem?_of_map heap there
    have length : c'.secrets.length = c.secrets.length := by
      simpa using congrArg List.length secrets
    rw [(Prod.mk.inj same).2, length]
    exact kept.stored address before there'
  left := by
    intro address e there gone
    obtain ⟨before, there', same⟩ := Cache.getElem?_of_map heap there
    rw [(Prod.mk.inj same).1] at gone
    rw [(Prod.mk.inj same).2]
    by_cases cached : c.entries.lookup before.name = some address
    · exact leaves address before there' cached gone
    · exact fun live => kept.left address before there' cached (fewer _ live)
  made := by
    intro j slot s local_ held
    exact kept.still_made secrets local_ (early j slot s local_ held)

/-- A step that moves no Secret. -/
theorem Kept.congr (kept : Kept c) (entries : c'.entries = c.entries)
    (heap : c'.heap.map Entry.key = c.heap.map Entry.key) (secrets : c'.secrets = c.secrets)
    (gets : ∀ i, (c'.gets i).holds = (c.gets i).holds) : Kept c' := by
  have owned : Owned c'.Holds c'.Live := by
    refine kept.owned.same ?_ (live_congr secrets)
    intro holder s
    cases holder with
    | entry name => simp only [Cache.Holds, Cache.cached_congr entries (keys_values heap)]
    | call i slot => simp only [Cache.Holds, gets]
  apply kept.shrink owned heap (by rw [secrets])
  · exact fun s => (live_congr secrets s).mp
  · rw [entries]
    exact fun _ _ named => named
  · rw [entries]
    exact fun _ _ _ cached gone => absurd cached gone
  · intro j slot s _ held
    rwa [← gets]

/-- A call goes on without a Secret, or with the same as before. -/
theorem Kept.advance (kept : Kept c) {before : Get} (came : c.gets i = before)
    (same : ∀ slot, g.holds slot = before.holds slot) (mu : Lock) :
    Kept { c.turn i g with mu := mu } := by
  refine kept.congr rfl rfl rfl fun j => funext fun slot => ?_
  by_cases own : j = i
  · subst own
    rw [c.turn_same, same, came]
  · rw [c.turn_other own]

/-- A call gets a new Secret. -/
theorem Kept.alloc (kept : Kept c) (slot : Slot) {new : Secret} (unreleased : new.released = false)
    (own : new.maker = i) (vacant : (c.gets i).holds slot = none)
    (holds : ∀ other, g.holds other = if other =
      slot then some c.secrets.length else (c.gets i).holds other) :
    Kept { c.turn i g with secrets := c.secrets ++ [new] } where
  owned := by
    refine kept.owned.alloc c.secrets.length (.call i slot) ?_ ?_ (Cache.live_append unreleased rfl)
    · rintro ⟨secret, there, _⟩
      simp at there
    · intro holder s
      cases holder with
      | entry name => simp [Cache.Holds, Cache.cached, Cache.turn]
      | call j other =>
        by_cases same : j = i
        · subst same
          by_cases here : other = slot
          · subst here
            simp [Cache.Holds, holds, vacant, eq_comm]
          · simp [Cache.Holds, holds, here]
        · simp [Cache.Holds, Cache.turn_other same, same]
  placed := kept.placed
  stored := by
    intro address e there
    have low := kept.stored address e there
    simp
    omega
  left := by
    intro address e there gone
    have low := kept.stored address e there
    rw [Cache.live_append unreleased rfl]
    rintro (live | last)
    · exact kept.left address e there gone live
    · omega
  made := by
    intro j other s early held
    have before : (c.gets j).holds other = some s →
        ∃ secret, (c.secrets ++ [new])[s]? = some secret ∧ secret.maker = j := by
      intro had
      obtain ⟨secret, there, makes⟩ := kept.made j other s early had
      exact ⟨secret, List.getElem?_append_left (List.getElem?_eq_some_iff.mp there).1 ▸ there,
        makes⟩
    by_cases same : j = i
    · subst same
      rw [c.turn_same, holds] at held
      split at held
      · cases held
        exact ⟨new, by simp, own⟩
      · exact before held
    · rw [c.turn_other same] at held
      exact before held

variable {address : Nat}

theorem Kept.placed_lt (kept : Kept c) {name : Bytes}
    (named : c.entries.lookup name = some address) :
    address < c.heap.length := by
  obtain ⟨e, there, _⟩ := kept.placed name address named
  exact (List.getElem?_eq_some_iff.mp there).1

theorem Slot.exists_iff {P : Slot → Prop} : (∃ slot, P slot) ↔
    P .value ∨ P .delivered ∨ P .hand := by
  constructor
  · rintro ⟨_ | _ | _, holds⟩ <;> simp [holds]
  · rintro (holds | holds | holds) <;> exact ⟨_, holds⟩

/-- A call passes its Secrets on, and entries lose theirs. -/
theorem Kept.passOn (kept : Kept c) (i : Nat) (takes : Slot → Option Holder) (lose : Bytes → Bool)
    (entries : ∀ name s, c'.cached name = some s ↔
      (∃ slot, (c.gets i).holds slot = some s ∧ takes slot = some (.entry name)) ∨
      lose name = false ∧ c.cached name = some s)
    (own : ∀ slot s, (c'.gets i).holds slot = some s ↔
      ∃ before, (c.gets i).holds before = some s ∧ takes before = some (.call i slot))
    (others : ∀ j slot, j ≠ i → (c'.gets j).holds slot = (c.gets j).holds slot ∧
      ∀ before, takes before ≠ some (.call j slot))
    (lives : ∀ s, c'.Live s ↔ c.Live s ∧
      (∀ slot, (c.gets i).holds slot = some s → takes slot ≠ none) ∧
      ∀ name, c.cached name = some s → lose name = false) : Owned c'.Holds c'.Live := by
  refine kept.owned.move (fun
    | .entry name => if lose name then none else some (.entry name)
    | .call j slot => if j = i then takes slot else some (.call j slot)) ?_ ?_
  · intro holder s
    cases holder with
    | entry name =>
      refine (entries name s).trans ⟨?_, ?_⟩
      · rintro (⟨slot, had, goes⟩ | ⟨stays, had⟩)
        · exact ⟨.call i slot, had, by simpa using goes⟩
        · exact ⟨.entry name, had, by simp [stays]⟩
      · rintro ⟨before, had, goes⟩
        cases before with
        | entry other =>
          obtain ⟨stays, rfl⟩ : lose other = false ∧ other = name := by simpa using goes
          exact Or.inr ⟨stays, had⟩
        | call j slot =>
          by_cases same : j = i
          · subst same
            exact Or.inl ⟨slot, had, by simpa using goes⟩
          · simp [same] at goes
    | call j slot =>
      by_cases same : j = i
      · subst same
        refine (own slot s).trans ⟨?_, ?_⟩
        · rintro ⟨before, had, goes⟩
          exact ⟨.call j before, had, by simpa using goes⟩
        · rintro ⟨before, had, goes⟩
          cases before with
          | entry other => simp at goes
          | call k before =>
            by_cases there : k = j
            · subst there
              exact ⟨before, had, by simpa using goes⟩
            · simp [there] at goes
      · obtain ⟨keeps, never⟩ := others j slot same
        constructor
        · intro had
          exact ⟨.call j slot, keeps.symm.trans had, by simp [same]⟩
        · rintro ⟨before, had, goes⟩
          cases before with
          | entry other => simp at goes
          | call k before =>
            by_cases there : k = i
            · simp only [there, if_true] at goes
              exact absurd goes (never before)
            · obtain ⟨rfl, rfl⟩ : k = j ∧ before = slot := by simpa [there] using goes
              exact keeps.trans had
  · intro s
    refine (lives s).trans (and_congr_right fun _ => ⟨?_, ?_⟩)
    · rintro ⟨calls, cached⟩ before had
      cases before with
      | entry name => simp [cached name had]
      | call j slot =>
        by_cases same : j = i
        · subst same
          simpa using calls slot had
        · simp [same]
    · intro kept_
      refine ⟨fun slot had => by simpa using kept_ (.call i slot) had,
        fun name had => by simpa using kept_ (.entry name) had⟩

variable {fetched : Int} {q : Query}

/-- The caller gets the fetched Secret itself. -/
theorem Kept.uncached (kept : Kept c) {value : Nat} (came : c.gets i = .got q fetched value) :
    Kept (c.turn i (.returned (.secret value))) := by
  refine kept.shrink ?_ rfl rfl (fun _ live => live) (fun _ _ named => named)
    (fun _ _ _ cached gone => absurd cached gone) ?_
  · refine kept.passOn i (fun _ => some (.call i .hand)) (fun _ => false) ?_ ?_ ?_ ?_
    · simp [Cache.cached, Cache.turn]
    · intro slot s
      cases slot <;> simp [Slot.exists_iff, came, Get.holds]
    · intro j slot apart
      simp [Cache.turn_other apart, Ne.symm apart]
    · intro s
      have same : (c.turn i (.returned (.secret value))).Live s ↔ c.Live s := Iff.rfl
      simp [same]
  · intro j slot s local_ held
    by_cases same : j = i
    · subst same
      cases slot <;> simp [Get.holds] at held local_
    · rwa [c.turn_other same] at held

/-- The caller releases what it got. -/
theorem Kept.release (kept : Kept c) {s : Nat} (came : c.gets i = .returned (.secret s)) :
    Kept ((c.turn i .released).release s) := by
  have had : c.Holds (.call i .hand) s := by simp [Cache.Holds, came, Get.holds]
  have live : ∀ r, ((c.turn i .released).release s).Live r ↔ c.Live r ∧ r ≠ s :=
    fun r => Cache.live_release r s
  refine kept.shrink ?_ rfl (Cache.made_modify _ _) (fun r alive => ((live r).mp alive).1)
    (fun _ _ named => named) (fun _ _ _ cached gone => absurd cached gone) ?_
  · refine kept.owned.release (· = s) ?_ live
    intro holder r
    cases holder with
    | entry name =>
      have other : c.cached name = some r → r ≠ s :=
        fun held => kept.owned.apart (h := .entry name) held had (by simp)
      simpa [Cache.Holds, Cache.cached, Cache.turn, Cache.release] using other
    | call j slot =>
      by_cases same : j = i
      · subst same
        cases slot <;> simp [Cache.Holds, Cache.release, came, Get.holds, eq_comm]
      · have other : (c.gets j).holds slot = some r → r ≠ s :=
          fun held => kept.owned.apart (h := .call j slot) held had (by simp [same])
        simpa [Cache.Holds, Cache.release, Cache.turn_other same] using other
  · intro j slot r local_ held
    by_cases same : j = i
    · subst same
      cases slot <;> simp [Cache.release, Get.holds] at held
    · simpa [Cache.release, Cache.turn_other same] using held

/-- An entry leaves the cache, and its Secret is released. -/
theorem Kept.remove (kept : Kept c) {name : Bytes} {e : Entry}
    (found : c.entry name = some (address, e)) (entries : c'.entries = c.entries.erase name)
    (heap : c'.heap.map Entry.key = c.heap.map Entry.key)
    (secrets : c'.secrets = c.secrets.modify e.value fun secret => { secret with released := true })
    (gets : c'.gets = c.gets) : Kept c' := by
  obtain ⟨named, there⟩ := Cache.entry_eq_some.mp found
  have had : c.Holds (.entry name) e.value := Cache.cached_eq_some.mpr ⟨address, e, found, rfl⟩
  have live : ∀ s, c'.Live s ↔ c.Live s ∧ s ≠ e.value := by
    intro s
    rw [← Cache.live_release s e.value]
    exact live_congr secrets s
  refine kept.shrink ?_ heap (secrets ▸ Cache.made_modify _ _)
    (fun s alive => ((live s).mp alive).1) ?_ ?_ (fun j slot s _ held => gets ▸ held)
  · refine kept.owned.release (· = e.value) ?_ live
    intro holder s
    cases holder with
    | entry other =>
      simp only [Cache.Holds, Cache.cached_erase entries (keys_values heap)]
      by_cases same : other = name
      · subst same
        have own : c.cached other = some e.value := had
        simp [own, eq_comm]
      · have apart : c.cached other = some s → s ≠ e.value :=
          fun held => kept.owned.apart (h := .entry other) held had (by simp [same])
        simpa [same] using apart
    | call j slot =>
      have apart : (c.gets j).holds slot = some s → s ≠ e.value :=
        fun held => kept.owned.apart (h := .call j slot) held had (by simp)
      simpa [Cache.Holds, gets] using apart
  · intro other place kept_
    rw [entries] at kept_
    by_cases same : other = name
    · subst same
      simp at kept_
    · rwa [AList.lookup_erase_ne same] at kept_
  · intro place left there' cached gone alive
    rw [entries] at gone
    by_cases same : left.name = name
    · -- It is the entry that leaves.
      have here : place = address := Option.some.inj (cached.symm.trans (same ▸ named))
      subst here
      obtain rfl : left = e := Option.some.inj (there'.symm.trans there)
      exact ((live _).mp alive).2 rfl
    · rw [AList.lookup_erase_ne same] at gone
      exact gone cached

/-- A late callback releases a Secret that is released already. -/
theorem Kept.expire_late (kept : Kept c) {e : Entry} (there : c.heap[address]? = some e)
    (gone : c.entries.lookup e.name ≠ some address) (callbacks : List Nat) :
    Kept ({ c with callbacks := callbacks }.release e.value) := by
  have dead := kept.left address e there gone
  have live : ∀ s, ({ c with callbacks := callbacks }.release e.value).Live s ↔ c.Live s := by
    intro s
    refine (Cache.live_release s e.value).trans ⟨And.left, fun alive => ⟨alive, ?_⟩⟩
    rintro rfl
    exact dead alive
  refine kept.shrink (kept.owned.same ?_ live) rfl (Cache.made_modify _ _) (fun s => (live s).mp)
    (fun _ _ named => named)
    (fun _ _ _ cached left => absurd cached left) (fun _ _ _ _ held => held)
  intro holder s
  cases holder <;> exact Iff.rfl

theorem Kept.expire (kept : Kept c) {e : Entry} (there : c.heap[address]? = some e) :
    Kept (c.expire address e) := by
  unfold Cache.expire
  split
  · next named => exact kept.remove (Cache.entry_eq_some.mpr ⟨named, there⟩) rfl rfl rfl rfl
  · next gone => exact kept.expire_late there gone _

variable {current : Option SecretName}

/-- A call does not cache what it has fetched. -/
theorem Kept.discard (kept : Kept c) {value delivered : Nat}
    (came : c.gets i = .inserting q fetched value delivered current) (mu : Lock) :
    Kept ({ c.turn i (.returned (.secret delivered)) with mu := mu }.release value) := by
  have live : ∀ s, ({ c.turn i (.returned (.secret delivered)) with mu := mu }.release value).Live
    s ↔
      c.Live s ∧ s ≠ value := fun s => Cache.live_release s value
  refine kept.shrink ?_ rfl (Cache.made_modify _ _) (fun s alive => ((live s).mp alive).1)
    (fun _ _ named => named) (fun _ _ _ cached gone => absurd cached gone) ?_
  · refine kept.passOn i (fun | .value => none | _ => some (.call i .hand)) (fun _ => false) ?_ ?_
      ?_ ?_
    · simp [Slot.exists_iff, Cache.cached, Cache.turn, Cache.release]
    · intro slot s
      cases slot <;> simp [Slot.exists_iff, Cache.release, came, Get.holds]
    · intro j slot apart
      refine ⟨by simp [Cache.release, Cache.turn_other apart], fun before => ?_⟩
      cases before <;> simp [Ne.symm apart]
    · intro s
      refine (live s).trans
        (and_congr_right fun _ => ⟨fun apart => ⟨fun slot held => ?_, fun _ _ => rfl⟩, ?_⟩)
      · cases slot with
        | value =>
          rw [came] at held
          exact absurd (Option.some.inj held).symm apart
        | delivered | hand => simp
      · rintro ⟨calls, _⟩ rfl
        exact calls .value (by simp [came, Get.holds]) rfl
  · intro j slot s local_ held
    by_cases same : j = i
    · subst same
      cases slot <;> simp [Cache.release, Get.holds] at held local_
    · simpa [Cache.release, Cache.turn_other same] using held

/-- An entry is one of before, or the last. -/
theorem Cache.key_cases {name : Bytes} {value : Nat} {e : Entry}
    (heap : c'.heap.map Entry.key = c.heap.map Entry.key ++ [(name, value)])
    (there : c'.heap[address]? = some e) :
    (∃ old, c.heap[address]? = some old ∧ e.key = old.key) ∨ address = c.heap.length ∧
    e.key = (name, value) := by
  have keyed : (c.heap.map Entry.key ++ [(name, value)])[address]? =
      some e.key := by simp [← heap, there]
  by_cases before : address < c.heap.length
  · rw [getElem?_append_left (by simpa using before)] at keyed
    obtain ⟨old, found, same⟩ := by simpa using keyed
    exact Or.inl ⟨old, found, same.symm⟩
  · have last : address = c.heap.length := by
      have bound := (List.getElem?_eq_some_iff.mp keyed).1
      simp at bound
      omega
    refine Or.inr ⟨last, ?_⟩
    rw [last] at keyed
    simpa using keyed.symm

/-- The new entry owns what was fetched, the caller its copy, and the entry it replaces
nothing any more. -/
theorem Kept.cache_owned (kept : Kept c) {value delivered : Nat}
    (came : c.gets i = .inserting q fetched value delivered current)
    (cached : ∀ name, c'.cached name = if name = q.name then some value else c.cached name)
    (gets : c'.gets = (c.turn i (.returned (.secret delivered))).gets)
    (live : ∀ s, c'.Live s ↔ c.Live s ∧ c.cached q.name ≠ some s) : Owned c'.Holds c'.Live := by
  refine kept.passOn i (fun | .value => some (.entry q.name) | _ => some (.call i .hand))
    (· == q.name) ?_ ?_ ?_ ?_
  · intro name s
    rw [cached]
    by_cases same : name = q.name
    · subst same
      simp [Slot.exists_iff, came, Get.holds]
    · simp [Slot.exists_iff, came, Get.holds, same, Ne.symm same]
  · intro slot s
    cases slot <;> simp [Slot.exists_iff, gets, came, Get.holds]
  · intro j slot apart
    refine ⟨by rw [gets, c.turn_other apart], fun before => ?_⟩
    cases before <;> simp [Ne.symm apart]
  · intro s
    refine (live s).trans
      (and_congr_right fun _ => ⟨fun apart => ⟨fun slot _ => ?_, fun name held => ?_⟩, ?_⟩)
    · cases slot <;> simp
    · have other : name ≠ q.name := fun same => apart (same ▸ held)
      simpa using other
    · rintro ⟨_, others⟩ held
      simpa using others q.name held

/-- A call caches what it has fetched, in the place of what was cached. -/
theorem Kept.cache (kept : Kept c) {value delivered : Nat}
    (came : c.gets i = .inserting q fetched value delivered current)
    (entries : c'.entries = c.entries.insert q.name c.heap.length)
    (heap : c'.heap.map Entry.key = c.heap.map Entry.key ++ [(q.name, value)])
    (secrets : c'.secrets.map Secret.made = c.secrets.map Secret.made)
    (gets : c'.gets = (c.turn i (.returned (.secret delivered))).gets)
    (live : ∀ s, c'.Live s ↔ c.Live s ∧ c.cached q.name ≠ some s) : Kept c' := by
  have had : c.Holds (.call i .value) value := by simp [Cache.Holds, came, Get.holds]
  have length : c'.secrets.length = c.secrets.length := by simpa using congrArg List.length secrets
  have cached : ∀ name, c'.cached name = if name = q.name then some value else c.cached name := by
    have values := congrArg (List.map Prod.snd) heap
    rw [map_append, map_map, map_map] at values
    exact Cache.cached_insert (fun _ _ => kept.placed_lt) entries values
  refine ⟨kept.cache_owned came cached gets live, ?_, ?_, ?_, ?_⟩
  · intro name address found
    rw [entries] at found
    by_cases same : name = q.name
    · subst same
      obtain rfl : c.heap.length = address := by simpa using found
      have keyed : (c'.heap.map Entry.key)[c.heap.length]? = some (q.name, value) := by simp [heap]
      obtain ⟨e, there, key⟩ := by simpa using keyed
      exact ⟨e, there, (Prod.mk.inj key).1⟩
    · rw [AList.lookup_insert_ne same] at found
      obtain ⟨old, there, own⟩ := kept.placed name address found
      have keyed : (c'.heap.map Entry.key)[address]? = some old.key := by
        rw [heap, getElem?_append_left (by simpa using kept.placed_lt found)]
        simp [there]
      obtain ⟨e, there', key⟩ := by simpa using keyed
      exact ⟨e, there', (Prod.mk.inj key).1.trans own⟩
  · intro address e there
    rw [length]
    rcases Cache.key_cases heap there with ⟨old, found, key⟩ | ⟨_, key⟩
    · rw [(Prod.mk.inj key).2]
      exact kept.stored address old found
    · obtain ⟨secret, found, _⟩ := kept.owned.alive had
      rw [(Prod.mk.inj key).2]
      exact (List.getElem?_eq_some_iff.mp found).1
  · intro address e there gone alive
    rw [entries] at gone
    obtain ⟨alive, apart⟩ := (live _).mp alive
    rcases Cache.key_cases heap there with ⟨old, found, key⟩ | ⟨rfl, key⟩
    · obtain ⟨name, same⟩ := Prod.mk.inj key
      rw [name] at gone
      rw [same] at alive apart
      by_cases here : old.name = q.name
      · by_cases old_place : c.entries.lookup q.name = some address
        · exact apart
            (Cache.cached_eq_some.mpr ⟨address, old, Cache.entry_eq_some.mpr ⟨old_place, found⟩,
              rfl⟩)
        · exact kept.left address old found (here ▸ old_place) alive
      · rw [AList.lookup_insert_ne here] at gone
        exact kept.left address old found gone alive
    · rw [(Prod.mk.inj key).1] at gone
      exact gone (AList.lookup_insert _)
  · intro j slot s local_ held
    by_cases same : j = i
    · subst same
      rw [gets, c.turn_same] at held
      cases slot <;> simp [Get.holds] at held local_
    · rw [gets, c.turn_other same] at held
      exact kept.still_made secrets local_ held

theorem untimed_keys {heap heap' : List Entry}
    (same : heap'.map Entry.untimed = heap.map Entry.untimed) :
    heap'.map Entry.key = heap.map Entry.key := by
  have keys := congrArg (List.map Entry.key) same
  rwa [map_map, map_map] at keys

/-- The copy is the cache's, the other is the caller's. -/
theorem Kept.insert (kept : Kept c) {value delivered : Nat}
    (came : c.gets i = .inserting q fetched value delivered current) :
    Kept (c.insert i q fetched value delivered current) := by
  unfold Cache.insert
  cases c.mayCache q current with
  | none => exact kept.discard came .free
  | some s =>
    obtain ⟨wiped, same, replaced, live⟩ :=
      Cache.replace_eq { c.turn i (.returned (.secret delivered)) with mu := .free }
      (Cache.newEntry q fetched value s)
    simp only [replaced]
    refine kept.cache came ?_ ?_ same.secrets same.gets live
    · rw [same.entries, same.length]
      rfl
    · rw [map_append, untimed_keys same.heap]
      rfl

/-- Closing wipes what the cache holds. -/
theorem Kept.close (kept : Kept c) : Kept c.close := by
  obtain ⟨wiped, same, closed, live⟩ := c.close_eq
  rw [closed]
  refine kept.shrink ?_ (untimed_keys same.heap) same.secrets (fun s alive => ((live s).mp alive).1)
    ?_ ?_ ?_
  · refine kept.owned.release (fun s => ∃ name, c.cached name = some s) ?_ fun s =>
      (live s).trans (by simp)
    intro holder s
    cases holder with
    | entry name =>
      simp only [Cache.Holds, Cache.cached, AList.lookup_empty, Option.bind_none, reduceCtorEq,
        false_iff, not_and, not_not]
      exact fun held => ⟨name, held⟩
    | call j slot =>
      have apart : (c.gets j).holds slot = some s → ∀ name, c.cached name ≠ some s := by
        intro held name cached
        have other : c.Holds (.entry name) s := cached
        exact kept.owned.apart (h := .call j slot) held other (by simp) rfl
      simpa [Cache.Holds, same.gets] using apart
  · intro name address named
    simp at named
  · intro address e there cached _ alive
    exact ((live _).mp alive).2 e.name
      (Cache.cached_eq_some.mpr ⟨address, e, Cache.entry_eq_some.mpr ⟨cached, there⟩, rfl⟩)
  · intro j slot s _ held
    rwa [same.gets] at held

theorem Kept.pruneEntry (kept : Kept c) (cfg : Config) (name : Bytes) :
    Kept (c.pruneEntry cfg name) := by
  rcases c.pruneEntry_cases cfg name with
    ⟨_, same⟩ | ⟨address, e, found, ⟨_, wiped⟩ | ⟨ttl, _, ⟨_, shorter⟩ | ⟨_, same⟩⟩⟩
  · rwa [same]
  · rw [wiped]
    exact kept.remove found rfl (untimed_keys (Cache.wiped_wipe c address e).heap) rfl rfl
  · rw [shorter]
    refine kept.congr rfl ?_ rfl fun _ => rfl
    exact Cache.map_modify Entry.key (fun e => { e with ttl := ttl, timer := _ }) (fun _ => rfl)
      c.heap address
  · rwa [same]

/-- A lookup hands a copy to the caller, or nothing. -/
theorem Kept.lookup (kept : Kept c) (came : c.gets i = .called q) (memory : Bool) :
    Kept (c.lookup i q memory) := by
  rcases c.lookup_cases i q memory with
    missed | ⟨failure, failed⟩ | ⟨address, e, secret, _, _, _, unreleased, hit⟩
  · rw [missed]
    exact kept.advance came (fun slot => by cases slot <;> rfl) c.mu
  · rw [failed]
    exact kept.advance came (fun slot => by cases slot <;> rfl) c.mu
  · rw [hit]
    refine kept.alloc .hand unreleased rfl (by simp [came, Get.holds]) fun slot => ?_
    cases slot <;> simp [came, Get.holds]

/-- Every step keeps the Secrets owned. -/
theorem Kept.step {act : Action} (kept : Kept c) (taken : c.step act = some c') : Kept c' := by
  cases Cache.takes taken with
  | tick later | store none | beginPrune stored free | endPrune pruning =>
    exact kept.congr rfl rfl rfl fun _ => rfl
  | call came | time came | fetch came | failed came =>
    exact kept.advance came (fun slot => by cases slot <;> rfl) c.mu
  | lookup came free => exact kept.lookup came _
  | fetched came =>
    refine kept.alloc .value rfl rfl (by simp [came, Get.holds]) fun slot => ?_
    cases slot <;> simp [came, Get.holds]
  | clone came copied =>
    obtain ⟨secret, _, unreleased, rfl⟩ := Cache.clone_ok copied
    refine kept.alloc .delivered unreleased rfl (by simp [came, Get.holds]) fun slot => ?_
    cases slot <;> simp [came, Get.holds]
  | uncached came => exact kept.uncached came
  | lock came free => exact kept.advance came (fun slot => by cases slot <;> rfl) _
  | insert came => exact kept.insert came
  | release came => exact kept.release came
  | prune pruning => exact (kept.pruneEntry _ _).congr rfl rfl rfl fun _ => rfl
  | fire => exact kept.congr rfl (untimed_keys (Cache.untimed_setTimer c _ none)) rfl fun _ => rfl
  | expire there free => exact kept.expire there
  | close free => exact kept.close

theorem Kept.run {acts : List Action} {running : Config} {clock : Int}
    (ran : after Cache.step (Cache.new running clock) acts = some c) : Kept c :=
  after_invariant (fun _ _ _ kept taken => kept.step taken) ran (Kept.new running clock)

/-- Only the caller's release takes away what the caller has got. -/
theorem Cache.hand_stays {act : Action} {s : Nat} (taken : c.step act = some c')
    (got : c.gets i = .returned (.secret s))
    (other : act ≠ .release i) : c'.gets i = .returned (.secret s) := by
  have turned : ∀ j g, c.gets j ≠ .returned (.secret s) →
      (c.turn j g).gets i = .returned (.secret s) := by
    intro j g before
    have apart : i ≠ j := by
      rintro rfl
      exact before got
    rw [c.turn_other apart, got]
  cases Cache.takes taken with
  | tick | store | beginPrune | endPrune | fire => exact got
  | @call j _ came | @time j _ came | @fetch j _ _ came
  | @failed j _ _ _ came | @fetched j _ _ _ _ came
  | @clone j _ _ _ _ _ came _ | @uncached j _ _ _ _ came | @lock j _ _ _ _ came _ =>
    exact turned j _ (by simp [came])
  | @lookup j q memory came free =>
    rcases c.lookup_cases j q memory with missed | ⟨_, failed⟩ | ⟨_, _, _, _, _, _, _, hit⟩
    · rw [missed]
      exact turned j _ (by simp [came])
    · rw [failed]
      exact turned j _ (by simp [came])
    · rw [hit]
      exact turned j _ (by simp [came])
  | @insert j _ _ _ _ _ came =>
    rw [c.insert_gets]
    exact turned j _ (by simp [came])
  | @release j r came =>
    have apart : i ≠ j := by
      rintro rfl
      exact other rfl
    exact (c.turn_other apart _).trans got
  | prune pruning => exact (congrFun (c.pruneEntry_gets _ _) i).trans got
  | @expire address e there free =>
    unfold Cache.expire
    split <;> exact got
  | close free =>
    obtain ⟨wiped, same, closed, _⟩ := c.close_eq
    rw [closed]
    exact (congrFun same.gets i).trans got

end Steps

/-- The call has returned. -/
def Get.Done : Get → Prop
  | .returned _ | .released => True
  | _ => False

theorem Get.holds_hand {g : Get} {s : Nat} : g.holds .hand = some s ↔
    g = .returned (.secret s) := by
  cases g with
  | returned answer => cases answer <;> simp [Get.holds]
  | _ => simp [Get.holds]

/-- A call that has returned has left nothing behind. -/
theorem Get.Done.holds {g : Get} (done : g.Done) {slot : Slot} (early : slot ≠ .hand) :
    g.holds slot = none := by
  cases g with
  | returned answer => cases slot <;> simp [Get.holds] at early ⊢
  | released => cases slot <;> simp [Get.holds]
  | idle | called | missed | timed | fetching | got | cloned | inserting => exact done.elim

theorem Cache.holds_hand {c : Cache} {i s : Nat} (got : c.gets i = .returned (.secret s)) :
    c.Holds (.call i .hand) s :=
  Get.holds_hand.mpr got

/-- Where a Secret is once its maker has returned: with an entry, with a caller, or
released. -/
theorem Kept.whereabouts {c : Cache} (kept : Kept c) {s : Nat} {secret : Secret}
    (there : c.secrets[s]? = some secret) (done : (c.gets secret.maker).Done) :
    let held := ∃ name, c.cached name = some s
    let handed := ∃ i, c.gets i = .returned (.secret s)
    (held ∧ ¬ handed ∧ secret.released = false) ∨ (¬ held ∧ handed ∧ secret.released = false) ∨
      (¬ held ∧ ¬ handed ∧ secret.released = true) := by
  intro held handed
  have live : c.Live s ↔ secret.released = false := by simp [Cache.Live, there]
  have apart : held → ¬ handed := by
    rintro ⟨name, cached⟩ ⟨i, got⟩
    have other : c.Holds (.entry name) s := cached
    exact kept.owned.apart (Cache.holds_hand got) other (by simp) rfl
  cases released : secret.released with
  | true =>
    have dead : ¬ c.Live s := by simp [live, released]
    refine Or.inr (Or.inr ⟨?_, ?_, rfl⟩)
    · rintro ⟨name, cached⟩
      exact dead (kept.owned.alive (h := .entry name) cached)
    · rintro ⟨i, got⟩
      exact dead (kept.owned.alive (Cache.holds_hand got))
  | false =>
    obtain ⟨holder, has⟩ := (kept.owned.live_iff s).mp (live.mpr released)
    cases holder with
    | entry name => exact Or.inl ⟨⟨name, has⟩, apart ⟨name, has⟩, rfl⟩
    | call i slot =>
      by_cases given : slot = .hand
      · subst given
        have got : handed := ⟨i, Get.holds_hand.mp has⟩
        exact Or.inr (Or.inl ⟨fun entry => apart entry got, got, rfl⟩)
      · -- Its maker would still be on its way.
        obtain ⟨same, found, own⟩ := kept.made i slot s given has
        obtain rfl : secret = same := Option.some.inj (there.symm.trans found)
        rw [own] at done
        cases (done.holds given).symm.trans has

/-- Who owns a Secret. In every state the cache comes to, the Secrets its entries hold are
not released, and no two entries hold the same. Of a Secret whose call has returned,
exactly one holds: one entry has it, one caller has got it, or it is released. What a
caller has got it keeps until it releases it itself, and its release leaves the entries
and their Secrets as they are. An entry that has left the cache has released its Secret. -/
theorem secret_ownership (running : Config) (clock : Int) (acts : List Action) (c : Cache)
    (ran : after Cache.step (Cache.new running clock) acts = some c) :
    (∀ name address, c.entries.lookup name = some address →
      ∃ e : Entry, c.heap[address]? = some e ∧ c.cached name = some e.value ∧ c.Live e.value) ∧
    (∀ name name' s, c.cached name = some s → c.cached name' = some s → name = name') ∧
    (∀ (s : Nat) (secret : Secret), c.secrets[s]? = some secret → (c.gets secret.maker).Done →
      let held := ∃ name, c.cached name = some s
      let handed := ∃ i, c.gets i = .returned (.secret s)
      (held ∧ ¬ handed ∧ secret.released = false) ∨ (¬ held ∧ handed ∧ secret.released = false) ∨
        (¬ held ∧ ¬ handed ∧ secret.released = true)) ∧
    (∀ i j s, c.gets i = .returned (.secret s) → c.gets j = .returned (.secret s) → i = j) ∧
    (∀ i s act next, c.gets i = .returned (.secret s) → c.step act = some next → act ≠ .release i →
      next.gets i = .returned (.secret s) ∧ next.Live s) ∧
    (∀ i next, c.step (.release i) = some next → next.entries = c.entries ∧ next.heap = c.heap ∧
      ∀ name s, c.cached name = some s → next.secrets[s]? = c.secrets[s]?) ∧
    ∀ (address : Nat) (e : Entry), c.heap[address]? = some e →
      c.entries.lookup e.name ≠ some address →
      ¬ c.Live e.value := by
  have kept := Kept.run ran
  refine ⟨?_, ?_, ?_, ?_, ?_, ?_, kept.left⟩
  · intro name address named
    obtain ⟨e, there, _⟩ := kept.placed name address named
    have held : c.cached name = some e.value :=
      Cache.cached_eq_some.mpr ⟨address, e, Cache.entry_eq_some.mpr ⟨named, there⟩, rfl⟩
    exact ⟨e, there, held, kept.owned.alive (h := .entry name) held⟩
  · intro name name' s first second
    have same : Holder.entry name = Holder.entry name' :=
      kept.owned.unique (h := .entry name) first second
    exact Holder.entry.inj same
  · intro s secret there done
    exact kept.whereabouts there done
  · intro i j s first second
    exact (Holder.call.inj (kept.owned.unique (Cache.holds_hand first) (Cache.holds_hand second))).1
  · intro i s act next got taken other
    have stays := Cache.hand_stays taken got other
    refine ⟨stays, (kept.step taken).owned.alive (h := .call i .hand) ?_⟩
    simp [Cache.Holds, stays, Get.holds]
  · intro i next taken
    cases Cache.takes taken with
    | release came =>
      refine ⟨rfl, rfl, fun name r held => ?_⟩
      have other : c.Holds (.entry name) r := held
      have apart := kept.owned.apart (Cache.holds_hand came) other (by simp)
      simp [Cache.release, Cache.turn, apart]

/-- The callback leaves the new Secret alone, and the old one is released. -/
theorem secret_ownership_late_expiry :
    ∃ c,
      after Cache.step
        (Cache.new { Config.empty with secrets := AList.singleton github.name github } 0)
          lateExpiry =
        some c ∧ c.cached github.name = some 2 ∧ c.Live 2 ∧ ¬ c.Live 0 := by
  have outcome :
      (after Cache.step
        (Cache.new { Config.empty with secrets := AList.singleton github.name github } 0)
      lateExpiry).map (fun c => (c.entries.lookup github.name, c.heap.map Entry.key)) =
      some (some 1, [(github.name, 0), (github.name, 2)]) := by decide +kernel
  obtain ⟨c, ran, facts⟩ := Option.map_eq_some_iff.mp outcome
  obtain ⟨named, keys⟩ := Prod.mk.inj facts
  obtain ⟨entries, _, _, _, _, _, left⟩ := secret_ownership _ 0 lateExpiry c ran
  have first : (c.heap.map Entry.key)[0]? = some (github.name, 0) := by simp [keys]
  have second : (c.heap.map Entry.key)[1]? = some (github.name, 2) := by simp [keys]
  obtain ⟨old, there, key⟩ := by simpa using first
  obtain ⟨new, there', key'⟩ := by simpa using second
  obtain ⟨e, found, cached, live⟩ := entries github.name 1 named
  obtain rfl : e = new := Option.some.inj (found.symm.trans there')
  have value : e.value = 2 := (Prod.mk.inj key').2
  have name : old.name = github.name := (Prod.mk.inj key).1
  have gone : c.entries.lookup old.name ≠ some 0 := by
    rw [name, named]
    decide
  exact ⟨c, ran, value ▸ cached, value ▸ live, (Prod.mk.inj key).2 ▸ left 0 old there gone⟩

end TrustedCourier.Resolver
