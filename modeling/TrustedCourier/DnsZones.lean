import TrustedCourier.UrlPaths
import TrustedCourier.Utf8

/-!
# The zone that holds a record

A DNS provider's zone is the configured one, or the longest parent of the record's name
that the provider holds; what was found and what was missed is remembered for the order.
Azure then wants the record's name relative to the zone, which `azure.zone` makes by
cutting off first a dot and the zone and then the zone alone. The second cut is meant for a
record at the zone itself. It strikes whenever what is left by the first ends in the zone's
text again.
-/

namespace TrustedCourier.Dns

open ByteStrings List Option

/-- The fields of `config.DNS` that finding a zone and naming a record read. -/
structure Config where
  provider : String
  zone : Bytes := []
  subscriptionID : Bytes := []
  resourceGroup : Bytes := []

/-- How runes beyond ASCII go to lower case. -/
abbrev Lower := Bytes → Bytes

/-- `zoneCandidates`. -/
def zoneCandidates (lower : Lower) (cfg : Config) (name : Bytes) : List Bytes :=
  if cfg.zone ≠ [] then [cfg.zone]
  else
    let labels := (Utf8.toLower lower (trimTrailing name [0x2E])).splitOn 0x2E
    -- The record's own name is never a zone apex; its parents may be.
    (List.range' 1 (labels.length - 1)).map fun i => [0x2E].intercalate (labels.drop i)

/-- What earlier lookups have found, and have not. -/
structure ZoneCache where
  ids : List (Bytes × Bytes) := []
  missing : List Bytes := []

/-- Why no zone is found. -/
inductive ZoneErr where
  | notAtProvider (provider : String) (zone : Bytes)
  | noZone (provider : String) (name : Bytes)
  | lookup (err : String)

section Find

variable {σ : Type} (lookup : σ → Bytes → Except String (Option Bytes) × σ)

/-- The loop of `zoneCache.find`: the first candidate that is remembered or found, with the
state that the lookups leave. -/
def findIn : List Bytes → ZoneCache → σ → Except String (Option (Bytes × Bytes)) × ZoneCache × σ
  | [], cache, s => (.ok none, cache, s)
  | candidate :: rest, cache, s =>
    match cache.ids.lookup candidate with
    | some id => (.ok (some (id, candidate)), cache, s)
    | none =>
      if cache.missing.contains candidate then findIn rest cache s
      else
        match lookup s candidate with
        | (.error err, s) => (.error err, cache, s)
        | (.ok (some id), s) =>
          (.ok (some (id, candidate)), { cache with ids := (candidate, id) :: cache.ids }, s)
        | (.ok none, s) => findIn rest { cache with missing := candidate :: cache.missing } s

/-- `zoneCache.find`: the zone's id and its name. -/
def find (lower : Lower) (cfg : Config) (name : Bytes) (cache : ZoneCache) (s : σ) :
    Except ZoneErr (Bytes × Bytes) × ZoneCache × σ :=
  match findIn lookup (zoneCandidates lower cfg name) cache s with
  | (.error err, cache, s) => (.error (.lookup err), cache, s)
  | (.ok (some found), cache, s) => (.ok found, cache, s)
  | (.ok none, cache, s) =>
    (.error (if cfg.zone ≠ [] then .notAtProvider cfg.provider cfg.zone else .noZone cfg.provider
      name), cache, s)

/-- What is remembered has its own name for an id. -/
def ZoneCache.Own (cache : ZoneCache) : Prop := ∀ entry ∈ cache.ids, entry.2 = entry.1

variable {lookup}

/-- If zones are looked up by their names, the zone that is found is a candidate and its id
is its name. -/
theorem findIn_own (named : ∀ s candidate id, (lookup s candidate).1 = .ok (some id) →
    id = candidate) (candidates : List Bytes) {cache : ZoneCache} (own : cache.Own) (s : σ) :
    (findIn lookup candidates cache s).2.1.Own ∧
      ∀ id zone, (findIn lookup candidates cache s).1 = .ok (some (id, zone)) → id = zone ∧
        zone ∈ candidates := by
  induction candidates generalizing cache s with
  | nil => exact ⟨own, fun id zone found => by simp [findIn] at found⟩
  | cons candidate rest ih =>
    unfold findIn
    split
    · next id known =>
      refine ⟨own, fun other zone found => ?_⟩
      obtain ⟨rfl, rfl⟩ := Prod.mk.inj (some.inj (Except.ok.inj found))
      obtain ⟨front, back, split, _⟩ := lookup_eq_some_iff.mp known
      exact ⟨own (candidate, id) (by rw [split]; simp), mem_cons_self⟩
    · split
      · obtain ⟨kept, within⟩ := ih own s
        exact ⟨kept, fun id zone found =>
          ⟨(within id zone found).1, mem_cons_of_mem _ (within id zone found).2⟩⟩
      · split
        · next looked => exact ⟨own, fun id zone found => by simp at found⟩
        · next id after looked =>
          have same : id = candidate := named s candidate id (by rw [looked])
          refine ⟨forall_mem_cons.mpr ⟨same, own⟩, fun other zone found => ?_⟩
          obtain ⟨rfl, rfl⟩ := Prod.mk.inj (some.inj (Except.ok.inj found))
          exact ⟨same, mem_cons_self⟩
        · next after looked =>
          have same : { cache with missing := candidate :: cache.missing }.Own := own
          obtain ⟨kept, within⟩ := ih same after
          exact ⟨kept, fun id zone found =>
            ⟨(within id zone found).1, mem_cons_of_mem _ (within id zone found).2⟩⟩

end Find

/-! ## Azure -/

/-- An `azure` without its credentials: the zones found and missed, and the names of the
zones in the resource group, once they are listed. Zones are known by their names. -/
structure Azure where
  cfg : Config
  base : Bytes := bytes "https://management.azure.com"
  zones : ZoneCache := {}
  names : Option (List Bytes) := none
  own : zones.Own

/-- The lookup that `azure.zone` hands to `find`, given what listing the zones returns. -/
def azureLookup (lower : Lower) (cfg : Config) (listing : Except String (List Bytes))
    (names : Option (List Bytes)) (candidate : Bytes) :
    Except String (Option Bytes) × Option (List Bytes) :=
  if cfg.zone ≠ [] then (.ok (some candidate), names)
  else
    match names, listing with
    | some names, _ => (.ok (if names.contains candidate then some candidate else none), some names)
    | none, .error err => (.error err, none)
    | none, .ok listed =>
      let names := listed.map (Utf8.toLower lower)
      (.ok (if names.contains candidate then some candidate else none), some names)

/-- The name of a record relative to its zone. -/
def azureRelative (name zone : Bytes) : Bytes :=
  let relative := trimTrailing (trimTrailing name (0x2E :: zone)) zone
  if relative = [] then bytes "@" else relative

/-- Azure has a zone's name for its id. -/
theorem azureLookup_named (lower : Lower) (cfg : Config) (listing : Except String (List Bytes))
    (names : Option (List Bytes)) (candidate id : Bytes)
    (found : (azureLookup lower cfg listing names candidate).1 = .ok (some id)) :
    id = candidate := by
  have listed : ∀ {names : List Bytes},
    (Except.ok (if names.contains candidate then some candidate else none) :
      Except String (Option Bytes)) = .ok (some id) → id = candidate := by
    intro names same
    obtain ⟨_, same⟩ := ite_none_right_eq_some.mp (Except.ok.inj same)
    exact (some.inj same).symm
  unfold azureLookup at found
  split at found
  · exact (some.inj (Except.ok.inj found)).symm
  · split at found
    · exact listed found
    · simp at found
    · exact listed found

/-- What finding a zone at Azure leaves and returns. -/
theorem azure_find (lower : Lower) (listing : Except String (List Bytes)) (z : Azure)
    (name : Bytes) :
    (find (azureLookup lower z.cfg listing) lower z.cfg name z.zones z.names).2.1.Own ∧
      ∀ id zone, (find (azureLookup lower z.cfg listing) lower z.cfg name z.zones z.names).1 =
        .ok (id, zone) →
        id = zone ∧ zone ∈ zoneCandidates lower z.cfg name := by
  obtain ⟨kept, within⟩ := findIn_own (azureLookup_named lower z.cfg listing)
    (zoneCandidates lower z.cfg name) z.own z.names
  unfold find
  generalize findIn (azureLookup lower z.cfg listing) (zoneCandidates lower z.cfg name) z.zones
    z.names = result at *
  obtain ⟨outcome, cache, names⟩ := result
  cases outcome with
  | error err => exact ⟨kept, fun id zone found => by simp at found⟩
  | ok found =>
    cases found with
    | none => exact ⟨kept, fun id zone found => by simp at found⟩
    | some found =>
      exact ⟨kept, fun id zone same => within id zone
        (congrArg (Except.ok ∘ some) (Except.ok.inj same))⟩

/-- `azure.zone`: the zone and the name of the record in it. -/
def Azure.zone (z : Azure) (lower : Lower) (listing : Except String (List Bytes)) (name : Bytes) :
    Except ZoneErr (Bytes × Bytes) × Azure :=
  let found := find (azureLookup lower z.cfg listing) lower z.cfg name z.zones z.names
  (found.1.map fun zone => (zone.1, azureRelative name zone.1),
    { z with zones := found.2.1, names := found.2.2, own := (azure_find lower listing z name).1 })

/-- A joined text ends in what is joined of its later parts, after a separator. -/
theorem intercalate_drop_suffix (c : UInt8) (parts : List Bytes) {i : Nat} (first : 0 < i)
    (inside : i < parts.length) :
    c :: [c].intercalate (parts.drop i) <:+ [c].intercalate parts := by
  induction parts generalizing i with
  | nil => exact absurd inside (Nat.not_lt_zero i)
  | cons part rest ih =>
    cases rest with
    | nil => simp at inside; omega
    | cons second others =>
      rw [intercalate_cons_cons, append_assoc, singleton_append]
      obtain ⟨k, rfl⟩ := Nat.exists_eq_add_one_of_ne_zero (Nat.ne_of_gt first)
      rw [drop_succ_cons]
      rcases Nat.eq_zero_or_pos k with rfl | later
      · rw [drop_zero]
        exact suffix_append _ _
      · have shorter := ih later (by simpa using inside)
        exact shorter.trans ((suffix_cons _ _).trans (suffix_append _ _))

/-- A zone that is found by lookup is a parent of the name. -/
theorem zoneCandidates_parent {lower : Lower} {cfg : Config} {name zone : Bytes}
    (plain : Utf8.toLower lower name = name) (bare : ¬ [0x2E] <:+ name)
    (candidate : zone ∈ zoneCandidates lower cfg name) (unset : cfg.zone = []) :
    0x2E :: zone <:+ name := by
  rw [zoneCandidates, if_neg (not_not_intro unset), trimTrailing_of_not bare, plain] at candidate
  obtain ⟨i, listed, rfl⟩ := mem_map.mp candidate
  have range := mem_range'_1.mp listed
  have parent := intercalate_drop_suffix 0x2E (name.splitOn 0x2E) (i := i) (by omega) (by omega)
  rwa [intercalate_splitOn 0x2E] at parent

def Azure.groupPath (z : Azure) : Bytes :=
  bytes "/subscriptions/" ++ UrlPaths.pathEscape z.cfg.subscriptionID ++ bytes "/resourceGroups/" ++
    UrlPaths.pathEscape z.cfg.resourceGroup

/-- `azure.recordPath`: where the record set is read and written. -/
def Azure.recordPath (z : Azure) (zone relative : Bytes) : Bytes :=
  z.base ++ z.groupPath ++ bytes "/providers/Microsoft.Network/dnsZones/" ++
    UrlPaths.pathEscape zone ++
    bytes "/TXT/" ++ UrlPaths.pathEscape relative ++ bytes "?api-version=2018-05-01"

/-- The path of a record set tells which one it is. -/
theorem recordPath_injective (z : Azure) {zone zone' relative relative' : Bytes}
    (same : z.recordPath zone relative = z.recordPath zone' relative') :
    zone = zone' ∧ relative = relative' := by
  have after : ∀ zone relative, z.recordPath zone relative =
      (z.base ++ z.groupPath ++ bytes "/providers/Microsoft.Network/dnsZones/") ++
        (UrlPaths.pathEscape zone ++
        0x2F ::
          (bytes "TXT/" ++ (UrlPaths.pathEscape relative ++ bytes "?api-version=2018-05-01"))) := by
    intro zone relative
    have slash : bytes "/TXT/" = 0x2F :: bytes "TXT/" := by decide
    rw [Azure.recordPath, slash]
    simp only [append_assoc, cons_append]
  rw [after, after] at same
  -- The zone is what stands before the next slash.
  have cuts := congrArg (cut · 0x2F) (append_cancel_left same)
  simp only [cut_append (UrlPaths.slash_not_mem_pathEscape _), Prod.mk.injEq] at cuts
  exact ⟨UrlPaths.pathEscape_injective cuts.1,
    UrlPaths.pathEscape_injective (append_cancel_right (append_cancel_left cuts.2.1))⟩

/-- The DNS name that a record set of Azure's is published at. -/
def published (zone relative : Bytes) : Bytes :=
  if relative = bytes "@" then zone else relative ++ 0x2E :: zone

/-- The record is placed at its name: at the zone itself, or by what stands before it. -/
structure Placed (name zone relative : Bytes) : Prop where
  apex : name = zone → relative = bytes "@"
  below : name ≠ zone → relative ++ 0x2E :: zone = name
  published : published zone relative = name

/-- The record is the zone's own, or what stands before the zone is neither empty nor the
zone's sign and does not end in the zone's text. -/
def Separable (name zone : Bytes) : Prop :=
  name = zone ∨ ∃ rest, rest ++ 0x2E :: zone = name ∧ rest ≠ [] ∧ rest ≠ bytes "@" ∧ ¬ zone <:+ rest

/-- What the second cut leaves as it is, and does not take for the zone's own record. -/
theorem second_cut {rest zone : Bytes} (proper : zone ≠ []) :
    (if trimTrailing rest zone = [] then bytes "@" else trimTrailing rest zone) = rest ∧
    rest ≠ bytes "@" ↔
      rest ≠ [] ∧ rest ≠ bytes "@" ∧ ¬ zone <:+ rest := by
  by_cases again : zone <:+ rest
  · obtain ⟨more, rfl⟩ := again
    rw [trimTrailing_append]
    refine iff_of_false ?_ fun fine => fine.2.2 (suffix_append more zone)
    rintro ⟨same, unsigned⟩
    split at same
    · exact unsigned same.symm
    · have size := congrArg List.length same
      rw [length_append] at size
      have positive := length_pos_iff.mpr proper
      omega
  · rw [trimTrailing_of_not again]
    by_cases empty : rest = []
    · rw [if_pos empty, empty]
      exact iff_of_false (fun both => both.2 both.1.symm) fun fine => fine.1 rfl
    · rw [if_neg empty]
      exact ⟨fun both => ⟨empty, both.2, again⟩, fun fine => ⟨rfl, fine.2.1⟩⟩

/-- The name before the zone is what the first cut leaves, and the second is made of that. -/
theorem azureRelative_append (rest zone : Bytes) : azureRelative (rest ++ 0x2E :: zone) zone =
    if trimTrailing rest zone = [] then bytes "@" else trimTrailing rest zone := by
  rw [azureRelative, trimTrailing_append]

theorem append_zone_ne (rest zone : Bytes) : rest ++ 0x2E :: zone ≠ zone := by
  intro same
  have size := congrArg List.length same
  rw [length_append, length_cons] at size
  omega

/-- A record that can be told from its zone is placed at its name. -/
theorem Separable.placed {name zone : Bytes} (separable : Separable name zone) :
    Placed name zone (azureRelative name zone) := by
  rcases separable with rfl | ⟨rest, rfl, fine⟩
  · have longer : ¬ 0x2E :: name <:+ name := fun ends => Nat.not_succ_le_self _ ends.length_le
    have nothing : trimTrailing name name = [] := trimTrailing_append [] name
    have sign : azureRelative name name = bytes "@" := by
      rw [azureRelative, trimTrailing_of_not longer, nothing, if_pos rfl]
    exact ⟨fun _ => sign, fun other => absurd rfl other, by rw [published, if_pos sign]⟩
  · have proper : zone ≠ [] := by
      rintro rfl
      exact fine.2.2 nil_suffix
    obtain ⟨kept, unsigned⟩ := (second_cut proper).mpr fine
    rw [azureRelative_append, kept]
    exact ⟨fun equal => absurd equal (append_zone_ne rest zone), fun _ => rfl, if_neg unsigned⟩

/-- Where cutting twice is as good as cutting once. -/
theorem azureRelative_placed {name zone : Bytes} (bare : ¬ [0x2E] <:+ name)
    (below : name = zone ∨ 0x2E :: zone <:+ name) :
    Placed name zone (azureRelative name zone) ↔ Separable name zone := by
  refine ⟨fun placed => ?_, Separable.placed⟩
  rcases below with same | ⟨rest, rfl⟩
  · exact Or.inl same
  · have proper : zone ≠ [] := by
      rintro rfl
      exact bare (suffix_append rest [0x2E])
    have same := append_cancel_right (placed.below (append_zone_ne rest zone))
    have unsigned : rest ≠ bytes "@" := by
      rintro rfl
      have apex := placed.published
      rw [same, published, if_pos rfl] at apex
      exact append_zone_ne _ zone apex.symm
    rw [azureRelative_append] at same
    exact Or.inr ⟨rest, rfl, (second_cut proper).mp ⟨same, unsigned⟩⟩

/-- The name that `azure.zone` returns is relative to its zone, configured or found, exactly
if the record is the zone's own, or what stands before the zone is neither empty nor the
zone's sign and does not end in the zone's text. -/
theorem azure_zone_relative (lower : Lower) (listing : Except String (List Bytes)) (z z' : Azure)
    (name zone relative : Bytes) (found : z.zone lower listing name = (.ok (zone, relative), z'))
    (plain : Utf8.toLower lower name = name) (bare : ¬ [0x2E] <:+ name)
    (below : z.cfg.zone ≠ [] → name = zone ∨ 0x2E :: zone <:+ name) :
    Placed name zone relative ↔ Separable name zone := by
  obtain ⟨returned, _⟩ := Prod.mk.inj found
  obtain ⟨⟨id, candidate⟩, looked, same⟩ : ∃ entry,
      (find (azureLookup lower z.cfg listing) lower z.cfg name z.zones z.names).1 = .ok entry ∧
        (entry.1, azureRelative name entry.1) = (zone, relative) := by
    cases outcome : (find (azureLookup lower z.cfg listing) lower z.cfg name z.zones z.names).1 with
    | error err => simp [outcome, Except.map] at returned
    | ok entry => exact ⟨entry, rfl, by simpa [outcome, Except.map] using returned⟩
  obtain ⟨rfl, rfl⟩ := Prod.mk.inj same
  obtain ⟨rfl, member⟩ := (azure_find lower listing z name).2 id candidate looked
  apply azureRelative_placed bare
  by_cases unset : z.cfg.zone = []
  · exact Or.inr (zoneCandidates_parent plain bare member unset)
  · exact below unset

/-- A provider at Azure before its first request. -/
def freshAzure (zone : Bytes) : Azure :=
  { cfg := { provider := "azure", zone := zone }, own := fun _ member => absurd member not_mem_nil }

/-- A challenge below a zone that is found by listing. -/
theorem azure_zone_relative_challenge :
    ∃ z', (freshAzure []).zone id (.ok [bytes "example.com"])
        (bytes "_acme-challenge.www.example.com") =
          (.ok (bytes "example.com", bytes "_acme-challenge.www"), z') ∧
      Placed (bytes "_acme-challenge.www.example.com") (bytes "example.com")
        (bytes "_acme-challenge.www") := by
  have found :
    ((freshAzure []).zone id (.ok [bytes "example.com"])
      (bytes "_acme-challenge.www.example.com")).1 =
      .ok (bytes "example.com", bytes "_acme-challenge.www") := rfl
  refine ⟨_, Prod.ext found rfl, ?_⟩
  refine (azure_zone_relative id (.ok [bytes "example.com"]) (freshAzure []) _ _ _ _
    (Prod.ext found rfl) (by decide)
    (by decide) (fun set => absurd rfl set)).mpr
      (Or.inr ⟨bytes "_acme-challenge.www", by decide, by decide, by decide, by decide⟩)

/-- A label that ends in the zone's text loses it. -/
theorem azure_zone_cut_twice :
    ∃ z', (freshAzure []).zone id (.ok [bytes "example.com"])
        (bytes "_acme-challenge.my-example.com.example.com") =
          (.ok (bytes "example.com", bytes "_acme-challenge.my-"), z') ∧
      ¬ Placed (bytes "_acme-challenge.my-example.com.example.com") (bytes "example.com")
        (bytes "_acme-challenge.my-") := by
  have found :
    ((freshAzure []).zone id (.ok [bytes "example.com"])
      (bytes "_acme-challenge.my-example.com.example.com")).1 =
      .ok (bytes "example.com", bytes "_acme-challenge.my-") := rfl
  refine ⟨_, Prod.ext found rfl, fun placed => ?_⟩
  cases placed.below (by decide)

end TrustedCourier.Dns
