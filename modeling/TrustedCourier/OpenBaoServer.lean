import TrustedCourier.Folders
import TrustedCourier.OpenBaoList

/-!
# OpenBao and the mounts of a prefix

OpenBao holds mounts, none of whose paths starts with another's, and the KV mounts hold
records by their paths. It answers what it is asked, or the call fails; the calls about the
mount of a path fail only if there is none, as far as results need it.

A cache that lookups have left holds mounts that there are. So it makes no difference to the
mounts that a list looks into: all of them, or the one above the prefix, or else those below
it.
-/

namespace TrustedCourier.OpenBao

open ByteStrings Utf8 Checks List

/-! ## OpenBao -/

/-- A record that a mount holds, under its path in the mount, with the names of its
fields. -/
structure Held (Value : Type) where
  path : Bytes
  cell : Stored Value
  names : List Bytes
  named : ∀ fields, cell.value = some fields → ∀ name, (fields name).isSome → name ∈ names

/-- A secrets engine that is mounted. -/
structure Engine (Value : Type) where
  path : Bytes
  info : MountInfo
  records : List (Held Value)
  distinct : (records.map Held.path).Nodup

/-- The mounts, none inside another. -/
structure Server (Value : Type) where
  engines : List (Engine Value)
  apart : engines.Pairwise fun a b => ¬ a.path <+: b.path ∧ ¬ b.path <+: a.path

/-- What a call asks for. -/
inductive Request where
  | mountAt (path : Bytes)
  | mounts
  | keys (path : Bytes)
  | record (path : Bytes)
deriving DecidableEq

/-- How a call fails: no answer comes, or one that cannot be read, or a refusal. -/
inductive Fault where
  | lost (err : Bytes)
  | garbled (err : Bytes)
  | refused (status : Nat) (errors : List Bytes) (proper : status ≠ 200 ∧ status ≠ 404)

/-- What a client sees of a fault of the server. -/
def Fault.reply {α : Type} : Fault → Reply α
  | .lost err => .failed err
  | .garbled err => .answered 200 [] (.error err)
  | .refused status errors _ => .answered status errors (.error [])

section Server

variable {Value : Type}

/-- A response that carries errors only. -/
def noPayload (errors : List Bytes) : Payload Value :=
  { errors := errors, data := none, metadata := none, wrapped := .error () }

/-- What a read sees of a fault of the server. -/
def Fault.readReply : Fault → ReadReply Value
  | .lost err => .failed err
  | .garbled err => .answered 200 (.error err)
  | .refused status errors _ => .answered status (.ok (noPayload errors))

/-- What OpenBao answers to a read of the record. -/
def Held.reply (r : Held Value) (v2 : Bool) : ReadReply Value :=
  if v2 then answer r.cell
  else
    match r.cell.value with
    | some fields => .answered 200 (.ok { noPayload [] with data := some fields })
    | none => .answered 404 (.ok (noPayload []))

/-- The fields that the record has now. -/
def Held.fields (r : Held Value) : List Bytes := fieldNames r.names r.cell.value

def Engine.mount (e : Engine Value) : Mount := e.info.mount e.path

/-- The path of a record of the mount. -/
def Engine.at (e : Engine Value) (r : Held Value) : Bytes := e.mount.dataRoot ++ r.path

/-- The locations in the mount. -/
def Engine.locations (e : Engine Value) : List Bytes :=
  e.records.flatMap fun r => r.fields.map fun field => e.at r ++ 0x23 :: field

namespace Server

variable (server : Server Value)

/-- The KV mounts. -/
def kv : List (Engine Value) := server.engines.filter (·.info.isKV)

/-- The record at a path, and its mount. -/
def find (path : Bytes) : Option (Engine Value × Held Value) :=
  (server.kv.flatMap fun e => e.records.map fun r => (e, r)).find? fun (e, r) => e.at r = path

/-- All paths of records. -/
def paths : List Bytes := server.kv.flatMap fun e => e.records.map e.at

/-- All locations. -/
def locations : List Bytes := server.kv.flatMap Engine.locations

/-- The longest path of a record in its mount. -/
def depth : Nat := (server.kv.flatMap fun e => e.records.map fun r => r.path.length).max?.getD 0

/-- What OpenBao answers where calls fail as they are said to. -/
def api (fails : Request → Option Fault) : Api Value where
  mountAt := fun path => (fails (.mountAt path)).elim
    (match server.engines.find? (·.path.isPrefixOf (path ++ bytes "/")) with
      | some e => .answered 200 [] (.ok (e.path, e.info))
      | none => .answered 403 [bytes "preflight capability check returned 403"] (.error []))
    Fault.reply
  mounts :=
    (fails .mounts).elim (.answered 200 [] (.ok (server.engines.map fun e => (e.path, e.info))))
      Fault.reply
  keys := fun path => (fails (.keys path)).elim
    (match server.kv.find? fun e => (e.mount.listPath []).isPrefixOf path with
      | some e =>
        let keys :=
          Folders.namesIn 0x2F (e.records.map Held.path) (path.drop (e.mount.listPath []).length)
        if keys = [] then .answered 404 [] (.error []) else .answered 200 [] (.ok keys)
      | none => .answered 404 [] (.error []))
    Fault.reply
  record := fun path => (fails (.record path)).elim
    (match server.find path with
      | some (e, r) => (r.reply e.mount.v2, r.names)
      | none => (.answered 404 (.ok (noPayload [])), []))
    fun fault => (fault.readReply, [])

/-- Every record is one that a location can name. -/
def Spelled (quote : Bytes → Bytes) : Prop :=
  ∀ e ∈ server.kv, ∀ r ∈ e.records, checkPath quote (e.at r) = .ok ()

/-- The caches that lookups leave, in whatever order a cache is gone through. -/
inductive Cached (quote : Bytes → Bytes) : List CachedMount → Prop
  | new : Cached quote []
  | lookup {cache order : List CachedMount} (before : Cached quote cache)
    (permuted : order.Perm cache) (fails : Request → Option Fault) (now fetched : Int)
    (path : Bytes) :
    Cached quote (mountFor (server.api fails) quote now fetched order path).2

/-- The locations that start with the prefix, in order and each once. -/
def Exact (lead : Bytes) (result : List Bytes) : Prop :=
  result.Pairwise (· < ·) ∧ ∀ location, location ∈ result ↔ location ∈ server.locations ∧
    lead <+: location

/-- A list of the prefix keeps within its limits. -/
def Fits (lead : Bytes) : Prop :=
  (server.paths.filter ((cut lead 0x23).1.isPrefixOf ·)).length ≤ maxListReads ∧
    (server.locations.filter (lead.isPrefixOf ·)).length ≤ maxLocations

/-- No mount is passed over: the prefix is not one mount's path without the slash, or no other
mount whose path starts with it holds a field. -/
def Whole (lead : Bytes) : Prop :=
  lead = [] ∨ 0x23 ∈ lead ∨ ∀ e ∈ server.kv, e.path = lead ++ bytes "/" →
    ∀ other ∈ server.kv, other.path ≠ e.path → lead <+: other.path → other.locations = []

end Server

/-! ## The mount of a path -/

variable {server : Server Value} {quote : Bytes → Bytes} {fails : Request → Option Fault}
  {e : Engine Value} {m : Mount}

namespace Server

theorem mem_engines (member : e ∈ server.kv) : e ∈ server.engines := mem_of_mem_filter member

/-- A path is in one mount at most. -/
theorem unique {a b : Engine Value} (inA : a ∈ server.engines) (inB : b ∈ server.engines)
    {path : Bytes} (aboveA : a.path <+: path) (aboveB : b.path <+: path) : a = b := by
  by_contra different
  have symm : Std.Symm fun a b : Engine Value => ¬ a.path <+: b.path ∧ ¬ b.path <+: a.path :=
    ⟨fun _ _ apart => ⟨apart.2, apart.1⟩⟩
  have apart := server.apart.forall inA inB different
  rcases prefix_or_prefix_of_prefix aboveA aboveB with inside | inside
  · exact apart.1 inside
  · exact apart.2 inside

/-- Every mount in the cache is one that there is. -/
def Agrees (server : Server Value) (cache : List CachedMount) : Prop :=
  ∀ c ∈ cache, ∃ e ∈ server.kv, e.mount = c.mount

end Server

theorem cachedMount_kept (now : Int) (path : Bytes) (cache : List CachedMount) :
    ∀ c ∈ (cachedMount now path cache).2, c ∈ cache := by
  induction cache with
  | nil => exact fun c member => member
  | cons first rest ih =>
    intro c member
    unfold cachedMount at member
    split at member
    · exact mem_cons_of_mem _ (ih c member)
    · split at member
      · exact member
      · rcases mem_cons.mp member with rfl | later
        · exact mem_cons_self
        · exact mem_cons_of_mem _ (ih c later)

variable {cache : List CachedMount}

theorem cachedMount_some {now : Int} {path : Bytes}
    (found : (cachedMount now path cache).1 = some m) :
    ∃ c ∈ cache, c.mount = m ∧ m.path <+: path ++ bytes "/" := by
  induction cache with
  | nil => cases found
  | cons first rest ih =>
    unfold cachedMount at found
    split at found
    · obtain ⟨c, member, same⟩ := ih found
      exact ⟨c, mem_cons_of_mem _ member, same⟩
    · split at found
      · next above =>
        cases found
        exact ⟨first, mem_cons_self, rfl, isPrefixOf_iff_prefix.mp above⟩
      · obtain ⟨c, member, same⟩ := ih found
        exact ⟨c, mem_cons_of_mem _ member, same⟩

variable (quote) in
/-- Of a fault nothing is read. -/
theorem reported_fault (path : Bytes) (fault : Fault) :
    ∃ err, reported quote path fault.reply = .error err := by
  cases fault with
  | lost err | garbled err => exact ⟨_, rfl⟩
  | refused status errors proper => exact ⟨_, if_pos proper.1⟩

/-- A mount that is reported for a path is a KV mount above it. -/
theorem reported_ok {path : Bytes}
    (known : reported quote path ((server.api fails).mountAt path) = .ok m) :
    ∃ e ∈ server.kv, e.mount = m ∧ e.path <+: path ++ bytes "/" := by
  simp only [Server.api] at known
  cases failing : fails (.mountAt path) with
  | some fault =>
    obtain ⟨err, failed⟩ := reported_fault quote path fault
    rw [failing, Option.elim_some, failed] at known
    cases known
  | none =>
    rw [failing, Option.elim_none] at known
    cases held : server.engines.find? (·.path.isPrefixOf (path ++ bytes "/")) with
    | none =>
      rw [held] at known
      cases known
    | some e =>
      rw [held] at known
      have above := find?_some held
      rw [ isPrefixOf_iff_prefix] at above
      simp only [reported, ne_eq, not_true_eq_false, if_false] at known
      split at known
      · cases known
      · next isKV =>
        rw [if_neg (by simpa using above)] at known
        exact ⟨e, mem_filter.mpr ⟨mem_of_find?_eq_some held, by simpa using isKV⟩,
          Except.ok.inj known, above⟩

variable (quote) in
/-- The mount of a path is reported. -/
theorem reported_kv (answered : ∀ path, fails (.mountAt path) = none) (member : e ∈ server.kv)
    {path : Bytes} (above : e.path <+: path ++ bytes "/") :
    reported quote path ((server.api fails).mountAt path) = .ok e.mount := by
  obtain ⟨inside, isKV⟩ := mem_filter.mp member
  have held : server.engines.find? (·.path.isPrefixOf (path ++ bytes "/")) = some e := by
    cases held : server.engines.find? (·.path.isPrefixOf (path ++ bytes "/")) with
    | none => exact absurd ( isPrefixOf_iff_prefix.mpr above) (find?_eq_none.mp held e inside)
    | some other =>
      have otherAbove := find?_some held
      rw [ isPrefixOf_iff_prefix] at otherAbove
      rw [server.unique (mem_of_find?_eq_some held) inside otherAbove above]
  simp only [Server.api, answered, Option.elim_none, held, reported, isKV,
    isPrefixOf_iff_prefix.mpr above]
  rfl

variable (server quote fails) in
/-- What `mountFor` finds in the cache or is told. -/
theorem mountFor_cases (now fetched : Int) (cache : List CachedMount) (path : Bytes) :
    (∃ m, (cachedMount now path cache).1 = some m ∧
      mountFor (server.api fails) quote now fetched cache path =
        (.ok m, (cachedMount now path cache).2)) ∨
    (∃ m, (cachedMount now path cache).1 = none ∧
      reported quote path ((server.api fails).mountAt path) = .ok m ∧
      mountFor (server.api fails) quote now fetched cache path =
        (.ok m, { mount := m, fetched := fetched } :: (cachedMount now path cache).2.filter
          (·.mount.path ≠ m.path))) ∨
    (∃ err, (cachedMount now path cache).1 = none ∧
      reported quote path ((server.api fails).mountAt path) = .error err ∧
      mountFor (server.api fails) quote now fetched cache path =
        (.error err, (cachedMount now path cache).2)) := by
  unfold mountFor
  dsimp only
  cases found : (cachedMount now path cache).1 with
  | some m => exact Or.inl ⟨m, rfl, rfl⟩
  | none =>
    cases told : reported quote path ((server.api fails).mountAt path) with
    | ok m => exact Or.inr (Or.inl ⟨m, rfl, rfl, rfl⟩)
    | error err => exact Or.inr (Or.inr ⟨err, rfl, rfl, rfl⟩)

section Lookup

variable {now fetched : Int} {cache : List CachedMount} {path : Bytes}
  (agrees : server.Agrees cache)
include agrees

/-- The cache still agrees with the server. -/
theorem mountFor_agrees :
    server.Agrees (mountFor (server.api fails) quote now fetched cache path).2 := by
  have kept : server.Agrees (cachedMount now path cache).2 :=
    fun c member => agrees c (cachedMount_kept now path cache c member)
  rcases mountFor_cases server quote fails now fetched cache path with
    ⟨m, _, same⟩ | ⟨m, _, told, same⟩ | ⟨err, _, _, same⟩
  · rw [same]
    exact kept
  · rw [same]
    intro c member
    rcases mem_cons.mp member with rfl | old
    · obtain ⟨e, member, same, _⟩ := reported_ok told
      exact ⟨e, member, same⟩
    · exact kept c (mem_of_mem_filter old)
  · rw [same]
    exact kept

/-- A mount in the cache that is above the path is a KV mount above it. -/
theorem cachedMount_kv (found : (cachedMount now path cache).1 = some m) :
    ∃ e ∈ server.kv, e.mount = m ∧ e.path <+: path ++ bytes "/" := by
  obtain ⟨c, member, rfl, above⟩ := cachedMount_some found
  obtain ⟨e, member, same⟩ := agrees c member
  exact ⟨e, member, same, by rw [← same] at above; exact above⟩

/-- `mountFor` finds KV mounts above the path only. -/
theorem mountFor_ok (found : (mountFor (server.api fails) quote now fetched cache path).1 = .ok m) :
    ∃ e ∈ server.kv, e.mount = m ∧ e.path <+: path ++ bytes "/" := by
  rcases mountFor_cases server quote fails now fetched cache path with
    ⟨_, cached, same⟩ | ⟨_, _, told, same⟩ | ⟨err, _, _, same⟩
  · rw [same] at found
    cases found
    exact cachedMount_kv agrees cached
  · rw [same] at found
    cases found
    exact reported_ok told
  · rw [same] at found
    cases found

/-- And finds the one that there is. -/
theorem mountFor_kv (answered : ∀ path, fails (.mountAt path) = none) (member : e ∈ server.kv)
    (above : e.path <+: path ++ bytes "/") :
    (mountFor (server.api fails) quote now fetched cache path).1 = .ok e.mount := by
  have told := reported_kv quote answered member above
  rcases mountFor_cases server quote fails now fetched cache path with
    ⟨m, cached, same⟩ | ⟨m, _, found, same⟩ | ⟨_, _, failed, _⟩
  · obtain ⟨other, otherMember, rfl, otherAbove⟩ := cachedMount_kv agrees cached
    rw [same, server.unique (server.mem_engines otherMember) (server.mem_engines member) otherAbove
      above]
  · rw [same, Except.ok.inj (found.symm.trans told)]
  · rw [told] at failed
    cases failed

end Lookup

theorem Server.Cached.agrees (cached : server.Cached quote cache) : server.Agrees cache := by
  induction cached with
  | new => exact fun c member => absurd member not_mem_nil
  | lookup _ permuted _ _ _ _ ih =>
    exact mountFor_agrees fun c member => ih c (permuted.mem_iff.mp member)

/-! ## The mounts that are looked into -/

theorem Engine.mount_injective {other : Engine Value} (member : e ∈ server.kv)
    (otherMember : other ∈ server.kv) (same : e.mount = other.mount) : e = other := by
  have paths : e.path = other.path := congrArg Mount.path same
  exact server.unique (server.mem_engines member) (server.mem_engines otherMember) (prefix_refl _)
    (by rw [paths])

theorem Server.mounts_nodup (server : Server Value) : (server.kv.map Engine.mount).Nodup := by
  have distinct : (server.engines.map Engine.mount).Nodup := by
    refine pairwise_map.mpr (server.apart.imp fun {a b} apart same => apart.1 ?_)
    have paths : a.path = b.path := congrArg Mount.path same
    rw [paths]
  exact distinct.sublist (filter_sublist.map _)

/-- The mounts are those of the KV engines. -/
theorem kvMounts_ok {mounts : List Mount} (known : kvMounts (server.api fails) = .ok mounts) :
    mounts.Perm (server.kv.map Engine.mount) := by
  simp only [kvMounts, Server.api] at known
  cases failing : fails .mounts with
  | some fault =>
    rw [failing, Option.elim_some] at known
    cases fault with
    | lost err | garbled err => cases known
    | refused status errors proper =>
      rw [Fault.reply] at known
      simp only [ne_eq, proper.1, not_false_eq_true, if_true] at known
      cases known
  | none =>
    rw [failing, Option.elim_none] at known
    cases known
    have sorted := perm_insertionSort (fun a b : Bytes × MountInfo => a.1 ≤ b.1)
      (server.engines.map fun e => (e.path, e.info))
    refine ((sorted.filter _).map _).trans ?_
    rw [filter_map, map_map]
    exact List.Perm.refl _

variable (server) in
theorem kvMounts_answered (answered : fails .mounts = none) :
    ∃ mounts, kvMounts (server.api fails) = .ok mounts := by
  simp only [kvMounts, Server.api, answered, Option.elim_none]
  exact ⟨_, rfl⟩

/-- Each KV mount is looked into once or not at all: all of them, or one that is above the
prefix, or, if there is none above it, those below it. -/
structure Chosen (server : Server Value) (pathLead : Bytes) (mounts : List Mount) : Prop where
  nodup : mounts.Nodup
  known : ∀ m ∈ mounts, ∃ e ∈ server.kv, e.mount = m
  mem : ∀ e ∈ server.kv, e.mount ∈ mounts ↔ pathLead = [] ∨ e.path <+: pathLead ++ bytes "/" ∨
    (pathLead <+: e.path ∧ ∀ above ∈ server.kv, ¬ above.path <+: pathLead ++ bytes "/")

/-- The mounts a list goes to are those it should. -/
theorem listMounts_chosen {now : Int} {pathLead : Bytes} {mounts : List Mount}
    (agrees : server.Agrees cache) (answered : ∀ path, fails (.mountAt path) = none)
    (chosen : listMounts (server.api fails) quote now cache pathLead = .ok mounts) :
    Chosen server pathLead mounts := by
  unfold listMounts at chosen
  have every {mounts : List Mount} (known : kvMounts (server.api fails) = .ok mounts) (m : Mount) :
      m ∈ mounts ↔ ∃ e ∈ server.kv, e.mount = m := by
    rw [(kvMounts_ok known).mem_iff, mem_map]
  split at chosen
  · next empty =>
    refine ⟨(kvMounts_ok chosen).nodup_iff.mpr server.mounts_nodup, fun m => (every chosen m).mp,
      fun e member => ?_⟩
    exact iff_of_true ((every chosen _).mpr ⟨e, member, rfl⟩) (Or.inl empty)
  · next nonempty =>
    cases found : (mountFor (server.api fails) quote now now cache pathLead).1 with
    | ok m =>
      rw [found] at chosen
      cases chosen
      obtain ⟨own, ownMember, rfl, ownAbove⟩ := mountFor_ok agrees found
      refine ⟨nodup_singleton _, ?_, fun e member => ?_⟩
      · intro m only
        exact ⟨own, ownMember, (mem_singleton.mp only).symm⟩
      · rw [mem_singleton]
        constructor
        · intro same
          rw [Engine.mount_injective member ownMember same]
          exact Or.inr (Or.inl ownAbove)
        · rintro (empty | above | ⟨_, none⟩)
          · exact absurd empty nonempty
          · rw [server.unique (server.mem_engines member) (server.mem_engines ownMember) above
              ownAbove]
          · exact absurd ownAbove (none own ownMember)
    | error err =>
      rw [found] at chosen
      have none : ∀ above ∈ server.kv, ¬ above.path <+: pathLead ++ bytes "/" := by
        intro above member inside
        rw [mountFor_kv agrees answered member inside] at found
        cases found
      cases known : kvMounts (server.api fails) with
      | error _ =>
        rw [known] at chosen
        cases chosen
      | ok all =>
        rw [known] at chosen
        cases chosen
        refine ⟨((kvMounts_ok known).nodup_iff.mpr server.mounts_nodup).filter _, ?_,
          fun e member => ?_⟩
        · intro m member
          exact (every known m).mp (mem_of_mem_filter member)
        · rw [mem_filter, every known, isPrefixOf_iff_prefix]
          constructor
          · exact fun ⟨_, below⟩ => Or.inr (Or.inr ⟨below, none⟩)
          · rintro (empty | above | ⟨below, _⟩)
            · exact absurd empty nonempty
            · exact absurd above (none e member)
            · exact ⟨⟨e, member, rfl⟩, below⟩

variable (server quote) in
theorem listMounts_answered (now : Int) (cache : List CachedMount) (pathLead : Bytes)
    (answered : fails .mounts = none) :
    ∃ mounts, listMounts (server.api fails) quote now cache pathLead = .ok mounts := by
  obtain ⟨all, known⟩ := kvMounts_answered server answered
  unfold listMounts
  rw [known]
  split
  · exact ⟨_, rfl⟩
  · split <;> exact ⟨_, rfl⟩

end Server

end TrustedCourier.OpenBao
