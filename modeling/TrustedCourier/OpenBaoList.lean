import Mathlib.Data.List.Dedup
import Mathlib.Data.List.Sort
import TrustedCourier.OpenBaoWrites

/-!
# Listing locations

`List` finds the KV mounts that a prefix is about, walks their folders, and reads each
record whose path starts with the prefix for the names of its fields. A prefix with a `#`
in it is about one record.

The mount of a path comes from a cache or is asked for; only if there is none are all mounts
asked for, and those taken whose paths start with the prefix. What OpenBao answers is given,
for each call by what it asks for, since no call is made twice. The keys of a map are found
among the names that the response holds.
-/

namespace TrustedCourier.OpenBao

open ByteStrings Utf8 Checks

/-- The most that a `List` returns. -/
def maxLocations : Nat := 10000

/-- The most records that a `List` reads. -/
def maxListReads : Nat := 1000

/-- How long a mount is trusted before it is asked for again, in nanoseconds. -/
def mountTTL : Int := 300000000000

/-- `slices.Sort`. -/
def sortBytes (names : List Bytes) : List Bytes := names.insertionSort (· ≤ ·)

theorem sortBytes_perm (names : List Bytes) : (sortBytes names).Perm names :=
  List.perm_insertionSort _ names

theorem sortBytes_increasing {names : List Bytes} (nodup : names.Nodup) :
    (sortBytes names).Pairwise (· < ·) := by
  have sorted : (sortBytes names).Pairwise (· ≤ ·) := List.pairwise_insertionSort _ names
  have apart : (sortBytes names).Pairwise (· ≠ ·) := (sortBytes_perm names).nodup_iff.mpr nodup
  refine (sorted.and apart).imp ?_
  rintro a b ⟨below, other⟩
  by_contra notLess
  exact other (List.le_antisymm below (List.not_lt.mp notLess))

/-! ## What OpenBao answers -/

/-- How a call of the API ends: with an error, or with a status, the errors that the body
lists, and what `json.Unmarshal` makes of it. -/
inductive Reply (α : Type) where
  | failed (err : Bytes)
  | answered (status : Nat) (errors : List Bytes) (body : Except Bytes α)

/-- What OpenBao reports about a mount. -/
structure MountInfo where
  type : Bytes
  version : Bytes
deriving DecidableEq, Repr

/-- `mountInfo.isKV`. -/
def MountInfo.isKV (mi : MountInfo) : Bool := mi.type = bytes "kv" || mi.type = bytes "generic"

/-- A mount as it is reported. -/
def MountInfo.mount (mi : MountInfo) (path : Bytes) : Mount :=
  { path := path, v2 := mi.version = bytes "2" }

/-- The answers: about the mount of a path, about all mounts, to `LIST`, and to a read, with
the names of the fields in it. -/
structure Api (Value : Type) where
  mountAt : Bytes → Reply (Bytes × MountInfo)
  mounts : Reply (List (Bytes × MountInfo))
  keys : Bytes → Reply (List Bytes)
  record : Bytes → ReadReply Value × List Bytes

/-- The fields' names, as `slices.Sorted(maps.Keys(fields))` has them. -/
def fieldNames {Value : Type} (names : List Bytes) (fields : Option (Fields Value)) : List Bytes :=
  sortBytes (names.filter fun name => (fields.getD noFields name).isSome).dedup

/-! ## Paths -/

/-- `mount.listPath`. -/
def Mount.listPath (m : Mount) (dir : Bytes) : Bytes :=
  if m.v2 then m.path ++ bytes "metadata/" ++ dir else m.path ++ dir

/-- `checkPath`, of a record's path or of a leading part of one. -/
def checkPart (quote : Bytes → Bytes) (path : Bytes) (leading : Bool) : Except Bytes Unit :=
  if path = [] ∧ leading then .ok ()
  else do
    refuse ((bytes "/").isPrefixOf path || contains path (bytes "//") ||
      (!leading && (bytes "/").isSuffixOf path))
      (bytes "the path must be an API path without a leading slash or empty segments")
    match (runes path).find? breaksPath with
    | some rune =>
      .error (bytes "the path contains " ++ quote rune.bytes ++
        bytes ", which a location cannot hold")
    | none => .ok ()

/-- Of a record's path it is `checkPath`. -/
theorem checkPart_whole (quote : Bytes → Bytes) (path : Bytes) :
    checkPart quote path false = checkPath quote path := by
  rw [checkPart, if_neg (by simp)]
  rfl

/-- `overlaps`. -/
def overlaps (folder lead : Bytes) : Bool := lead.isPrefixOf folder || folder.isPrefixOf lead

/-! ## Mounts -/

/-- A mount in the cache, and when it was read. -/
structure CachedMount where
  mount : Mount
  fetched : Int
deriving DecidableEq, Repr

/-- `Backend.cachedMount`, with the cache in the order of this iteration: the mount, if there
is one, and the cache without the old mounts that were met. -/
def cachedMount (now : Int) (path : Bytes) : List CachedMount → Option Mount × List CachedMount
  | [] => (none, [])
  | c :: rest =>
    if mountTTL < now - c.fetched then cachedMount now path rest
    else if c.mount.path.isPrefixOf (path ++ bytes "/") then (some c.mount, c :: rest)
    else
      let (found, kept) := cachedMount now path rest
      (found, c :: kept)

section Calls

variable {Value : Type} (api : Api Value) (quote : Bytes → Bytes)

/-- `Backend.kvMounts`. -/
def kvMounts : Except Bytes (List Mount) :=
  match api.mounts with
  | .failed err => .error err
  | .answered status errors body =>
    if status ≠ 200 then .error (bytes "sys/internal/ui/mounts: " ++ apiError status errors)
    else
      match body with
      | .error err => .error (bytes "sys/internal/ui/mounts: " ++ err)
      | .ok secret =>
        .ok (((secret.insertionSort fun a b => a.1 ≤ b.1).filter (·.2.isKV)).map fun (path, mi) =>
          mi.mount path)

/-- What `mountFor` makes of the answer about a path. -/
def reported (path : Bytes) : Reply (Bytes × MountInfo) → Except Bytes Mount
  | .failed err => .error err
  | .answered status errors body =>
    if status ≠ 200 then
      .error (bytes "no secrets engine the token can use is mounted at " ++ path ++ bytes ": " ++
        apiError status errors)
    else
      match body with
      | .error err => .error (bytes "sys/internal/ui/mounts/" ++ path ++ bytes ": " ++ err)
      | .ok (at_, mi) =>
        if !mi.isKV then
          .error (path ++ bytes " is on a " ++ quote mi.type ++ bytes " secrets engine, not KV")
        else if !at_.isPrefixOf (path ++ bytes "/") then
          .error (bytes "sys/internal/ui/mounts/" ++ path ++ bytes ": reports mount " ++ quote at_)
        else .ok (mi.mount at_)

/-- `Backend.mountFor`: the mount, and the cache then. -/
def mountFor (now fetched : Int) (cache : List CachedMount) (path : Bytes) :
    Except Bytes Mount × List CachedMount :=
  let (found, kept) := cachedMount now path cache
  match found with
  | some m => (.ok m, kept)
  | none =>
    match reported quote path (api.mountAt path) with
    | .error err => (.error err, kept)
    | .ok m => (.ok m, { mount := m, fetched := fetched } :: kept.filter (·.mount.path ≠ m.path))

/-- What `listKeys` makes of the answer. -/
def keysOf (path : Bytes) : Reply (List Bytes) → Except Bytes (List Bytes)
  | .failed err => .error err
  | .answered status errors body =>
    if status = 404 then .ok []
    else if status ≠ 200 then .error (bytes "list " ++ path ++ bytes ": " ++ apiError status errors)
    else
      match body with
      | .error err => .error (bytes "list " ++ path ++ bytes ": " ++ err)
      | .ok keys => .ok (sortBytes keys)

/-- `Backend.listKeys`. -/
def listKeys (path : Bytes) : Except Bytes (List Bytes) := keysOf path (api.keys path)

/-! ## The lister -/

/-- What a `List` has come to. -/
structure Lister where
  reads : Nat := 0
  locations : List Bytes := []
deriving DecidableEq, Repr

/-- Why a `List` does not return: a call failed or a limit was passed, or the walk did not
come to its end. -/
inductive ListErr where
  | failed (text : Bytes)
  | unfinished
deriving DecidableEq, Repr

/-- The mounts that a `List` looks into. -/
def listMounts (now : Int) (cache : List CachedMount) (pathLead : Bytes) :
    Except Bytes (List Mount) :=
  if pathLead = [] then kvMounts api
  else
    match (mountFor api quote now now cache pathLead).1 with
    | .ok m => .ok [m]
    | .error err =>
      match kvMounts api with
      -- The prefix may be shorter than a mount path.
      | .ok all => .ok (all.filter fun m => pathLead.isPrefixOf m.path)
      | .error _ => .error err

section Lister

variable (lead fieldLead : Bytes)

/-- `lister.read`. -/
def Lister.read (l : Lister) (m : Mount) (path : Bytes) : Except Bytes (Lister × Record Value) :=
  if l.reads = maxListReads then
    .error (bytes "listing " ++ quote lead ++ bytes " would read more than " ++
      Decimal.digits maxListReads ++ bytes " records; list a longer prefix")
  else (readRecord m path (api.record path).1).map fun rec => ({ l with reads := l.reads + 1 }, rec)

/-- One round of the loop in `lister.emit`. -/
def Lister.emitField (path : Bytes) (l : Lister) (field : Bytes) : Except Bytes Lister :=
  if !fieldLead.isPrefixOf field then .ok l
  else if l.locations.length = maxLocations then
    .error (bytes "more than " ++ Decimal.digits maxLocations ++ bytes " locations start with " ++
      quote lead ++ bytes "; list a longer prefix")
  else .ok { l with locations := l.locations ++ [path ++ 0x23 :: field] }

/-- `lister.emit`. -/
def Lister.emit (l : Lister) (path : Bytes) (fields : List Bytes) : Except Bytes Lister :=
  fields.foldlM (Lister.emitField quote lead fieldLead path) l

/-- A record is read and its fields are emitted. -/
def Lister.visit (m : Mount) (path : Bytes) (l : Lister) : Except Bytes Lister := do
  let (l, rec) ← l.read api quote lead m path
  l.emit quote lead fieldLead path (fieldNames (api.record path).2 rec.fields)

/-- `lister.walk`. -/
def Lister.walk (m : Mount) (pathLead : Bytes) : Nat → Bytes → Lister → Except ListErr Lister
  | 0, _, _ => .error .unfinished
  | fuel + 1, dir, l => do
    let keys ← (listKeys api (m.listPath dir)).mapError .failed
    keys.foldlM (fun l key =>
      let full := m.dataRoot ++ dir ++ key
      if (bytes "/").isSuffixOf key then
        if overlaps full pathLead then walk m pathLead fuel (dir ++ key) l else .ok l
      else if !pathLead.isPrefixOf full || (checkPart quote full false).toOption = none then .ok l
      else (l.visit api quote lead fieldLead m full).mapError .failed) l

/-- One round of the loop in `List`. -/
def Lister.lookInto (pathLead : Bytes) (hasField : Bool) (fuel : Nat) (l : Lister) (m : Mount) :
    Except ListErr Lister :=
  if hasField then
    -- A whole record path: read that one record.
    if !m.dataRoot.isPrefixOf pathLead then .ok l
    else (l.visit api quote lead fieldLead m pathLead).mapError .failed
  else if !overlaps m.dataRoot pathLead then .ok l
  else l.walk api quote lead fieldLead m pathLead fuel []

end Lister

/-- `Backend.List`, with fuel for the depth of the folders. -/
def list (fuel : Nat) (now : Int) (cache : List CachedMount) (lead : Bytes) :
    Except ListErr (List Bytes) := do
  let (pathLead, fieldLead, hasField) := cut lead 0x23
  (checkPart quote pathLead true).mapError fun err =>
    .failed (bytes "prefix " ++ quote lead ++ bytes ": " ++ err)
  let mounts ← (listMounts api quote now cache pathLead).mapError .failed
  let l ← mounts.foldlM (Lister.lookInto api quote lead fieldLead pathLead hasField fuel) {}
  return sortBytes l.locations

end Calls

end TrustedCourier.OpenBao
