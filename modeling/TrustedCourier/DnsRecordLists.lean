import Mathlib.Data.List.Perm.Subperm
import TrustedCourier.DnsRecords

/-!
# TXT records at Azure and at Cloudflare, and the four providers together

Azure replaces the records of a set under the path of its name relative to the zone, so it
edits the set at the name where that path is the name's. Cloudflare adds and deletes single
records by their ids, and finds them on the first page of its list; a record beyond the
page is neither seen nor deleted. With the sets of Route 53 and Google these are four ways
to edit one kind of set.
-/

namespace TrustedCourier.Dns

open ByteStrings SetEdits List

/-! ## Azure -/

/-- A TXT set at Azure: records of texts, and at least one. -/
structure AzureSet where
  ttl : Int
  records : List (List Bytes)
  nonempty : records ≠ []
  texts : ∀ r ∈ records, ∀ s ∈ r, json.Text s

/-- The sets by their paths. -/
abbrev AzureStore := Bytes → Option AzureSet

/-- The TXT records at a path. -/
def AzureStore.records (s : AzureStore) (path : Bytes) : List (List Bytes) :=
  ((s path).map AzureSet.records).getD []

/-- `azure.values`, given the records of the set, or none if it is not found. -/
def azureValues (answer : List (List Bytes)) : List Bytes := answer.map List.flatten

/-- The requests the Azure client sends. -/
inductive AzureRequest where
  | put (path : Bytes) (ttl : Int) (records : List (List Bytes))
  | delete (path : Bytes)

/-- `azure.put`. -/
def azurePut (path : Bytes) (values : List Bytes) : AzureRequest := .put path TTL (values.map ([·]))

/-- `azure.Present`, given the path and the answer. -/
def azurePresent (path : Bytes) (answer : List (List Bytes)) (value : Bytes) : List AzureRequest :=
  let current := azureValues answer
  if current.contains value then [] else [azurePut path (withValue current value)]

/-- `azure.Cleanup`, given the path and the answer. -/
def azureCleanup (path : Bytes) (answer : List (List Bytes)) (value : Bytes) : List AzureRequest :=
  let current := azureValues answer
  if !current.contains value then []
  else
    let remaining := withoutValue current value
    if 0 < remaining.length then [azurePut path remaining] else [.delete path]

/-- The set that arrives, if any record does. -/
def azureReceived (ttl : Int) (records : List (List Bytes)) : Option AzureSet :=
  if some_ : records = [] then none
  else some {
    ttl := ttl
    records := records.map (·.map json.carried)
    nonempty := by simpa using some_
    texts := by
      intro r member s inside
      obtain ⟨sent, _, rfl⟩ := mem_map.mp member
      obtain ⟨text, _, rfl⟩ := mem_map.mp inside
      exact json.settled text }

/-- What Azure makes of a request. -/
def azureApply (s : AzureStore) : AzureRequest → AzureStore
  | .put path ttl records => Function.update s path (azureReceived ttl records)
  | .delete path => Function.update s path none

/-- The name relative to its zone, or the sign of the zone's own records. -/
def properRelative (name zone : Bytes) : Bytes :=
  if name = zone then bytes "@" else name.take (name.length - (zone.length + 1))

/-- `azure` and Azure at a name. -/
def azure (z : Azure) (p : Place) : Editor Bytes where
  State := AzureStore
  Entry := List Bytes
  Change := AzureRequest
  entries := fun s => s.records (z.recordPath p.zone (properRelative p.name p.zone))
  val := List.flatten
  step := fun s call changes t =>
    let path := z.recordPath p.zone (azureRelative p.name p.zone)
    changes = (match call.op with
      | .add => azurePresent path (s.records path) call.value
      | .remove => azureCleanup path (s.records path) call.value) ∧
    t = changes.foldl azureApply s
  deletes := fun change => ∃ path, change = .delete path
  exact := fun _ _ => True
  kept := fun s t => ∀ zone relative, (zone, relative) ≠ (p.zone, properRelative p.name p.zone) →
    t (z.recordPath zone relative) = s (z.recordPath zone relative)

/-- Records of one string, none of them twice. -/
abbrev Single (records : List (List Bytes)) : Prop :=
  Spelled List.flatten (fun v : Bytes => [v]) records

section Azure

variable {z : Azure} {p : Place} {s t : AzureStore} {path value : Bytes}
  {changes : List AzureRequest}

theorem Placed.relative_eq {name zone relative : Bytes} (placed : Placed name zone relative) :
    relative = properRelative name zone := by
  unfold properRelative
  split
  · next apex => exact placed.apex apex
  · next below =>
    have split := placed.below below
    rw [← split, length_append, length_cons, Nat.add_sub_cancel, take_left]

theorem AzureStore.texts {r : List Bytes} (member : r ∈ s.records path) : ∀ v ∈ r, json.Text v := by
  unfold AzureStore.records at member
  cases held : s path with
  | none => simp [held] at member
  | some set => exact set.texts r (by simpa [held] using member)

/-- The records that arrive are there then. -/
theorem records_received (ttl : Int) (records : List (List Bytes))
    (texts : ∀ r ∈ records, ∀ v ∈ r, json.Text v) :
    AzureStore.records (Function.update s path (azureReceived ttl records)) path = records := by
  have carried : records.map (·.map json.carried) = records := by
    refine (map_congr_left fun r member => ?_).trans (map_id _)
    exact (map_congr_left fun v inside => json.whole (texts r member v inside)).trans (map_id _)
  simp only [AzureStore.records, Function.update_self, azureReceived]
  split
  · next none => rw [none]; rfl
  · exact carried

/-- The records with a value more. -/
theorem records_withValue (single : Single (s.records path)) (text : json.Text value)
    (absent : value ∉ azureValues (s.records path)) :
    (azureApply s (azurePut path (withValue (azureValues (s.records path)) value))).records path =
      s.records path ++ [[value]] := by
  rw [azurePut, azureApply, azureValues, single.withValue absent, records_received]
  intro r member
  rcases mem_append.mp member with old | new
  · exact AzureStore.texts old
  · rw [mem_singleton.mp new]
    exact forall_mem_singleton.mpr text

/-- The records with a value less. -/
theorem records_withoutValue (single : Single (s.records path)) :
    (azureApply s (azurePut path (withoutValue (azureValues (s.records path)) value))).records
      path = (s.records path).filter (·.flatten ≠ value) := by
  rw [azurePut, azureApply, azureValues, single.withoutValue, records_received]
  exact fun r member => AzureStore.texts (mem_of_mem_filter member)

/-- A request changes its own path only. -/
theorem azureApply_elsewhere (request : AzureRequest)
    (own : (∃ ttl records, request = .put path ttl records) ∨ request = .delete path)
    {other : Bytes} (different : other ≠ path) : azureApply s request other = s other := by
  rcases own with ⟨ttl, records, rfl⟩ | rfl <;> exact Function.update_of_ne different _ _

/-- The one request of a cleanup that finds its value: it leaves the records without the
value, and deletes the set if none is left. -/
theorem azureCleanup_present (single : Single (s.records path))
    (present : value ∈ azureValues (s.records path)) :
    ∃ request, azureCleanup path (s.records path) value = [request] ∧
      (azureApply s request).records path = (s.records path).filter (·.flatten ≠ value) ∧
      ((s.records path).filter (·.flatten ≠ value) = [] → request = .delete path) ∧
      ((∃ ttl records, request = .put path ttl records) ∨ request = .delete path) := by
  rw [azureCleanup]
  dsimp only
  rw [if_neg (by simpa using present)]
  split
  · next some_ =>
    refine ⟨_, rfl, records_withoutValue single, fun none => ?_, .inl ⟨_, _, rfl⟩⟩
    rw [azureValues, single.withoutValue_eq_nil none] at some_
    exact absurd some_ (Nat.lt_irrefl 0)
  · next nothing =>
    refine ⟨_, rfl, ?_, fun _ => rfl, .inr rfl⟩
    have empty := length_eq_zero_iff.mp (Nat.eq_zero_of_not_pos nothing)
    rw [← single.withoutValue, ← azureValues, empty]
    simp [AzureStore.records, azureApply]

/-- The path of another record is another path. -/
theorem recordPath_ne {zone relative : Bytes}
    (other : (zone, relative) ≠ (p.zone, properRelative p.name p.zone)) :
    z.recordPath zone relative ≠ z.recordPath p.zone (properRelative p.name p.zone) := by
  intro same
  obtain ⟨rfl, rfl⟩ := recordPath_injective z same
  exact other rfl

/-- `azure` edits sets of records of one text, at names that can be told from their zones. -/
theorem azure_edits {call : Call Bytes} (single : Single ((azure z p).entries s))
    (separable : Separable p.name p.zone) (text : call.op = .add → json.Text call.value)
    (taken : (azure z p).step s call changes t) :
    Single ((azure z p).entries t) ∧ (azure z p).Edited ⟨s, call, changes, t⟩ := by
  obtain ⟨submitted, rfl⟩ := taken
  obtain ⟨op, value⟩ := call
  rw [separable.placed.relative_eq] at submitted
  cases op with
  | add =>
    dsimp only [azurePresent] at submitted
    by_cases present : value ∈ azureValues
      (s.records (z.recordPath p.zone (properRelative p.name p.zone)))
    · obtain rfl := submitted.trans (if_pos (by simpa using present))
      exact ⟨single, Editor.edited_silent (iff_of_true present rfl) single.distinct fun _ _ _ =>
        rfl⟩
    · obtain rfl := submitted.trans (if_neg (by simpa using present))
      have after := records_withValue single (text rfl) present
      refine ⟨?_, Editor.Outcome.edited (.added rfl present [value] (flatten_singleton) after)
        single.distinct (fun _ _ => trivial) fun zone relative other => ?_⟩
      · rw [foldl_cons, foldl_nil]
        change Single (AzureStore.records _ _)
        rw [after]
        exact single.append (flatten_singleton) present
      · exact azureApply_elsewhere _ (.inl ⟨_, _, rfl⟩) (recordPath_ne other)
  | remove =>
    by_cases present : value ∈ azureValues
      (s.records (z.recordPath p.zone (properRelative p.name p.zone)))
    · obtain ⟨request, only, after, deletes, own⟩ := azureCleanup_present single present
      obtain rfl := submitted.trans only
      refine ⟨?_, Editor.Outcome.edited (.removed rfl present (cons_ne_nil _ _) after fun none =>
        ?_) single.distinct
        (fun _ _ => trivial) fun zone relative other =>
          azureApply_elsewhere request own (recordPath_ne other)⟩
      · rw [foldl_cons, foldl_nil]
        change Single (AzureStore.records _ _)
        rw [after]
        exact single.filter _
      · exact forall_mem_singleton.mpr ⟨_, deletes (after.symm.trans none)⟩
    · dsimp only [azureCleanup] at submitted
      obtain rfl := submitted.trans (if_pos (by simpa using present))
      exact ⟨single, Editor.edited_silent (iff_of_false present nofun) single.distinct fun _ _ _ =>
        rfl⟩

end Azure

/-! ## Cloudflare -/

/-- A TXT record with the id Cloudflare gave it. -/
structure CloudflareRecord where
  id : Bytes
  name : Bytes
  content : Bytes
deriving DecidableEq

/-- The TXT records of a zone, by their ids. -/
structure CloudflareZone where
  records : List CloudflareRecord
  distinct : (records.map CloudflareRecord.id).Nodup

abbrev CloudflareStore := Bytes → CloudflareZone

/-- The requests the Cloudflare client sends. -/
inductive CloudflareRequest where
  | post (name content : Bytes) (ttl : Int)
  | delete (segment : Bytes)

/-- The content without its quotes. -/
def CloudflareRecord.value (r : CloudflareRecord) : Bytes := unquote r.content

/-- `cloudflare.Present`, given the records that are listed. -/
def cloudflarePresent (page : List CloudflareRecord) (name value : Bytes) :
    List CloudflareRequest :=
  if page.any (unquote ·.content = value) then [] else [.post name value TTL]

/-- `cloudflare.Cleanup`, given the records that are listed. -/
def cloudflareCleanup (page : List CloudflareRecord) (value : Bytes) : List CloudflareRequest :=
  (page.filter (unquote ·.content = value)).map fun r => .delete (UrlPaths.pathEscape r.id)

/-- The first page of a list, in whatever order Cloudflare lists it. -/
def FirstPage (all page : List CloudflareRecord) : Prop :=
  page.length = min 100 all.length ∧ page.Subperm all

/-- A new record in a zone. -/
def CloudflareZone.add (zone : CloudflareZone) (r : CloudflareRecord)
    (fresh : r.id ∉ zone.records.map CloudflareRecord.id) :
    CloudflareZone where
  records := zone.records ++ [r]
  distinct := by
    rw [map_append, map_singleton, nodup_append]
    refine ⟨zone.distinct, nodup_singleton _, ?_⟩
    rintro a member b only rfl
    exact fresh (mem_singleton.mp only ▸ member)

/-- A zone without a record. -/
def CloudflareZone.remove (zone : CloudflareZone) (id : Bytes) : CloudflareZone where
  records := zone.records.filter (·.id ≠ id)
  distinct := zone.distinct.sublist (filter_sublist.map _)

theorem contains_id (ids : List Bytes) (id : Bytes) : ids.contains id = true ↔ id ∈ ids :=
  contains_iff_mem

-- Whether an id is taken is decided by its bytes.
local instance (ids : List Bytes) (id : Bytes) : Decidable (id ∈ ids) :=
  decidable_of_iff _ (contains_id ids id)

/-- What Cloudflare makes of a request, given the id it draws for a new record and whether it
puts its content in quotes; or that the request fails. -/
def cloudflareApply (id : Bytes) (quoted : Bool) (zone : Bytes) (s : CloudflareStore) :
    CloudflareRequest → Option CloudflareStore
  | .post name content _ =>
    let text := json.carried content
    let r : CloudflareRecord :=
      { id := id, name := json.carried name, content := if quoted then quote text else text }
    if fresh : r.id ∉ (s zone).records.map CloudflareRecord.id then
      some (Function.update s zone ((s zone).add r fresh))
    else none
  | .delete segment => do
    let id ← UrlEscapes.pathUnescape segment
    if id ∈ (s zone).records.map CloudflareRecord.id then
      some (Function.update s zone ((s zone).remove id))
    else none

section Cloudflare

variable (fold : Bytes → Bytes) (p : Place)

/-- The record is one of the name. -/
def CloudflareRecord.isAt (r : CloudflareRecord) : Bool :=
  (Place.mk p.zone r.name).key fold == p.key fold

/-- The records of the name. -/
def CloudflareStore.records (s : CloudflareStore) : List CloudflareRecord :=
  (s p.zone).records.filter (·.isAt fold p)

/-- `cloudflare` and Cloudflare at a name. -/
def cloudflare : Editor Bytes where
  State := CloudflareStore
  Entry := CloudflareRecord
  Change := CloudflareRequest
  entries := fun s => s.records fold p
  val := CloudflareRecord.value
  step := fun s call changes t => ∃ page id quoted, FirstPage (s.records fold p) page ∧
    changes = (match call.op with
      | .add => cloudflarePresent page p.name call.value
      | .remove => cloudflareCleanup page call.value) ∧
    changes.foldlM (cloudflareApply id quoted p.zone) s = some t
  deletes := fun change => ∃ segment, change = .delete segment
  exact := fun _ _ => True
  kept := fun s t => (∀ zone, zone ≠ p.zone → t zone = s zone) ∧
    ∀ r : CloudflareRecord, r.isAt fold p = false →
      (r ∈ (t p.zone).records ↔ r ∈ (s p.zone).records)

variable {fold p} {s t : CloudflareStore} {value : Bytes} {changes : List CloudflareRequest}

/-- On a page that holds the whole list, a record is found if there is one. -/
theorem FirstPage.perm {all page : List CloudflareRecord} (first : FirstPage all page)
    (few : all.length ≤ 100) :
    page.Perm all :=
  List.Subperm.perm_of_length_le first.2 (by rw [first.1]; omega)

variable {r : CloudflareRecord}

/-- A new record of the name comes last. -/
theorem records_add (fresh : r.id ∉ (s p.zone).records.map CloudflareRecord.id)
    (here : r.isAt fold p = true) :
    CloudflareStore.records fold p (Function.update s p.zone ((s p.zone).add r fresh)) =
      s.records fold p ++ [r] := by
  rw [CloudflareStore.records, Function.update_self, CloudflareZone.add, filter_append, filter_cons,
    if_pos here]
  rfl

theorem kept_add (fresh : r.id ∉ (s p.zone).records.map CloudflareRecord.id)
    (here : r.isAt fold p = true) :
    (cloudflare fold p).kept s (Function.update s p.zone ((s p.zone).add r fresh)) := by
  refine ⟨fun zone other => Function.update_of_ne other _ _, fun other elsewhere => ?_⟩
  rw [Function.update_self, CloudflareZone.add, mem_append, mem_singleton]
  refine ⟨fun either => either.resolve_right ?_, Or.inl⟩
  rintro rfl
  rw [here] at elsewhere
  cases elsewhere

/-- Records of a zone with the same id are the same. -/
theorem CloudflareZone.eq_of_id {zone : CloudflareZone} {other : CloudflareRecord}
    (member : r ∈ zone.records) (otherMember : other ∈ zone.records) (same : other.id = r.id) :
    other = r :=
  inj_on_of_nodup_map zone.distinct otherMember member same

/-- Without a record, its value is gone: its id and its value are its own. -/
theorem records_remove (distinct : ((s.records fold p).map CloudflareRecord.value).Nodup)
    (member : r ∈ s.records fold p) :
    CloudflareStore.records fold p (Function.update s p.zone ((s p.zone).remove r.id)) =
      (s.records fold p).filter (·.value ≠ r.value) := by
  rw [CloudflareStore.records, Function.update_self, CloudflareZone.remove, filter_comm]
  change (s.records fold p).filter (·.id ≠ r.id) = _
  refine filter_congr fun other otherMember => ?_
  rw [decide_eq_decide, not_iff_not]
  constructor
  · intro same
    rw [CloudflareZone.eq_of_id (mem_of_mem_filter member) (mem_of_mem_filter otherMember) same]
  · intro same
    rw [inj_on_of_nodup_map distinct otherMember member same]

theorem kept_remove (member : r ∈ s.records fold p) :
    (cloudflare fold p).kept s (Function.update s p.zone ((s p.zone).remove r.id)) := by
  obtain ⟨inZone, here⟩ := mem_filter.mp member
  refine ⟨fun zone other => Function.update_of_ne other _ _, fun other elsewhere => ?_⟩
  rw [Function.update_self, CloudflareZone.remove, mem_filter, decide_eq_true_eq]
  refine ⟨And.left, fun otherMember => ⟨otherMember, fun same => ?_⟩⟩
  rw [CloudflareZone.eq_of_id inZone otherMember same, here] at elsewhere
  cases elsewhere

section

variable (distinct : ((s.records fold p).map CloudflareRecord.value).Nodup)
include distinct

/-- What `cloudflare.Present` comes to. -/
theorem cloudflare_present (few : (s.records fold p).length ≤ 100) (named : json.Text p.name)
    (text : json.Text value) (free : 0x22 ∉ value)
    (taken : (cloudflare fold p).step s ⟨.add, value⟩ changes t) :
    (cloudflare fold p).Edited ⟨s, ⟨.add, value⟩, changes, t⟩ := by
  obtain ⟨page, id, quoted, first, submitted, applied⟩ := taken
  dsimp only [cloudflarePresent] at submitted
  have listed : page.any (unquote ·.content = value) = true ↔
      value ∈ (s.records fold p).map CloudflareRecord.value := by
    rw [any_eq_true, mem_map]
    constructor
    · rintro ⟨r, member, same⟩
      exact ⟨r, (first.perm few).mem_iff.mp member, of_decide_eq_true same⟩
    · rintro ⟨r, member, same⟩
      exact ⟨r, (first.perm few).mem_iff.mpr member, decide_eq_true same⟩
  by_cases present : value ∈ (s.records fold p).map CloudflareRecord.value
  · obtain rfl := submitted.trans (if_pos (listed.mpr present))
    cases applied
    exact Editor.edited_silent (iff_of_true present rfl) distinct
      ⟨fun _ _ => rfl, fun _ _ => Iff.rfl⟩
  · obtain rfl := submitted.trans (if_neg fun found => present (listed.mp found))
    simp only [foldlM_cons, foldlM_nil, Option.bind_eq_bind, Option.bind_eq_some_iff,
      cloudflareApply] at applied
    obtain ⟨after, added, same⟩ := applied
    cases same
    obtain ⟨fresh, same⟩ := Option.dite_none_right_eq_some.mp added
    cases same
    have here : ∀ content, CloudflareRecord.isAt fold p
        { id := id, name := json.carried p.name, content := content } = true := by
      intro content
      rw [CloudflareRecord.isAt, json.whole named]
      exact beq_self_eq_true _
    have valued : unquote (if quoted then quote (json.carried value) else json.carried value) =
        value := by
      rw [json.whole text]
      split
      · exact unquote_quote value
      · exact unquote_of_not_mem free
    let r : CloudflareRecord :=
      { id := id, name := json.carried p.name,
        content := if quoted then quote (json.carried value) else json.carried value }
    exact Editor.Outcome.edited (.added rfl present r valued (records_add fresh (here _))) distinct
      (fun _ _ => trivial) (kept_add fresh (here _))

/-- What `cloudflare.Cleanup` comes to. -/
theorem cloudflare_cleanup (few : (s.records fold p).length ≤ 100)
    (taken : (cloudflare fold p).step s ⟨.remove, value⟩ changes t) :
    (cloudflare fold p).Edited ⟨s, ⟨.remove, value⟩, changes, t⟩ := by
  obtain ⟨page, id, quoted, first, submitted, applied⟩ := taken
  dsimp only [cloudflareCleanup] at submitted
  have whole := first.perm few
  by_cases present : value ∈ (s.records fold p).map CloudflareRecord.value
  · obtain ⟨r, member, rfl⟩ := mem_map.mp present
    have only : page.filter (unquote ·.content = r.value) = [r] :=
      filter_val_eq ((whole.map _).nodup_iff.mpr distinct) (whole.mem_iff.mpr member)
    rw [only] at submitted
    obtain rfl := submitted
    simp only [map_singleton, foldlM_cons, foldlM_nil, Option.bind_eq_bind, Option.bind_eq_some_iff,
      cloudflareApply, UrlPaths.pathEscape, UrlPaths.pathUnescape_escape,
      Option.bind_some] at applied
    obtain ⟨after, deleted, same⟩ := applied
    cases same
    obtain ⟨_, same⟩ := Option.ite_none_right_eq_some.mp deleted
    cases same
    exact Editor.Outcome.edited
      (.removed rfl present (cons_ne_nil _ _) (records_remove distinct member)
      fun _ => forall_mem_singleton.mpr ⟨_, rfl⟩) distinct (fun _ _ => trivial) (kept_remove member)
  · have none : page.filter (unquote ·.content = value) = [] := by
      rw [filter_eq_nil_iff]
      intro r member same
      exact present (mem_map.mpr ⟨r, whole.mem_iff.mp member, of_decide_eq_true same⟩)
    rw [none] at submitted
    obtain rfl := submitted
    cases applied
    exact Editor.edited_silent (iff_of_false present fun added => by cases added) distinct
      ⟨fun _ _ => rfl, fun _ _ => Iff.rfl⟩

/-- `cloudflare` edits sets that its page holds. -/
theorem cloudflare_edits {call : Call Bytes} (few : (s.records fold p).length ≤ 100)
    (text : call.op = .add → json.Text p.name ∧ json.Text call.value) (free : 0x22 ∉ call.value)
    (taken : (cloudflare fold p).step s call changes t) :
    (cloudflare fold p).Edited ⟨s, call, changes, t⟩ := by
  obtain ⟨op, value⟩ := call
  cases op with
  | add => exact cloudflare_present distinct few (text rfl).1 (text rfl).2 free taken
  | remove => exact cloudflare_cleanup distinct few taken

end

end Cloudflare

/-! ## The four providers -/

/-- The four DNS services of the configuration. -/
inductive Provider where
  | route53
  | google
  | azure (z : Azure)
  | cloudflare

/-- A provider with its service at a name. -/
def Provider.editor (fold : Bytes → Bytes) (p : Place) : Provider → Editor Bytes
  | .route53 => Dns.route53 fold p
  | .google => Dns.google fold p
  | .azure z => Dns.azure z p
  | .cloudflare => Dns.cloudflare fold p

/-- A set without duplicates: quoted values at Route 53 and Google, one string in each record
at Azure. -/
def Provider.Set (fold : Bytes → Bytes) (p : Place) :
    (provider : Provider) → (provider.editor fold p).State → Prop
  | .route53 => fun s : Store xml => Quoted (s.values fold p)
  | .google => fun s : Store json => Quoted (s.values fold p)
  | .azure z => fun s : AzureStore =>
    Single (s.records (z.recordPath p.zone (properRelative p.name p.zone)))
  | .cloudflare => fun s : CloudflareStore => ((s.records fold p).map CloudflareRecord.value).Nodup

/-- The name and a value to be added are texts that the provider's format carries, the name
can be told from its zone at Azure, and the records at the name are no more than a page at
Cloudflare. -/
def Provider.Fits (fold : Bytes → Bytes) (p : Place) :
    (provider : Provider) → (provider.editor fold p).State → Call Bytes → Prop
  | .route53 => fun _ call => Xml.Text p.name ∧ (call.op = .add → Xml.Text call.value)
  | .google => fun _ call =>
    Utf8.validString p.name = true ∧ (call.op = .add → Utf8.validString call.value = true)
  | .azure _ => fun _ call =>
    Separable p.name p.zone ∧ (call.op = .add → Utf8.validString call.value = true)
  | .cloudflare => fun (s : CloudflareStore) call => (s.records fold p).length ≤ 100 ∧
    (call.op = .add → Utf8.validString p.name = true ∧ Utf8.validString call.value = true)

/-- At each of the four providers, calls with values without quotes edit the TXT set at a
name as a set, as long as they are fit: after each call the set is the one before with the
value added or removed once and every other entry as it was, nothing is submitted where
nothing is to be changed, the last value takes the set with it, and what Route 53 or Google
is told to delete is what it holds. -/
theorem txt_set_edited (fold : Bytes → Bytes) (p : Place) (provider : Provider)
    (s t : (provider.editor fold p).State) (edits : List (provider.editor fold p).Edit)
    (run : (provider.editor fold p).Run s edits t) (set : provider.Set fold p s)
    (free : ∀ edit ∈ edits, 0x22 ∉ edit.call.value)
    (fits : ∀ edit ∈ edits, provider.Fits fold p edit.before edit.call) :
    ∀ edit ∈ edits, (provider.editor fold p).Edited edit := by
  have each : ∀ before call changes after, provider.Set fold p before →
      provider.Fits fold p before call ∧ 0x22 ∉ call.value →
      (provider.editor fold p).step before call changes after →
      provider.Set fold p after ∧ (provider.editor fold p).Edited
        ⟨before, call, changes, after⟩ := by
    clear run set free fits
    rintro before call changes after set ⟨fit, free⟩ taken
    cases provider with
    | route53 =>
      obtain ⟨op, value⟩ := call
      cases op with
      | add => exact route53_present set fit.1 (fit.2 rfl) taken
      | remove => exact route53_cleanup set fit.1 taken
    | google => exact google_edits set fit.1 fit.2 taken
    | azure z => exact azure_edits set fit.1 fit.2 taken
    | cloudflare =>
      have edited := cloudflare_edits set fit.1 fit.2 free taken
      exact ⟨edited.once, edited⟩
  exact Editor.Run.each each run set fun edit member => ⟨fits edit member, free edit member⟩

/-- The challenge of a domain is set at Route 53 beside that of its wildcard, which has the same
name, and then the two are taken back. -/
theorem txt_set_edited_challenge :
    ∃ (p : Place) (s : Store xml) (edits : List (Provider.route53.editor id p).Edit)
    (t : Store xml),
      s.values id p = [quote (bytes "wildcard")] ∧ (Provider.route53.editor id p).Run s edits t ∧
      edits.map (·.call) = [⟨.add, bytes "domain"⟩, ⟨.remove, bytes "wildcard"⟩,
        ⟨.remove, bytes "domain"⟩] ∧
      ∀ edit ∈ edits, (Provider.route53.editor id p).Edited edit := by
  let p : Place := { zone := bytes "Z1", name := bytes "_acme-challenge.example.com" }
  let wildcard := bytes "wildcard"
  let domain := bytes "domain"
  have named : xml.Text p.name := (by decide : xml.carried p.name = p.name) ▸ xml.settled p.name
  have text : xml.Text domain := (by decide : xml.carried domain = domain) ▸ xml.settled domain
  let put (s : Store xml) (ttl : Int) (values : List Bytes) : Store xml :=
    route53Apply id p.zone s (route53Change .upsert p.name ttl values)
  have held (s : Store xml) (ttl : Int) (values : List Bytes) :
      (put s ttl values).at id p = received xml ttl (values.map quote) := by
    simp only [put, route53Apply_change named]
    simp [Store.at, Store.put]
  let answer (ttl : Int) (values : List Bytes) : List RecordSet :=
    [{ name := fqdn p.name, type := bytes "TXT", ttl := ttl, values := values.map quote }]
  have listed (s : Store xml) (ttl : Int) {values : List Bytes} (some_ : values.map quote ≠ [])
      (whole : (values.map quote).map xml.carried = values.map quote) :
      Answers id (put s ttl values) p (answer ttl values) := by
    unfold Answers
    rw [held, received, dif_neg some_]
    exact ⟨fqdn p.name, xml.text_fqdn named, Utf8.equalFold_refl _ _, by simp only [answer, whole]⟩
  let one := put (fun _ _ => none) 60 [wildcard]
  let two := put one TTL [wildcard, domain]
  let three := put two TTL [domain]
  have before : one.values id p = [quote wildcard] := by
    rw [Store.values, held]
    decide
  have added : [route53Change .upsert p.name TTL [wildcard, domain]] =
      route53Present id (answer 60 [wildcard]) p.name domain := by decide
  have shrunk : [route53Change .upsert p.name TTL [domain]] =
      route53Cleanup id (answer TTL [wildcard, domain]) p.name wildcard := by decide
  have emptied : [route53Change .delete p.name TTL [domain]] =
      route53Cleanup id (answer TTL [domain]) p.name domain := by decide
  have run : (Provider.route53.editor id p).Run one
      [⟨one, ⟨.add, domain⟩, [route53Change .upsert p.name TTL [wildcard, domain]], two⟩,
        ⟨two, ⟨.remove, wildcard⟩, [route53Change .upsert p.name TTL [domain]], three⟩,
        ⟨three, ⟨.remove, domain⟩, [route53Change .delete p.name TTL [domain]],
          route53Apply id p.zone three (route53Change .delete p.name TTL [domain])⟩] _ :=
    .cons ⟨_, listed _ _ (by decide) (by decide), added, rfl⟩
      (.cons ⟨_, listed _ _ (by decide) (by decide), shrunk, rfl⟩
        (.cons ⟨_, listed _ _ (by decide) (by decide), emptied, rfl⟩ (.nil _)))
  have quoted : Quoted (one.values id p) := by
    rw [before]
    exact ⟨nodup_singleton _, by decide⟩
  refine ⟨p, one, _, _, before, run, rfl, txt_set_edited id p .route53 one _ _ run quoted ?_ ?_⟩
  · simp only [forall_mem_cons]
    exact ⟨by decide, by decide, by decide, forall_mem_nil _⟩
  · simp only [forall_mem_cons]
    exact ⟨⟨named, fun _ => text⟩, ⟨named, fun added => by cases added⟩,
      ⟨named, fun added => by cases added⟩, forall_mem_nil _⟩

/-- Cloudflare holds a hundred records, a value more is added to them, and it is not on the
page that is read to remove it. -/
theorem cloudflare_value_left :
    ∃ (p : Place) (s t : CloudflareStore) (change : CloudflareRequest),
      (s.records id p).length = 100 ∧ Provider.cloudflare.Set id p s ∧
      (cloudflare id p).Run s
        [⟨s, ⟨.add, bytes "digest"⟩, [change], t⟩, ⟨t, ⟨.remove, bytes "digest"⟩, [], t⟩] t ∧
      bytes "digest" ∈ (cloudflare id p).values t ∧
      ¬ (cloudflare id p).Edited ⟨t, ⟨.remove, bytes "digest"⟩, [], t⟩ := by
  let p : Place := { zone := bytes "Z1", name := bytes "example.com" }
  let digest := bytes "digest"
  let number (i : Nat) : CloudflareRecord :=
    { id := Decimal.digits i, name := p.name, content := Decimal.digits i }
  let old := (List.range 100).map number
  have ids : (old.map CloudflareRecord.id).Nodup := by
    rw [map_map]
    exact nodup_range.map (Function.LeftInverse.injective Decimal.value_digits)
  let s : CloudflareStore := fun _ => { records := old, distinct := ids }
  let new : CloudflareRecord := { id := digest, name := p.name, content := digest }
  have fresh : digest ∉ old.map CloudflareRecord.id := by
    decide
  let t : CloudflareStore := Function.update s p.zone ((s p.zone).add new fresh)
  have held : s.records id p = old := by
    refine filter_eq_self.mpr fun r member => ?_
    obtain ⟨i, _, rfl⟩ := mem_map.mp member
    exact beq_self_eq_true _
  have after : t.records id p = old ++ [new] := by
    rw [← held]
    exact records_add fresh (beq_self_eq_true _)
  have unlisted : ∀ r ∈ old, unquote r.content ≠ digest := by decide
  have silent : old.filter (unquote ·.content = digest) = [] :=
    filter_eq_nil_iff.mpr fun r member => by simpa using unlisted r member
  have posted : cloudflareApply digest false p.zone s (.post p.name digest TTL) = some t := by
    have carried : json.carried p.name = p.name ∧ json.carried digest = digest := by decide
    simp only [cloudflareApply, carried]
    exact dif_pos fresh
  have adds : (cloudflare id p).step s ⟨.add, digest⟩ [.post p.name digest TTL] t :=
    ⟨old, digest, false, by rw [held]; exact ⟨rfl, List.Subperm.refl _⟩,
      (if_neg (by simpa using unlisted)).symm,
      congrArg (Option.bind · some) posted⟩
  have removes : (cloudflare id p).step t ⟨.remove, digest⟩ [] t := by
    refine ⟨old, digest, false, ?_, (congrArg (List.map _) silent).symm, rfl⟩
    rw [after]
    exact ⟨rfl, (sublist_append_left _ _).subperm⟩
  have left : digest ∈ (cloudflare id p).values t := by
    refine mem_map.mpr ⟨new, ?_, by decide⟩
    change new ∈ t.records id p
    rw [after]
    exact mem_append_right _ (mem_singleton.mpr rfl)
  refine ⟨p, s, t, .post p.name digest TTL, by rw [held]; rfl, ?_,
    .cons adds (.cons removes (.nil _)), left, fun edited => ?_⟩
  · change ((s.records id p).map CloudflareRecord.value).Nodup
    have contents : old.map CloudflareRecord.value = old.map CloudflareRecord.id := by decide
    rwa [held, contents]
  · exact Op.noConfusion (edited.value.mp left)

end TrustedCourier.Dns
