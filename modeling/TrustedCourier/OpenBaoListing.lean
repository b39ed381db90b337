import TrustedCourier.OpenBaoServer

/-!
# Which locations a list returns

A list of a prefix succeeds with the locations that start with it in the mounts it looks into,
in order and each once, wherever the prefix ends. What it may miss are other mounts: a prefix
that is a mount's path without the slash is taken for that mount, and a mount whose path goes
on differently is not looked into.

The order of what a list does is not visible in what it returns, so it is put in another one:
first the mounts, then the paths of the records, then the reads.
-/

namespace TrustedCourier.OpenBao

open ByteStrings Utf8 Checks List

section Server

variable {Value : Type} {server : Server Value} {quote : Bytes → Bytes}
  {fails : Request → Option Fault} {e : Engine Value}
  {m : Mount}

/-! ## What starts with the prefix -/

/-- What a prefix says about paths: the path itself if it goes on to a field, or else how it
starts. -/
def About (lead path : Bytes) : Prop :=
  if (cut lead 0x23).2.2 then path = (cut lead 0x23).1 else (cut lead 0x23).1 <+: path

/-- A prefix either goes on to a field or does not. -/
theorem cut_cases (lead : Bytes) :
    (0x23 ∉ lead ∧ cut lead 0x23 = (lead, [], false)) ∨
      ∃ front back, 0x23 ∉ front ∧ lead = front ++ 0x23 :: back ∧
        cut lead 0x23 = (front, back, true) := by
  by_cases hashed : 0x23 ∈ lead
  · obtain ⟨front, back, rfl, absent⟩ := eq_append_cons_of_mem hashed
    exact Or.inr ⟨front, back, absent, rfl, cut_append absent back⟩
  · refine Or.inl ⟨hashed, ?_⟩
    have other : ∀ c ∈ lead, decide (c ≠ 0x23) = true :=
      fun c member => decide_eq_true fun same => hashed (same ▸ member)
    rw [cut, takeWhile_eq_self_iff.mpr other, dropWhile_eq_nil_iff.mpr other,
      decide_eq_false hashed]
    rfl

variable {path : Bytes}

/-- A location starts with the prefix if its path and its field do. -/
theorem lead_location (lead field : Bytes) (absent : 0x23 ∉ path) :
    lead <+: path ++ 0x23 :: field ↔ About lead path ∧ (cut lead 0x23).2.1 <+: field := by
  rcases cut_cases lead with ⟨plain, cuts⟩ | ⟨front, back, before, rfl, cuts⟩
  · simp only [About, cuts, Bool.false_eq_true, if_false, nil_prefix, and_true]
    refine ⟨fun starts => ?_, fun starts => starts.trans (prefix_append _ _)⟩
    rcases prefix_or_prefix_of_prefix starts (prefix_append path (0x23 :: field)) with
      inside | ⟨more, rfl⟩
    · exact inside
    · rw [prefix_append_right_inj] at starts
      cases more with
      | nil => rw [append_nil]
      | cons c more =>
        rw [cons_prefix_cons] at starts
        exact absurd (mem_append_right path (starts.1 ▸ mem_cons_self)) plain
  · simp only [About, cuts, if_true]
    constructor
    · rintro ⟨more, same⟩
      rw [append_assoc] at same
      have halves := (cut_append before (back ++ more)).symm.trans
        ((congrArg (cut · 0x23) same).trans (cut_append absent field))
      simp only [Prod.mk.injEq, and_true] at halves
      exact ⟨halves.1.symm, more, halves.2⟩
    · rintro ⟨rfl, more, rfl⟩
      exact ⟨more, by rw [append_assoc]; rfl⟩

theorem path_isPrefix_dataRoot (e : Engine Value) : e.path <+: e.mount.dataRoot := by
  unfold Mount.dataRoot
  split
  · exact prefix_append _ _
  · exact prefix_refl _

variable {location : Bytes}

theorem path_isPrefix (inside : location ∈ e.locations) : e.path <+: location := by
  obtain ⟨r, _, inside⟩ := mem_flatMap.mp inside
  obtain ⟨field, _, rfl⟩ := mem_map.mp inside
  exact (path_isPrefix_dataRoot e).trans ((prefix_append _ _).trans (prefix_append _ _))

section Spelled

variable {lead : Bytes} (spelled : server.Spelled quote)
include spelled

/-- No path of a record holds the sign between a path and a field. -/
theorem hash_not_mem (member : e ∈ server.kv) {r : Held Value} (held : r ∈ e.records) :
    0x23 ∉ e.at r := by
  intro hashed
  obtain ⟨formed, reads⟩ := ascii_mem_runes (by decide) hashed
  have checked := spelled e member r held
  unfold checkPath at checked
  obtain ⟨_, _, checked⟩ := bind_ok.mp checked
  split at checked
  · cases checked
  · next none => exact absurd rfl (find?_eq_none.mp none _ reads)

/-- The locations under a prefix, by record and field. -/
theorem mem_locations (member : e ∈ server.kv) :
    location ∈ e.locations ∧ lead <+: location ↔ ∃ r ∈ e.records, About lead (e.at r) ∧
      ∃ field ∈ r.fields, (cut lead 0x23).2.1 <+: field ∧ e.at r ++ 0x23 :: field = location := by
  constructor
  · rintro ⟨inside, starts⟩
    obtain ⟨r, held, inside⟩ := mem_flatMap.mp inside
    obtain ⟨field, has, rfl⟩ := mem_map.mp inside
    obtain ⟨about, starts⟩ := (lead_location lead field (hash_not_mem spelled member held)).mp
      starts
    exact ⟨r, held, about, field, has, starts, rfl⟩
  · rintro ⟨r, held, about, field, has, starts, rfl⟩
    refine ⟨mem_flatMap.mpr ⟨r, held, mem_map.mpr ⟨field, has, rfl⟩⟩, ?_⟩
    exact (lead_location lead field (hash_not_mem spelled member held)).mpr ⟨about, starts⟩

/-- A location that starts with the prefix is in a mount that is looked into, if none is
passed over. -/
theorem chosen_of_whole {mounts : List Mount} (chosen : Chosen server (cut lead 0x23).1 mounts)
    (whole : server.Whole lead) (member : e ∈ server.kv) (inside : location ∈ e.locations)
    (starts : lead <+: location) :
    e.mount ∈ mounts := by
  obtain ⟨r, held, about, _⟩ := (mem_locations spelled member).mp ⟨inside, starts⟩
  have above : e.path <+: e.at r := (path_isPrefix_dataRoot e).trans (prefix_append _ _)
  rw [chosen.mem e member]
  rcases cut_cases lead with ⟨plain, cuts⟩ | ⟨front, back, _, _, cuts⟩
  · simp only [About, cuts, Bool.false_eq_true, if_false] at about ⊢
    rcases prefix_or_prefix_of_prefix above about with short | below
    · exact Or.inr (Or.inl (short.trans (prefix_append _ _)))
    by_cases none : ∀ above ∈ server.kv, ¬ above.path <+: lead ++ bytes "/"
    · exact Or.inr (Or.inr ⟨below, none⟩)
    · simp only [not_forall, not_not] at none
      obtain ⟨own, ownMember, ownAbove⟩ := none
      -- What is above the prefix with a slash is above the prefix, or it is that.
      have slash : bytes "/" = [0x2F] := rfl
      rcases prefix_concat_iff.mp (slash ▸ ownAbove) with ends | short
      · rcases whole with empty | hashed | others
        · exact Or.inl empty
        · exact absurd hashed plain
        · by_cases same : e.path = own.path
          · exact Or.inr (Or.inl (same ▸ ownAbove))
          · rw [others own ownMember ends e member same below] at inside
            exact absurd inside not_mem_nil
      · have same := server.unique (server.mem_engines ownMember) (server.mem_engines member)
          (short.trans below) (prefix_refl _)
        exact Or.inr (Or.inl (same ▸ ownAbove))
  · simp only [About, cuts, if_true] at about ⊢
    rw [← about]
    exact Or.inr (Or.inl (above.trans (prefix_append _ _)))

omit spelled in
/-- If every such location is in a mount that is looked into, none is passed over. -/
theorem whole_of_chosen {mounts : List Mount} (chosen : Chosen server (cut lead 0x23).1 mounts)
    (covered : ∀ e ∈ server.kv, ∀ location ∈ e.locations, lead <+: location → e.mount ∈ mounts) :
    server.Whole lead := by
  rcases cut_cases lead with ⟨plain, cuts⟩ | ⟨front, back, _, split, _⟩
  · rw [cuts] at chosen
    by_cases empty : lead = []
    · exact Or.inl empty
    refine Or.inr (Or.inr fun e member slash other otherMember different below => ?_)
    by_contra holds
    obtain ⟨location, inside⟩ := exists_mem_of_ne_nil _ holds
    have taken := covered other otherMember location inside (below.trans (path_isPrefix inside))
    -- The mount is not above the prefix with a slash, where the other one is.
    rcases (chosen.mem other otherMember).mp taken with none | above | ⟨_, none⟩
    · exact empty none
    · rw [← slash] at above
      exact different (congrArg Engine.path
        (server.unique (server.mem_engines otherMember) (server.mem_engines member) above
          (prefix_refl _)))
    · exact none e member (by rw [slash])
  · exact Or.inr (Or.inl (by rw [split]; exact mem_append_right _ mem_cons_self))

end Spelled

/-! ## The paths that are read -/

/-- The records that are read in a mount, by their paths, or none if a folder cannot be
listed. -/
def planned (api : Api Value) (quote : Bytes → Bytes) (lead : Bytes) (fuel : Nat) (m : Mount) :
    Option (List Bytes) :=
  let (pathLead, _, hasField) := cut lead 0x23
  if hasField then some (if m.dataRoot.isPrefixOf pathLead then [pathLead] else [])
  else if overlaps m.dataRoot pathLead then
    (Folders.visits 0x2F (fun folder => overlaps (m.dataRoot ++ folder) pathLead)
      (fun dir => (listKeys api (m.listPath dir)).toOption) fuel []).map fun found =>
        (found.map (m.dataRoot ++ ·)).filter fun path => pathLead.isPrefixOf path &&
          (checkPart quote path false).toOption.isSome
  else some []

/-- A record is read and its fields are emitted, unless that fails. -/
def visitJob (api : Api Value) (quote : Bytes → Bytes) (lead : Bytes) (l : Lister)
    (job : Mount × Bytes) : Option Lister :=
  (l.visit api quote lead (cut lead 0x23).2.1 job.1 job.2).toOption

section Plan

variable (api : Api Value) (quote : Bytes → Bytes) (lead : Bytes)

/-- What a walk does is what it does at the paths it comes to. -/
theorem walk_toOption (m : Mount) (pathLead : Bytes) (fuel : Nat) (dir : Bytes) (l : Lister) :
    (l.walk api quote lead (cut lead 0x23).2.1 m pathLead fuel dir).toOption =
      (Folders.visits 0x2F (fun folder => overlaps (m.dataRoot ++ folder) pathLead)
        (fun dir => (listKeys api (m.listPath dir)).toOption) fuel dir).bind fun found =>
          found.foldlM (fun l path =>
            if pathLead.isPrefixOf (m.dataRoot ++ path) &&
              (checkPart quote (m.dataRoot ++ path) false).toOption.isSome then
              visitJob api quote lead l (m, m.dataRoot ++ path) else some l) l := by
  induction fuel generalizing dir l with
  | zero => rfl
  | succ fuel ih =>
    rw [Lister.walk, Folders.visits, toOption_bind, toOption_mapError]
    cases (listKeys api (m.listPath dir)).toOption with
    | none => rfl
    | some keys =>
      simp only [Option.bind_some, toOption_foldlM, Option.bind_eq_bind, Option.bind_assoc,
        Option.pure_def]
      rw [← Folders.foldlM_parts]
      congr 1
      funext l key
      unfold Folders.part
      -- A key is a folder to go on into, one to pass by, or the end of a path.
      by_cases folder : Folders.isFolder 0x2F key = true
      · rw [if_pos folder, if_pos (show (bytes "/").isSuffixOf key = true from folder),
          append_assoc]
        split
        · exact ih _ _
        · rfl
      · rw [if_neg folder, if_neg (show ¬ (bytes "/").isSuffixOf key = true from folder),
          append_assoc]
        simp only [Option.bind_some, foldlM_cons, foldlM_nil, Option.bind_eq_bind, Option.pure_def,
          Option.bind_fun_some]
        cases pathLead.isPrefixOf (m.dataRoot ++ (dir ++ key)) with
        | false => rfl
        | true =>
          cases (checkPart quote (m.dataRoot ++ (dir ++ key)) false).toOption with
          | none => rfl
          | some _ =>
            rw [if_neg (by simp)]
            exact toOption_mapError.trans (if_pos rfl).symm

/-- What is done in a mount is what is done at the paths that are read in it. -/
theorem lookInto_toOption (fuel : Nat) (l : Lister) (m : Mount) :
    (l.lookInto api quote lead (cut lead 0x23).2.1 (cut lead 0x23).1 (cut lead 0x23).2.2 fuel
      m).toOption =
      ((planned api quote lead fuel m).map (·.map (m, ·))).bind fun jobs =>
        jobs.foldlM (visitJob api quote lead) l := by
  unfold Lister.lookInto planned
  dsimp only
  cases (cut lead 0x23).2.2 with
  | true =>
    cases m.dataRoot.isPrefixOf (cut lead 0x23).1 with
    | false => rfl
    | true =>
      simp only [if_true, Bool.not_true, Bool.false_eq_true, if_false, toOption_mapError,
        Option.map_some, map_cons,
        map_nil, Option.bind_some, foldlM_cons, foldlM_nil, Option.bind_eq_bind, Option.pure_def,
        Option.bind_fun_some]
      rfl
  | false =>
    cases overlaps m.dataRoot (cut lead 0x23).1 with
    | false => rfl
    | true =>
      simp only [Bool.false_eq_true, if_false, Bool.not_true, if_true, walk_toOption,
        Option.map_map, Option.bind_map]
      refine congrArg (Option.bind _) (funext fun found => ?_)
      simp only [Function.comp, foldlM_map, foldlM_filter]
      rfl

/-- What a list that succeeds has done. -/
theorem list_ok {fuel : Nat} {now : Int} {cache : List CachedMount} {result : List Bytes} :
    list api quote fuel now cache lead = .ok result ↔
    checkPart quote (cut lead 0x23).1 true = .ok () ∧
      ∃ mounts parts l, listMounts api quote now cache (cut lead 0x23).1 = .ok mounts ∧
        mounts.mapM (fun m => (planned api quote lead fuel m).map (·.map (m, ·))) = some parts ∧
        parts.flatten.foldlM (visitJob api quote lead)
        {} = some l ∧ sortBytes l.locations = result := by
  have looked (mounts : List Mount) (l : Lister) :
      mounts.foldlM (Lister.lookInto api quote lead (cut lead 0x23).2.1 (cut lead 0x23).1
        (cut lead 0x23).2.2 fuel) {} = .ok l ↔
        ∃ parts, mounts.mapM (fun m => (planned api quote lead fuel m).map (·.map (m, ·))) =
          some parts ∧
          parts.flatten.foldlM (visitJob api quote lead) {} = some l := by
    simp only [← toOption_some, toOption_foldlM, lookInto_toOption, Folders.foldlM_parts,
      Option.bind_eq_some_iff]
  unfold list
  dsimp only
  simp only [bind_ok, mapError_ok, pure_ok, looked]
  constructor
  · rintro ⟨_, checked, mounts, chosen, l, ⟨parts, plan, done⟩, sorted⟩
    exact ⟨checked, mounts, parts, l, chosen, plan, done, sorted⟩
  · rintro ⟨checked, mounts, parts, l, chosen, plan, done, sorted⟩
    exact ⟨(), checked, mounts, chosen, l, ⟨parts, plan, done⟩, sorted⟩

end Plan

section Answered

variable {lead : Bytes} {fuel : Nat}

theorem listPath_append (m : Mount) (dir : Bytes) : m.listPath dir = m.listPath [] ++ dir := by
  unfold Mount.listPath
  split <;> simp

theorem path_isPrefix_listPath (e : Engine Value) (dir : Bytes) :
    e.path <+: e.mount.listPath dir := by
  unfold Mount.listPath
  split
  · rw [append_assoc]
    exact prefix_append _ _
  · exact prefix_append _ _

/-- Each mount lists its own folders. -/
theorem api_keys (member : e ∈ server.kv) (dir : Bytes) :
    (server.api fails).keys (e.mount.listPath dir) = (fails (.keys (e.mount.listPath dir))).elim
      (if Folders.namesIn 0x2F (e.records.map Held.path) dir = [] then .answered 404 [] (.error [])
        else .answered 200 [] (.ok (Folders.namesIn 0x2F (e.records.map Held.path) dir)))
          Fault.reply := by
  have held :
      (server.kv.find? fun other => (other.mount.listPath []).isPrefixOf (e.mount.listPath dir)) =
        some e := by
    cases held : server.kv.find? fun other =>
      (other.mount.listPath []).isPrefixOf (e.mount.listPath dir) with
    | none =>
      have own : (e.mount.listPath []).isPrefixOf (e.mount.listPath dir) = true := by
        rw [ isPrefixOf_iff_prefix, listPath_append _ dir]
        exact prefix_append _ _
      exact absurd own (find?_eq_none.mp held e member)
    | some other =>
      have above := find?_some held
      rw [ isPrefixOf_iff_prefix] at above
      rw [server.unique (server.mem_engines (mem_of_find?_eq_some held)) (server.mem_engines member)
        ((path_isPrefix_listPath other []).trans above) (path_isPrefix_listPath e dir)]
  simp only [Server.api, held]
  rw [listPath_append _ dir, drop_left]

theorem keysOf_fault (path : Bytes) (fault : Fault) :
    ∃ err, keysOf path fault.reply = .error err := by
  cases fault with
  | lost err | garbled err => exact ⟨_, rfl⟩
  | refused status errors proper => exact ⟨_, (if_neg proper.2).trans (if_pos proper.1)⟩

/-- What is listed of a folder is what it holds. -/
theorem folders_listed (member : e ∈ server.kv) (dir : Bytes) (keys : List Bytes)
    (listed : (listKeys (server.api fails) (e.mount.listPath dir)).toOption = some keys) :
    Folders.Lists 0x2F (e.records.map Held.path) dir keys := by
  have names := Folders.namesIn_lists 0x2F (e.records.map Held.path) dir
  rw [toOption_some, listKeys, api_keys member] at listed
  cases failing : fails (.keys (e.mount.listPath dir)) with
  | some fault =>
    obtain ⟨err, failed⟩ := keysOf_fault (e.mount.listPath dir) fault
    rw [failing, Option.elim_some, failed] at listed
    cases listed
  | none =>
    rw [failing, Option.elim_none] at listed
    split at listed
    · next none =>
      cases listed
      rwa [none] at names
    · cases listed
      have permuted := sortBytes_perm (Folders.namesIn 0x2F (e.records.map Held.path) dir)
      exact ⟨permuted.nodup_iff.mpr names.nodup,
        fun name => permuted.mem_iff.trans (names.mem name)⟩

theorem listKeys_answered (answered : ∀ request, fails request = none) (member : e ∈ server.kv)
    (dir : Bytes) :
    ∃ keys, listKeys (server.api fails) (e.mount.listPath dir) = .ok keys := by
  rw [listKeys, api_keys member, answered, Option.elim_none]
  split
  · exact ⟨_, rfl⟩
  · exact ⟨_, rfl⟩

/-- In a mount every record that the prefix is about is read once, and nothing that it is not
about. -/
structure Plan (e : Engine Value) (lead : Bytes) (paths : List Bytes) : Prop where
  nodup : paths.Nodup
  under : ∀ path ∈ paths, e.mount.dataRoot <+: path
  about : ∀ path ∈ paths, About lead path
  held : (cut lead 0x23).2.2 = false → ∀ path ∈ paths, ∃ r ∈ e.records, e.at r = path
  all : ∀ r ∈ e.records, About lead (e.at r) → e.at r ∈ paths

/-- What is planned for an engine is a plan of it. -/
theorem planned_plan (spelled : server.Spelled quote) (member : e ∈ server.kv) {paths : List Bytes}
    (plan : planned (server.api fails) quote lead fuel e.mount = some paths) :
    Plan e lead paths := by
  unfold planned at plan
  dsimp only at plan
  cases hasField : (cut lead 0x23).2.2 with
  | true =>
    rw [hasField, if_pos rfl] at plan
    cases plan
    have one :
      ∀ path ∈ (if e.mount.dataRoot.isPrefixOf (cut lead 0x23).1 then [(cut lead 0x23).1] else []),
        e.mount.dataRoot <+: path ∧ path = (cut lead 0x23).1 := by
      intro path inside
      split at inside
      · next under =>
        obtain rfl := mem_singleton.mp inside
        exact ⟨ isPrefixOf_iff_prefix.mp under, rfl⟩
      · exact absurd inside not_mem_nil
    refine ⟨?_, fun path inside => (one path inside).1, fun path inside => ?_, fun plain => ?_,
      fun r held about => ?_⟩
    · split
      · exact nodup_singleton _
      · exact nodup_nil
    · rw [About, hasField, if_pos rfl]
      exact (one path inside).2
    · rw [hasField] at plain
      cases plain
    · rw [About, hasField, if_pos rfl] at about
      have under : e.mount.dataRoot <+: (cut lead 0x23).1 := about ▸ prefix_append _ _
      rw [if_pos ( isPrefixOf_iff_prefix.mpr under), about]
      exact mem_singleton.mpr rfl
  | false =>
    have starts : ∀ path, About lead path ↔ (cut lead 0x23).1 <+: path := by
      intro path
      rw [About, hasField, if_neg Bool.false_ne_true]
    -- What starts with the prefix below the mount, or below a folder, overlaps with it.
    have overlap {folder path : Bytes} (under : folder <+: path)
      (about : (cut lead 0x23).1 <+: path) :
        overlaps folder (cut lead 0x23).1 = true := by
      rw [overlaps, Bool.or_eq_true, isPrefixOf_iff_prefix, isPrefixOf_iff_prefix]
      exact prefix_or_prefix_of_prefix about under
    rw [hasField, if_neg Bool.false_ne_true] at plan
    split at plan
    · obtain ⟨found, walked, rfl⟩ := Option.map_eq_some_iff.mp plan
      refine ⟨?_, fun path inside => ?_, fun path inside => ?_, fun _ path inside => ?_,
        fun r held about => ?_⟩
      · exact ((Folders.visits_nodup (folders_listed member) walked).map
          (append_right_injective _)).filter _
      · obtain ⟨_, _, rfl⟩ := mem_map.mp (mem_of_mem_filter inside)
        exact prefix_append _ _
      · rw [starts, ← isPrefixOf_iff_prefix]
        exact (Bool.and_eq_true_iff.mp (mem_filter.mp inside).2).1
      · obtain ⟨relative, reached, rfl⟩ := mem_map.mp (mem_of_mem_filter inside)
        obtain ⟨r, held, rfl⟩ :=
          mem_map.mp (Folders.visits_sound (folders_listed member) walked relative reached).1
        exact ⟨r, held, rfl⟩
      · rw [starts] at about
        have reached : r.path ∈ found := by
          refine Folders.visits_complete (folders_listed member) walked (mem_map_of_mem held)
            nil_prefix ?_
          intro folder inside
          exact overlap ((prefix_append_right_inj _).mpr inside) about
        have checked : (checkPart quote (e.at r) false).toOption = some () := by
          rw [checkPart_whole, spelled e member r held]
          rfl
        refine mem_filter.mpr ⟨mem_map_of_mem reached, ?_⟩
        rw [Bool.and_eq_true, isPrefixOf_iff_prefix]
        exact ⟨about, Option.isSome_iff_exists.mpr ⟨(), checked⟩⟩
    · next apart =>
      cases plan
      refine ⟨nodup_nil, nofun, nofun, nofun, fun r held about => ?_⟩
      exact absurd (overlap (prefix_append _ _) ((starts _).mp about)) apart

variable (quote lead) in
/-- A plan is made if every folder can be listed. -/
theorem planned_answered (answered : ∀ request, fails request = none) (member : e ∈ server.kv)
    (enough : ∀ r ∈ e.records, r.path.length < fuel) (lit : 0 < fuel) :
    ∃ paths, planned (server.api fails) quote lead fuel e.mount = some paths := by
  unfold planned
  dsimp only
  split
  · exact ⟨_, rfl⟩
  · split
    · obtain ⟨found, walked⟩ := Folders.visits_isSome
        (fun folder => overlaps (e.mount.dataRoot ++ folder) (cut lead 0x23).1)
          (folders_listed member)
        (fun dir => (listKeys_answered answered member dir).imp fun _ => toOption_some.mpr) lit
          fun path inside _ => by
          obtain ⟨r, held, rfl⟩ := mem_map.mp inside
          rw [length_nil, Nat.zero_add]
          exact enough r held
      rw [walked]
      exact ⟨_, rfl⟩
    · exact ⟨_, rfl⟩

/-! ## What is read -/

theorem find_some {r : Held Value} (found : server.find path = some (e, r)) :
    e ∈ server.kv ∧ r ∈ e.records ∧ e.at r = path := by
  have inside := mem_of_find?_eq_some found
  obtain ⟨own, member, inside⟩ := mem_flatMap.mp inside
  obtain ⟨_, held, same⟩ := mem_map.mp inside
  obtain ⟨rfl, rfl⟩ := Prod.mk.inj same
  have here := find?_some found
  exact ⟨member, held, of_decide_eq_true here⟩

/-- A record is found at its path, and no other there. -/
theorem find_at (member : e ∈ server.kv) {r : Held Value} (held : r ∈ e.records) :
    server.find (e.at r) = some (e, r) := by
  cases found : server.find (e.at r) with
  | none =>
    have inside : (e, r) ∈ server.kv.flatMap fun e => e.records.map fun r => (e, r) :=
      mem_flatMap.mpr ⟨e, member, mem_map.mpr ⟨r, held, rfl⟩⟩
    exact absurd (decide_eq_true rfl) (find?_eq_none.mp found _ inside)
  | some other =>
    obtain ⟨own, record⟩ := other
    obtain ⟨ownMember, recordHeld, same⟩ := find_some found
    have above (e : Engine Value) (r : Held Value) : e.path <+: e.at r :=
      (path_isPrefix_dataRoot e).trans (prefix_append _ _)
    obtain rfl := server.unique (server.mem_engines ownMember) (server.mem_engines member)
      (same ▸ above own record) (above e r)
    have paths : record.path = r.path := append_cancel_left same
    rw [inj_on_of_nodup_map own.distinct recordHeld held paths]

/-- The fields at a path. -/
def Server.fieldsAt (server : Server Value) (path : Bytes) : List Bytes :=
  (server.find path).elim [] fun found => found.2.fields

/-- The locations at a path that start with the prefix. -/
def Server.foundAt (server : Server Value) (lead path : Bytes) : List Bytes :=
  ((server.fieldsAt path).filter ((cut lead 0x23).2.1.isPrefixOf ·)).map (path ++ 0x23 :: ·)

/-- Reading a record returns its fields. -/
theorem readRecord_held (under : m.dataRoot <+: path) {r : Held Value} {rec : Record Value}
    (read : readRecord m path (r.reply m.v2) = .ok rec) : rec.fields = r.cell.value := by
  have inside : m.dataRoot.isPrefixOf path = true := isPrefixOf_iff_prefix.mpr under
  unfold readRecord Held.reply answer at read
  cases v2 : m.v2 with
  | false =>
    cases held : r.cell.value with
    | some fields | none =>
      simp [inside, v2, held, noPayload] at read
      rw [← read]
  | true =>
    cases held : r.cell.value with
    | some fields | none =>
      simp [inside, v2, held] at read
      split at read
      · cases read
      · exact congrArg Record.fields (Except.ok.inj read).symm

/-- A record is read if its version can be. -/
theorem readRecord_answered (under : m.dataRoot <+: path) {r : Held Value}
    (counted : decodeInt64 r.cell.version = .ok r.cell.version) :
    ∃ rec, readRecord m path (r.reply m.v2) = .ok rec := by
  have inside : m.dataRoot.isPrefixOf path = true := isPrefixOf_iff_prefix.mpr under
  unfold readRecord Held.reply answer
  cases v2 : m.v2 with
  | false => cases held : r.cell.value <;> simp [inside, noPayload]
  | true =>
    cases held : r.cell.value with
    | some fields => simp [inside, counted]
    | none =>
      by_cases first : r.cell.version = 0
      · simp [inside, first]
      · simp [inside, first, counted]

theorem readRecord_missing (under : m.dataRoot <+: path) :
    readRecord m path (.answered 404 (.ok (noPayload []))) =
      .ok { fields := (none : Option (Fields Value)), version := 0 } := by
  unfold readRecord
  simp [ isPrefixOf_iff_prefix.mpr under, noPayload]

theorem readRecord_fault (path : Bytes) (fault : Fault) :
    ∃ err, readRecord m path (fault.readReply : ReadReply Value) = .error err := by
  unfold readRecord Fault.readReply
  split
  · exact ⟨_, rfl⟩
  · cases fault with
    | lost err | garbled err => exact ⟨_, rfl⟩
    | refused status errors proper => exact ⟨_, if_pos (Or.inr proper)⟩

/-- What is found under an engine's data is a record of that engine. -/
theorem find_own (member : e ∈ server.kv) (under : e.mount.dataRoot <+: path) {own : Engine Value}
    {r : Held Value} (found : server.find path = some (own, r)) :
    own = e ∧ r ∈ e.records ∧ e.at r = path := by
  obtain ⟨ownMember, held, same⟩ := find_some found
  have above : own.path <+: path := same ▸ (path_isPrefix_dataRoot own).trans (prefix_append _ _)
  obtain rfl := server.unique (server.mem_engines ownMember) (server.mem_engines member) above
    ((path_isPrefix_dataRoot e).trans under)
  exact ⟨rfl, held, same⟩

/-- What is read at a path are the fields there. -/
theorem api_record (member : e ∈ server.kv) (under : e.mount.dataRoot <+: path) {rec : Record Value}
    (read : readRecord e.mount path ((server.api fails).record path).1 = .ok rec) :
    fieldNames ((server.api fails).record path).2 rec.fields = server.fieldsAt path := by
  unfold Server.fieldsAt
  simp only [Server.api] at read ⊢
  cases failing : fails (.record path) with
  | some fault =>
    obtain ⟨err, failed⟩ := readRecord_fault path fault
    rw [failing, Option.elim_some, failed] at read
    cases read
  | none =>
    rw [failing, Option.elim_none] at read
    rw [Option.elim_none]
    cases found : server.find path with
    | none =>
      rw [found, readRecord_missing under] at read
      cases read
      rfl
    | some held =>
      obtain ⟨own, r⟩ := held
      obtain ⟨rfl, _⟩ := find_own member under found
      rw [found] at read
      dsimp only at read ⊢
      rw [readRecord_held under read]
      rfl

theorem api_record_answered (answered : ∀ request, fails request = none) (member : e ∈ server.kv)
    (under : e.mount.dataRoot <+: path)
    (counted : ∀ e ∈ server.kv, ∀ r ∈ e.records, decodeInt64 r.cell.version = .ok r.cell.version) :
    ∃ rec, readRecord e.mount path ((server.api fails).record path).1 = .ok rec := by
  simp only [Server.api, answered, Option.elim_none]
  cases found : server.find path with
  | none => exact ⟨_, readRecord_missing under⟩
  | some held =>
    obtain ⟨own, r⟩ := held
    obtain ⟨rfl, recordHeld, _⟩ := find_own member under found
    exact readRecord_answered under (counted own member r recordHeld)

/-- A record's fields are added to the list. -/
theorem emit_ok {fieldLead : Bytes} {fields : List Bytes} {l after : Lister}
    (emitted : l.emit quote lead fieldLead path fields = .ok after) :
    after = { l with
      locations :=
        l.locations ++ (fields.filter (fieldLead.isPrefixOf ·)).map (path ++ 0x23 :: ·) } := by
  unfold Lister.emit at emitted
  induction fields generalizing l with
  | nil =>
    obtain rfl := pure_ok.mp emitted
    simp
  | cons field rest ih =>
    obtain ⟨middle, emittedField, later⟩ := bind_ok.mp emitted
    rw [ih later]
    unfold Lister.emitField at emittedField
    by_cases starts : fieldLead.isPrefixOf field = true
    · rw [starts, if_neg (by decide)] at emittedField
      split at emittedField
      · cases emittedField
      · cases emittedField
        rw [filter_cons_of_pos starts, map_cons, append_assoc]
        rfl
    · rw [Bool.eq_false_iff.mpr starts, if_pos (by decide)] at emittedField
      cases emittedField
      rw [filter_cons_of_neg starts]

variable (quote lead) in
/-- Fields that fit are added. -/
theorem emit_answered {fieldLead : Bytes} (path : Bytes) (fields : List Bytes) (l : Lister)
    (fits : l.locations.length + (fields.filter (fieldLead.isPrefixOf ·)).length ≤ maxLocations) :
    ∃ after, l.emit quote lead fieldLead path fields = .ok after := by
  unfold Lister.emit
  induction fields generalizing l with
  | nil => exact ⟨l, rfl⟩
  | cons field rest ih =>
    by_cases starts : fieldLead.isPrefixOf field = true
    · rw [filter_cons_of_pos starts, length_cons] at fits
      change l.locations.length + ((rest.filter (fieldLead.isPrefixOf ·)).length + 1) ≤
        maxLocations at fits
      have room : l.locations.length ≠ maxLocations := by omega
      obtain ⟨after, later⟩ := ih { l with locations := l.locations ++ [path ++ 0x23 :: field] } (by
        rw [length_append, length_singleton]
        omega)
      refine ⟨after, bind_ok.mpr ⟨_, ?_, later⟩⟩
      rw [Lister.emitField, starts, if_neg (by decide), if_neg room]
    · rw [filter_cons_of_neg starts] at fits
      obtain ⟨after, later⟩ := ih l fits
      refine ⟨after, bind_ok.mpr ⟨l, ?_, later⟩⟩
      rw [Lister.emitField, Bool.eq_false_iff.mpr starts]
      rfl

/-- A job is done in a KV mount. -/
def Server.Job (server : Server Value) (job : Mount × Bytes) : Prop :=
  ∃ e ∈ server.kv, e.mount = job.1 ∧ e.mount.dataRoot <+: job.2

theorem visitJob_some {job : Mount × Bytes} (proper : server.Job job) {l after : Lister}
    (visited : visitJob (server.api fails) quote lead l job = some after) :
    after = { reads := l.reads + 1, locations := l.locations ++ server.foundAt lead job.2 } := by
  obtain ⟨m, path⟩ := job
  obtain ⟨e, member, rfl, under⟩ := proper
  rw [visitJob, toOption_some, Lister.visit] at visited
  obtain ⟨⟨middle, rec⟩, read, emitted⟩ := bind_ok.mp visited
  unfold Lister.read at read
  split at read
  · cases read
  · cases got : readRecord e.mount path ((server.api fails).record path).1 with
    | error err =>
      rw [got] at read
      cases read
    | ok record =>
      rw [got] at read
      obtain ⟨rfl, rfl⟩ := Prod.mk.inj (Except.ok.inj read)
      rw [emit_ok emitted, api_record member under got]
      rfl

variable (quote) in
theorem visitJob_answered (answered : ∀ request, fails request = none)
    (counted : ∀ e ∈ server.kv, ∀ r ∈ e.records, decodeInt64 r.cell.version = .ok r.cell.version)
    {job : Mount × Bytes} (proper : server.Job job) {l : Lister} (reads : l.reads < maxListReads)
    (room : l.locations.length + (server.foundAt lead job.2).length ≤ maxLocations) :
    ∃ after, visitJob (server.api fails) quote lead l job = some after := by
  obtain ⟨m, path⟩ := job
  obtain ⟨e, member, rfl, under⟩ := proper
  obtain ⟨rec, read⟩ := api_record_answered answered member under counted
  have fits :
    l.locations.length + ((fieldNames ((server.api fails).record path).2 rec.fields).filter
      ((cut lead 0x23).2.1.isPrefixOf ·)).length ≤ maxLocations := by
    rw [api_record member under read]
    rwa [Server.foundAt, length_map] at room
  obtain ⟨after, emitted⟩ := emit_answered quote lead path _ { l with reads := l.reads + 1 } fits
  refine ⟨after, ?_⟩
  rw [visitJob, toOption_some, Lister.visit]
  refine bind_ok.mpr ⟨({ l with reads := l.reads + 1 }, rec), ?_, emitted⟩
  rw [Lister.read, if_neg (Nat.ne_of_lt reads), read]
  rfl

/-- What jobs that are done have found. -/
theorem jobs_some {jobs : List (Mount × Bytes)} (proper : ∀ job ∈ jobs, server.Job job)
    {l after : Lister}
    (done : jobs.foldlM (visitJob (server.api fails) quote lead) l = some after) :
    after.locations = l.locations ++ jobs.flatMap (server.foundAt lead ·.2) := by
  induction jobs generalizing l with
  | nil =>
    cases done
    exact (append_nil _).symm
  | cons job rest ih =>
    obtain ⟨here, later⟩ := forall_mem_cons.mp proper
    obtain ⟨middle, visited, done⟩ := Option.bind_eq_some_iff.mp done
    obtain rfl := visitJob_some here visited
    rw [ih later done, flatMap_cons, append_assoc]

variable (quote) in
/-- Jobs within the limits are all done. -/
theorem jobs_answered (answered : ∀ request, fails request = none)
    (counted : ∀ e ∈ server.kv, ∀ r ∈ e.records, decodeInt64 r.cell.version = .ok r.cell.version)
    {jobs : List (Mount × Bytes)} (proper : ∀ job ∈ jobs, server.Job job) {l : Lister}
    (reads : l.reads + jobs.length ≤ maxListReads)
    (room : l.locations.length + (jobs.flatMap (server.foundAt lead ·.2)).length ≤ maxLocations) :
    ∃ after, jobs.foldlM (visitJob (server.api fails) quote lead) l = some after := by
  induction jobs generalizing l with
  | nil => exact ⟨l, rfl⟩
  | cons job rest ih =>
    obtain ⟨here, later⟩ := forall_mem_cons.mp proper
    rw [length_cons] at reads
    rw [flatMap_cons, length_append] at room
    have roomHere : l.locations.length + (server.foundAt lead job.2).length ≤
        maxLocations := by omega
    obtain ⟨middle, visited⟩ := visitJob_answered quote answered counted here (by omega) roomHere
    obtain rfl := visitJob_some here visited
    obtain ⟨after, done⟩ :=
      ih later
        (l := { reads := l.reads + 1, locations := l.locations ++ server.foundAt lead job.2 })
      (by dsimp only; omega) (by rw [length_append]; omega)
    exact ⟨after, Option.bind_eq_some_iff.mpr ⟨_, visited, done⟩⟩

end Answered

/-! ## Which locations are found -/

section Found

variable {lead : Bytes} {fuel : Nat} {mounts : List Mount} {parts : List (List (Mount × Bytes))}

theorem fields_nodup (r : Held Value) : r.fields.Nodup :=
  (sortBytes_perm _).nodup_iff.mpr (nodup_dedup _)

theorem mem_foundAt :
    location ∈ server.foundAt lead path ↔ ∃ e r, server.find path = some (e, r) ∧
      ∃ field ∈ r.fields, (cut lead 0x23).2.1 <+: field ∧ path ++ 0x23 :: field = location := by
  simp only [Server.foundAt, Server.fieldsAt, mem_map, mem_filter, isPrefixOf_iff_prefix]
  cases server.find path with
  | none => simp
  | some found =>
    obtain ⟨e, r⟩ := found
    simp [and_assoc]

variable (spelled : server.Spelled quote) (chosen : Chosen server (cut lead 0x23).1 mounts)
include spelled chosen

/-- The jobs in a mount that is looked into. -/
theorem jobs_plan {m : Mount} (taken : m ∈ mounts) {jobs : List (Mount × Bytes)}
    (made : (planned (server.api fails) quote lead fuel m).map (·.map (m, ·)) = some jobs) :
    ∃ e ∈ server.kv, e.mount = m ∧ ∃ paths, Plan e lead paths ∧ paths.map (m, ·) = jobs := by
  obtain ⟨e, member, rfl⟩ := chosen.known m taken
  obtain ⟨paths, found, rfl⟩ := Option.map_eq_some_iff.mp made
  exact ⟨e, member, rfl, paths, planned_plan spelled member found, rfl⟩

variable
  (plan : mounts.mapM
    (fun m => (planned (server.api fails) quote lead fuel m).map (·.map (m, ·))) = some parts)
include plan

/-- Every job is one of a mount that is looked into, and its plan. -/
theorem mem_jobs {job : Mount × Bytes} (inside : job ∈ parts.flatten) :
    ∃ e ∈ server.kv, e.mount = job.1 ∧ e.mount ∈ mounts ∧ e.mount.dataRoot <+: job.2 ∧
      About lead job.2 ∧
      ((cut lead 0x23).2.2 = false → ∃ r ∈ e.records, e.at r = job.2) := by
  obtain ⟨part, inParts, inside⟩ := mem_flatten.mp inside
  obtain ⟨m, taken, made⟩ := (mem_mapM plan part).mp inParts
  obtain ⟨e, member, rfl, paths, planned, rfl⟩ := jobs_plan spelled chosen taken made
  obtain ⟨path, inPlan, rfl⟩ := mem_map.mp inside
  exact ⟨e, member, rfl, taken, planned.under path inPlan, planned.about path inPlan,
    fun plain => planned.held plain path inPlan⟩

/-- Every record of such a mount that the prefix is about is a job. -/
theorem record_mem_jobs (member : e ∈ server.kv) (taken : e.mount ∈ mounts) {r : Held Value}
    (held : r ∈ e.records) (about : About lead (e.at r)) : (e.mount, e.at r) ∈ parts.flatten := by
  have made :=
    mem_map_of_mem (f := fun m => (planned (server.api fails) quote lead fuel m).map (·.map (m, ·)))
      taken
  rw [(mapM_some_iff _ _ _).mp plan] at made
  obtain ⟨part, inParts, made⟩ := mem_map.mp made
  obtain ⟨own, ownMember, same, paths, planned, rfl⟩ := jobs_plan spelled chosen taken made.symm
  obtain rfl := Engine.mount_injective ownMember member same
  exact mem_flatten.mpr ⟨_, inParts, mem_map.mpr ⟨own.at r, planned.all r held about, rfl⟩⟩

theorem jobs_proper : ∀ job ∈ parts.flatten, server.Job job := by
  intro job inside
  obtain ⟨e, member, same, _, under, _⟩ := mem_jobs spelled chosen plan inside
  exact ⟨e, member, same, under⟩

/-- No record is read twice. -/
theorem jobs_nodup : (parts.flatten.map Prod.snd).Nodup := by
  have paths_eq (m : Mount) (paths : List Bytes) : (paths.map (m, ·)).map Prod.snd = paths := by
    rw [map_map]
    exact map_id paths
  rw [map_flatten, nodup_flatten]
  constructor
  · intro part inParts
    obtain ⟨jobs, inPlan, rfl⟩ := mem_map.mp inParts
    obtain ⟨m, taken, made⟩ := (mem_mapM plan jobs).mp inPlan
    obtain ⟨e, member, rfl, paths, planned, rfl⟩ := jobs_plan spelled chosen taken made
    rw [paths_eq]
    exact planned.nodup
  · -- A path that is read in two mounts would be in both.
    rw [pairwise_map]
    refine pairwise_mapM plan (chosen.nodup.imp_of_mem ?_)
    intro a b takenA takenB different jobsA jobsB madeA madeB path inA inB
    obtain ⟨own, member, rfl, paths, planned, rfl⟩ := jobs_plan spelled chosen takenA madeA
    obtain ⟨other, otherMember, rfl, otherPaths, otherPlanned, rfl⟩ :=
      jobs_plan spelled chosen takenB madeB
    rw [paths_eq] at inA inB
    exact different (congrArg Engine.mount
      (server.unique (server.mem_engines member) (server.mem_engines otherMember)
      ((path_isPrefix_dataRoot own).trans (planned.under path inA))
      ((path_isPrefix_dataRoot other).trans (otherPlanned.under path inB))))

/-- What the jobs find: the locations of the mounts that start with the prefix. -/
theorem mem_found :
    location ∈ parts.flatten.flatMap (server.foundAt lead ·.2) ↔
      ∃ e ∈ server.kv, e.mount ∈ mounts ∧ location ∈ e.locations ∧ lead <+: location := by
  rw [mem_flatMap]
  constructor
  · rintro ⟨job, inside, found⟩
    obtain ⟨e, member, _, taken, under, about, _⟩ := mem_jobs spelled chosen plan inside
    obtain ⟨own, r, held, field, has, starts, rfl⟩ := mem_foundAt.mp found
    obtain ⟨rfl, recordHeld, same⟩ := find_own member under held
    refine ⟨own, member, taken, (mem_locations spelled member).mpr
      ⟨r, recordHeld, ?_, field, has, starts, by rw [same]⟩⟩
    rw [same]
    exact about
  · rintro ⟨e, member, taken, found⟩
    obtain ⟨r, held, about, field, has, starts, rfl⟩ := (mem_locations spelled member).mp found
    refine ⟨(e.mount, e.at r), record_mem_jobs spelled chosen plan member taken held about, ?_⟩
    exact mem_foundAt.mpr ⟨e, r, find_at member held, field, has, starts, rfl⟩

/-- No location is found twice. -/
theorem found_nodup : (parts.flatten.flatMap (server.foundAt lead ·.2)).Nodup := by
  rw [nodup_flatMap]
  constructor
  · intro job _
    have fields : (server.fieldsAt job.2).Nodup := by
      unfold Server.fieldsAt
      cases server.find job.2 with
      | none => exact nodup_nil
      | some found => exact fields_nodup found.2
    refine (fields.filter _).map fun a b same => ?_
    exact tail_eq_of_cons_eq (append_cancel_left same)
  · -- The path of a location is what stands before the first sign of a field.
    have paths := jobs_nodup spelled chosen plan
    rw [List.Nodup, pairwise_map] at paths
    refine paths.imp fun {a b} different location inA inB => different ?_
    obtain ⟨own, r, held, field, _, _, rfl⟩ := mem_foundAt.mp inA
    obtain ⟨other, q, otherHeld, otherField, _, _, same⟩ := mem_foundAt.mp inB
    obtain ⟨member, inside, here⟩ := find_some held
    obtain ⟨otherMember, otherInside, otherHere⟩ := find_some otherHeld
    have plain : 0x23 ∉ a.2 := here ▸ hash_not_mem spelled member inside
    have otherPlain : 0x23 ∉ b.2 := otherHere ▸ hash_not_mem spelled otherMember otherInside
    have halves := (cut_append plain field).symm.trans
      ((congrArg (cut · 0x23) same.symm).trans (cut_append otherPlain otherField))
    exact congrArg Prod.fst halves

/-- No more records are read than start with the prefix, or one. -/
theorem length_jobs : parts.flatten.length ≤
    max 1 (server.paths.filter ((cut lead 0x23).1.isPrefixOf ·)).length := by
  have once := jobs_nodup spelled chosen plan
  rw [← length_map Prod.snd]
  cases hasField : (cut lead 0x23).2.2 with
  | true =>
    have one : parts.flatten.map Prod.snd ⊆ [(cut lead 0x23).1] := by
      intro path inside
      obtain ⟨job, inJobs, rfl⟩ := mem_map.mp inside
      obtain ⟨_, _, _, _, _, about, _⟩ := mem_jobs spelled chosen plan inJobs
      rw [About, hasField, if_pos rfl] at about
      exact mem_singleton.mpr about
    exact Nat.le_trans (subperm_of_subset once one).length_le (Nat.le_max_left _ _)
  | false =>
    have known : parts.flatten.map Prod.snd ⊆
        server.paths.filter ((cut lead 0x23).1.isPrefixOf ·) := by
      intro path inside
      obtain ⟨job, inJobs, rfl⟩ := mem_map.mp inside
      obtain ⟨e, member, _, _, _, about, held⟩ := mem_jobs spelled chosen plan inJobs
      obtain ⟨r, held, same⟩ := held hasField
      rw [About, hasField, if_neg Bool.false_ne_true] at about
      refine mem_filter.mpr ⟨?_, isPrefixOf_iff_prefix.mpr about⟩
      exact mem_flatMap.mpr ⟨e, member, mem_map.mpr ⟨r, held, same⟩⟩
    exact Nat.le_trans (subperm_of_subset once known).length_le (Nat.le_max_right _ _)

/-- No more is found than starts with the prefix. -/
theorem length_found :
    (parts.flatten.flatMap (server.foundAt lead ·.2)).length ≤
      (server.locations.filter (lead.isPrefixOf ·)).length := by
  refine (subperm_of_subset (found_nodup spelled chosen plan) fun location inside => ?_).length_le
  obtain ⟨e, member, _, inside, starts⟩ := (mem_found spelled chosen plan).mp inside
  exact mem_filter.mpr ⟨mem_flatMap.mpr ⟨e, member, inside⟩, isPrefixOf_iff_prefix.mpr starts⟩

end Found

section Exact

variable (spelled : server.Spelled quote) {cache : List CachedMount}
  (cached : server.Cached quote cache)
  (answered : ∀ path, fails (.mountAt path) = none) {fuel : Nat} {now : Int} {lead : Bytes}
include spelled cached answered

/-- A list is exact where nothing was left out. -/
theorem exact_iff_whole {result : List Bytes}
    (listed : list (server.api fails) quote fuel now cache lead = .ok result) :
    server.Exact lead result ↔ server.Whole lead := by
  obtain ⟨_, mounts, parts, l, known, plan, done, rfl⟩ := (list_ok _ _ _).mp listed
  have chosen := listMounts_chosen cached.agrees answered known
  have found : l.locations = parts.flatten.flatMap (server.foundAt lead ·.2) :=
    jobs_some (jobs_proper spelled chosen plan) done
  have mem (location : Bytes) : location ∈ sortBytes l.locations ↔
      ∃ e ∈ server.kv, e.mount ∈ mounts ∧ location ∈ e.locations ∧ lead <+: location := by
    rw [(sortBytes_perm _).mem_iff, found]
    exact mem_found spelled chosen plan
  constructor
  · intro exactly
    refine whole_of_chosen chosen fun e member location inside starts => ?_
    have returned := (exactly.2 location).mpr ⟨mem_flatMap.mpr ⟨e, member, inside⟩, starts⟩
    obtain ⟨own, ownMember, taken, ownInside, _⟩ := (mem location).mp returned
    rwa [server.unique (server.mem_engines member) (server.mem_engines ownMember)
      (path_isPrefix inside) (path_isPrefix ownInside)]
  · intro whole
    refine ⟨?_, fun location => (mem location).trans ?_⟩
    · rw [found]
      exact sortBytes_increasing (found_nodup spelled chosen plan)
    · constructor
      · rintro ⟨e, member, _, inside, starts⟩
        exact ⟨mem_flatMap.mpr ⟨e, member, inside⟩, starts⟩
      · rintro ⟨inside, starts⟩
        obtain ⟨e, member, inside⟩ := mem_flatMap.mp inside
        exact ⟨e, member, chosen_of_whole spelled chosen whole member inside starts, inside, starts⟩

/-- With every answer and within its limits, a list succeeds. -/
theorem list_succeeds (every : ∀ request, fails request = none)
    (counted : ∀ e ∈ server.kv, ∀ r ∈ e.records, decodeInt64 r.cell.version = .ok r.cell.version)
    (checked : checkPart quote (cut lead 0x23).1 true = .ok ()) (fits : server.Fits lead)
    (enough : server.depth < fuel) :
    ∃ result, list (server.api fails) quote fuel now cache lead = .ok result := by
  obtain ⟨mounts, known⟩ := listMounts_answered server quote now cache (cut lead 0x23).1
    (every .mounts)
  have chosen := listMounts_chosen cached.agrees answered known
  have deep : ∀ e ∈ server.kv, ∀ r ∈ e.records, r.path.length < fuel := by
    intro e member r held
    have inside : r.path.length ∈ server.kv.flatMap fun e => e.records.map fun r => r.path.length :=
      mem_flatMap.mpr ⟨e, member, mem_map.mpr ⟨r, held, rfl⟩⟩
    exact Nat.lt_of_le_of_lt (le_max?_getD_of_mem inside) enough
  obtain ⟨parts, plan⟩ : ∃ parts, mounts.mapM
    (fun m => (planned (server.api fails) quote lead fuel m).map (·.map (m, ·))) =
      some parts := by
    refine mapM_isSome _ _ fun m taken => ?_
    obtain ⟨e, member, rfl⟩ := chosen.known m taken
    obtain ⟨paths, found⟩ :=
      planned_answered quote lead every member (deep e member) (Nat.zero_lt_of_lt enough)
    rw [found]
    rfl
  have reads : 0 + parts.flatten.length ≤ maxListReads := by
    have bound := length_jobs spelled chosen plan
    have limit : 1 ≤ maxListReads := by decide
    have within := fits.1
    omega
  have room : 0 + (parts.flatten.flatMap (server.foundAt lead ·.2)).length ≤ maxLocations := by
    rw [Nat.zero_add]
    exact Nat.le_trans (length_found spelled chosen plan) fits.2
  obtain ⟨l, done⟩ := jobs_answered quote (l := {}) every counted (jobs_proper spelled chosen plan)
    reads room
  exact ⟨_, (list_ok _ _ _).mpr ⟨checked, mounts, parts, l, known, plan, done, rfl⟩⟩

end Exact

/-- A list of a prefix that succeeds returns exactly the locations that start with it if and
only if it passes over no mount. It succeeds if no call fails, the prefix is well formed and
the limits are kept. -/
theorem list_exact (server : Server Value) (quote : Bytes → Bytes) (spelled : server.Spelled quote)
    (cache : List CachedMount) (cached : server.Cached quote cache) (fails : Request → Option Fault)
    (answered : ∀ path, fails (.mountAt path) = none) (fuel : Nat) (now : Int) (lead : Bytes) :
    (∀ result, list (server.api fails) quote fuel now cache lead = .ok result →
      (server.Exact lead result ↔ server.Whole lead)) ∧
    ((∀ request, fails request = none) →
      (∀ e ∈ server.kv, ∀ r ∈ e.records, decodeInt64 r.cell.version = .ok r.cell.version) →
      checkPart quote (cut lead 0x23).1 true = .ok () → server.Fits lead → server.depth < fuel →
      ∃ result, list (server.api fails) quote fuel now cache lead = .ok result) :=
  ⟨fun _ => exact_iff_whole spelled cached answered, list_succeeds spelled cached answered⟩

/-- A record with one field. -/
def keyRecord (path : Bytes) : Held Unit where
  path := path
  cell := { version := 1, value := some fun name => if name = bytes "key" then some () else none }
  names := [bytes "key"]
  named := by
    intro fields same name has
    cases same
    by_cases key : name = bytes "key"
    · exact mem_singleton.mpr key
    · simp [key] at has

/-- A KV v2 mount and a KV v1 mount whose paths start alike. -/
def twoMounts : Server Unit where
  engines := [
    { path := bytes "secret/", info := ⟨bytes "kv", bytes "2"⟩,
      records := [keyRecord (bytes "openai")], distinct := by decide },
    { path := bytes "secret2/", info := ⟨bytes "kv", bytes "1"⟩,
      records := [keyRecord (bytes "github")],
      distinct := by decide }]
  apart := by decide

/-- Their records can be named. -/
theorem twoMounts_spelled : twoMounts.Spelled id := by
  unfold Server.Spelled
  decide

/-- A list inside one of the mounts. -/
theorem list_exact_mount :
    ∃ result, list (twoMounts.api fun _ => none) id 10 0 [] (bytes "secret/") = .ok result ∧
      twoMounts.Exact (bytes "secret/") result := by
  have whole : twoMounts.Whole (bytes "secret/") := by
    unfold Server.Whole
    decide
  have fits : twoMounts.Fits (bytes "secret/") := by
    unfold Server.Fits
    decide
  obtain ⟨exactly, succeeds⟩ :=
    list_exact twoMounts id twoMounts_spelled [] .new (fun _ => none) (fun _ => rfl) 10 0
      (bytes "secret/")
  obtain ⟨result, listed⟩ := succeeds (fun _ => rfl) (by decide) (by decide) fits (by decide)
  exact ⟨result, listed, (exactly result listed).mpr whole⟩

/-- A list of the path of the one mount without the slash passes over the other, whether the
mount is looked up or known from a read. -/
theorem list_passes_over :
    twoMounts.Spelled id ∧ bytes "secret2/github#key" ∈ twoMounts.locations ∧
      ∀ cache ∈ [[],
        (mountFor (twoMounts.api fun _ => none) id 0 0 [] (bytes "secret/data/openai")).2],
        twoMounts.Cached id cache ∧
        list (twoMounts.api fun _ => none) id 10 0 cache (bytes "secret") =
          .ok [bytes "secret/data/openai#key"] ∧
        ¬ twoMounts.Exact (bytes "secret") [bytes "secret/data/openai#key"] := by
  have held : bytes "secret2/github#key" ∈ twoMounts.locations := by decide
  have starts : bytes "secret" <+: bytes "secret2/github#key" := by decide
  have missed : ¬ twoMounts.Exact (bytes "secret") [bytes "secret/data/openai#key"] := by
    intro exactly
    have returned := (exactly.2 (bytes "secret2/github#key")).mpr ⟨held, starts⟩
    exact absurd returned (by decide)
  refine ⟨twoMounts_spelled, held, ?_⟩
  rw [forall_mem_cons, forall_mem_singleton]
  exact ⟨⟨.new, by decide, missed⟩, .lookup .new (List.Perm.refl _) _ 0 0 _, by decide, missed⟩

end Server

end TrustedCourier.OpenBao
