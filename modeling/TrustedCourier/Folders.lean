import Mathlib.Data.List.Dedup
import Mathlib.Data.List.Infix
import Mathlib.Data.List.Nodup
import TrustedCourier.ByteStrings

/-!
# Walking folders

Paths are kept flat, and a separator makes folders of them: a folder lists, for each path
that starts with it, what follows up to the next separator. A walk asks for the names in a
folder, goes on into those that are folders, unless it has no interest in them, and ends at
the others. It comes to every path whose folders it does not pass by, and to none twice:
the name it went through is read off the path.

Each path costs as many questions as it has folders, so a walk ends with fuel for the
longest path.
-/

namespace TrustedCourier.Folders

open List

universe u

variable {α : Type u} [DecidableEq α] (sep : α)

/-- The name of what is left of a path: up to the first separator, and with it. -/
def entry : List α → List α
  | [] => []
  | c :: rest => if c = sep then [c] else c :: entry rest

/-- The name is one of a folder. -/
def isFolder (name : List α) : Bool := [sep].isSuffixOf name

/-- The names in a folder, of paths that start with it. -/
structure Lists (paths : List (List α)) (dir : List α) (names : List (List α)) : Prop where
  nodup : names.Nodup
  mem : ∀ name, name ∈ names ↔ ∃ rest, dir ++ rest ∈ paths ∧ entry sep rest = name

/-- Those names, each once. -/
def namesIn (paths : List (List α)) (dir : List α) : List (List α) :=
  ((paths.filter (dir.isPrefixOf ·)).map fun path => entry sep (path.drop dir.length)).dedup

/-- Where a walk goes from a name in a folder, given where it goes from a folder. -/
def part (descends : List α → Bool) (onward : List α → Option (List (List α))) (dir name : List α) :
    Option (List (List α)) :=
  if isFolder sep name then
    if descends (dir ++ name) then onward (dir ++ name) else some []
  else some [dir ++ name]

/-- The paths that a walk comes to from a folder, or none if it cannot list one of the
folders. -/
def visits (descends : List α → Bool) (lists : List α → Option (List (List α))) :
    Nat → List α → Option (List (List α))
  | 0, _ => none
  | fuel + 1, dir => do
    let names ← lists dir
    let parts ← names.mapM (part sep descends (visits descends lists fuel) dir)
    return parts.flatten

variable {sep}

variable (sep) in
/-- A name is all that is left, or a folder's. -/
theorem entry_cases (rest : List α) :
    (sep ∉ rest ∧ entry sep rest = rest) ∨
      ∃ front back, sep ∉ front ∧ rest = front ++ sep :: back ∧
        entry sep rest = front ++ [sep] := by
  induction rest with
  | nil => exact Or.inl ⟨not_mem_nil, rfl⟩
  | cons c rest ih =>
    by_cases here : c = sep
    · subst here
      exact Or.inr ⟨[], rest, not_mem_nil, rfl, if_pos rfl⟩
    · have onward : entry sep (c :: rest) = c :: entry sep rest := if_neg here
      rcases ih with ⟨absent, whole⟩ | ⟨front, back, absent, split, named⟩
      · refine Or.inl ⟨?_, by rw [onward, whole]⟩
        rw [mem_cons, not_or]
        exact ⟨fun same => here same.symm, absent⟩
      · refine Or.inr ⟨c :: front, back, ?_, by rw [split]; rfl, by rw [onward, named]; rfl⟩
        rw [mem_cons, not_or]
        exact ⟨fun same => here same.symm, absent⟩

theorem entry_folder {front : List α} (absent : sep ∉ front) (back : List α) :
    entry sep (front ++ sep :: back) = front ++ [sep] := by
  induction front with
  | nil => exact if_pos rfl
  | cons c front ih =>
    rw [mem_cons, not_or] at absent
    rw [cons_append, entry, if_neg fun same => absent.1 same.symm, ih absent.2]
    rfl

theorem isFolder_folder (front : List α) : isFolder sep (front ++ [sep]) = true :=
  isSuffixOf_iff_suffix.mpr (suffix_append _ _)

theorem isFolder_of_not_mem {name : List α} (absent : sep ∉ name) : isFolder sep name = false := by
  rw [Bool.eq_false_iff]
  intro folder
  exact absent ((isSuffixOf_iff_suffix.mp folder).subset (mem_singleton.mpr rfl))

/-- What is left of a path that goes on behind a folder's name has that name. -/
theorem entry_append {rest : List α} (folder : isFolder sep (entry sep rest) = true)
    (back : List α) :
    entry sep (entry sep rest ++ back) = entry sep rest := by
  rcases entry_cases sep rest with ⟨absent, whole⟩ | ⟨front, _, absent, _, named⟩
  · rw [whole, isFolder_of_not_mem absent] at folder
    cases folder
  · rw [named, append_assoc]
    exact entry_folder absent back

/-- A name that is not a folder's is all that is left. -/
theorem entry_file {rest : List α} (file : isFolder sep (entry sep rest) = false) :
    entry sep rest = rest := by
  rcases entry_cases sep rest with ⟨_, whole⟩ | ⟨front, _, _, _, named⟩
  · exact whole
  · rw [named, isFolder_folder] at file
    cases file

variable (sep) in
theorem entry_isPrefix (rest : List α) : entry sep rest <+: rest := by
  rcases entry_cases sep rest with ⟨_, whole⟩ | ⟨front, back, _, split, named⟩
  · rw [whole]
  · exact ⟨back, by rw [named, split, append_assoc]; rfl⟩

variable (sep) in
/-- The names of a folder are its listing. -/
theorem namesIn_lists (paths : List (List α)) (dir : List α) :
    Lists sep paths dir (namesIn sep paths dir) where
  nodup := nodup_dedup _
  mem := by
    intro name
    rw [namesIn, mem_dedup, mem_map]
    constructor
    · rintro ⟨path, member, rfl⟩
      obtain ⟨inside, under⟩ := mem_filter.mp member
      obtain ⟨rest, rfl⟩ := isPrefixOf_iff_prefix.mp under
      exact ⟨rest, inside, by rw [drop_left]⟩
    · rintro ⟨rest, inside, rfl⟩
      refine ⟨dir ++ rest, mem_filter.mpr ⟨inside, ?_⟩, by rw [drop_left]⟩
      exact isPrefixOf_iff_prefix.mpr (prefix_append _ _)

omit [DecidableEq α] in
/-- To find each part and do something at all of it, one after another, is to find all the
parts first. -/
theorem foldlM_parts {β σ : Type u} {find : β → Option (List α)} {act : σ → α → Option σ}
    (keys : List β) (state : σ) :
    keys.foldlM (fun state key => (find key).bind fun found => found.foldlM act state) state =
      (keys.mapM find).bind fun parts => parts.flatten.foldlM act state := by
  induction keys generalizing state with
  | nil => rfl
  | cons key rest ih =>
    rw [foldlM_cons, mapM_cons]
    cases find key with
    | none => rfl
    | some found =>
      simp only [Option.bind_eq_bind, Option.bind_some, ih]
      cases rest.mapM find with
      | none => simp
      | some parts => simp [foldlM_append]

section Walk

variable {descends : List α → Bool} {lists : List α → Option (List (List α))}
  {paths : List (List α)} {found : List (List α)} {dir : List α} {fuel : Nat}

/-- A walk of a folder is a walk of its parts. -/
theorem visits_succ :
    visits sep descends lists (fuel + 1) dir = some found ↔ ∃ names parts, lists dir = some names ∧
      names.mapM (part sep descends (visits sep descends lists fuel) dir) = some parts ∧
      parts.flatten = found := by
  simp only [visits, Option.bind_eq_bind, Option.bind_eq_some_iff, Option.pure_def,
    Option.some.injEq]
  exact ⟨fun ⟨names, listed, parts, gone, same⟩ => ⟨names, parts, listed, gone, same⟩,
    fun ⟨names, parts, listed, gone, same⟩ => ⟨names, listed, parts, gone, same⟩⟩

/-- Where a walk goes from a name: on into a folder, past it, or to the end of a path. -/
theorem part_cases {onward : List α → Option (List (List α))} {rest : List α}
    (gone : part sep descends onward dir (entry sep rest) = some found) :
    (isFolder sep (entry sep rest) = true ∧ onward (dir ++ entry sep rest) = some found) ∨
      (descends (dir ++ entry sep rest) = false ∧ found = []) ∨
      (entry sep rest = rest ∧ found = [dir ++ rest]) := by
  unfold part at gone
  split at gone
  · next folder =>
    split at gone
    · exact Or.inl ⟨folder, gone⟩
    · next past => exact Or.inr (Or.inl ⟨Bool.eq_false_iff.mpr past, (Option.some.inj gone).symm⟩)
  · next file =>
    have whole := entry_file (Bool.eq_false_iff.mpr file)
    rw [whole] at gone
    exact Or.inr (Or.inr ⟨whole, (Option.some.inj gone).symm⟩)

section Listed

variable (listed : ∀ dir names, lists dir = some names → Lists sep paths dir names)
include listed

/-- A walk comes to paths in the folder only. -/
theorem visits_sound
    (walked : visits sep descends lists fuel dir = some found) :
    ∀ path ∈ found, path ∈ paths ∧ dir <+: path := by
  induction fuel generalizing dir found with
  | zero => cases walked
  | succ fuel ih =>
    obtain ⟨names, parts, known, gone, rfl⟩ := visits_succ.mp walked
    intro path member
    obtain ⟨found, inParts, member⟩ := mem_flatten.mp member
    obtain ⟨name, inNames, gone⟩ := (ByteStrings.mem_mapM gone found).mp inParts
    obtain ⟨rest, inside, rfl⟩ := ((listed _ _ known).mem name).mp inNames
    rcases part_cases gone with ⟨_, onward⟩ | ⟨_, rfl⟩ | ⟨_, rfl⟩
    · obtain ⟨inside, under⟩ := ih onward path member
      exact ⟨inside, (prefix_append _ _).trans under⟩
    · exact absurd member not_mem_nil
    · obtain rfl := mem_singleton.mp member
      exact ⟨inside, prefix_append _ _⟩

/-- From a name a walk comes to paths that have it in the folder. -/
theorem part_entry {rest path : List α}
    (gone : part sep descends (visits sep descends lists fuel) dir (entry sep rest) = some found)
    (member : path ∈ found) :
    entry sep (path.drop dir.length) = entry sep rest := by
  rcases part_cases gone with ⟨folder, onward⟩ | ⟨_, rfl⟩ | ⟨whole, rfl⟩
  · obtain ⟨back, rfl⟩ := (visits_sound listed onward path member).2
    rw [append_assoc, drop_left, entry_append folder]
  · exact absurd member not_mem_nil
  · obtain rfl := mem_singleton.mp member
    rw [drop_left]

/-- No path is come to twice. -/
theorem visits_nodup
    (walked : visits sep descends lists fuel dir = some found) : found.Nodup := by
  induction fuel generalizing dir found with
  | zero => cases walked
  | succ fuel ih =>
    obtain ⟨names, parts, known, gone, rfl⟩ := visits_succ.mp walked
    have each := (listed _ _ known).mem
    rw [nodup_flatten]
    constructor
    · intro found inParts
      obtain ⟨name, inNames, gone⟩ := (ByteStrings.mem_mapM gone found).mp inParts
      obtain ⟨rest, _, rfl⟩ := (each name).mp inNames
      rcases part_cases gone with ⟨_, onward⟩ | ⟨_, rfl⟩ | ⟨_, rfl⟩
      · exact ih onward
      · exact nodup_nil
      · exact nodup_singleton _
    · -- The parts of two names have no path in common: it would have both names.
      refine ByteStrings.pairwise_mapM gone ((listed _ _ known).nodup.imp_of_mem ?_)
      intro a b inA inB different x y goneA goneB path inX inY
      obtain ⟨restA, _, rfl⟩ := (each a).mp inA
      obtain ⟨restB, _, rfl⟩ := (each b).mp inB
      exact different ((part_entry listed goneA inX).symm.trans (part_entry listed goneB inY))

/-- A walk comes to every path in the folder whose folders it does not pass by. -/
theorem visits_complete
    (walked : visits sep descends lists fuel dir = some found) {path : List α}
    (inside : path ∈ paths) (under : dir <+: path)
    (enters : ∀ folder, folder <+: path → descends folder = true) : path ∈ found := by
  induction fuel generalizing dir found with
  | zero => cases walked
  | succ fuel ih =>
    obtain ⟨names, parts, known, gone, rfl⟩ := visits_succ.mp walked
    obtain ⟨rest, rfl⟩ := under
    have named := ((listed _ _ known).mem _).mpr ⟨rest, inside, rfl⟩
    have within : dir ++ entry sep rest <+: dir ++ rest :=
      (prefix_append_right_inj dir).mpr (entry_isPrefix sep rest)
    obtain ⟨found, inParts, gone⟩ : ∃ found ∈ parts,
        part sep descends (visits sep descends lists fuel) dir (entry sep rest) = some found := by
      have mapped := mem_map_of_mem (f := part sep descends (visits sep descends lists fuel) dir)
        named
      rw [(ByteStrings.mapM_some_iff _ _ _).mp gone] at mapped
      obtain ⟨found, inParts, same⟩ := mem_map.mp mapped
      exact ⟨found, inParts, same.symm⟩
    refine mem_flatten.mpr ⟨found, inParts, ?_⟩
    rcases part_cases gone with ⟨_, onward⟩ | ⟨past, _⟩ | ⟨_, rfl⟩
    · exact ih onward within
    · rw [enters _ within] at past
      cases past
    · exact mem_singleton.mpr rfl

variable (descends) in
/-- With fuel for the longest path, a walk that can list every folder ends. -/
theorem visits_isSome (able : ∀ dir, ∃ names, lists dir = some names) (lit : 0 < fuel)
    (enough : ∀ path ∈ paths, dir <+: path → path.length < dir.length + fuel) :
    ∃ found, visits sep descends lists fuel dir = some found := by
  induction fuel generalizing dir with
  | zero => exact absurd lit (Nat.lt_irrefl 0)
  | succ fuel ih =>
    obtain ⟨names, known⟩ := able dir
    obtain ⟨parts, gone⟩ : ∃ parts, names.mapM
      (part sep descends (visits sep descends lists fuel) dir) = some parts := by
      refine ByteStrings.mapM_isSome _ _ fun name inNames => ?_
      obtain ⟨rest, inside, rfl⟩ := ((listed _ _ known).mem name).mp inNames
      unfold part
      split
      · next folder =>
        split
        · -- The folder's name is longer than nothing, so the paths behind it need less fuel.
          have longer : 0 < (entry sep rest).length := by
            rw [length_pos_iff]
            intro none
            rw [none] at folder
            exact absurd (isSuffixOf_iff_suffix.mp folder) (by simp)
          have left := enough _ inside (prefix_append _ _)
          have shorter := (entry_isPrefix sep rest).length_le
          rw [length_append] at left
          refine Option.isSome_iff_exists.mpr (ih (by omega) fun path member under => ?_)
          have bound := enough path member ((prefix_append _ _).trans under)
          rw [length_append]
          omega
        · rfl
      · rfl
    exact ⟨parts.flatten, visits_succ.mpr ⟨names, parts, known, gone, rfl⟩⟩

end Listed

end Walk

end TrustedCourier.Folders
