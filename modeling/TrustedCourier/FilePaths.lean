import TrustedCourier.PathPrefix
import TrustedCourier.Queries

/-!
# File paths

The lexical operations on slash-separated file paths: cleaning, joining, the directory
of a path and its absolute form. An element of a path is what stands between two
slashes. The working directory is a parameter, as the operating system names it.

Cleaning is settled for rooted paths: what it leaves are elements that it leaves alone.
The absolute form of a path is therefore its own absolute form, whatever the working
directory has become.
-/

namespace TrustedCourier.FilePaths

open List

/-- `filepath.IsAbs`. -/
def isAbs (path : Bytes) : Bool := path.head? == some 0x2F

/-- One element of a path, after those before it. -/
def element (rooted : Bool) (cleaned : List Bytes) (part : Bytes) : List Bytes :=
  if part = [] ∨ part = bytes "." then cleaned
  else if part = bytes ".." then
    match cleaned.getLast? with
    -- Nothing is above the root; a relative path keeps what leads above its start.
    | none => if rooted then [] else [part]
    | some last => if last = bytes ".." then cleaned ++ [part] else cleaned.dropLast
  else cleaned ++ [part]

/-- The elements that cleaning leaves. -/
def elements (path : Bytes) : List Bytes := (path.splitOn 0x2F).foldl (element (isAbs path)) []

/-- `filepath.Clean`. -/
def clean (path : Bytes) : Bytes :=
  if isAbs path then 0x2F :: [0x2F].intercalate (elements path)
  else if elements path = [] then bytes "."
  else [0x2F].intercalate (elements path)

/-- `filepath.Join` of two paths. -/
def join (base path : Bytes) : Bytes :=
  if base ≠ [] then clean (base ++ 0x2F :: path)
  else if path ≠ [] then clean path
  else []

/-- `filepath.Dir`. -/
def dir (path : Bytes) : Bytes := clean (path.reverse.dropWhile (· ≠ 0x2F)).reverse

/-- `filepath.Base`. -/
def base (path : Bytes) : Bytes :=
  if path = [] then bytes "."
  else
    let trimmed := path.reverse.dropWhile (· = 0x2F)
    if trimmed = [] then [0x2F] else (trimmed.takeWhile (· ≠ 0x2F)).reverse

/-- What is left of two lists of elements behind those they begin with in common. -/
def divided : List Bytes → List Bytes → List Bytes × List Bytes
  | first :: firsts, second :: seconds =>
    if first = second then divided firsts seconds else (first :: firsts, second :: seconds)
  | firsts, seconds => (firsts, seconds)

/-- The elements of a path as `filepath.Rel` meets them. A relative path that cleaning
leaves empty is the element `.`. -/
def relElements (path : Bytes) : List Bytes :=
  if isAbs path then elements path else (clean path).splitOn 0x2F

/-- `filepath.Rel`. -/
def rel (basepath targpath : Bytes) : Except Bytes Bytes :=
  let impossible := bytes "Rel: can't make " ++ targpath ++ bytes " relative to " ++ basepath
  if clean targpath = clean basepath then .ok (bytes ".")
  else if isAbs basepath ≠ isAbs targpath then .error impossible
  else
    let (up, down) := divided (if clean basepath = bytes "." then [] else relElements basepath)
      (relElements targpath)
    if up.head? = some (bytes "..") ∧ down ≠ [] then .error impossible
    else .ok ([0x2F].intercalate (List.replicate up.length (bytes "..") ++ down))

/-- `filepath.Abs`, with what `os.Getwd` gives. -/
def abs (getwd : Except String Bytes) (path : Bytes) : Except String Bytes :=
  if isAbs path then .ok (clean path) else getwd.map (join · path)

/-! ## Cleaning twice -/

/-- An element that cleaning leaves alone. -/
structure Kept (part : Bytes) : Prop where
  nonempty : part ≠ []
  named : part ≠ bytes "."
  below : part ≠ bytes ".."
  whole : 0x2F ∉ part

/-- Below the root, only kept elements are collected: `..` removes one or does nothing. -/
theorem element_kept {cleaned : List Bytes} {part : Bytes} (before : ∀ p ∈ cleaned, Kept p)
    (whole : 0x2F ∉ part) :
    ∀ p ∈ element true cleaned part, Kept p := by
  unfold element
  split
  · exact before
  · next proper =>
    split
    · next up =>
      cases final : cleaned.getLast? with
      | none => simp
      | some last =>
        have inside : last ∈ cleaned := mem_of_getLast? final
        simp only [if_neg (before last inside).below]
        intro p member
        exact before p (mem_of_mem_dropLast member)
    · next down =>
      intro p member
      rcases mem_append.mp member with earlier | new
      · exact before p earlier
      · rw [mem_singleton.mp new]
        exact ⟨fun empty => proper (Or.inl empty), fun dot => proper (Or.inr dot), down, whole⟩

variable {path : Bytes}

/-- No element of an absolute path is empty or a dot. -/
theorem elements_kept (rooted : isAbs path = true) : ∀ part ∈ elements path, Kept part := by
  have general : ∀ (parts cleaned : List Bytes), (∀ part ∈ parts, (0x2F : UInt8) ∉ part) →
      (∀ part ∈ cleaned, Kept part) → ∀ part ∈ parts.foldl (element true) cleaned, Kept part := by
    intro parts
    induction parts with
    | nil => exact fun _ _ kept => kept
    | cons part rest ih =>
      intro cleaned whole kept
      exact ih _ (fun other member => whole other (mem_cons_of_mem part member))
        (element_kept kept (whole part mem_cons_self))
  rw [elements, rooted]
  exact general _ [] (fun part member => ByteStrings.not_mem_of_mem_splitOn member) (by simp)

/-- Kept elements are collected as they are. -/
theorem foldl_element {parts : List Bytes} (kept : ∀ part ∈ parts, Kept part) (rooted : Bool)
    (cleaned : List Bytes) : parts.foldl (element rooted) cleaned = cleaned ++ parts := by
  induction parts generalizing cleaned with
  | nil => simp
  | cons part rest ih =>
    have here := kept part mem_cons_self
    have added : element rooted cleaned part = cleaned ++ [part] := by
      simp [element, here.nonempty, here.named, here.below]
    rw [foldl_cons, added, ih fun other member => kept other (mem_cons_of_mem part member)]
    simp

/-- A path put together from kept elements has these elements. -/
theorem elements_intercalate {parts : List Bytes} (kept : ∀ part ∈ parts, Kept part) :
    elements (0x2F :: [0x2F].intercalate parts) = parts := by
  have rooted : isAbs (0x2F :: [0x2F].intercalate parts) = true := rfl
  have skipped : ∀ rest : List Bytes, ([] :: rest).foldl (element true) [] =
      rest.foldl (element true) [] :=
    fun rest => rfl
  rw [elements, rooted, Config.splitOn_slash, skipped]
  by_cases bare : parts = []
  · subst bare
    rfl
  · rw [splitOn_intercalate 0x2F (fun part member => (kept part member).whole) bare,
      foldl_element kept]
    rfl

section

variable (rooted : isAbs path = true)
include rooted

theorem clean_rooted :
    clean path = 0x2F :: [0x2F].intercalate (elements path) := by
  rw [clean, if_pos rooted]

theorem isAbs_clean : isAbs (clean path) = true := by
  rw [clean_rooted rooted]
  rfl

theorem clean_clean : clean (clean path) = clean path := by
  rw [clean_rooted (isAbs_clean rooted), clean_rooted rooted,
    elements_intercalate (elements_kept rooted)]

theorem isAbs_append (rest : Bytes) : isAbs (path ++ rest) = true := by
  cases path with
  | nil => exact absurd rooted (by decide)
  | cons first others => exact rooted

end

/-- An absolute form is rooted and clean. The working directory is rooted itself. -/
theorem abs_clean {getwd : Except String Bytes} (rooted : ∀ wd, getwd = .ok wd → isAbs wd = true)
    {absolute : Bytes} (named : abs getwd path = .ok absolute) :
    isAbs absolute = true ∧ clean absolute = absolute := by
  unfold abs at named
  split at named
  · next already =>
    cases named
    exact ⟨isAbs_clean already, clean_clean already⟩
  · cases found : getwd with
    | error message =>
      simp [found, Except.map] at named
    | ok wd =>
      rw [found] at named
      have base := rooted wd found
      have nonempty : wd ≠ [] := by
        rintro rfl
        exact absurd base (by decide)
      obtain rfl : clean (wd ++ 0x2F :: path) = absolute := by
        simpa [Except.map, join, nonempty] using named
      exact ⟨isAbs_clean (isAbs_append base _), clean_clean (isAbs_append base _)⟩

/-- An absolute form is its own, in every working directory. -/
theorem abs_abs {getwd : Except String Bytes} (rooted : ∀ wd, getwd = .ok wd → isAbs wd = true)
    {absolute : Bytes} (named : abs getwd path = .ok absolute) (later : Except String Bytes) :
    abs later absolute = .ok absolute := by
  obtain ⟨already, cleaned⟩ := abs_clean rooted named
  rw [abs, if_pos already, cleaned]

example : clean (bytes "/etc//tc/./../trustedcourier/config.yaml") =
    bytes "/etc/trustedcourier/config.yaml" := by
  decide

/-! ## Relative paths -/

theorem divided_append (front rest : List Bytes) : divided front (front ++ rest) = ([], rest) := by
  induction front with
  | nil => cases rest <;> rfl
  | cons part front ih =>
    rw [cons_append, divided, if_pos rfl, ih]

/-- Rooted paths with the same clean form have the same elements. -/
theorem elements_eq_of_clean {other : Bytes} (rooted : isAbs path = true)
    (alike : isAbs other = true) (same : clean path = clean other) :
    elements path = elements other := by
  rw [clean_rooted rooted, clean_rooted alike] at same
  rw [← elements_intercalate (elements_kept rooted), same,
    elements_intercalate (elements_kept alike)]

/-- Relative to a directory that it is in, a path is what comes behind the directory. -/
theorem rel_inside {basepath targpath : Bytes} {rest : List Bytes} (rooted : isAbs basepath = true)
    (alike : isAbs targpath = true) (inside : elements targpath = elements basepath ++ rest) :
    rel basepath targpath = .ok (if rest = [] then bytes "." else [0x2F].intercalate rest) := by
  by_cases itself : rest = []
  · have same : clean targpath = clean basepath := by
      rw [clean_rooted alike, clean_rooted rooted, inside, itself, append_nil]
    rw [rel, if_pos same, if_pos itself]
  · have apart : clean targpath ≠ clean basepath := by
      intro same
      have equal := elements_eq_of_clean alike rooted same
      rw [inside] at equal
      exact itself (append_right_eq_self.mp equal)
    have proper : clean basepath ≠ bytes "." := by
      rw [clean_rooted rooted]
      intro dot
      exact absurd (List.cons.inj dot).1 (by decide)
    simp only [rel, relElements, rooted, alike, if_neg apart, if_neg itself, if_neg proper, inside,
      divided_append,
      ite_true, ne_eq, not_true_eq_false, ite_false, head?_nil, length_nil, replicate_zero,
      nil_append, reduceCtorEq, false_and]

/-- The same place below another directory. -/
theorem join_inside {name : Bytes} {rest : List Bytes} (kept : Kept name)
    (below : ∀ part ∈ rest, Kept part) :
    join (0x2F :: name) (if rest = [] then bytes "." else [0x2F].intercalate rest) =
      0x2F :: [0x2F].intercalate (name :: rest) := by
  have every : ∀ part ∈ name :: rest, Kept part := by
    intro part member
    rcases mem_cons.mp member with rfl | later
    · exact kept
    · exact below part later
  rw [join, if_pos (cons_ne_nil _ _)]
  by_cases itself : rest = []
  · subst itself
    have rooted : isAbs (0x2F :: name ++ 0x2F :: bytes ".") = true := rfl
    have split : (0x2F :: name ++ 0x2F :: bytes ".").splitOn 0x2F = [[], name, bytes "."] := by
      have joined : 0x2F :: name ++ 0x2F :: bytes "." =
          [0x2F].intercalate [[], name, bytes "."] := by
        simp [List.intercalate, List.intersperse]
      rw [joined]
      apply splitOn_intercalate 0x2F _ (by simp)
      intro part member
      rcases mem_cons.mp member with rfl | later
      · simp
      · rcases mem_cons.mp later with rfl | last
        · exact kept.whole
        · rw [mem_singleton.mp last]
          decide
    have dropped : element true [name] (bytes ".") = [name] := rfl
    have cleaned : elements (0x2F :: name ++ 0x2F :: bytes ".") = [name] := by
      rw [elements, rooted, split]
      have first : [name].foldl (element true) [] = [] ++ [name] :=
        foldl_element (by simpa using kept) true []
      simp only [foldl_cons, foldl_nil, nil_append] at first ⊢
      rw [show element true [] [] = [] from rfl, first, dropped]
    rw [if_pos rfl, clean_rooted rooted, cleaned]
  · rw [if_neg itself]
    have joined : 0x2F :: name ++ 0x2F :: [0x2F].intercalate rest =
        0x2F :: [0x2F].intercalate (name :: rest) := by
      obtain ⟨next, others, rfl⟩ := exists_cons_of_ne_nil itself
      simp [List.intercalate, List.intersperse]
    rw [joined, clean_rooted rfl, elements_intercalate every]

example : rel (bytes "/work/repo") (bytes "/work/docs/api") = .ok (bytes "../docs/api") := by
  decide

end TrustedCourier.FilePaths
