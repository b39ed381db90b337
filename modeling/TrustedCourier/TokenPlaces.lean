import TrustedCourier.ConfigValidate
import TrustedCourier.CredentialSwap
import TrustedCourier.Snapshots
import TrustedCourier.Utf8

/-!
# The token in the place of the Secret

An Agent that puts its token where a template puts the Secret has the token looked for by
the templates of all Secret Names. In a header, the templates of that header are tried in
the order of the Secret Names, and the first that finds a text with the beginning of a
token decides; so in basic auth. What that template finds need not be the token: the
literal text of one template may be part of what another leaves for the Secret.

The token is found exactly if the first template, in the order of the Secret Names, that
finds the beginning of a token where its Secret goes, finds this one. Places of different
kinds do not interfere, although `Authorization` is read as a header and as basic auth:
a token has an underscore, which base64 has not.
-/

namespace TrustedCourier.AgentApi

open ByteStrings Config Queries Headers Utf8 List

/-! ## What a template finds -/

/-- A value is what a template makes of a text, without regard to the letter case of its
literal parts. -/
def Fits (fold : Bytes → Bytes) (t : HeaderTemplate) (value found : Bytes) : Prop :=
  ∃ front back, value = front ++ found ++ back ∧ front.length = t.prefixText.length ∧
    back.length = t.suffixText.length ∧ equalFold fold front t.prefixText = true ∧
    equalFold fold back t.suffixText = true

/-- The username and the password that a template makes of a text. -/
def fields (t : BasicAuthTemplate) (secret : Bytes) : Bytes × Bytes :=
  if t.secretIsUsername then (secret, t.password) else (t.username, secret)

/-- A username and a password are what a template makes of a text. -/
def FitsFields (t : BasicAuthTemplate) (pair : Bytes × Bytes) (found : Bytes) : Prop :=
  if t.secretIsUsername then pair.2 = t.password ∧ found = pair.1 else pair.1 = t.username ∧
    found = pair.2

section Found

variable {fold : Bytes → Bytes}

/-- What a header template finds in a value is what makes it up to the value. -/
theorem extract_eq_some {value found : Bytes} {t : HeaderTemplate} :
    extract (equalFold fold) value t = some found ↔ Fits fold t value found := by
  unfold extract
  constructor
  · intro extracted
    split at extracted
    · cases extracted
    · next matched =>
      simp only [Bool.or_eq_true, decide_eq_true_eq, Bool.not_eq_eq_eq_not, Bool.not_true, not_or,
        Nat.not_lt, Bool.not_eq_false] at matched
      obtain ⟨⟨long, front⟩, back⟩ := matched
      cases extracted
      refine ⟨_, _, ?_, ?_, ?_, front, back⟩
      · have whole : value.take t.prefixText.length =
            (value.take (value.length - t.suffixText.length)).take t.prefixText.length := by
          rw [take_take, Nat.min_eq_left (by omega)]
        rw [whole, take_append_drop, take_append_drop]
      · rw [length_take]
        omega
      · rw [length_drop]
        omega
  · rintro ⟨front, back, rfl, sizeFront, sizeBack, sameFront, sameBack⟩
    have length : (front ++ found ++ back).length - t.suffixText.length =
        (front ++ found).length := by
      simp only [length_append]
      omega
    rw [length, drop_left, take_left, append_assoc, ← sizeFront, take_left, drop_left,
      sameFront, sameBack]
    simp [sizeBack]

/-- What is made of a username and a password is read back from the header. -/
theorem extractBasicAuth_eq_some {pair : Bytes × Bytes} (uncut : 0x3A ∉ pair.1) {found : Bytes}
    {t : BasicAuthTemplate} :
    extractBasicAuth (equalFold fold)
      (bytes "Basic " ++ Base64.encodeToString (pair.1 ++ bytes ":" ++ pair.2)) t =
      some found ↔ FitsFields t pair found := by
  have scheme (encoded : Bytes) : bytes "Basic " ++ encoded = bytes "Basic" ++ 0x20 :: encoded :=
    rfl
  have colon : pair.1 ++ bytes ":" ++ pair.2 = pair.1 ++ 0x3A :: pair.2 :=
    append_cons pair.1 0x3A pair.2 ▸ rfl
  simp only [extractBasicAuth, scheme]
  rw [cut_append (by decide)]
  simp only [equalFold_refl, Base64.decodeString_encodeToString, Bool.not_true, Bool.or_self,
    Bool.false_eq_true, if_false]
  rw [colon, cut_append uncut]
  unfold FitsFields
  cases t.secretIsUsername with
  | true =>
    simp only [Bool.not_true, Bool.false_eq_true, if_false, if_true]
    split
    · next same => simp [same, eq_comm]
    · next other => simp [other]
  | false =>
    simp only [Bool.not_true, Bool.false_eq_true, if_false]
    split
    · next same => simp [same, eq_comm]
    · next other => simp [other]

end Found

/-- What another template of the same place finds where a template has put a token. -/
def Finds (fold : Bytes → Bytes) (t : InjectionTemplate) (token : Bytes) (u : InjectionTemplate)
    (found : Bytes) : Prop :=
  match t, u with
  | .header t, .header u => u.name = t.name ∧
      Fits fold u (t.prefixText ++ token ++ t.suffixText) found
  | .basicAuth t, .basicAuth u => FitsFields u (fields t token) found
  | _, _ => False

/-! ## Slots in the order of Secret Names -/

/-- A template is added behind the others, unless it is there. -/
def withOne {τ : Type} [DecidableEq τ] (t : τ) (templates : List τ) : List τ :=
  if templates.contains t then templates else templates ++ [t]

/-- The template of a Secret Name, if it is for this header. -/
def headerAt (name : Bytes) : Option InjectionTemplate → Option HeaderTemplate
  | some (.header t) => if t.name = name then some t else none
  | _ => none

/-- The template of a Secret Name, if it is for basic auth. -/
def basicAuthAt : Option InjectionTemplate → Option BasicAuthTemplate
  | some (.basicAuth t) => some t
  | _ => none

/-- The parameter of a Secret Name's template, if it has one. -/
def queryAt : Option InjectionTemplate → Option Bytes
  | some (.query t) => some t.name
  | _ => none

/-- Only a template for this header is one at it. -/
theorem headerAt_eq_some {name : Bytes} {template : Option InjectionTemplate} {t : HeaderTemplate} :
    headerAt name template = some t ↔ template = some (.header t) ∧ t.name = name := by
  unfold headerAt
  split
  · split
    · next same =>
      simp only [Option.some.injEq, InjectionTemplate.header.injEq]
      exact ⟨fun h => ⟨h, h ▸ same⟩, And.left⟩
    · next other =>
      simp only [reduceCtorEq, Option.some.injEq, InjectionTemplate.header.injEq, false_iff]
      exact fun h => other (h.1 ▸ h.2)
  · next other =>
    simp only [reduceCtorEq, false_iff]
    exact fun h => other t h.1

/-- Only a template for basic auth is one there. -/
theorem basicAuthAt_eq_some {template : Option InjectionTemplate} {t : BasicAuthTemplate} :
    basicAuthAt template = some t ↔ template = some (.basicAuth t) := by
  unfold basicAuthAt
  split
  · simp
  · next other =>
    simp only [reduceCtorEq, false_iff]
    exact fun same => other t same

/-- Only a template for a parameter has one. -/
theorem queryAt_eq_some {template : Option InjectionTemplate} {name : Bytes} :
    queryAt template = some name ↔ ∃ t, template = some (.query t) ∧ t.name = name := by
  unfold queryAt
  split
  · simp
  · next other =>
    simp only [reduceCtorEq, false_iff]
    exact fun ⟨t, same, _⟩ => other t same

/-- The Secret Names in order, with their templates. -/
def ordered (secrets : List (Bytes × Option InjectionTemplate)) :
    List (Bytes × Option InjectionTemplate) :=
  secrets.mergeSort fun a b => decide (a.1 ≤ b.1)

section Order

variable {σ τ : Type} [DecidableEq τ] {pick : σ → Option τ} {entries : List σ} {l : List τ}

/-- What is picked along a list, each added unless it is there. -/
def gather (pick : σ → Option τ) (entries : List σ) (l : List τ) : List τ :=
  entries.foldl (fun l e => (pick e).elim l (withOne · l)) l

/-- Adding a template keeps the others. -/
theorem mem_withOne {t other : τ} : other ∈ withOne t l ↔ other ∈ l ∨ other = t := by
  unfold withOne
  split
  · next known =>
    refine ⟨Or.inl, fun member => member.elim id ?_⟩
    rintro rfl
    exact contains_iff_mem.mp known
  · simp

/-- No template is added twice. -/
theorem nodup_withOne {t : τ} (distinct : l.Nodup) : (withOne t l).Nodup := by
  unfold withOne
  split
  · exact distinct
  · next fresh =>
    rw [contains_iff_mem] at fresh
    rw [nodup_append]
    refine ⟨distinct, nodup_singleton t, ?_⟩
    rintro a member b same rfl
    exact fresh (mem_singleton.mp same ▸ member)

/-- Everything that is picked is gathered, and nothing else. -/
theorem mem_gather {t : τ} : t ∈ gather pick entries l ↔
    t ∈ l ∨ ∃ e ∈ entries, pick e = some t := by
  induction entries generalizing l with
  | nil => simp [gather]
  | cons e rest ih =>
    have here : t ∈ (pick e).elim l (withOne · l) ↔ t ∈ l ∨ pick e = some t := by
      cases pick e with
      | none => simp
      | some other => simp [mem_withOne, eq_comm]
    rw [gather, foldl_cons, ← gather, ih, here, exists_mem_cons_iff, or_assoc]

/-- Nothing is gathered twice. -/
theorem nodup_gather (distinct : l.Nodup) : (gather pick entries l).Nodup := by
  refine foldlRecOn entries _ distinct fun l held e _ => ?_
  cases pick e with
  | none => exact held
  | some t => exact nodup_withOne held

/-- A template that is there already would not have found anything that it has not. -/
theorem firstToken_withOne (find : τ → Option Bytes) (t : τ) (templates : List τ) :
    firstToken find (withOne t templates) =
      (firstToken find templates).or ((find t).filter shaped) := by
  unfold withOne firstToken
  split
  · next known =>
    cases found : templates.findSome? fun t => (find t).filter shaped with
    | some token => rfl
    | none => exact (findSome?_eq_none_iff.mp found t (contains_iff_mem.mp known)).symm
  · rw [findSome?_append, findSome?_singleton]

/-- Gathered templates find what the first of them finds. -/
theorem firstToken_gather (find : τ → Option Bytes) : firstToken find (gather pick entries l) =
    (firstToken find l).or (entries.findSome? fun e => (pick e).bind fun t =>
      (find t).filter shaped) := by
  induction entries generalizing l with
  | nil => simp [gather]
  | cons e rest ih =>
    rw [gather, foldl_cons, ← gather, ih, findSome?_cons]
    cases pick e with
    | none => rfl
    | some t =>
      rw [Option.elim_some, firstToken_withOne, Option.or_assoc, Option.bind_some]
      cases (find t).filter shaped <;> rfl

/-- A part of the slots to which each template adds what is picked of it is gathered. -/
theorem foldl_add (part : Slots → List τ) {pick : Option InjectionTemplate → Option τ}
    (each : ∀ out t, part (out.add t) = (pick t).elim (part out) (withOne · (part out)))
    (entries : List (Bytes × Option InjectionTemplate)) (out : Slots) :
    part (entries.foldl (fun out secret => out.add secret.2) out) =
      gather (fun e => pick e.2) entries (part out) := by
  induction entries generalizing out with
  | nil => rfl
  | cons e rest ih =>
    rw [foldl_cons, ih, each]
    rfl

end Order

/-- Dropping one key leaves what is looked up under the others. -/
theorem lookup_filter_ne {β : Type} {name other : Bytes} (apart : name ≠ other)
    (entries : List (Bytes × β)) :
    (entries.filter (·.1 ≠ other)).lookup name = entries.lookup name := by
  induction entries with
  | nil => rfl
  | cons entry rest ih =>
    obtain ⟨key, value⟩ := entry
    by_cases dropped : key = other
    · have passed : (name == key) = false := beq_eq_false_iff_ne.mpr (dropped ▸ apart)
      rw [filter_cons_of_neg (by simpa using dropped), ih, lookup_cons, passed]
    · rw [filter_cons_of_pos (by simpa using dropped), lookup_cons, lookup_cons, ih]

/-- One more template changes the slot of its own header only. -/
theorem templates_add (out : Slots) (t : Option InjectionTemplate) (name : Bytes) :
    (out.add t).templates name = (headerAt name t).elim (out.templates name)
      (withOne · (out.templates name)) := by
  match t with
  | none => rfl
  | some (.query t) | some (.basicAuth t) =>
    simp only [Slots.add, headerAt]
    split <;> rfl
  | some (.header t) =>
    simp only [Slots.add, headerAt]
    by_cases here : t.name = name
    · subst here
      simp only [if_pos, Option.elim_some, withOne]
      split
      · rfl
      · simp [Slots.templates]
    · rw [if_neg here, Option.elim_none]
      split
      · rfl
      · simp only [Slots.templates, lookup_cons, beq_eq_false_iff_ne.mpr (Ne.symm here)]
        rw [lookup_filter_ne (Ne.symm here)]

/-- One more template for basic auth is added behind the others. -/
theorem basicAuth_add (out : Slots) (t : Option InjectionTemplate) :
    (out.add t).basicAuth = (basicAuthAt t).elim out.basicAuth (withOne · out.basicAuth) := by
  match t with
  | none => rfl
  | some (.query t) | some (.header t) =>
    simp only [Slots.add, basicAuthAt]
    split <;> rfl
  | some (.basicAuth t) =>
    simp only [Slots.add, basicAuthAt, Option.elim_some, withOne]
    split <;> rfl

/-- One more parameter is added behind the others. -/
theorem queries_add (out : Slots) (t : Option InjectionTemplate) :
    (out.add t).queries = (queryAt t).elim out.queries (withOne · out.queries) := by
  match t with
  | none => rfl
  | some (.header t) | some (.basicAuth t) =>
    simp only [Slots.add, queryAt]
    split <;> rfl
  | some (.query t) =>
    by_cases known : t.name ∈ out.queries <;> simp [Slots.add, queryAt, withOne, known]

section Built

variable {secrets : List (Bytes × Option InjectionTemplate)}

/-- In a header, the first template in the order of the Secret Names decides. -/
theorem firstToken_templates (find : HeaderTemplate → Option Bytes) (name : Bytes) :
    firstToken find ((newSlots secrets).templates name) =
      (ordered secrets).findSome? fun e => (headerAt name e.2).bind fun t =>
        (find t).filter shaped := by
  have built : (newSlots secrets).templates name =
    gather (fun e => headerAt name e.2) (ordered secrets) [] :=
    foldl_add (·.templates name) (fun out t => templates_add out t name) (ordered secrets)
      Slots.none
  rw [built, firstToken_gather]
  rfl

/-- So in basic auth. -/
theorem firstToken_basicAuth (find : BasicAuthTemplate → Option Bytes) :
    firstToken find (newSlots secrets).basicAuth =
      (ordered secrets).findSome? fun e => (basicAuthAt e.2).bind fun t =>
        (find t).filter shaped := by
  have built : (newSlots secrets).basicAuth =
    gather (fun e => basicAuthAt e.2) (ordered secrets) [] :=
    foldl_add Slots.basicAuth basicAuth_add (ordered secrets) Slots.none
  rw [built, firstToken_gather]
  rfl

/-- The parameters that are read are those that templates name. -/
theorem mem_queries {name : Bytes} :
    name ∈ (newSlots secrets).queries ↔ ∃ entry ∈ secrets, ∃ t, entry.2 = some (.query t) ∧
      t.name = name := by
  have built := foldl_add Slots.queries queries_add (ordered secrets) Slots.none
  refine mem_mergeSort.trans ?_
  rw [← ordered, built, mem_gather]
  simp only [Slots.none, not_mem_nil, false_or, ordered, mem_mergeSort, queryAt_eq_some]

/-- No parameter is read twice. -/
theorem nodup_queries : (newSlots secrets).queries.Nodup := by
  have built := foldl_add Slots.queries queries_add (ordered secrets) Slots.none
  refine (mergeSort_perm _ _).nodup_iff.mpr ?_
  rw [← ordered, built]
  exact nodup_gather nodup_nil

/-- No header is read twice. -/
theorem nodup_headers : ((newSlots secrets).headers.map Prod.fst).Nodup := by
  refine foldlRecOn (motive := fun out : Slots => (out.headers.map Prod.fst).Nodup)
    (ordered secrets) _ nodup_nil ?_
  rintro out distinct ⟨_, template⟩ _
  match template with
  | none => exact distinct
  | some (.query t) | some (.basicAuth t) =>
    simp only [Slots.add]
    split <;> exact distinct
  | some (.header t) =>
    simp only [Slots.add]
    split
    · exact distinct
    · rw [map_cons, nodup_cons]
      refine ⟨fun member => ?_, distinct.sublist (filter_sublist.map Prod.fst)⟩
      obtain ⟨entry, kept, same⟩ := mem_map.mp member
      exact absurd same (by simpa using (mem_filter.mp kept).2)

end Built

/-! ## The first template that finds a token -/

section Least

variable {β γ : Type}

/-- Along increasing names, what is found first is what the least name finds. -/
theorem findSome?_least {entries : List (Bytes × β)}
    (increasing : entries.Pairwise fun a b => a.1 < b.1) {f : Bytes × β → Option γ} {x : γ}
    (finds : ∃ e ∈ entries, f e = some x) : entries.findSome? f = some x ↔
      ∀ e ∈ entries, ∀ y, f e = some y → (∀ other ∈ entries, other.1 < e.1 → f other = none) →
        y = x := by
  constructor
  · intro first e member y here least
    obtain ⟨before, a, after, rfl, found, none⟩ := findSome?_eq_some_iff.mp first
    rw [pairwise_append, pairwise_cons] at increasing
    obtain ⟨_, ⟨behind, _⟩, _⟩ := increasing
    rcases mem_append.mp member with early | late
    · cases (none e early).symm.trans here
    · rcases mem_cons.mp late with rfl | later
      · exact Option.some.inj (here.symm.trans found)
      · cases (least a (by simp) (behind e later)).symm.trans found
  · intro least
    have some : (entries.findSome? f).isSome := by
      obtain ⟨e, member, here⟩ := finds
      exact findSome?_isSome_iff.mpr ⟨e, member, by rw [here]; rfl⟩
    obtain ⟨y, first⟩ := Option.isSome_iff_exists.mp some
    obtain ⟨before, a, after, rfl, found, none⟩ := findSome?_eq_some_iff.mp first
    rw [first, least a (by simp) y found]
    intro other member less
    rw [pairwise_append, pairwise_cons] at increasing
    obtain ⟨_, ⟨behind, _⟩, _⟩ := increasing
    rcases mem_append.mp member with early | late
    · exact none other early
    · rcases mem_cons.mp late with rfl | later
      · exact absurd less (List.lt_irrefl _)
      · exact absurd (List.lt_trans less (behind other later)) (List.lt_irrefl _)

end Least

/-- Distinct Secret Names increase in their order. -/
theorem ordered_increasing {secrets : List (Bytes × Option InjectionTemplate)}
    (distinct : (secrets.map Prod.fst).Nodup) :
    (ordered secrets).Pairwise fun a b => a.1 < b.1 := by
  have sorted : (ordered secrets).Pairwise fun a b => decide (a.1 ≤ b.1) = true :=
    List.pairwise_mergeSort (fun a b c first second =>
      by simpa using List.le_trans (by simpa using first) (by simpa using second))
      (fun a b => by simpa using List.le_total a.1 b.1) secrets
  have apart : (ordered secrets).Pairwise fun a b => a.1 ≠ b.1 := by
    rw [← pairwise_map (f := Prod.fst) (R := (· ≠ ·))]
    exact ((mergeSort_perm secrets _).map Prod.fst).nodup_iff.mpr distinct
  refine (sorted.and apart).imp ?_
  rintro a b ⟨below, other⟩
  by_contra notLess
  exact other (List.le_antisymm (by simpa using below) (List.not_lt.mp notLess))

/-! ## Authorization is read twice -/

section Underscore

variable {fold : Bytes → Bytes} {token : Bytes}

/-- A token has an underscore. -/
theorem underscore_of_shaped (like : shaped token = true) : 0x5F ∈ token := by
  obtain ⟨rest, rfl⟩ := isPrefixOf_iff_prefix.mp like
  exact mem_append_left _ (by decide)

/-- Basic auth has none, so no header template finds a token in it. -/
theorem header_finds_none (pair : Bytes) (t : HeaderTemplate) :
    (extract (equalFold fold) (bytes "Basic " ++ Base64.encodeToString pair) t).filter shaped =
      none := by
  rw [Option.filter_eq_none_iff]
  intro found here like
  obtain ⟨front, back, whole, _⟩ := extract_eq_some.mp here
  have inside : 0x5F ∈ bytes "Basic " ++ Base64.encodeToString pair := by
    rw [whole]
    exact mem_append_left _ (mem_append_right _ (underscore_of_shaped like))
  rcases mem_append.mp inside with scheme | digits
  · exact absurd scheme (by decide)
  · exact absurd (Base64.encodeToString_digits pair _ digits)
      (by simp [Base64.Digit, Base64.sextet])

/-- A value that has a token in it is not basic auth. The underscore is not in the scheme,
and what has it cannot be decoded. -/
theorem basicAuth_finds_none {value : Bytes} (marked : 0x5F ∈ value) (t : BasicAuthTemplate) :
    extractBasicAuth (equalFold fold) value t = none := by
  have letters : caseless fold (bytes "Basic") = [[0x62], [0x61], [0x73], [0x69], [0x63]] := rfl
  unfold extractBasicAuth
  dsimp only
  by_cases space : 0x20 ∈ value
  · obtain ⟨scheme, encoded, rfl, first⟩ := eq_append_cons_of_mem space
    rw [cut_append first]
    split
    · rfl
    · next basic =>
      simp only [Bool.not_true, Bool.false_or, Bool.not_eq_eq_eq_not, Bool.not_eq_false] at basic
      rcases mem_append.mp marked with inScheme | behind
      · have shared := equalFold_mem basic (by decide) (by decide) inScheme
        rw [letters] at shared
        exact absurd shared (by decide)
      · have inside : 0x5F ∈ encoded := (mem_cons.mp behind).resolve_left (by decide)
        cases decoded : Base64.decodeString encoded with
        | none => rfl
        | some pair =>
          have digits := Base64.digits_of_decodeString decoded _ inside
          exact absurd digits (by simp [Base64.Digit, Base64.sextet])
  · have whole : (cut value 0x20).2.2 = false := decide_eq_false space
    rw [whole]
    rfl

end Underscore

/-! ## Where the token is found -/

/-- The place of a template. -/
def slotOf : InjectionTemplate → Slot
  | .header t => ⟨t.name, []⟩
  | .basicAuth _ => ⟨authorization, []⟩
  | .query t => ⟨[], t.name⟩

/-- An Agent Token: its beginning, and lower case base32. -/
def TokenText (token : Bytes) : Prop :=
  ∃ body, token = agentTokenPrefix ++ body ∧ ∀ c ∈ body, (0x61 ≤ c ∧ c ≤ 0x7A) ∨
    (0x32 ≤ c ∧ c ≤ 0x37)

/-- Of the templates that find the beginning of a token where one has been put, the one
with the least Secret Name finds that token. -/
def FirstFinds (fold : Bytes → Bytes) (secrets : List (Bytes × Option InjectionTemplate))
    (t : InjectionTemplate) (token : Bytes) : Prop :=
  ∀ name u found, (name, some u) ∈ secrets → Finds fold t token u found → shaped found = true →
    (∀ other v text, (other, some v) ∈ secrets → other < name → Finds fold t token v text →
      shaped text = false) →
    found = token

/-- A token in the place of a template is found: in a parameter, if there are not more of
them than are read, and otherwise if the first template that finds something finds it. -/
def Reached (fold : Bytes → Bytes) (maxParams : Option Nat)
    (secrets : List (Bytes × Option InjectionTemplate)) (rawQuery token : Bytes) :
    InjectionTemplate → Prop
  | .query _ => ∀ most, maxParams = some most → rawQuery.count 0x26 + 1 ≤ most
  | t => FirstFinds fold secrets t token

/-- An Agent Token has the beginning of one. -/
theorem TokenText.shaped {token : Bytes} (text : TokenText token) : shaped token = true := by
  obtain ⟨body, rfl, _⟩ := text
  exact isPrefixOf_iff_prefix.mpr (prefix_append _ _)

/-- An Agent Token has no colon. -/
theorem TokenText.uncut {token : Bytes} (text : TokenText token) : 0x3A ∉ token := by
  obtain ⟨body, rfl, letters⟩ := text
  intro member
  rcases mem_append.mp member with inFront | inBody
  · exact absurd inFront (by decide)
  · exact absurd (letters _ inBody) (by decide)

section First

variable {fold : Bytes → Bytes} {secrets : List (Bytes × Option InjectionTemplate)}
  {t : InjectionTemplate} {token : Bytes}

/-- The search through the Secret Names, in order, for what their templates find. -/
theorem findSome?_firstFinds (distinct : (secrets.map Prod.fst).Nodup)
    {f : Bytes × Option InjectionTemplate → Option Bytes}
    (reads : ∀ e found, f e = some found ↔ ∃ u, e.2 = some u ∧ Finds fold t token u found ∧
      shaped found = true) (own : ∃ name, (name, some t) ∈ secrets)
      (itself : Finds fold t token t token) (like : shaped token = true) :
    (ordered secrets).findSome? f = some token ↔ FirstFinds fold secrets t token := by
  have member (e : Bytes × Option InjectionTemplate) : e ∈ ordered secrets ↔
    e ∈ secrets := mem_mergeSort
  have nothing (e : Bytes × Option InjectionTemplate) :
      f e = none ↔ ∀ v text, e.2 = some v → Finds fold t token v text → shaped text = false := by
    rw [Option.eq_none_iff_forall_ne_some]
    constructor
    · intro none v text here finds
      exact Bool.eq_false_iff.mpr fun like => none text ((reads e text).mpr ⟨v, here, finds, like⟩)
    · intro unlike text found
      obtain ⟨v, here, finds, like⟩ := (reads e text).mp found
      exact absurd (unlike v text here finds) (by simp [like])
  obtain ⟨name, known⟩ := own
  rw [findSome?_least (ordered_increasing distinct)
    ⟨_, (member _).mpr known, (reads _ token).mpr ⟨t, rfl, itself, like⟩⟩]
  constructor
  · intro least name u found known finds like before
    refine least (name, some u) ((member _).mpr known) found
      ((reads _ found).mpr ⟨u, rfl, finds, like⟩) ?_
    rintro ⟨other, template⟩ inside less
    rw [nothing]
    rintro v text rfl
    exact before other v text ((member _).mp inside) less
  · rintro first ⟨name, template⟩ inside found here before
    obtain ⟨u, rfl, finds, like⟩ := (reads _ found).mp here
    refine first name u found ((member _).mp inside) finds like ?_
    intro other v text known less
    exact (nothing _).mp (before (other, some v) ((member _).mpr known) less) v text rfl

/-- In a header. -/
theorem firstToken_header_iff (distinct : (secrets.map Prod.fst).Nodup) {t : HeaderTemplate}
    (own : ∃ name, (name, some (.header t)) ∈ secrets) (like : shaped token = true) :
    firstToken (extract (equalFold fold) (t.prefixText ++ token ++ t.suffixText))
      ((newSlots secrets).templates t.name) =
      some token ↔ FirstFinds fold secrets (.header t) token := by
  rw [firstToken_templates]
  refine findSome?_firstFinds distinct ?_ own ?_ like
  · rintro ⟨name, template⟩ found
    simp only [Option.bind_eq_some_iff, Option.filter_eq_some_iff, headerAt_eq_some,
      extract_eq_some]
    constructor
    · rintro ⟨u, ⟨rfl, same⟩, fits, like⟩
      exact ⟨.header u, rfl, ⟨same, fits⟩, like⟩
    · rintro ⟨u, rfl, finds, like⟩
      cases u with
      | header u => exact ⟨u, ⟨rfl, finds.1⟩, finds.2, like⟩
      | query u | basicAuth u => exact absurd finds id
  · exact ⟨rfl, t.prefixText, t.suffixText, rfl, rfl, rfl, equalFold_refl _ _, equalFold_refl _ _⟩

/-- The fields of basic auth are written one behind the other. -/
theorem basicAuthPair_fields (t : BasicAuthTemplate) (secret : Bytes) :
    basicAuthPair t secret = (fields t secret).1 ++ bytes ":" ++ (fields t secret).2 := by
  unfold basicAuthPair fields
  split
  · rfl
  · rfl

/-- In basic auth. -/
theorem firstToken_basicAuth_iff (distinct : (secrets.map Prod.fst).Nodup) {t : BasicAuthTemplate}
    (own : ∃ name, (name, some (.basicAuth t)) ∈ secrets) (text : TokenText token) :
    firstToken (extractBasicAuth (equalFold fold)
      (bytes "Basic " ++ Base64.encodeToString (basicAuthPair t token)))
        (newSlots secrets).basicAuth = some token ↔
        FirstFinds fold secrets (.basicAuth t) token := by
  have uncut : 0x3A ∉ (fields t token).1 := by
    unfold fields
    split
    · exact text.uncut
    · exact t.uncut
  rw [firstToken_basicAuth, basicAuthPair_fields]
  refine findSome?_firstFinds distinct ?_ own ?_ text.shaped
  · rintro ⟨name, template⟩ found
    simp only [Option.bind_eq_some_iff, Option.filter_eq_some_iff, basicAuthAt_eq_some,
      extractBasicAuth_eq_some uncut]
    constructor
    · rintro ⟨u, rfl, fits, like⟩
      exact ⟨.basicAuth u, rfl, fits, like⟩
    · rintro ⟨u, rfl, finds, like⟩
      cases u with
      | basicAuth u => exact ⟨u, rfl, finds, like⟩
      | query u | header u => exact absurd finds id
  · show FitsFields t (fields t token) token
    unfold FitsFields fields
    cases t.secretIsUsername with
    | true | false => exact ⟨rfl, rfl⟩

end First

/-! ## The request -/

/-- What is gathered along a list, if only one member gives anything. -/
theorem flatMap_only {α β : Type} {l : List α} (distinct : l.Nodup) {g : α → List β} {a : α}
    (others : ∀ b ∈ l, b ≠ a → g b = []) (absent : a ∉ l → g a = []) : l.flatMap g = g a := by
  by_cases member : a ∈ l
  · obtain ⟨before, after, rfl⟩ := append_of_mem member
    rw [nodup_append, nodup_cons] at distinct
    obtain ⟨_, ⟨notAfter, _⟩, apart⟩ := distinct
    have early : before.flatMap g = [] :=
      flatMap_eq_nil_iff.mpr fun b inside =>
        others b (by simp [inside]) (apart b inside a (by simp))
    have late : after.flatMap g = [] :=
      flatMap_eq_nil_iff.mpr fun b inside => others b (by simp [inside]) fun same =>
        notAfter (same ▸ inside)
    rw [flatMap_append, flatMap_cons, early, late, nil_append, append_nil]
  · rw [absent member, flatMap_eq_nil_iff]
    exact fun b inside => others b inside fun same => member (same ▸ inside)

section Presented

variable {fold : Bytes → Bytes} {maxParams : Option Nat}
  {secrets : List (Bytes × Option InjectionTemplate)}
  {req : Outgoing} {place : Slot}

/-- No header and no parameter of a request but that of this place holds what is taken for a
token. The template of a Secret Name finds none in its header, in basic auth or in its
parameter, and the token's own header is empty. -/
structure OnlyAt (fold : Bytes → Bytes) (maxParams : Option Nat)
    (secrets : List (Bytes × Option InjectionTemplate)) (req : Outgoing) (place : Slot) : Prop where
  header : ∀ entry ∈ secrets, ∀ t, entry.2 = some (.header t) → ⟨t.name, []⟩ ≠ place →
    ∀ v ∈ req.header.values t.name, (extract (equalFold fold) v t).filter shaped = none
  basicAuth : ⟨authorization, []⟩ ≠ place → ∀ entry ∈ secrets, ∀ t, entry.2 = some (.basicAuth t) →
    ∀ v ∈ req.header.values authorization, (extractBasicAuth (equalFold fold) v t).filter shaped =
      none
  query : ∀ entry ∈ secrets, ∀ t, entry.2 = some (.query t) → ⟨[], t.name⟩ ≠ place →
    ∀ v, (t.name, v) ∈ parseQuery maxParams req.url.rawQuery → shaped v = false
  own : ⟨agentTokenHeader, []⟩ ≠ place → req.header.values agentTokenHeader = []

namespace OnlyAt

section

variable (only : OnlyAt fold maxParams secrets req place)
include only

/-- No template finds anything in the header of another place. -/
theorem header_nil {name : Bytes}
    (apart : ⟨name, []⟩ ≠ place) : (req.header.values name).filterMap (fun v =>
      firstToken (extract (equalFold fold) v) ((newSlots secrets).templates name)) = [] := by
  refine filterMap_eq_nil_iff.mpr fun v here => ?_
  rw [firstToken_templates]
  refine findSome?_eq_none_iff.mpr fun e known => Option.bind_eq_none_iff.mpr fun t its => ?_
  obtain ⟨same, rfl⟩ := headerAt_eq_some.mp its
  exact only.header e (mem_mergeSort.mp known) t same apart v here

/-- The tokens in header slots are those in the header of the place. -/
theorem headerTokens (plain : place.query = []) :
    headerTokens (equalFold fold) (newSlots secrets) req.header =
      ((req.header.values place.header).filterMap fun v =>
        firstToken (extract (equalFold fold) v) ((newSlots secrets).templates place.header)).map
          fun token =>
          (token, place) := by
  obtain ⟨name, query⟩ := place
  obtain rfl : query = [] := plain
  refine flatMap_only (a := name) ((mergeSort_perm _ _).nodup_iff.mpr nodup_headers) ?_ ?_
  · intro other _ apart
    rw [only.header_nil fun same => apart (congrArg Slot.header same), map_nil]
  · intro absent
    have none : (newSlots secrets).templates name = [] := by
      have missing : (newSlots secrets).headers.lookup name = Option.none := by
        rw [lookup_eq_none_iff]
        intro entry member
        rw [bne_iff_ne]
        rintro rfl
        exact absent (mem_mergeSort.mpr (mem_map_of_mem member))
      rw [Slots.templates, missing]
      rfl
    simp [none, firstToken]

/-- No token is in a parameter of another place. -/
theorem query_nil {name : Bytes}
    (read : name ∈ (newSlots secrets).queries) (apart : ⟨[], name⟩ ≠ place) :
    (values (parseQuery maxParams req.url.rawQuery) name).filter shaped = [] := by
  obtain ⟨e, known, t, same, rfl⟩ := mem_queries.mp read
  refine filter_eq_nil_iff.mpr fun v here => ?_
  rw [only.query e known t same apart v ((mem_values _ _ _).mp here)]
  exact Bool.false_ne_true

/-- No token is in a parameter. -/
theorem queryTokens (plain : place.query = []) :
    queryTokens maxParams (newSlots secrets) req.url.rawQuery = [] := by
  refine flatMap_eq_nil_iff.mpr fun name read => ?_
  rw [only.query_nil read, map_nil]
  rintro rfl
  exact (newSlots_named secrets).queries name read plain

/-- No token is in basic auth. -/
theorem basicAuthTokens (other : place.header ≠ authorization) :
    basicAuthTokens (equalFold fold) (newSlots secrets) req.header = [] := by
  refine map_eq_nil_iff.mpr (filterMap_eq_nil_iff.mpr fun v here => ?_)
  rw [firstToken_basicAuth]
  refine findSome?_eq_none_iff.mpr fun e known => Option.bind_eq_none_iff.mpr fun t its => ?_
  refine only.basicAuth ?_ e (mem_mergeSort.mp known) t (basicAuthAt_eq_some.mp its) v here
  rintro rfl
  exact other rfl

/-- No token is in the header of its own. -/
theorem ownTokens (other : place.header ≠ agentTokenHeader) : ownTokens req.header = [] := by
  refine map_eq_nil_iff.mpr (only.own ?_)
  rintro rfl
  exact other rfl

end

end OnlyAt

/-- A token that is the only one in its place is the only one presented, if it is found. -/
theorem singleton_iff {found : Option Bytes} {token : Bytes} :
    (found.toList.map fun token => (token, place)) = [(token, place)] ↔ found = some token := by
  cases found with
  | none | some other => simp

/-- Templates that find nothing one by one find nothing. -/
theorem firstToken_none {τ : Type} {find : τ → Option Bytes}
    (nothing : ∀ t, (find t).filter shaped = none) (templates : List τ) :
    firstToken find templates = none :=
  findSome?_eq_none_iff.mpr fun t _ => nothing t

/-- A header that holds one value gives at most one token. -/
theorem filterMap_single {value : Bytes} (find : Bytes → Option Bytes) :
    [value].filterMap find = (find value).toList := by
  cases here : find value with
  | none | some token => simp [here]

variable {token : Bytes}

/-- What is presented where a template has put a token and nothing else is found. -/
theorem presented_iff (distinct : (secrets.map Prod.fst).Nodup) {template : InjectionTemplate}
    (own : ∃ name, (name, some template) ∈ secrets) (text : TokenText token)
    (carries : req.Carries template token)
    (only : OnlyAt fold maxParams secrets req (slotOf template)) :
    presented (equalFold fold) maxParams (newSlots secrets) req.header req.url.rawQuery =
    [(token, slotOf template)] ↔
      Reached fold maxParams secrets req.url.rawQuery token template := by
  cases template with
  | header t =>
    have values : req.header.values t.name = [t.prefixText ++ token ++ t.suffixText] := carries
    have foreign : t.name ≠ agentTokenHeader :=
      fun same => absurd t.canonical (by rw [same]; decide)
    have basic : AgentApi.basicAuthTokens (equalFold fold) (newSlots secrets) req.header = [] := by
      by_cases shared : t.name = authorization
      · have marked : 0x5F ∈ t.prefixText ++ token ++ t.suffixText :=
          mem_append_left _ (mem_append_right _ (underscore_of_shaped text.shaped))
        have none :
          firstToken (extractBasicAuth (equalFold fold) (t.prefixText ++ token ++ t.suffixText))
            (newSlots secrets).basicAuth = none :=
          firstToken_none (fun u => by rw [basicAuth_finds_none marked]; rfl) _
        rw [AgentApi.basicAuthTokens, ← shared, values, filterMap_single, none]
        rfl
      · exact only.basicAuthTokens shared
    rw [presented, only.headerTokens rfl, basic, only.queryTokens rfl, only.ownTokens foreign,
      append_nil, append_nil, append_nil]
    show (List.filterMap _ (req.header.values t.name)).map _ = _ ↔ _
    rw [values, filterMap_single, singleton_iff]
    exact firstToken_header_iff distinct own text.shaped
  | basicAuth t =>
    let value := bytes "Basic " ++ Base64.encodeToString (basicAuthPair t token)
    have values : req.header.values authorization = [value] := carries
    have headers : AgentApi.headerTokens (equalFold fold) (newSlots secrets) req.header = [] := by
      have none : firstToken (extract (equalFold fold) value)
        ((newSlots secrets).templates authorization) = none :=
        firstToken_none (header_finds_none _) _
      rw [only.headerTokens rfl]
      show (List.filterMap _ (req.header.values authorization)).map _ = _
      rw [values, filterMap_single]
      exact congrArg (fun found : Option Bytes => found.toList.map _) none
    rw [presented, headers, only.queryTokens rfl,
      only.ownTokens (show authorization ≠ agentTokenHeader by decide),
      append_nil, append_nil, nil_append, AgentApi.basicAuthTokens, values, filterMap_single]
    exact singleton_iff.trans (firstToken_basicAuth_iff distinct own text)
  | query t =>
    obtain ⟨name, known⟩ := own
    have read : t.name ∈ (newSlots secrets).queries := mem_queries.mpr ⟨_, known, t, rfl, rfl⟩
    have headers : AgentApi.headerTokens (equalFold fold) (newSlots secrets) req.header = [] := by
      refine flatMap_eq_nil_iff.mpr fun name key => ?_
      rw [only.header_nil, map_nil]
      intro same
      obtain ⟨entry, inside, rfl⟩ := mem_map.mp (mem_mergeSort.mp key)
      exact (newSlots_named secrets).headers entry inside (congrArg Slot.header same)
    have queries : AgentApi.queryTokens maxParams (newSlots secrets) req.url.rawQuery =
        ((values (parseQuery maxParams req.url.rawQuery) t.name).filter AgentApi.shaped).map
          fun token =>
          (token, slotOf (.query t)) := by
      refine flatMap_only (a := t.name) nodup_queries ?_ (fun absent => absurd read absent)
      intro other key apart
      rw [only.query_nil key fun same => apart (congrArg Slot.query same), map_nil]
    have carried : values (readParams req.url.rawQuery) t.name = [token] := carries
    rw [presented, headers, queries, only.basicAuthTokens (show [] ≠ authorization by decide),
      only.ownTokens (show [] ≠ agentTokenHeader by decide), append_nil, nil_append, nil_append]
    by_cases within : ∀ most, maxParams = some most → req.url.rawQuery.count 0x26 + 1 ≤ most
    · refine iff_of_true ?_ within
      have parsed : parseQuery maxParams req.url.rawQuery = readParams req.url.rawQuery := by
        cases maxParams with
        | none => rfl
        | some most => exact if_pos (within most rfl)
      rw [parsed, carried, filter_cons_of_pos text.shaped]
      rfl
    · refine iff_of_false ?_ within
      simp only [not_forall] at within
      obtain ⟨most, rfl, beyond⟩ := within
      have nothing : parseQuery (some most) req.url.rawQuery = [] := if_neg beyond
      simp [nothing, Queries.values]

end Presented

/-! ## Every config -/

/-- The Secret Names of a config, with their templates. -/
def secretTemplates (cfg : Config) : List (Bytes × Option InjectionTemplate) :=
  cfg.secrets.entries.map fun s => (s.1, s.2.injectionTemplate)

/-- Take any config, any Secret Name of it with a template, any Agent Token, and any request
that carries the token where the template puts the Secret, and in which nothing is taken
for a token elsewhere. Then the token is presented, alone and in that place, if and only if
it is reached. -/
theorem token_in_place_iff (fold : Bytes → Bytes) (maxParams : Option Nat) (cfg : Config)
    {name : Bytes} {secret : SecretName} (defined : cfg.secrets.lookup name = some secret)
    {template : InjectionTemplate} (has : secret.injectionTemplate = some template) {token : Bytes}
    (text : TokenText token) (req : Outgoing) (carries : req.Carries template token)
    (only : OnlyAt fold maxParams (secretTemplates cfg) req (slotOf template)) :
    presented (equalFold fold) maxParams (slotsOf cfg) req.header req.url.rawQuery =
    [(token, slotOf template)] ↔
      Reached fold maxParams (secretTemplates cfg) req.url.rawQuery token template := by
  have distinct : ((secretTemplates cfg).map Prod.fst).Nodup := by
    have keys := cfg.secrets.nodupKeys
    rw [secretTemplates, map_map]
    exact keys
  have own : (name, some template) ∈ secretTemplates cfg := by
    have entry := AList.mem_lookup_iff.mp (Option.mem_def.mpr defined)
    exact mem_map.mpr ⟨_, entry, by rw [has]⟩
  exact presented_iff distinct ⟨name, own⟩ text carries only

/-! ## Two templates for one header -/

/-- A Secret Name of a file, with a value for the header `X-Api-Key`. -/
def keyedSecret (value : String) : FileSecretName where
  backend := bytes "vault"
  location := bytes "keys#token"
  cacheTTL := []
  preset := []
  injectionTemplate := some
    { header := some { name := bytes "x-api-key", value := bytes value }, query :=
      none, basicAuth := none }
  upstreams := AList.singleton (bytes "api")
    { url := bytes "https://api.github.com", caBundle := [] }

/-- A file with two Secret Names that use one header. -/
def keyedFile : FileConfig :=
  { sampleFile with
    policies := ∅
    secrets := (AList.singleton (bytes "beta") (keyedSecret "\x7bsecret\x7d;v=1")).insert
      (bytes "alpha") (keyedSecret "\x7bsecret\x7d") }

/-- What the templates come to. -/
def keyedTemplate (suffix : String) : HeaderTemplate :=
    { apiKeyTemplate with suffixText := bytes suffix }

/-- A request with a value in that header. -/
def keyedRequest (value : String) : Outgoing where
  url := { scheme := [], host := [], path := [], rawPath := [], rawQuery := [] }
  host := []
  header := fun key => if key = bytes "X-Api-Key" then [bytes value] else []

/-- A short Agent Token. -/
theorem tokenText_abc : TokenText (bytes "tcat_abc") := ⟨bytes "abc", rfl, by decide +kernel⟩

/-- The slots of that config: one header, with the templates in the order of their Secret
Names. -/
def keyedSlots : Slots where
  headers := [(bytes "X-Api-Key", [keyedTemplate "", keyedTemplate ";v=1"])]
  queries := []
  basicAuth := []

/-- What the file comes to. -/
theorem keyedFile_config :
    ∃ cfg, keyedFile.validate plainHost (bytes "/etc/trustedcourier") = .ok cfg ∧
      slotsOf cfg = keyedSlots ∧
      (∀ entry ∈ secretTemplates cfg, ∃ suffix, entry.2 = some (.header (keyedTemplate suffix))) ∧
      ∀ entry ∈ [("alpha", ""), ("beta", ";v=1")],
        ∃ secret, cfg.secrets.lookup (bytes entry.1) = some secret ∧
        secret.injectionTemplate = some (.header (keyedTemplate entry.2)) := by
  have run : ((keyedFile.validate plainHost (bytes "/etc/trustedcourier")).toOption.map fun cfg =>
      (secretTemplates cfg, ["alpha", "beta"].map fun name =>
        (cfg.secrets.lookup (bytes name)).map SecretName.injectionTemplate)) =
      some ([(bytes "beta", some (.header (keyedTemplate ";v=1"))),
        (bytes "alpha", some (.header (keyedTemplate "")))],
        ["", ";v=1"].map fun suffix =>
          some (some (.header (keyedTemplate suffix)))) := by decide +kernel
  obtain ⟨cfg, accepted, seen⟩ := Option.map_eq_some_iff.mp run
  obtain ⟨templates, defined⟩ := Prod.mk.inj seen
  simp only [map_cons, map_nil, List.cons.injEq, and_true, Option.map_eq_some_iff] at defined
  refine ⟨cfg, Checks.toOption_some.mp accepted, ?_, by simp [templates], ?_⟩
  · have sorted : ordered (secretTemplates cfg) =
        [(bytes "alpha", some (.header (keyedTemplate ""))),
          (bytes "beta", some (.header (keyedTemplate ";v=1")))] := by
      have later : ¬ bytes "beta" ≤ bytes "alpha" := by decide
      rw [templates, ordered]
      simp [List.mergeSort, List.MergeSort.Internal.splitInTwo, later]
    have built : slotsOf cfg =
        { (ordered (secretTemplates cfg)).foldl (fun out secret => out.add secret.2) Slots.none with
          queries := AgentApi.sorted ((ordered (secretTemplates cfg)).foldl
            (fun out secret => out.add secret.2)
            Slots.none).queries } := rfl
    rw [built, sorted]
    exact (Slots.mk.injEq ..).mpr ⟨by decide +kernel, by decide +kernel, by decide +kernel⟩
  · intro entry member
    simp only [mem_cons, not_mem_nil, or_false] at member
    rcases member with rfl | rfl
    · exact defined.1
    · exact defined.2

/-- Only the header of the templates holds anything. -/
theorem keyed_only {secrets : List (Bytes × Option InjectionTemplate)}
    (keyed : ∀ entry ∈ secrets, ∃ suffix, entry.2 = some (.header (keyedTemplate suffix)))
    (value suffix : String) :
    OnlyAt id none secrets (keyedRequest value) (slotOf (.header (keyedTemplate suffix))) where
  header := by
    intro entry member t has apart
    obtain ⟨other, same⟩ := keyed entry member
    cases same.symm.trans has
    exact absurd rfl apart
  basicAuth := by
    intro _ entry member t has
    obtain ⟨other, same⟩ := keyed entry member
    cases same.symm.trans has
  query := by
    intro entry member t has
    obtain ⟨other, same⟩ := keyed entry member
    cases same.symm.trans has
  own := fun _ => rfl

/-- The token is put where `beta` puts its Secret. The template of `alpha` comes first and
takes the literal end of the value for a part of the token. -/
theorem token_in_place_misread :
    ∃ cfg secret, keyedFile.validate plainHost (bytes "/etc/trustedcourier") = .ok cfg ∧
      cfg.secrets.lookup (bytes "beta") = some secret ∧
      secret.injectionTemplate = some (.header (keyedTemplate ";v=1")) ∧
      TokenText (bytes "tcat_abc") ∧
      (keyedRequest "tcat_abc;v=1").Carries (.header (keyedTemplate ";v=1")) (bytes "tcat_abc") ∧
      OnlyAt id none (secretTemplates cfg) (keyedRequest "tcat_abc;v=1")
        (slotOf (.header (keyedTemplate ";v=1"))) ∧
      presented (equalFold id) none (slotsOf cfg) (keyedRequest "tcat_abc;v=1").header [] ≠
        [(bytes "tcat_abc", slotOf (.header (keyedTemplate ";v=1")))] := by
  obtain ⟨cfg, accepted, built, keyed, defined⟩ := keyedFile_config
  obtain ⟨secret, known, has⟩ := defined ("beta", ";v=1") (by simp)
  have shown : presented (equalFold id) none keyedSlots (keyedRequest "tcat_abc;v=1").header
      (keyedRequest "tcat_abc;v=1").url.rawQuery =
        [(bytes "tcat_abc;v=1", ⟨bytes "X-Api-Key", []⟩)] := by decide +kernel
  refine ⟨cfg, secret, accepted, known, has, tokenText_abc, rfl, keyed_only keyed _ _, ?_⟩
  intro same
  rw [built] at same
  cases shown.symm.trans same

/-- Put where `alpha` puts its Secret, it is found, and so is reached. -/
theorem token_in_place_alpha :
    ∃ cfg, keyedFile.validate plainHost (bytes "/etc/trustedcourier") = .ok cfg ∧
      Reached id none (secretTemplates cfg) [] (bytes "tcat_abc") (.header (keyedTemplate "")) := by
  obtain ⟨cfg, accepted, built, keyed, defined⟩ := keyedFile_config
  obtain ⟨secret, known, has⟩ := defined ("alpha", "") (by simp)
  have shown : presented (equalFold id) none keyedSlots (keyedRequest "tcat_abc").header
      (keyedRequest "tcat_abc").url.rawQuery =
        [(bytes "tcat_abc", ⟨bytes "X-Api-Key", []⟩)] := by decide +kernel
  exact ⟨cfg, accepted,
    (token_in_place_iff id none cfg known has tokenText_abc (keyedRequest "tcat_abc") rfl
    (keyed_only keyed _ _)).mp (by rw [built]; exact shown)⟩

end TrustedCourier.AgentApi
