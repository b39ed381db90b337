import Mathlib.Data.List.AList
import Mathlib.Data.List.Sort

/-!
# Checks that stop at the first complaint

A check gives a value or a complaint. Checks are put together one after another, over
the elements of a list, or over the entries of a map in the order of their names, and
the first complaint ends them all. What is read off a check that succeeded is that each
of its parts did.
-/

namespace TrustedCourier.Checks

variable {ε α β κ : Type}

/-- Complain if the condition holds. -/
def refuse (bad : Prop) [Decidable bad] (complaint : ε) : Except ε Unit :=
  if bad then .error complaint else .ok ()

/-- The value, or the complaint that there is none. -/
def need (value : Option α) (complaint : ε) : Except ε α :=
  match value with
  | some value => .ok value
  | none => .error complaint

/-! ## What a success says -/

/-- Two checks pass if each does. -/
theorem bind_ok {first : Except ε α} {next : α → Except ε β} {result : β} :
    first >>= next = .ok result ↔ ∃ value, first = .ok value ∧ next value = .ok result := by
  cases first <;> simp [bind, Except.bind]

theorem pure_ok {value result : α} : (pure value : Except ε α) = .ok result ↔ value = result := by
  simp [pure, Except.pure]

/-- A refusal passes what is not bad. -/
theorem refuse_ok {bad : Prop} [Decidable bad] {complaint : ε} {done : Unit} :
    refuse bad complaint = .ok done ↔ ¬ bad := by
  unfold refuse
  split <;> simp_all

/-- What is needed is there. -/
theorem need_ok {value : Option α} {complaint : ε} {result : α} :
    need value complaint = .ok result ↔ value = some result := by
  cases value <;> simp [need]

variable {check : Except ε α}

/-- A complaint put otherwise refuses the same. -/
theorem mapError_ok {ε' : Type} {rephrase : ε → ε'} {result : α} :
    check.mapError rephrase = .ok result ↔ check = .ok result := by
  cases check <;> simp [Except.mapError]

theorem toOption_some {result : α} : check.toOption = some result ↔ check = .ok result := by
  cases check <;> simp [Except.toOption]

theorem toOption_none : check.toOption = none ↔ ∃ complaint, check = .error complaint := by
  cases check <;> simp [Except.toOption]

theorem toOption_bind {first : Except ε α} {next : α → Except ε β} :
    (first >>= next).toOption = first.toOption.bind fun value => (next value).toOption := by
  cases first <;> rfl

theorem toOption_mapError {ε' : Type} {rephrase : ε → ε'} :
    (check.mapError rephrase).toOption = check.toOption := by
  cases check <;> rfl

/-- A loop of checks, without its complaints. -/
theorem toOption_foldlM {step : β → α → Except ε β} (l : List α) (state : β) :
    (l.foldlM step state).toOption = l.foldlM (fun state a => (step state a).toOption) state := by
  induction l generalizing state with
  | nil => rfl
  | cons a rest ih =>
    rw [List.foldlM_cons, List.foldlM_cons, toOption_bind]
    exact congrArg _ (funext ih)

/-- A check of what may be missing gives something for something that passed. -/
theorem optional_some {check : α → Except ε β} {value : Option α} {result : β}
    (checked : value.mapM check = .ok (some result)) :
    ∃ a, value = some a ∧ check a = .ok result := by
  cases value with
  | none => simp [pure, Except.pure] at checked
  | some a =>
    have mapped : (check a).map some = .ok (some result) := checked
    cases passed : check a with
    | error e => simp [passed, Except.map] at mapped
    | ok b => exact ⟨a, rfl, by simpa [passed, Except.map] using mapped⟩

theorem optional_none {check : α → Except ε β} {value : Option α}
    (checked : value.mapM check = .ok none) : value = none := by
  cases value with
  | none => rfl
  | some a =>
    have mapped : (check a).map some = .ok none := checked
    cases passed : check a <;> simp [passed, Except.map] at mapped

/-- A list passes if each of it does. -/
theorem forM_ok {check : α → Except ε Unit} {l : List α} {done : Unit} :
    l.forM check = .ok done ↔ ∀ a ∈ l, check a = .ok done := by
  induction l with
  | nil => simp [pure, Except.pure]
  | cons a rest ih =>
    have unrolled : (a :: rest).forM check = check a >>= fun _ => rest.forM check := rfl
    rw [unrolled, bind_ok, List.forall_mem_cons, ih]
    exact ⟨fun ⟨_, once, others⟩ => ⟨once, others⟩, fun ⟨once, others⟩ => ⟨done, once, others⟩⟩

/-- What the start has, and what each round carries on, the end of a loop has. -/
theorem foldlM_ok {I : β → Prop} {round : β → α → Except ε β} {l : List α} {start result : β}
    (ran : l.foldlM round start = .ok result) (first : I start)
    (carried : ∀ a ∈ l, ∀ before after, I before → round before a = .ok after → I after) :
    I result := by
  induction l generalizing start with
  | nil => exact pure_ok.mp ran ▸ first
  | cons a rest ih =>
    obtain ⟨mid, once, others⟩ := bind_ok.mp ((List.foldlM_cons ..).symm.trans ran)
    apply ih others (carried a List.mem_cons_self start mid first once)
    intro other member
    exact carried other (List.mem_cons_of_mem a member)

/-- What the round of one element brings about, and no round undoes, the end of a loop has. -/
theorem foldlM_reaches {P : β → Prop} {round : β → α → Except ε β} {l : List α} {start result : β}
    (ran : l.foldlM round start = .ok result) {a : α} (member : a ∈ l)
    (sets : ∀ before after, round before a = .ok after → P after)
    (kept : ∀ other before after, P before → round before other = .ok after → P after) :
    P result := by
  induction l generalizing start with
  | nil => exact absurd member List.not_mem_nil
  | cons first rest ih =>
    obtain ⟨mid, once, others⟩ := bind_ok.mp ((List.foldlM_cons ..).symm.trans ran)
    rcases List.mem_cons.mp member with rfl | later
    · exact foldlM_ok others (sets start mid once) fun other _ before after =>
        kept other before after
    · exact ih others later

/-! ## Maps -/

section Maps

variable [DecidableEq κ] (r : κ → κ → Prop) [DecidableRel r]

/-- The entries of a map in the order of their names. -/
def inOrder (m : AList fun _ : κ => α) : List (Sigma fun _ : κ => α) :=
  m.entries.insertionSort fun a b => r a.1 b.1

/-- Check the entries of a map in the order of their names, and collect what comes of
them under the same names. -/
def checkAll (check : κ → α → Except ε β) (m : AList fun _ : κ => α) :
    Except ε (AList fun _ : κ => β) :=
  (inOrder r m).foldlM (fun out entry => do return out.insert entry.1 (← check entry.1 entry.2)) ∅

variable {r}

/-- Going in order leaves nothing out. -/
theorem mem_inOrder {m : AList fun _ : κ => α} {entry : Sigma fun _ : κ => α} :
    entry ∈ inOrder r m ↔ m.lookup entry.1 = some entry.2 := by
  rw [inOrder, List.mem_insertionSort]
  exact AList.mem_lookup_iff.symm

variable {check : κ → α → Except ε β} {m : AList fun _ : κ => α} {out : AList fun _ : κ => β}

/-- Every entry collected is what an entry of the map was checked to. -/
theorem checkAll_lookup (checked : checkAll r check m = .ok out) {name : κ} {value : β}
    (found : out.lookup name = some value) : ∃ raw, m.lookup name = some raw ∧
      check name raw = .ok value := by
  have every : ∀ name value, out.lookup name = some value → ∃ raw, m.lookup name = some raw ∧
      check name raw = .ok value := by
    refine foldlM_ok (I := fun out => ∀ name value, out.lookup name = some value →
      ∃ raw, m.lookup name = some raw ∧ check name raw = .ok value) checked ?_ ?_
    · intro name value found
      simp at found
    · intro entry member before after known once name value found
      obtain ⟨kept, accepted, rfl⟩ : ∃ kept, check entry.1 entry.2 = .ok kept ∧
        before.insert entry.1 kept = after := by
        simpa only [bind_ok, pure_ok] using once
      by_cases same : name = entry.1
      · subst same
        rw [AList.lookup_insert] at found
        exact ⟨entry.2, mem_inOrder.mp member, Option.some.inj found ▸ accepted⟩
      · rw [AList.lookup_insert_ne same] at found
        exact known name value found
  exact every name value found

/-- Nothing is left out. -/
theorem checkAll_mem (checked : checkAll r check m = .ok out) {name : κ} (member : name ∈ m) :
    name ∈ out := by
  obtain ⟨raw, listed⟩ := Option.isSome_iff_exists.mp (AList.lookup_isSome.mpr member)
  have present : (⟨name, raw⟩ : Sigma fun _ : κ => α) ∈ inOrder r m := mem_inOrder.mpr listed
  refine foldlM_reaches (P := fun out => name ∈ out) checked present ?_ ?_
  · intro before after once
    obtain ⟨kept, -, rfl⟩ : ∃ kept, check name raw = .ok kept ∧
      before.insert name kept = after := by
      simpa only [bind_ok, pure_ok] using once
    simp
  · intro entry before after known once
    obtain ⟨kept, -, rfl⟩ : ∃ kept, check entry.1 entry.2 = .ok kept ∧
      before.insert entry.1 kept = after := by
      simpa only [bind_ok, pure_ok] using once
    simp [known]

end Maps

end TrustedCourier.Checks
