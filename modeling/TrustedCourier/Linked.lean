import Mathlib.Data.List.Infix

/-!
# Chains of rows

Each row of a chain names, by its link, the tip of the row before it; the first names
the chain's start. A hash chain links by the hash of the row before, a chain of
signed statements by the number of the statement before.

Two laws say what a chain commits to. Where a tip determines its row's content and
link, two chains of one length that end at the same tip hold the same content
throughout, because the agreement is carried backwards row by row. Where tips are
numbers that rise along the chain, a chain made only of rows of another one is a
prefix of it, and is all of it if it ends no lower.
-/

namespace TrustedCourier

open List

universe u v w

/-- The rows lead from one tip to another, each naming the tip before it. -/
def Linked {ρ : Type u} {τ : Type v} (link tip : ρ → τ) : τ → List ρ → τ → Prop
  | start, [], finish => start = finish
  | start, row :: rest, finish => link row = start ∧ Linked link tip (tip row) rest finish

namespace Linked

section General

variable {ρ : Type u} {τ : Type v} {κ : Type w} {link tip : ρ → τ} {rows : List ρ}

/-- A chain's last tip is that of its last row. -/
theorem finish_eq {start finish : τ} (linked : Linked link tip start rows finish) :
    finish = (rows.getLast?.map tip).getD start := by
  induction rows generalizing start with
  | nil => exact linked.symm
  | cons row rest ih =>
    rw [ih linked.2]
    cases rest with
    | nil => rfl
    | cons next others => simp [getLast?_cons]

/-- A chain is made of the chains of its parts. -/
theorem append_iff {start finish : τ} {front back : List ρ} :
    Linked link tip start (front ++ back) finish ↔
      ∃ middle, Linked link tip start front middle ∧ Linked link tip middle back finish := by
  induction front generalizing start with
  | nil =>
    constructor
    · intro linked
      exact ⟨start, rfl, linked⟩
    · rintro ⟨middle, rfl, linked⟩
      exact linked
  | cons row rest ih =>
    simp only [cons_append, Linked, ih]
    constructor
    · rintro ⟨names, middle, first, second⟩
      exact ⟨middle, ⟨names, first⟩, second⟩
    · rintro ⟨middle, ⟨names, first⟩, second⟩
      exact ⟨names, middle, first, second⟩

/-- Rows are chained as what they are made from is. -/
theorem map_iff {σ : Type w} (f : σ → ρ) {start finish : τ} {rows : List σ} :
    Linked link tip start (rows.map f) finish ↔ Linked (link ∘ f) (tip ∘ f) start rows finish := by
  induction rows generalizing start with
  | nil => rfl
  | cons row rest ih => simp only [map_cons, Linked, ih, Function.comp_apply]

/-- A chain is continued by a row that names its last tip. -/
theorem concat {start finish : τ} {row : ρ} (linked : Linked link tip start rows finish)
    (names : link row = finish) : Linked link tip start (rows ++ [row]) (tip row) :=
  append_iff.mpr ⟨finish, linked, names, rfl⟩

/-- Each row names the tip of the row before it, or the start. -/
theorem link_eq {start finish : τ} (linked : Linked link tip start rows finish) {i : Nat} {row : ρ}
    (here : rows[i]? = some row) : link row = ((rows.take i).getLast?.map tip).getD start := by
  obtain ⟨inside, rfl⟩ := List.getElem?_eq_some_iff.mp here
  have split : rows.take i ++ rows[i] :: rows.drop (i + 1) = rows := by
    rw [← drop_eq_getElem_cons inside, take_append_drop]
  rw [← split] at linked
  obtain ⟨middle, front, names, _⟩ := append_iff.mp linked
  rw [names, front.finish_eq]

/-- A chain commits to its content: chains of one length from wherever to the same
tip hold the same content, where a tip determines its row's content and link. -/
theorem content_eq (content : ρ → κ) {left right : List ρ} {start start' finish : τ}
    (determined : ∀ a ∈ left, ∀ b ∈ right, tip a = tip b → content a = content b ∧ link a = link b)
    (length : left.length = right.length) (linked : Linked link tip start left finish)
    (linkedOther : Linked link tip start' right finish) :
    left.map content = right.map content ∧ (left ≠ [] → start = start') := by
  induction left generalizing right start start' with
  | nil =>
    obtain rfl := length_eq_zero_iff.mp length.symm
    exact ⟨rfl, fun nonempty => absurd rfl nonempty⟩
  | cons a left ih =>
    cases right with
    | nil => simp at length
    | cons b right =>
      obtain ⟨names, later⟩ := linked
      obtain ⟨namesOther, laterOther⟩ := linkedOther
      have sameLength : left.length = right.length := by simpa using length
      obtain ⟨rest, back⟩ := ih (fun x inLeft y inRight => determined x (mem_cons_of_mem a inLeft) y
        (mem_cons_of_mem b inRight)) sameLength later laterOther
      have tips : tip a = tip b := by
        cases left with
        | nil =>
          obtain rfl := length_eq_zero_iff.mp sameLength.symm
          exact later.trans laterOther.symm
        | cons next others => exact back (cons_ne_nil _ _)
      obtain ⟨same, links⟩ := determined a mem_cons_self b mem_cons_self tips
      refine ⟨by rw [map_cons, map_cons, same, rest], fun _ => ?_⟩
      rw [← names, ← namesOther, links]

end General

section Rising

variable {ρ : Type u} {link tip : ρ → Int}

/-- Along a rising chain every row starts no lower than the chain. -/
theorem start_le {start finish : Int} {rows : List ρ} (linked : Linked link tip start rows finish)
    (rises : ∀ row ∈ rows, link row < tip row) :
    start ≤ finish ∧ ∀ row ∈ rows, start ≤ link row := by
  induction rows generalizing start with
  | nil => exact ⟨Int.le_of_eq linked, fun row member => absurd member not_mem_nil⟩
  | cons first rest ih =>
    obtain ⟨names, later⟩ := linked
    obtain ⟨ends, above⟩ := ih later fun row member => rises row (mem_cons_of_mem first member)
    have up := rises first mem_cons_self
    refine ⟨by omega, fun row member => ?_⟩
    rcases mem_cons.mp member with rfl | inRest
    · omega
    · have higher := above row inRest
      omega

/-- A rising chain rises by one at least with each row. -/
theorem length_le {start finish : Int} {rows : List ρ} (linked : Linked link tip start rows finish)
    (rises : ∀ row ∈ rows, link row < tip row) : start + rows.length ≤ finish := by
  induction rows generalizing start with
  | nil =>
    have ends : start = finish := linked
    simp [ends]
  | cons first rest ih =>
    obtain ⟨names, later⟩ := linked
    have higher := ih later fun row member => rises row (mem_cons_of_mem first member)
    have up := rises first mem_cons_self
    rw [length_cons]
    omega

/-- A chain made of rows of a rising chain with the same start is a prefix of it. -/
theorem prefix_of_subset {start finish finish' : Int} {part whole : List ρ}
    (linked : Linked link tip start whole finish) (rises : ∀ row ∈ whole, link row < tip row)
    (linkedPart : Linked link tip start part finish') (drawn : ∀ row ∈ part, row ∈ whole) :
    part <+: whole := by
  induction whole generalizing start part with
  | nil =>
    cases part with
    | nil => exact prefix_rfl
    | cons first rest => exact absurd (drawn first mem_cons_self) not_mem_nil
  | cons head tail ih =>
    cases part with
    | nil => exact nil_prefix
    | cons first rest =>
      obtain ⟨names, later⟩ := linked
      obtain ⟨namesFirst, laterPart⟩ := linkedPart
      have risesTail : ∀ row ∈ tail, link row < tip row :=
        fun row member => rises row (mem_cons_of_mem head member)
      have up := rises head mem_cons_self
      have above := (start_le later risesTail).2
      have same : first = head := by
        rcases mem_cons.mp (drawn first mem_cons_self) with same | inTail
        · exact same
        · have higher := above first inTail
          omega
      subst same
      have risesPart : ∀ row ∈ rest, link row < tip row :=
        fun row member => rises row (drawn row (mem_cons_of_mem first member))
      have abovePart := (start_le laterPart risesPart).2
      refine cons_prefix_cons.mpr ⟨rfl, ih later risesTail laterPart fun row member => ?_⟩
      rcases mem_cons.mp (drawn row (mem_cons_of_mem first member)) with rfl | inTail
      · have higher := abovePart row member
        omega
      · exact inTail

/-- Such a chain is the whole chain if it ends no lower. -/
theorem eq_of_subset {start finish finish' : Int} {part whole : List ρ}
    (linked : Linked link tip start whole finish) (rises : ∀ row ∈ whole, link row < tip row)
    (linkedPart : Linked link tip start part finish') (drawn : ∀ row ∈ part, row ∈ whole)
    (ends : finish ≤ finish') : part = whole := by
  obtain ⟨rest, rfl⟩ := prefix_of_subset linked rises linkedPart drawn
  obtain ⟨middle, first, second⟩ := append_iff.mp linked
  have reached : middle = finish' := first.finish_eq.trans linkedPart.finish_eq.symm
  cases rest with
  | nil => exact (append_nil part).symm
  | cons next others =>
    obtain ⟨names, later⟩ := second
    have up := rises next (mem_append_right part mem_cons_self)
    have higher := (start_le later fun row member =>
      rises row (mem_append_right part (mem_cons_of_mem next member))).1
    omega

end Rising

end Linked

end TrustedCourier
