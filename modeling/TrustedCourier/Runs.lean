import Mathlib.Data.List.Induction

/-!
# Runs of a machine

A machine is given by what each action makes of a state, or that the action cannot be
taken there. A run takes actions one after another; several parties at work at once are a
run of the actions of all of them, in some order. What is proved of every run therefore
holds for every interleaving.
-/

namespace TrustedCourier.Runs

universe u v

variable {σ : Type u} {α : Type v} (step : σ → α → Option σ)

/-- The state after the actions, if each of them could be taken. -/
def after : σ → List α → Option σ
  | s, [] => some s
  | s, act :: acts => (step s act).bind fun next => after next acts

/-- At some moment of the run, the first and the last included, the state was like this. -/
def Passed (s : σ) (acts : List α) (P : σ → Prop) : Prop :=
  ∃ before later mid, acts = before ++ later ∧ after step s before = some mid ∧ P mid

variable {step} {s t : σ} {acts : List α}

/-- An action with a guard is taken only where the guard holds. -/
theorem of_guard {guard : Prop} [Decidable guard]
    (taken : (if guard then some s else none) = some t) :
    guard ∧ s = t := by
  obtain ⟨holds, same⟩ := Option.ite_none_right_eq_some.mp taken
  exact ⟨holds, Option.some.inj same⟩

@[simp] theorem after_nil (s : σ) : after step s [] = some s := rfl

/-- A run from its first action. -/
theorem after_cons_iff {act : α} : after step s (act :: acts) = some t ↔
    ∃ next, step s act = some next ∧ after step next acts = some t :=
  Option.bind_eq_some_iff

/-- A run in two parts. -/
theorem after_append_iff {before later : List α} : after step s (before ++ later) = some t ↔
    ∃ mid, after step s before = some mid ∧ after step mid later = some t := by
  induction before generalizing s with
  | nil => simp
  | cons act before ih =>
    simp only [List.cons_append, after_cons_iff, ih]
    constructor
    · rintro ⟨next, first, mid, ran, rest⟩
      exact ⟨mid, ⟨next, first, ran⟩, rest⟩
    · rintro ⟨mid, ⟨next, first, ran⟩, rest⟩
      exact ⟨next, first, mid, ran, rest⟩

/-- A run up to its last action. -/
theorem after_concat_iff {act : α} : after step s (acts ++ [act]) = some t ↔
    ∃ mid, after step s acts = some mid ∧ step mid act = some t := by
  simp [after_append_iff, after_cons_iff]

/-- What holds at the start, and what each action carries on, holds after every run. It
may speak of the actions taken so far. -/
theorem after_induction {P : List α → σ → Prop} (first : P [] s)
    (carried : ∀ acts mid act next, after step s acts = some mid → P acts mid →
      step mid act = some next →
      P (acts ++ [act]) next)
    (ran : after step s acts = some t) : P acts t := by
  induction acts using List.reverseRecOn generalizing t with
  | nil =>
    cases ran
    exact first
  | append_singleton acts act ih =>
    obtain ⟨mid, before, taken⟩ := after_concat_iff.mp ran
    exact carried acts mid act t before (ih before) taken

/-- An invariant holds after every run. -/
theorem after_invariant {I : σ → Prop} (kept : ∀ s act next, I s → step s act = some next → I next)
    (ran : after step s acts = some t) (holds : I s) : I t :=
  after_induction holds (fun _ mid act next _ known taken => kept mid act next known taken) ran

/-- What relates the states before and after each action relates the ends of a run. The
invariant may be used at every state of it. -/
theorem after_related {I : σ → Prop} (kept : ∀ s act next, I s → step s act = some next → I next)
    {R : σ → σ → Prop} (same : ∀ s, R s s) (chained : ∀ {a b c}, R a b → R b c → R a c)
    (related : ∀ s act next, I s → step s act = some next → R s next)
    (ran : after step s acts = some t) (holds : I s) : R s t := by
  have both : I t ∧ R s t := by
    apply after_induction (P := fun _ t => I t ∧ R s t) ⟨holds, same s⟩ _ ran
    intro _ mid act next _ known taken
    exact ⟨kept mid act next known.1 taken, chained known.2 (related mid act next known.1 taken)⟩
  exact both.2

theorem Passed.now {P : σ → Prop} (ran : after step s acts = some t) (holds : P t) :
    Passed step s acts P :=
  ⟨acts, [], t, by simp, ran, holds⟩

/-- A run goes on after it has passed. -/
theorem Passed.later {P : σ → Prop} (passed : Passed step s acts P) (more : List α) :
    Passed step s (acts ++ more) P := by
  obtain ⟨before, later, mid, rfl, ran, holds⟩ := passed
  exact ⟨before, later ++ more, mid, by simp, ran, holds⟩

/-- If every action that is taken fairly brings the state closer to what is waited for, a
run of more actions than the state is away passes it. -/
theorem passed_of_rank {I P : σ → Prop} (Fair : σ → α → Prop)
    (kept : ∀ s act next, I s → step s act = some next → I next) (rank : σ → Nat)
    (closer : ∀ s act next, I s → step s act = some next → Fair s act → P next ∨ rank next < rank s)
    (ran : after step s acts = some t) (holds : I s) (long : rank s < acts.length)
    (fair : ∀ first act rest mid, acts = first ++ act :: rest →
      after step s first = some mid → Fair mid act) :
    Passed step s acts P := by
  induction acts generalizing s with
  | nil => exact absurd long (Nat.not_lt_zero _)
  | cons act acts ih =>
    obtain ⟨next, taken, later⟩ := after_cons_iff.mp ran
    rcases closer s act next holds taken (fair [] act acts s rfl rfl) with reached | nearer
    · exact ⟨[act], acts, next, rfl, after_cons_iff.mpr ⟨next, taken, rfl⟩, reached⟩
    · obtain ⟨before, rest, mid, split, passed, reached⟩ := ih later (kept s act next holds taken)
        (Nat.lt_of_lt_of_le nearer (Nat.le_of_lt_succ long))
        fun first other rest mid split passed =>
          fair (act :: first) other rest mid (by rw [split]; rfl)
            (after_cons_iff.mpr ⟨next, taken, passed⟩)
      exact ⟨act :: before, rest, mid, by rw [split]; rfl,
        after_cons_iff.mpr ⟨next, taken, passed⟩, reached⟩

/-- If every action of one party brings the state closer to where it has none left, and no
other action takes it farther away, the party takes only so many. -/
theorem after_counted {I : σ → Prop} (kept : ∀ s act next, I s → step s act = some next → I next)
    (mine : α → Bool) (rank : σ → Nat)
    (closer : ∀ s act next, I s → step s act = some next → mine act = true → rank next < rank s)
    (others : ∀ s act next, I s → step s act = some next → mine act = false → rank next ≤ rank s)
    (ran : after step s acts = some t) (holds : I s) : rank t + acts.countP mine ≤ rank s := by
  have both : I t ∧ rank t + acts.countP mine ≤ rank s := by
    apply after_induction (P := fun acts t => I t ∧ rank t + acts.countP mine ≤ rank s)
      ⟨holds, by simp⟩ _ ran
    intro acts mid act next _ known taken
    refine ⟨kept mid act next known.1 taken, ?_⟩
    rw [List.countP_append, List.countP_singleton]
    cases own : mine act with
    | true =>
      have nearer := closer mid act next known.1 taken own
      simp only [if_true]
      omega
    | false =>
      have noFarther := others mid act next known.1 taken own
      simp only [Bool.false_eq_true, if_false]
      omega
  exact both.2

/-! ## Histories -/

section Histories

variable {ε : Type u} {P : List ε → ε → Prop} {history : List ε}

/-- Every entry of a history fits what came before it. -/
def Each (P : List ε → ε → Prop) (history : List ε) : Prop :=
  ∀ before entry rest, history = before ++ entry :: rest → P before entry

theorem each_nil : Each P [] := by
  intro before entry rest split
  simp at split

/-- An entry of a continued history is the last one or one from before. -/
theorem concat_split {before rest : List ε} {entry last : ε}
    (split : history ++ [last] = before ++ entry :: rest) :
    (history = before ∧ last = entry) ∨ ∃ more, rest = more ++ [last] ∧
      history = before ++ entry :: more := by
  induction rest using List.reverseRecOn with
  | nil =>
    obtain ⟨same, ends⟩ := List.append_inj' split rfl
    exact .inl ⟨same, (List.cons.inj ends).1⟩
  | append_singleton more final =>
    rw [← List.cons_append, ← List.append_assoc] at split
    obtain ⟨same, ends⟩ := List.append_inj' split rfl
    exact .inr ⟨more, by rw [ends], same⟩

/-- A history is continued by an entry that fits all of it. -/
theorem Each.concat {entry : ε} (each : Each P history) (fits : P history entry) :
    Each P (history ++ [entry]) := by
  intro before other rest split
  rcases concat_split split with ⟨rfl, rfl⟩ | ⟨more, _, earlier⟩
  · exact fits
  · exact each before other more earlier

end Histories

end TrustedCourier.Runs
