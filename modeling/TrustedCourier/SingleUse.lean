import TrustedCourier.Runs

/-!
# Tickets that are used once

A ticket is issued, then recorded with its content, and waits. One party may take it;
until it does, the ticket may also be discarded. Who has taken it may accept it, and who
has accepted it may use it. Each of these happens at most once, in this order, and by the
same party, so what has happened to a ticket tells where it is, and the other way round.

The parties and the contents are arbitrary.
-/

namespace TrustedCourier.SingleUse

open Runs

universe u v

variable {κ : Type u} {ε : Type v}

/-- What happens to a ticket. -/
inductive Use (κ : Type u) (ε : Type v) where
  | issue (maker : κ)
  | record (maker : κ) (content : ε)
  | take (taker : κ)
  | discard
  | accept (taker : κ) (content : ε)
  | use (taker : κ) (content : ε)

/-- Whether the ticket is used. -/
def Use.uses : Use κ ε → Bool
  | .use _ _ => true
  | _ => false

/-- Where a ticket is. -/
inductive Life (κ : Type u) (ε : Type v) where
  | unborn
  | issued (maker : κ)
  | waiting (maker : κ) (content : ε)
  | discarded (maker : κ) (content : ε)
  | held (maker : κ) (content : ε) (taker : κ)
  | accepted (maker : κ) (content : ε) (taker : κ)
  | used (maker : κ) (content : ε) (taker : κ)

namespace Life

/-- One thing happens, or `none` where it cannot. -/
def step [DecidableEq κ] [DecidableEq ε] : Life κ ε → Use κ ε → Option (Life κ ε)
  | .unborn, .issue maker => some (.issued maker)
  | .issued maker, .record recorder content =>
    if recorder = maker then some (.waiting maker content) else none
  | .waiting maker content, .take taker => some (.held maker content taker)
  | .waiting maker content, .discard => some (.discarded maker content)
  | .held maker content taker, .accept party given =>
    if party = taker ∧ given = content then some (.accepted maker content taker) else none
  | .accepted maker content taker, .use party given =>
    if party = taker ∧ given = content then some (.used maker content taker) else none
  | _, _ => none

/-- What has happened to a ticket that is there. -/
def story : Life κ ε → List (Use κ ε)
  | .unborn => []
  | .issued maker => [.issue maker]
  | .waiting maker content => [.issue maker, .record maker content]
  | .discarded maker content => [.issue maker, .record maker content, .discard]
  | .held maker content taker => [.issue maker, .record maker content, .take taker]
  | .accepted maker content taker =>
  [.issue maker, .record maker content, .take taker, .accept taker content]
  | .used maker content taker =>
    [.issue maker, .record maker content, .take taker, .accept taker content, .use taker content]

/-- Who may go on with the ticket. While it waits, anyone may. -/
def holder : Life κ ε → Option κ
  | .issued maker => some maker
  | .held _ _ taker => some taker
  | .accepted _ _ taker => some taker
  | _ => none

section Stories

variable [DecidableEq κ] [DecidableEq ε] {life next : Life κ ε}

/-- A step adds what has happened to the story. -/
theorem step_story {use : Use κ ε} (stepped : life.step use = some next) :
    next.story = life.story ++ [use] := by
  unfold step at stepped
  split at stepped
  · cases stepped
    rfl
  · obtain ⟨rfl, rfl⟩ := of_guard stepped
    rfl
  · cases stepped
    rfl
  · cases stepped
    rfl
  · obtain ⟨⟨rfl, rfl⟩, rfl⟩ := of_guard stepped
    rfl
  · obtain ⟨⟨rfl, rfl⟩, rfl⟩ := of_guard stepped
    rfl
  · simp at stepped

/-- What has happened to a ticket is its story. -/
theorem after_story {uses : List (Use κ ε)} (lived : after step .unborn uses = some life) :
    uses = life.story := by
  apply after_induction (P := fun uses life => uses = life.story) rfl _ lived
  intro uses mid use next _ known stepped
  rw [step_story stepped, known]

end Stories

/-- Every story follows one of two courses. -/
theorem story_course [Inhabited κ] [Inhabited ε] (life : Life κ ε) :
    ∃ maker content, life.story <+: [.issue maker, .record maker content, .discard] ∨
      ∃ taker, life.story <+:
        [.issue maker, .record maker content, .take taker, .accept taker content,
          .use taker content] := by
  cases life with
  | unborn => exact ⟨default, default, .inl List.nil_prefix⟩
  | issued maker => exact ⟨maker, default, .inl ⟨_, rfl⟩⟩
  | waiting maker content | discarded maker content => exact ⟨maker, content, .inl ⟨_, rfl⟩⟩
  | held maker content taker | accepted maker content taker | used maker content taker =>
    exact ⟨maker, content, .inr ⟨taker, _, rfl⟩⟩

/-- A ticket is used at most once. -/
theorem story_uses (life : Life κ ε) : life.story.countP Use.uses ≤ 1 := by
  cases life <;> simp [story, Use.uses]

end Life

end TrustedCourier.SingleUse
