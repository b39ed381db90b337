import Mathlib.Data.List.TakeWhile

/-!
# Encodings that can be told apart inside a longer text

A value written into a text is followed by other text, so an encoding is only as
good as what it settles there. An encoding is framed when two values followed by
texts that may follow them can only be written alike if they have the same key and
the same text follows. The key is what the encoding keeps of a value, which may be
less than the value. An encoding that can be read back is framed, so is a maximal run
of symbols of one kind, and so are framed words repeated up to a stop symbol.
-/

namespace TrustedCourier

open List

universe u v w x

/-- Written before texts that may follow, `encode` settles the key of the value and
the text that follows. -/
def Framed {σ : Type u} {α : Type v} {κ : Type w} (follows : List σ → Prop) (encode : α → List σ)
    (key : α → κ) : Prop :=
  ∀ a b rest others, follows rest → follows others → encode a ++ rest = encode b ++ others →
    key a = key b ∧ rest = others

namespace Framed

variable {σ : Type u} {α : Type v} {κ : Type w} {μ : Type x}
variable {follows : List σ → Prop} {encode : α → List σ} {key : α → κ}

/-- A key determined by the settled one is settled. -/
theorem map (framed : Framed follows encode key) {other : α → μ}
    (determined : ∀ a b, key a = key b → other a = other b) : Framed follows encode other := by
  intro a b rest others first second same
  obtain ⟨keys, tails⟩ := framed a b rest others first second same
  exact ⟨determined a b keys, tails⟩

/-- An encoding that can be read back is framed. -/
theorem of_read (read : List σ → Option (κ × List σ))
    (reads : ∀ a rest, follows rest → read (encode a ++ rest) = some (key a, rest)) :
    Framed follows encode key := by
  intro a b rest others first second same
  have read_a := reads a rest first
  rw [same, reads b others second] at read_a
  obtain ⟨keys, tails⟩ := Prod.mk.inj (Option.some.inj read_a)
  exact ⟨keys.symm, tails.symm⟩

/-- A run of symbols of one kind, followed by none of that kind, is settled whole. -/
theorem run (kind : σ → Bool) (within : ∀ a, ∀ c ∈ encode a, kind c = true) :
    Framed (fun rest => ∀ c ∈ rest.head?, kind c = false) encode encode := by
  have stops : ∀ a rest, (∀ c ∈ rest.head?, kind c = false) →
      (encode a ++ rest).takeWhile kind = encode a := by
    intro a rest ends
    rw [takeWhile_append, takeWhile_eq_self_iff.mpr (within a), if_pos rfl]
    cases rest with
    | nil => simp
    | cons c more => simp [ends c rfl]
  intro a b rest others first second same
  have same_run : encode a = encode b := by rw [← stops a rest first, same, stops b others second]
  rw [same_run] at same
  exact ⟨same_run, append_cancel_left same⟩

/-- A list of words that are framed by themselves, up to a stop symbol that begins no
word, settles the words' keys in order. -/
theorem words {encode : α → List σ} {key : α → κ} (framed : Framed (fun _ => True) encode key)
    (stop : σ) (begins : ∀ a, ∃ c more, encode a = c :: more ∧ c ≠ stop) :
    Framed (fun _ => True) (fun l : List α => l.flatMap encode ++ [stop]) (List.map key) := by
  intro left
  induction left with
  | nil =>
    intro right rest others _ _ same
    cases right with
    | nil => exact ⟨rfl, by simpa using same⟩
    | cons b right =>
      obtain ⟨c, more, word, different⟩ := begins b
      simp only [flatMap_nil, nil_append, flatMap_cons, word, cons_append,
        List.cons.injEq] at same
      exact absurd same.1.symm different
  | cons a left ih =>
    intro right rest others _ _ same
    cases right with
    | nil =>
      obtain ⟨c, more, word, different⟩ := begins a
      simp only [flatMap_nil, nil_append, flatMap_cons, word, cons_append,
        List.cons.injEq] at same
      exact absurd same.1 different
    | cons b right =>
      simp only [flatMap_cons, append_assoc] at same
      obtain ⟨keys, tails⟩ := framed a b _ _ trivial trivial same
      obtain ⟨others_keys, ends⟩ := ih right rest others trivial trivial (by simpa using tails)
      exact ⟨by rw [map_cons, map_cons, keys, others_keys], ends⟩

end Framed

end TrustedCourier
