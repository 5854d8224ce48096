/-
Loops over two sequences that a body may leave early.

- `forPairs`: `for i, (a, b) in enumerate(zip(l, l'))`; the shorter sequence ends it.
- `streamPairs`: two iterators read in turn; the loop sees which of them has ended.
- `Judges`: the body leaves the loop with a refusal exactly on the pairs that a relation refuses.
- `forPairs_verdict`, `streamPairs_verdict`: the verdict of the loop is the relation on all pairs, for a stream together
  with the equality of the lengths.
-/
import Mathlib.Data.List.Forall2

namespace Pairs

section Loops

variable {α β γ ε ι κ : Type}

/-- one turn of a loop, and what follows unless the body returns -/
def turn (first : Except ε (Option γ)) (rest : Except ε γ) : Except ε γ := do
  match ← first with
  | some result => return result
  | none => rest

def forPairs (body : ℕ → α → β → Except ε (Option γ)) (after : γ) : ℕ → List α → List β → Except ε γ
  | i, a :: l, b :: l' => turn (body i a b) (forPairs body after (i + 1) l l')
  | _, _, _ => .ok after

def streamPairs (body : ℕ → α → β → Except ε (Option γ)) (both one : ℕ → γ) : ℕ → List α → List β → Except ε γ
  | i, a :: l, b :: l' => turn (body i a b) (streamPairs body both one (i + 1) l l')
  | i, [], [] => .ok (both i)
  | i, _, _ => .ok (one i)

/-- the body decides `R`, and refuses with a result that is not accepted -/
def Judges (body : ℕ → α → β → Except ε (Option γ)) (accepted : γ → Bool) (R : α → β → Prop) : Prop :=
  ∀ i a b, R a b ∧ body i a b = .ok none ∨ ¬ R a b ∧ ∃ v, body i a b = .ok (some v) ∧ accepted v = false

theorem forPairs_map (body : ℕ → α → β → Except ε (Option γ)) (after : γ) (f : ι → α) (g : κ → β) (i : ℕ)
    (l : List ι) (l' : List κ) :
    forPairs body after i (l.map f) (l'.map g) = forPairs (fun i a b => body i (f a) (g b)) after i l l' := by
  induction l generalizing i l' with
  | nil => rfl
  | cons a l ih =>
    cases l' with
    | nil => rfl
    | cons b l' =>
      exact congrArg (turn (body i (f a) (g b))) (ih (i + 1) l')

theorem streamPairs_map (body : ℕ → α → β → Except ε (Option γ)) (both one : ℕ → γ) (f : ι → α) (g : κ → β) (i : ℕ)
    (l : List ι) (l' : List κ) :
    streamPairs body both one i (l.map f) (l'.map g) =
      streamPairs (fun i a b => body i (f a) (g b)) both one i l l' := by
  induction l generalizing i l' with
  | nil =>
    cases l' with
    | nil => rfl
    | cons b l' => rfl
  | cons a l ih =>
    cases l' with
    | nil => rfl
    | cons b l' =>
      exact congrArg (turn (body i (f a) (g b))) (ih (i + 1) l')

variable {body : ℕ → α → β → Except ε (Option γ)} {accepted : γ → Bool} {R : α → β → Prop}

/-- a turn decides the pair, and the rest of the loop the other pairs -/
theorem Judges.turn (h : Judges body accepted R) (i : ℕ) (a : α) (b : β) {l : List α} {l' : List β}
    {rest : Except ε γ} (hrest : ∃ v, rest = .ok v ∧ (accepted v = true ↔ List.Forall₂ R l l')) :
    ∃ v, turn (body i a b) rest = .ok v ∧ (accepted v = true ↔ List.Forall₂ R (a :: l) (b :: l')) := by
  rcases h i a b with ⟨hrel, hbody⟩ | ⟨hrel, v, hbody, hv⟩
  · obtain ⟨v, hrun, hiff⟩ := hrest
    refine ⟨v, ?_, ?_⟩
    · rw [hbody]
      exact hrun
    · rw [hiff, List.forall₂_cons, and_iff_right hrel]
  · refine ⟨v, ?_, ?_⟩
    · rw [hbody]
      rfl
    · rw [hv, List.forall₂_cons]
      exact iff_of_false Bool.false_ne_true fun hall => hrel hall.1

/-- **A loop behind a comparison of the lengths** accepts exactly the sequences that are related pair by pair. -/
theorem forPairs_verdict (h : Judges body accepted R) {after : γ} (hafter : accepted after = true) (i : ℕ)
    {l : List α} {l' : List β} (hlen : l.length = l'.length) :
    ∃ v, forPairs body after i l l' = .ok v ∧ (accepted v = true ↔ List.Forall₂ R l l') := by
  induction l generalizing i l' with
  | nil =>
    cases l' with
    | nil => exact ⟨after, rfl, iff_of_true hafter List.Forall₂.nil⟩
    | cons b l' => cases hlen
  | cons a l ih =>
    cases l' with
    | nil => cases hlen
    | cons b l' =>
      exact h.turn i a b (ih (i + 1) (Nat.succ.inj hlen))

/-- **A loop over two iterators** accepts exactly the sequences of one length that are related pair by pair. -/
theorem streamPairs_verdict (h : Judges body accepted R) (both one : ℕ → γ) (hboth : ∀ i, accepted (both i) = true)
    (hone : ∀ i, accepted (one i) = false) (i : ℕ) (l : List α) (l' : List β) :
    ∃ v, streamPairs body both one i l l' = .ok v ∧ (accepted v = true ↔ List.Forall₂ R l l') := by
  induction l generalizing i l' with
  | nil =>
    cases l' with
    | nil => exact ⟨both i, rfl, iff_of_true (hboth i) List.Forall₂.nil⟩
    | cons b l' => exact ⟨one i, rfl, by simp [hone]⟩
  | cons a l ih =>
    cases l' with
    | nil => exact ⟨one i, rfl, by simp [hone]⟩
    | cons b l' =>
      exact h.turn i a b (ih (i + 1) l')

end Loops

end Pairs
