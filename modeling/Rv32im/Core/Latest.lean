/-
The latest event of a history, oldest event first. Nothing here depends on a program.

- `latest_snoc`: one more event is the latest one if it counts.
- `latest_rel`: histories that are related event by event have related latest events.
-/
import Mathlib.Data.List.Forall2
import Mathlib.Data.Option.Basic

namespace History

variable {α β : Type}

/-- the last event that counts -/
def latest (p : α → Prop) [DecidablePred p] (l : List α) : Option α := l.reverse.find? fun a => p a

variable {p : α → Prop} {q : β → Prop} [DecidablePred p] [DecidablePred q]

theorem latest_snoc (l : List α) (x : α) : latest p (l ++ [x]) = if p x then some x else latest p l := by
  unfold latest
  rw [List.reverse_append, List.reverse_singleton, List.singleton_append, List.find?_cons]
  by_cases h : p x
  · simp only [decide_eq_true h, if_pos h]
  · simp only [decide_eq_false h, if_neg h]

theorem latest_counts {l : List α} {x : α} (h : latest p l = some x) : p x := by
  have hx := List.find?_some (show l.reverse.find? (fun a => p a) = some x from h)
  exact of_decide_eq_true hx

theorem latest_mem {l : List α} {x : α} (h : latest p l = some x) : x ∈ l :=
  List.mem_reverse.1 (List.mem_of_find?_eq_some h)

theorem latest_rel {R : α → β → Prop} (hpq : ∀ a b, R a b → (p a ↔ q b)) {l : List α} {l' : List β}
    (h : List.Forall₂ R l l') : Option.Rel R (latest p l) (latest q l') := by
  have hrev := List.rel_reverse h
  unfold latest
  generalize l.reverse = k at hrev ⊢
  generalize l'.reverse = k' at hrev ⊢
  induction hrev with
  | nil => exact .none
  | cons hab _ ih =>
    rename_i a b _ _ _
    rw [List.find?_cons, List.find?_cons, decide_eq_decide.2 (hpq a b hab)]
    cases decide (q b) with
    | true => exact .some hab
    | false => exact ih

end History
