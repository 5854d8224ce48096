/-
The minimal elements of a list under a key, and lists sorted by a key. Nothing here depends on a program.

- `exists_minimalFor_lt`: whatever is not minimal is above something minimal, since a list is finite.
- `antitone_of_minimalFor`: of two minimal elements with keys in two linear orders, the one that is smaller in one part
  is larger in the other.
- `sortedBy`: a stable sort by a key; `pairwise_sortedBy`, `sortedBy_perm`.
-/
import Mathlib.Data.List.Sort
import Mathlib.Data.Prod.Lex
import Mathlib.Order.Minimal
import Mathlib.Order.Preorder.Finite

namespace Frontier

variable {α ι κ : Type}

/-! ## Minimal elements -/

section Minimal

variable [Preorder ι] {key : α → ι} {l : List α} {a : α}

theorem exists_minimalFor_le (ha : a ∈ l) : ∃ b, MinimalFor (· ∈ l) key b ∧ key b ≤ key a := by
  have hfinite : {b | b ∈ l ∧ key b ≤ key a}.Finite := l.finite_toSet.subset fun _ hb => hb.1
  obtain ⟨b, ⟨hb, hle⟩, hmin⟩ := hfinite.exists_minimalFor key _ ⟨a, ha, le_rfl⟩
  exact ⟨b, ⟨hb, fun c hc hcb => hmin ⟨hc, hcb.trans hle⟩ hcb⟩, hle⟩

/-- **Whatever is not minimal is above something minimal.** -/
theorem exists_minimalFor_lt (ha : a ∈ l) (h : ¬ MinimalFor (· ∈ l) key a) :
    ∃ b, MinimalFor (· ∈ l) key b ∧ key b < key a := by
  obtain ⟨b, hb, hle⟩ : ∃ b, MinimalFor (· ∈ l) key b ∧ key b ≤ key a := exists_minimalFor_le ha
  refine ⟨b, hb, hle.lt_of_not_ge fun hge => h ⟨ha, fun c hc hca => ?_⟩⟩
  calc key a ≤ key b := hge
    _ ≤ key c := hb.2 hc (hca.trans hge)

end Minimal

/-- of two minimal elements, the lexicographically smaller one is equal to the other or larger in the second part -/
theorem antitone_of_minimalFor [LinearOrder ι] [LinearOrder κ] {key : α → ι × κ} {l : List α} {a b : α} (ha : a ∈ l)
    (hb : MinimalFor (· ∈ l) key b) (h : toLex (key a) ≤ toLex (key b)) :
    key a = key b ∨ (key a).1 < (key b).1 ∧ (key b).2 < (key a).2 := by
  rcases Prod.Lex.toLex_le_toLex.1 h with hlt | ⟨heq, hle⟩
  · refine Or.inr ⟨hlt, ?_⟩
    by_contra hle
    exact hb.not_lt ha (Prod.lt_iff.2 (Or.inl ⟨hlt, not_lt.1 hle⟩))
  · refine Or.inl (Prod.ext heq (hle.antisymm ?_))
    by_contra hlt
    exact hb.not_lt ha (Prod.lt_iff.2 (Or.inr ⟨heq.le, not_le.1 hlt⟩))

/-! ## Sorting by a key -/

section Sorting

variable [LinearOrder ι]

/-- a stable sort -/
def sortedBy (key : α → ι) (l : List α) : List α := l.insertionSort fun a b => key a ≤ key b

theorem sortedBy_perm (key : α → ι) (l : List α) : (sortedBy key l).Perm l := List.perm_insertionSort _ l

theorem pairwise_sortedBy (key : α → ι) (l : List α) : (sortedBy key l).Pairwise fun a b => key a ≤ key b := by
  have htrans : IsTrans α fun a b => key a ≤ key b := ⟨fun _ _ _ => le_trans⟩
  have htotal : Std.Total fun a b : α => key a ≤ key b := ⟨fun _ _ => le_total _ _⟩
  exact List.pairwise_insertionSort _ l

end Sorting

end Frontier
