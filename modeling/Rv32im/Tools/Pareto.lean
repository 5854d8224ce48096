/-
The Pareto frontier of the design-space sweep (`scripts/run_milestone6a.py`).

The rows are objects: `α` is their type, its equality is their identity (`is`), and two objects may hold equal values.

- `dominated`, `pareto`: the two loops with their early exit, and the sort behind them.
- `dominated_iff`: the inner loop finds a row with a smaller pair of bytes and cycles.
- `mem_pareto`: the rows that are kept are the minimal ones.
- `pareto_frontier`: they are the rows that no other row dominates, each of them once, the others are each dominated by
  one of them, and they stand in the order of their bytes with falling cycles.
-/
import Mathlib
import Rv32im.Core.Frontier

namespace Rv32im

namespace Milestone6a

open Frontier

variable {α : Type} (cacheDataBytes cycles : α → ℤ)

def noWorse (b a : α) : Bool := cacheDataBytes b ≤ cacheDataBytes a ∧ cycles b ≤ cycles a

def strict (b a : α) : Bool := cacheDataBytes b < cacheDataBytes a ∨ cycles b < cycles a

/-- the loop over the rows `b`, which leaves out `a` itself and ends at the first row that dominates `a` -/
def dominated [DecidableEq α] (a : α) : List α → Bool
  | [] => false
  | b :: rows =>
    if a = b then dominated a rows
    else if noWorse cacheDataBytes cycles b a ∧ strict cacheDataBytes cycles b a then true
    else dominated a rows

/-- what is sorted by, as a tuple -/
def sortKey (r : α) : ℤ ×ₗ ℤ := toLex (cacheDataBytes r, cycles r)

def pareto [DecidableEq α] (rows : List α) : List α :=
  let out := rows.foldl (fun out a => if dominated cacheDataBytes cycles a rows then out else out ++ [a]) []
  sortedBy (sortKey cacheDataBytes cycles) out

/-! ## The rows that are kept -/

/-- `b` is no worse than `a` in bytes and cycles, and better in one of them -/
def Dominates (b a : α) : Prop :=
  cacheDataBytes b ≤ cacheDataBytes a ∧ cycles b ≤ cycles a ∧ (cacheDataBytes b < cacheDataBytes a ∨ cycles b < cycles a)

variable {cacheDataBytes cycles}

/-- dominance is the order of the pairs -/
theorem dominates_iff {a b : α} :
    Dominates cacheDataBytes cycles b a ↔ (cacheDataBytes b, cycles b) < (cacheDataBytes a, cycles a) := by
  rw [Prod.mk_lt_mk]
  refine ⟨?_, ?_⟩
  · rintro ⟨hbytes, hcycles, hlt | hlt⟩
    · exact Or.inl ⟨hlt, hcycles⟩
    · exact Or.inr ⟨hbytes, hlt⟩
  · rintro (⟨hlt, hcycles⟩ | ⟨hbytes, hlt⟩)
    · exact ⟨hlt.le, hcycles, Or.inl hlt⟩
    · exact ⟨hbytes, hlt.le, Or.inr hlt⟩

theorem Dominates.ne {a b : α} (h : Dominates cacheDataBytes cycles b a) : b ≠ a := by
  rintro rfl
  exact lt_irrefl _ (dominates_iff.1 h)

theorem minimalFor_iff {rows : List α} {a : α} :
    MinimalFor (· ∈ rows) (fun r => (cacheDataBytes r, cycles r)) a ↔
      a ∈ rows ∧ ¬ ∃ b ∈ rows, Dominates cacheDataBytes cycles b a := by
  rw [minimalFor_iff_forall_lt]
  refine and_congr_right fun _ => ⟨?_, ?_⟩
  · intro h ⟨b, hb, hdom⟩
    exact h (dominates_iff.1 hdom) hb
  · intro h b hlt hb
    exact h ⟨b, hb, dominates_iff.2 hlt⟩

variable [DecidableEq α]

/-- **The inner loop**, by induction on the rows: leaving out the row itself leaves out no row that dominates it. -/
theorem dominated_iff {a : α} {rows : List α} :
    dominated cacheDataBytes cycles a rows = true ↔ ∃ b ∈ rows, Dominates cacheDataBytes cycles b a := by
  induction rows with
  | nil => simp [dominated]
  | cons b rows ih =>
    have hhere : (noWorse cacheDataBytes cycles b a ∧ strict cacheDataBytes cycles b a) ↔
        Dominates cacheDataBytes cycles b a := by
      simp only [noWorse, strict, decide_eq_true_eq, Dominates, and_assoc]
    rw [dominated, List.exists_mem_cons_iff]
    split_ifs with hself hdom
    · rw [ih, or_iff_right fun h => h.ne hself.symm]
    · exact iff_of_true rfl (Or.inl (hhere.1 hdom))
    · rw [ih, or_iff_right fun h => hdom (hhere.2 h)]

/-- the outer loop keeps the rows that the inner one does not find dominated -/
theorem outer_eq (all rows out : List α) :
    rows.foldl (fun out a => if dominated cacheDataBytes cycles a all then out else out ++ [a]) out =
      out ++ rows.filter fun a => ¬ dominated cacheDataBytes cycles a all := by
  induction rows generalizing out with
  | nil => rw [List.filter_nil, List.append_nil, List.foldl_nil]
  | cons a rows ih =>
    rw [List.foldl_cons, ih]
    by_cases h : dominated cacheDataBytes cycles a all = true
    · rw [if_pos h, List.filter_cons_of_neg (by simp [h])]
    · rw [if_neg h, List.filter_cons_of_pos (by simp [h]), List.append_assoc, List.singleton_append]

theorem pareto_perm (rows : List α) :
    (pareto cacheDataBytes cycles rows).Perm (rows.filter fun a => ¬ dominated cacheDataBytes cycles a rows) := by
  unfold pareto
  rw [outer_eq, List.nil_append]
  exact sortedBy_perm _ _

/-- **The kept rows** are the minimal ones. -/
theorem mem_pareto {rows : List α} {a : α} : a ∈ pareto cacheDataBytes cycles rows ↔
    MinimalFor (· ∈ rows) (fun r => (cacheDataBytes r, cycles r)) a := by
  rw [(pareto_perm rows).mem_iff, List.mem_filter, decide_eq_true_eq, dominated_iff, minimalFor_iff]

/-- **The frontier.** Of distinct rows, `pareto` returns those that no other row dominates, each of them once. Each other
row is dominated by one that it returns. The bytes never fall along the result, and from one pair of bytes and cycles to
a different one the bytes rise and the cycles fall. -/
theorem pareto_frontier (cacheDataBytes cycles : α → ℤ) {rows : List α} (h : rows.Nodup) :
    (∀ a, a ∈ pareto cacheDataBytes cycles rows ↔
      a ∈ rows ∧ ¬ ∃ b ∈ rows, b ≠ a ∧ Dominates cacheDataBytes cycles b a) ∧
    (pareto cacheDataBytes cycles rows).Nodup ∧
    (∀ a ∈ rows, a ∉ pareto cacheDataBytes cycles rows →
      ∃ b ∈ pareto cacheDataBytes cycles rows, Dominates cacheDataBytes cycles b a) ∧
    (pareto cacheDataBytes cycles rows).Pairwise fun a b =>
      cacheDataBytes a = cacheDataBytes b ∧ cycles a = cycles b ∨
        cacheDataBytes a < cacheDataBytes b ∧ cycles b < cycles a := by
  refine ⟨?_, ?_, ?_, ?_⟩
  · intro a
    have hother : ∀ b, b ≠ a ∧ Dominates cacheDataBytes cycles b a ↔ Dominates cacheDataBytes cycles b a :=
      fun b => and_iff_right_of_imp Dominates.ne
    simp only [hother]
    exact mem_pareto.trans minimalFor_iff
  · exact (pareto_perm rows).nodup_iff.2 (h.filter _)
  · intro a ha hout
    obtain ⟨b, hb, hlt⟩ := exists_minimalFor_lt ha (mt mem_pareto.2 hout)
    exact ⟨b, mem_pareto.2 hb, dominates_iff.2 hlt⟩
  · have hsorted : (pareto cacheDataBytes cycles rows).Pairwise fun a b =>
        sortKey cacheDataBytes cycles a ≤ sortKey cacheDataBytes cycles b := pairwise_sortedBy _ _
    refine hsorted.imp_of_mem fun ha hb hle => ?_
    exact (antitone_of_minimalFor (mem_pareto.1 ha).1 (mem_pareto.1 hb) hle).imp_left Prod.mk.inj

/-- four rows, two of them with equal values; the last one is dominated -/
theorem pareto_frontier_ties :
    let rows : List (ℕ × ℤ × ℤ) := [(0, 8, 50), (1, 4, 90), (2, 8, 50), (3, 8, 70)]
    (pareto (·.2.1) (·.2.2) rows).Nodup ∧ pareto (·.2.1) (·.2.2) rows = [(1, 4, 90), (0, 8, 50), (2, 8, 50)] :=
  ⟨(pareto_frontier (fun r : ℕ × ℤ × ℤ => r.2.1) (fun r => r.2.2) (by decide)).2.1, by decide⟩

end Milestone6a

end Rv32im
