/-
`collections.Counter`: counts of values, in the order in which the values were first seen.

- `count_tally`: the count of a value is the number of its occurrences.
- `total_tally`: the counts add up to the number of values.
- `nodup_tally`, `count_of_mem`: each value is listed once, with its count.
- `mostCommon_sorted`: `most_common` lists the same counts, the largest first.
-/
import Mathlib.Data.List.Count
import Mathlib.Data.List.Sort
import Mathlib.Tactic.Common

/-- the values with their counts -/
abbrev Counter (α : Type) := List (α × ℕ)

namespace Counter

variable {α : Type}

def total : Counter α → ℕ
  | [] => 0
  | p :: c => p.2 + total c

/-- `counter.most_common()`, a stable sort -/
def mostCommon (c : Counter α) : Counter α := c.mergeSort fun p q => q.2 ≤ p.2

theorem mostCommon_perm (c : Counter α) : c.mostCommon.Perm c := List.mergeSort_perm _ _

theorem mostCommon_sorted (c : Counter α) : c.mostCommon.Pairwise fun p q => q.2 ≤ p.2 := by
  have htrans : ∀ p q r : α × ℕ, decide (q.2 ≤ p.2) = true → decide (r.2 ≤ q.2) = true → decide (r.2 ≤ p.2) = true := by
    intro p q r hpq hqr
    simp only [decide_eq_true_eq] at hpq hqr ⊢
    exact hqr.trans hpq
  have htotal : ∀ p q : α × ℕ, (decide (q.2 ≤ p.2) || decide (p.2 ≤ q.2)) = true := by
    intro p q
    simp only [Bool.or_eq_true, decide_eq_true_eq]
    exact le_total q.2 p.2
  have hsorted := List.pairwise_mergeSort htrans htotal c
  exact hsorted.imp of_decide_eq_true

section

variable [DecidableEq α]

/-- `counter[a] += 1` -/
def bump (a : α) : Counter α → Counter α
  | [] => [(a, 1)]
  | (b, n) :: c => if a = b then (b, n + 1) :: c else (b, n) :: bump a c

/-- `counter[a]` -/
def count (c : Counter α) (a : α) : ℕ :=
  match c.find? (fun p => p.1 = a) with
  | some p => p.2
  | none => 0

/-- all values of a list, counted in front of it -/
def tally (c : Counter α) (l : List α) : Counter α := l.foldl (fun c a => bump a c) c

theorem count_cons (p : α × ℕ) (c : Counter α) (b : α) : count (p :: c) b = if p.1 = b then p.2 else count c b := by
  unfold count
  rw [List.find?_cons]
  by_cases h : p.1 = b
  · simp [h]
  · simp [h]

theorem count_bump (c : Counter α) (a b : α) : (bump a c).count b = c.count b + if a = b then 1 else 0 := by
  induction c with
  | nil =>
    rw [bump, count_cons]
    exact (Nat.zero_add _).symm
  | cons p c ih =>
    obtain ⟨d, n⟩ := p
    rw [bump]
    by_cases hd : a = d
    · subst hd
      rw [if_pos rfl, count_cons, count_cons]
      by_cases hb : a = b <;> simp [hb]
    · rw [if_neg hd, count_cons, count_cons, ih]
      by_cases hb : d = b
      · have hab : a ≠ b := fun h => hd (h.trans hb.symm)
        simp [hb, hab]
      · simp [hb]

theorem total_bump (c : Counter α) (a : α) : (bump a c).total = c.total + 1 := by
  induction c with
  | nil => rfl
  | cons p c ih =>
    obtain ⟨d, n⟩ := p
    rw [bump]
    split_ifs
    · exact Nat.add_right_comm n 1 (total c)
    · exact (congrArg (n + ·) ih).trans (Nat.add_assoc n (total c) 1).symm

/-- **The count of a value** is the number of its occurrences. -/
theorem count_tally (c : Counter α) (l : List α) (b : α) : (tally c l).count b = c.count b + l.count b := by
  induction l generalizing c with
  | nil => rfl
  | cons a l ih =>
    calc (tally c (a :: l)).count b = (tally (bump a c) l).count b := rfl
      _ = c.count b + (if a = b then 1 else 0) + l.count b := by rw [ih, count_bump]
      _ = c.count b + (a :: l).count b := by
        rw [List.count_cons]
        simp only [beq_iff_eq]
        omega

theorem mem_keys_bump {c : Counter α} {a b : α} : b ∈ (bump a c).map Prod.fst ↔ b = a ∨ b ∈ c.map Prod.fst := by
  induction c with
  | nil => simp [bump]
  | cons p c ih =>
    obtain ⟨d, n⟩ := p
    rw [bump]
    by_cases hd : a = d
    · subst hd
      simp
    · rw [if_neg hd, List.map_cons, List.mem_cons, ih, List.map_cons, List.mem_cons]
      exact or_left_comm

theorem nodup_bump {c : Counter α} (h : (c.map Prod.fst).Nodup) (a : α) : ((bump a c).map Prod.fst).Nodup := by
  induction c with
  | nil => exact List.nodup_singleton a
  | cons p c ih =>
    obtain ⟨d, n⟩ := p
    obtain ⟨hd, hc⟩ := List.nodup_cons.1 h
    rw [bump]
    by_cases had : a = d
    · rw [if_pos had]
      exact h
    · rw [if_neg had]
      refine List.nodup_cons.2 ⟨?_, ih hc⟩
      intro hmem
      rcases mem_keys_bump.1 hmem with heq | hold
      · exact had heq.symm
      · exact hd hold

/-- every value is listed once -/
theorem nodup_tally {c : Counter α} (h : (c.map Prod.fst).Nodup) (l : List α) : ((tally c l).map Prod.fst).Nodup := by
  induction l generalizing c with
  | nil => exact h
  | cons a l ih => exact ih (nodup_bump h a)

/-- a listed value has its count beside it -/
theorem count_of_mem {c : Counter α} (h : (c.map Prod.fst).Nodup) {p : α × ℕ} (hp : p ∈ c) : c.count p.1 = p.2 := by
  induction c with
  | nil => cases hp
  | cons q c ih =>
    obtain ⟨hq, hc⟩ := List.nodup_cons.1 h
    rw [count_cons]
    rcases List.mem_cons.1 hp with rfl | hmem
    · exact if_pos rfl
    · have hne : q.1 ≠ p.1 := fun heq => hq (heq ▸ List.mem_map_of_mem hmem)
      rw [if_neg hne, ih hc hmem]

theorem total_tally (c : Counter α) (l : List α) : (tally c l).total = c.total + l.length := by
  induction l generalizing c with
  | nil => rfl
  | cons a l ih =>
    calc (tally c (a :: l)).total = (tally (bump a c) l).total := rfl
      _ = c.total + 1 + l.length := by rw [ih, total_bump]
      _ = c.total + (a :: l).length := by rw [List.length_cons, Nat.add_assoc, Nat.add_comm 1]

end

end Counter
