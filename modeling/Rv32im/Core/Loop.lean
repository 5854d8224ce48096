/-
Loops of calls: `while (!done) m();` over calls that may throw or never return.

`Exec.loop` runs the loop with fuel and never returns when the fuel is used up. `Path` is the list of turns that it
takes: n calls that return, each from a state that is not done.

- `loop_ok`, `loop_throw`, `loop_diverge`: what a loop can do, from its paths.
- `loop_fuel`: more fuel than the longest path changes nothing, so it is no bound on the loop.
- `Path.inv`: what a call keeps is kept along a path.
- `Path.simulated`: another loop takes a path of the same length, if its calls return where the ones of this loop do.
- `Path.iter`: the turns of a path are consecutive calls.
-/
import Rv32im.Core.Exec

namespace Exec

variable {ε σ α : Type}

/-- `while (!done) m();` with fuel -/
def loop (done : σ → Bool) (m : Exec ε σ α) : ℕ → Exec ε σ Unit
  | 0 => hang
  | k + 1 => fun s => if done s then .ok () s else (m s).andThen fun _ => loop done m k

/-- n turns of the loop, the first one from `s` -/
inductive Path (done : σ → Bool) (m : Exec ε σ α) : ℕ → σ → σ → Prop where
  | nil {s : σ} : Path done m 0 s s
  | cons {n : ℕ} {s u t : σ} {a : α} : done s = false → m s = .ok a u → Path done m n u t → Path done m (n + 1) s t

section Turns

variable {done : σ → Bool} {m : Exec ε σ α} {k n : ℕ} {s t u : σ}

theorem loop_of_done (h : done s = true) : loop done m (k + 1) s = .ok () s := if_pos h

theorem loop_of_live (h : done s = false) : loop done m (k + 1) s = (m s).andThen fun _ => loop done m k :=
  if_neg (by rw [h]; exact Bool.false_ne_true)

/-! ## Paths -/

theorem Path.snoc {a : α} (h : Path done m n s u) (hd : done u = false) (ht : m u = .ok a t) :
    Path done m (n + 1) s t := by
  induction h with
  | nil => exact .cons hd ht .nil
  | cons h1 h2 _ ih => exact .cons h1 h2 (ih hd ht)

/-- the last turn of a path -/
theorem Path.last (h : Path done m (n + 1) s t) : ∃ u a, Path done m n s u ∧ done u = false ∧ m u = .ok a t := by
  induction n generalizing s with
  | zero =>
    cases h with
    | cons hd hs hrest =>
      cases hrest
      exact ⟨s, _, .nil, hd, hs⟩
  | succ n ih =>
    cases h with
    | cons hd hs hrest =>
      obtain ⟨v, a, hv, hdv, ht⟩ := ih hrest
      exact ⟨v, a, .cons hd hs hv, hdv, ht⟩

theorem Path.iter (h : Path done m n s t) : Exec.iter m n s = some t := by
  induction h with
  | nil => rfl
  | cons _ hs _ ih => exact iter_succ.2 ⟨_, _, hs, ih⟩

theorem Path.inv {P : σ → Prop} (hstep : ∀ s a t, done s = false → P s → m s = .ok a t → P t)
    (h : Path done m n s t) (hs : P s) : P t := by
  induction h with
  | nil => exact hs
  | cons hd hm _ ih => exact ih (hstep _ _ _ hd hs hm)

/-- **Forward simulation** -/
theorem Path.simulated {ε' τ β : Type} {done' : τ → Bool} {m' : Exec ε' τ β} {R : σ → τ → Prop}
    (hstep : ∀ s s' a u, done s = false → m s = .ok a u → R s s' →
      done' s' = false ∧ ∃ b u', m' s' = .ok b u' ∧ R u u')
    (h : Path done m n s t) {s' : τ} (hR : R s s') : ∃ t', Path done' m' n s' t' ∧ R t t' := by
  induction h generalizing s' with
  | nil => exact ⟨s', .nil, hR⟩
  | cons hd hm _ ih =>
    obtain ⟨hlive, b, u', hm', hu⟩ := hstep _ _ _ _ hd hm hR
    obtain ⟨t', hpath, ht⟩ := ih hu
    exact ⟨t', .cons hlive hm' hpath, ht⟩

/-! ## What a loop can do -/

/-- **A loop returns** along a path to a state that is done. -/
theorem loop_ok {a : Unit} : loop done m k s = .ok a t ↔ ∃ n < k, Path done m n s t ∧ done t = true := by
  induction k generalizing s with
  | zero => simp [loop]
  | succ k ih =>
    cases hd : done s with
    | true =>
      rw [loop_of_done hd]
      refine ⟨?_, ?_⟩
      · intro h
        cases h
        exact ⟨0, Nat.succ_pos k, .nil, hd⟩
      · rintro ⟨n, -, hp, -⟩
        cases hp with
        | nil => rfl
        | cons hlive _ _ => exact absurd (hd.symm.trans hlive) Bool.noConfusion
    | false =>
      rw [loop_of_live hd]
      refine ⟨?_, ?_⟩
      · intro h
        obtain ⟨b, v, hv, hrest⟩ := bind_ok (f := fun _ => loop done m k).1 h
        obtain ⟨n, hn, hp, ht⟩ := ih.1 hrest
        exact ⟨n + 1, Nat.succ_lt_succ hn, .cons hd hv hp, ht⟩
      · rintro ⟨n, hn, hp, ht⟩
        cases hp with
        | nil => exact absurd (hd.symm.trans ht) Bool.noConfusion
        | cons _ hv hrest =>
          exact bind_ok (f := fun _ => loop done m k).2 ⟨_, _, hv, ih.2 ⟨_, Nat.lt_of_succ_lt_succ hn, hrest, ht⟩⟩

/-- **A loop throws** behind a path to a state that is not done. -/
theorem loop_throw {e : ε} :
    loop done m k s = .throw e t ↔ ∃ n < k, ∃ u, Path done m n s u ∧ done u = false ∧ m u = .throw e t := by
  induction k generalizing s with
  | zero => simp [loop]
  | succ k ih =>
    cases hd : done s with
    | true =>
      rw [loop_of_done hd]
      refine ⟨fun h => ?_, ?_⟩
      · cases h
      · rintro ⟨n, -, u, hp, hu, -⟩
        cases hp with
        | nil => exact absurd (hd.symm.trans hu) Bool.noConfusion
        | cons hlive _ _ => exact absurd (hd.symm.trans hlive) Bool.noConfusion
    | false =>
      rw [loop_of_live hd]
      refine ⟨?_, ?_⟩
      · intro h
        rcases bind_throw (f := fun _ => loop done m k).1 h with h | ⟨b, v, hv, hrest⟩
        · exact ⟨0, Nat.succ_pos k, s, .nil, hd, h⟩
        · obtain ⟨n, hn, u, hp, hu, ht⟩ := ih.1 hrest
          exact ⟨n + 1, Nat.succ_lt_succ hn, u, .cons hd hv hp, hu, ht⟩
      · rintro ⟨n, hn, u, hp, hu, ht⟩
        refine bind_throw (f := fun _ => loop done m k).2 ?_
        cases hp with
        | nil => exact Or.inl ht
        | cons _ hv hrest => exact Or.inr ⟨_, _, hv, ih.2 ⟨_, Nat.lt_of_succ_lt_succ hn, u, hrest, hu, ht⟩⟩

/-- **A loop does not return** behind a path to a call that does not, or when its fuel is used up. -/
theorem loop_diverge : loop done m k s = .diverge ↔
    (∃ n < k, ∃ u, Path done m n s u ∧ done u = false ∧ m u = .diverge) ∨ ∃ u, Path done m k s u := by
  induction k generalizing s with
  | zero => exact ⟨fun _ => Or.inr ⟨s, .nil⟩, fun _ => rfl⟩
  | succ k ih =>
    cases hd : done s with
    | true =>
      rw [loop_of_done hd]
      refine ⟨fun h => ?_, ?_⟩
      · cases h
      · rintro (⟨n, -, u, hp, hu, -⟩ | ⟨u, hp⟩)
        · cases hp with
          | nil => exact absurd (hd.symm.trans hu) Bool.noConfusion
          | cons hlive _ _ => exact absurd (hd.symm.trans hlive) Bool.noConfusion
        · cases hp with
          | cons hlive _ _ => exact absurd (hd.symm.trans hlive) Bool.noConfusion
    | false =>
      rw [loop_of_live hd]
      refine ⟨?_, ?_⟩
      · intro h
        rcases bind_diverge (f := fun _ => loop done m k).1 h with h | ⟨b, v, hv, hrest⟩
        · exact Or.inl ⟨0, Nat.succ_pos k, s, .nil, hd, h⟩
        · rcases ih.1 hrest with ⟨n, hn, u, hp, hu, ht⟩ | ⟨u, hp⟩
          · exact Or.inl ⟨n + 1, Nat.succ_lt_succ hn, u, .cons hd hv hp, hu, ht⟩
          · exact Or.inr ⟨u, .cons hd hv hp⟩
      · rintro (⟨n, hn, u, hp, hu, ht⟩ | ⟨u, hp⟩)
        · refine bind_diverge (f := fun _ => loop done m k).2 ?_
          cases hp with
          | nil => exact Or.inl ht
          | cons _ hv hrest =>
            exact Or.inr ⟨_, _, hv, ih.2 (Or.inl ⟨_, Nat.lt_of_succ_lt_succ hn, u, hrest, hu, ht⟩)⟩
        · cases hp with
          | cons _ hv hrest =>
            exact bind_diverge (f := fun _ => loop done m k).2 (Or.inr ⟨_, _, hv, ih.2 (Or.inr ⟨u, hrest⟩)⟩)

/-- **Fuel is no bound**: a loop whose paths are shorter than its fuel does the same with any more fuel. -/
theorem loop_fuel {l : ℕ} (h : ∀ n t, Path done m n s t → n < k) (hl : k ≤ l) : loop done m l s = loop done m k s := by
  have hshort : ¬ ∃ u, Path done m l s u := by
    rintro ⟨u, hp⟩
    exact absurd (h l u hp) (not_lt.2 hl)
  cases hk : loop done m k s with
  | ok a t =>
    obtain ⟨n, hn, hp, ht⟩ := loop_ok.1 hk
    exact loop_ok.2 ⟨n, hn.trans_le hl, hp, ht⟩
  | throw e t =>
    obtain ⟨n, hn, hrest⟩ := loop_throw.1 hk
    exact loop_throw.2 ⟨n, hn.trans_le hl, hrest⟩
  | diverge =>
    rcases loop_diverge.1 hk with ⟨n, hn, hrest⟩ | ⟨u, hp⟩
    · exact loop_diverge.2 (Or.inl ⟨n, hn.trans_le hl, hrest⟩)
    · exact absurd (h k u hp) (lt_irrefl k)

end Turns

end Exec
