/-
Two machines whose calls have the same outcomes.

`Related R m m'` says: from states in `R`, both calls return the same value, or both throw the same exception, or neither
returns, and the states afterwards are in `R` again. Nothing here depends on a program.

- `Related.bind`, `related_get_bind`, `Related.zoom` and the rules for the primitive calls: a call is related part by
  part.
- `Related.refl`: a call is related to itself by any relation that the states satisfy by being equal.
-/
import Rv32im.Core.Exec

namespace Outcome

variable {ε σ τ α : Type}

/-- the same value, the same exception or no return at all, in related states -/
def Matches (R : σ → τ → Prop) : Outcome ε σ α → Outcome ε τ α → Prop
  | .ok a s, .ok b t => a = b ∧ R s t
  | .throw e s, .throw f t => e = f ∧ R s t
  | .diverge, .diverge => True
  | _, _ => False

theorem Matches.cases {R : σ → τ → Prop} {o : Outcome ε σ α} {o' : Outcome ε τ α} (h : o.Matches R o') :
    (∃ a s t, o = .ok a s ∧ o' = .ok a t ∧ R s t) ∨ (∃ e s t, o = .throw e s ∧ o' = .throw e t ∧ R s t) ∨
      o = .diverge ∧ o' = .diverge := by
  cases o with
  | ok a s =>
    cases o' with
    | ok b t =>
      obtain ⟨rfl, hR⟩ := h
      exact Or.inl ⟨a, s, t, rfl, rfl, hR⟩
    | throw e t => exact h.elim
    | diverge => exact h.elim
  | throw e s =>
    cases o' with
    | ok b t => exact h.elim
    | throw f t =>
      obtain ⟨rfl, hR⟩ := h
      exact Or.inr (Or.inl ⟨e, s, t, rfl, rfl, hR⟩)
    | diverge => exact h.elim
  | diverge =>
    cases o' with
    | ok b t => exact h.elim
    | throw f t => exact h.elim
    | diverge => exact Or.inr (Or.inr ⟨rfl, rfl⟩)

end Outcome

namespace Exec

variable {ε σ τ σ' τ' α β : Type} {R : σ → τ → Prop}

def Related (R : σ → τ → Prop) (m : Exec ε σ α) (m' : Exec ε τ α) : Prop := ∀ s t, R s t → (m s).Matches R (m' t)

theorem related_pure (a : α) : Related R (pure a : Exec ε σ α) (pure a) := by
  intro s t h
  exact ⟨rfl, h⟩

theorem related_raise (e : ε) : Related R (raise e : Exec ε σ α) (raise e) := by
  intro s t h
  exact ⟨rfl, h⟩

theorem related_modify {f : σ → σ} {g : τ → τ} (hfg : ∀ s t, R s t → R (f s) (g t)) :
    Related R (modify f : Exec ε σ Unit) (modify g) := by
  intro s t h
  exact ⟨rfl, hfg s t h⟩

theorem related_lift (x : Except ε α) : Related R (lift x) (lift x) := by
  intro s t h
  cases x with
  | ok a => exact ⟨rfl, h⟩
  | error e => exact ⟨rfl, h⟩

theorem related_throwIf {c d : Prop} [Decidable c] [Decidable d] (h : c ↔ d) (e : ε) :
    Related R (throwIf c e) (throwIf d e) := by
  unfold throwIf
  by_cases hc : c
  · rw [if_pos hc, if_pos (h.1 hc)]
    exact related_raise e
  · rw [if_neg hc, if_neg fun hd => hc (h.2 hd)]
    exact related_pure ()

theorem Related.bind {m : Exec ε σ α} {m' : Exec ε τ α} {f : α → Exec ε σ β} {f' : α → Exec ε τ β}
    (hm : Related R m m') (hf : ∀ a, Related R (f a) (f' a)) : Related R (m >>= f) (m' >>= f') := by
  intro s t h
  rw [bind_apply, bind_apply]
  rcases (hm s t h).cases with ⟨a, u, v, hs, ht, huv⟩ | ⟨e, u, v, hs, ht, huv⟩ | ⟨hs, ht⟩
  · rw [hs, ht]
    exact hf a u v huv
  · rw [hs, ht]
    exact ⟨rfl, huv⟩
  · rw [hs, ht]
    trivial

/-- what is read may differ, as long as the calls behind it are related at the states read -/
theorem related_get_bind {f : σ → Exec ε σ β} {f' : τ → Exec ε τ β} (hf : ∀ s t, R s t → (f s s).Matches R (f' t t)) :
    Related R (get >>= f) (get >>= f') := by
  intro s t h
  exact hf s t h

theorem related_ite {c : Prop} [Decidable c] {m n : Exec ε σ α} {m' n' : Exec ε τ α} (hm : Related R m m')
    (hn : Related R n n') : Related R (if c then m else n) (if c then m' else n') := by
  split_ifs
  · exact hm
  · exact hn

/-- a call is related to itself when equal states are related -/
theorem Related.refl {R : σ → σ → Prop} (hR : ∀ s, R s s) (m : Exec ε σ α) (s : σ) : (m s).Matches R (m s) := by
  cases m s with
  | ok a t => exact ⟨rfl, hR t⟩
  | throw e t => exact ⟨rfl, hR t⟩
  | diverge => trivial

/-- related calls on parts are related on the whole -/
theorem Related.zoom {Q : σ' → τ' → Prop} {view : σ → σ'} {put : σ' → σ → σ} {view' : τ → τ'} {put' : τ' → τ → τ}
    (hview : ∀ s t, R s t → Q (view s) (view' t)) (hput : ∀ u v s t, Q u v → R s t → R (put u s) (put' v t))
    {m : Exec ε σ' α} {m' : Exec ε τ' α} (hm : Related Q m m') : Related R (Exec.zoom view put m)
      (Exec.zoom view' put' m') := by
  intro s t h
  unfold Exec.zoom
  rcases (hm _ _ (hview s t h)).cases with ⟨a, u, v, hs, ht, huv⟩ | ⟨e, u, v, hs, ht, huv⟩ | ⟨hs, ht⟩
  · rw [hs, ht]
    exact ⟨rfl, hput u v s t huv h⟩
  · rw [hs, ht]
    exact ⟨rfl, hput u v s t huv h⟩
  · rw [hs, ht]
    trivial

end Exec
