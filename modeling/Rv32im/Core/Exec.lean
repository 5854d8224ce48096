/-
Calls that return, throw or never return, over a mutable state.

An exception does not roll the state back: what was written before the throw stays written. A call that never
returns has no result at all. `Exec ε σ α` is the resulting state monad; nothing here depends on a program.

- `Outcome.returned`, `Outcome.thrown`: what is behind a call, where it returned or threw.
- `bind_ok`, `bind_throw`, `bind_diverge`: what a sequence of calls can do, from what its parts can do.
- `iter`: n consecutive calls, all of which return normally.
- `iter_inv`: an invariant of one call is an invariant of n calls.
- `iter_rel`: a relation preserved by one call of each of two machines is preserved by n calls of each.
- `iter_follows`: a machine that follows each call of another one follows n calls of it.
- `NoThrow.bind`: a sequence of calls that never throw never throws.
- `zoom_bind`: a sequence of calls on a part of the state is a sequence of calls on the state.
- `log`, `log_inv`, `log_rel`: what n calls leave in a log, its invariants, and the logs of related runs.
- `Called`: the states reached by any calls, normal or throwing. `Tallied` also counts throws of one kind.
-/
import Mathlib.Tactic

/-- what one call does: it returns, or throws (keeping the state written so far), or never returns -/
inductive Outcome (ε σ α : Type) where
  | ok (a : α) (s : σ)
  | throw (e : ε) (s : σ)
  | diverge
deriving DecidableEq, Repr

def Exec (ε σ α : Type) := σ → Outcome ε σ α

/-- go on with `f` where the call returned -/
def Outcome.andThen {ε σ α β : Type} (o : Outcome ε σ α) (f : α → Exec ε σ β) : Outcome ε σ β :=
  match o with
  | .ok a t => f a t
  | .throw e t => .throw e t
  | .diverge => .diverge

/-- what a call returns, with the state behind it -/
def Outcome.returned {ε σ α : Type} (o : Outcome ε σ α) : Option (α × σ) :=
  match o with
  | .ok a t => some (a, t)
  | _ => none

/-- what a call throws, with the state behind it -/
def Outcome.thrown {ε σ α : Type} (o : Outcome ε σ α) : Option (ε × σ) :=
  match o with
  | .throw e t => some (e, t)
  | _ => none

theorem Outcome.returned_eq_some {ε σ α : Type} {o : Outcome ε σ α} {a : α} {t : σ} :
    o.returned = some (a, t) ↔ o = .ok a t := by
  cases o <;> simp [Outcome.returned]

theorem Outcome.thrown_eq_some {ε σ α : Type} {o : Outcome ε σ α} {e : ε} {t : σ} :
    o.thrown = some (e, t) ↔ o = .throw e t := by
  cases o <;> simp [Outcome.thrown]

namespace Exec

variable {ε σ τ α β : Type}

instance : Monad (Exec ε σ) where
  pure a := fun s => .ok a s
  bind m f := fun s => (m s).andThen f

def get : Exec ε σ σ := fun s => .ok s s

def modify (f : σ → σ) : Exec ε σ Unit := fun s => .ok () (f s)

def raise (e : ε) : Exec ε σ α := fun s => .throw e s

def hang : Exec ε σ α := fun _ => .diverge

def throwIf (c : Prop) [Decidable c] (e : ε) : Exec ε σ Unit := if c then raise e else pure ()

/-- a call that reads and writes no state -/
def lift (x : Except ε α) : Exec ε σ α := fun s =>
  match x with
  | .ok a => .ok a s
  | .error e => .throw e s

/-- run a call on a part of the state -/
def zoom (view : σ → τ) (put : τ → σ → σ) (m : Exec ε τ α) : Exec ε σ α := fun s =>
  match m (view s) with
  | .ok a t => .ok a (put t s)
  | .throw e t => .throw e (put t s)
  | .diverge => .diverge

/-- any exception of the call becomes `e` -/
def rethrow {ε' : Type} (e : ε') (m : Exec ε σ α) : Exec ε' σ α := fun s =>
  match m s with
  | .ok a t => .ok a t
  | .throw _ t => .throw e t
  | .diverge => .diverge

/-! ## What each call can do -/

theorem bind_apply (m : Exec ε σ α) (f : α → Exec ε σ β) (s : σ) : (m >>= f) s = (m s).andThen f := rfl

@[simp] theorem andThen_ok (f : α → Exec ε σ β) (a : α) (t : σ) : (Outcome.ok a t).andThen f = f a t := rfl
@[simp] theorem andThen_throw (f : α → Exec ε σ β) (e : ε) (t : σ) :
    (Outcome.throw e t : Outcome ε σ α).andThen f = .throw e t := rfl
@[simp] theorem andThen_diverge (f : α → Exec ε σ β) : (Outcome.diverge : Outcome ε σ α).andThen f = .diverge := rfl

instance : LawfulMonad (Exec ε σ) := LawfulMonad.mk' _
  (fun x => by
    funext s
    show (x s).andThen _ = x s
    cases x s <;> rfl)
  (fun _ _ => rfl)
  (fun x f g => by
    funext s
    show ((x s).andThen f).andThen g = (x s).andThen _
    cases x s <;> rfl)

theorem bind_ok {m : Exec ε σ α} {f : α → Exec ε σ β} {s t : σ} {b : β} :
    (m >>= f) s = .ok b t ↔ ∃ a u, m s = .ok a u ∧ f a u = .ok b t := by
  rw [bind_apply]
  cases m s <;> simp

theorem bind_throw {m : Exec ε σ α} {f : α → Exec ε σ β} {s t : σ} {e : ε} :
    (m >>= f) s = .throw e t ↔ m s = .throw e t ∨ ∃ a u, m s = .ok a u ∧ f a u = .throw e t := by
  rw [bind_apply]
  cases m s <;> simp

theorem bind_diverge {m : Exec ε σ α} {f : α → Exec ε σ β} {s : σ} :
    (m >>= f) s = .diverge ↔ m s = .diverge ∨ ∃ a u, m s = .ok a u ∧ f a u = .diverge := by
  rw [bind_apply]
  cases m s <;> simp

@[simp] theorem pure_apply (a : α) (s : σ) : (pure a : Exec ε σ α) s = .ok a s := rfl
@[simp] theorem get_apply (s : σ) : (get : Exec ε σ σ) s = .ok s s := rfl
@[simp] theorem modify_apply (f : σ → σ) (s : σ) : (modify f : Exec ε σ Unit) s = .ok () (f s) := rfl
@[simp] theorem raise_apply (e : ε) (s : σ) : (raise e : Exec ε σ α) s = .throw e s := rfl
@[simp] theorem hang_apply (s : σ) : (hang : Exec ε σ α) s = .diverge := rfl

/-- a sequence of calls without a state -/
theorem except_bind_ok {x : Except ε α} {f : α → Except ε β} {b : β} :
    (x >>= f) = .ok b ↔ ∃ a, x = .ok a ∧ f a = .ok b := by
  cases x <;> simp [bind, Except.bind]

@[simp] theorem lift_ok {x : Except ε α} {s t : σ} {a : α} :
    (lift x : Exec ε σ α) s = .ok a t ↔ x = .ok a ∧ s = t := by
  cases x <;> simp [lift]

@[simp] theorem lift_throw {x : Except ε α} {s t : σ} {e : ε} :
    (lift x : Exec ε σ α) s = .throw e t ↔ x = .error e ∧ s = t := by
  cases x <;> simp [lift]

@[simp] theorem lift_diverge {x : Except ε α} {s : σ} : (lift x : Exec ε σ α) s ≠ .diverge := by
  cases x <;> simp [lift]

@[simp] theorem throwIf_ok {c : Prop} [Decidable c] {e : ε} {s t : σ} {a : Unit} :
    (throwIf c e : Exec ε σ Unit) s = .ok a t ↔ ¬ c ∧ s = t := by
  unfold throwIf; split_ifs with h <;> simp [h]

@[simp] theorem throwIf_throw {c : Prop} [Decidable c] {e e' : ε} {s t : σ} :
    (throwIf c e : Exec ε σ Unit) s = .throw e' t ↔ c ∧ e = e' ∧ s = t := by
  unfold throwIf; split_ifs with h <;> simp [h]

@[simp] theorem throwIf_diverge {c : Prop} [Decidable c] {e : ε} {s : σ} :
    (throwIf c e : Exec ε σ Unit) s ≠ .diverge := by
  unfold throwIf; split_ifs <;> simp

theorem zoom_ok {view : σ → τ} {put : τ → σ → σ} {m : Exec ε τ α} {s t : σ} {a : α} :
    zoom view put m s = .ok a t ↔ ∃ u, m (view s) = .ok a u ∧ t = put u s := by
  unfold zoom; cases m (view s) <;> simp [eq_comm]

theorem zoom_throw {view : σ → τ} {put : τ → σ → σ} {m : Exec ε τ α} {s t : σ} {e : ε} :
    zoom view put m s = .throw e t ↔ ∃ u, m (view s) = .throw e u ∧ t = put u s := by
  unfold zoom; cases m (view s) <;> simp [eq_comm]

theorem zoom_diverge {view : σ → τ} {put : τ → σ → σ} {m : Exec ε τ α} {s : σ} :
    zoom view put m s = .diverge ↔ m (view s) = .diverge := by
  unfold zoom; cases m (view s) <;> simp

theorem rethrow_ok {ε' : Type} {e : ε'} {m : Exec ε σ α} {s t : σ} {a : α} :
    rethrow e m s = .ok a t ↔ m s = .ok a t := by
  unfold rethrow; cases m s <;> simp

theorem rethrow_diverge {ε' : Type} {e : ε'} {m : Exec ε σ α} {s : σ} :
    rethrow e m s = .diverge ↔ m s = .diverge := by
  unfold rethrow; cases m s <;> simp

/-- a part that is read back as it was written -/
structure Lens (view : σ → τ) (put : τ → σ → σ) : Prop where
  view_put : ∀ u s, view (put u s) = u
  put_view : ∀ s, put (view s) s = s
  put_put : ∀ u v s, put u (put v s) = put u s

theorem zoom_pure {view : σ → τ} {put : τ → σ → σ} (h : Lens view put) (a : α) :
    (zoom view put (pure a : Exec ε τ α)) = pure a := by
  funext s
  simp [zoom, h.put_view]

theorem zoom_bind {view : σ → τ} {put : τ → σ → σ} (h : Lens view put) (m : Exec ε τ α) (f : α → Exec ε τ β) :
    zoom view put (m >>= f) = zoom view put m >>= fun a => zoom view put (f a) := by
  funext s
  simp only [bind_apply]
  cases hm : m (view s) with
  | ok a u =>
    simp only [andThen_ok, zoom, bind_apply, hm, h.view_put]
    cases f a u <;> simp [h.put_put]
  | throw e u => simp only [andThen_throw, zoom, bind_apply, hm]
  | diverge => simp only [andThen_diverge, zoom, bind_apply, hm]

/-! ## Calls that never throw -/

def NoThrow (m : Exec ε σ α) : Prop := ∀ s e t, m s ≠ .throw e t

theorem noThrow_pure (a : α) : NoThrow (pure a : Exec ε σ α) := by
  intro s e t h
  cases h

theorem noThrow_modify (f : σ → σ) : NoThrow (modify f : Exec ε σ Unit) := by
  intro s e t h
  cases h

theorem noThrow_get : NoThrow (get : Exec ε σ σ) := by
  intro s e t h
  cases h

theorem NoThrow.bind {m : Exec ε σ α} {f : α → Exec ε σ β} (hm : NoThrow m) (hf : ∀ a, NoThrow (f a)) :
    NoThrow (m >>= f) := by
  intro s e t h
  rcases bind_throw.1 h with h | ⟨a, u, -, h⟩
  · exact hm s e t h
  · exact hf a u e t h

theorem NoThrow.zoom {view : σ → τ} {put : τ → σ → σ} {m : Exec ε τ α} (hm : NoThrow m) :
    NoThrow (zoom view put m) := by
  intro s e t h
  obtain ⟨u, h, -⟩ := zoom_throw.1 h
  exact hm _ e u h

/-! ## Consecutive calls -/

/-- the state after n calls, if all of them return normally -/
def iter (m : Exec ε σ α) : ℕ → σ → Option σ
  | 0, s => some s
  | n + 1, s =>
    match m s with
    | .ok _ t => iter m n t
    | _ => none

@[simp] theorem iter_zero (m : Exec ε σ α) (s : σ) : iter m 0 s = some s := rfl

theorem iter_succ {m : Exec ε σ α} {n : ℕ} {s t : σ} :
    iter m (n + 1) s = some t ↔ ∃ a u, m s = .ok a u ∧ iter m n u = some t := by
  simp only [iter]
  cases m s <;> simp

theorem iter_add {m : Exec ε σ α} (n k : ℕ) {s t : σ} :
    iter m (n + k) s = some t ↔ ∃ u, iter m n s = some u ∧ iter m k u = some t := by
  induction n generalizing s with
  | zero => simp
  | succ n ih =>
    rw [Nat.succ_add_eq_add_succ, Nat.add_succ, iter_succ]
    simp only [iter_succ, ih]
    refine ⟨?_, ?_⟩
    · intro ⟨a, v, h1, u, h2, h3⟩; exact ⟨u, ⟨a, v, h1, h2⟩, h3⟩
    · intro ⟨u, ⟨a, v, h1, h2⟩, h3⟩; exact ⟨a, v, h1, u, h2, h3⟩

/-- the last of n + 1 calls -/
theorem iter_snoc {m : Exec ε σ α} {n : ℕ} {s t : σ} :
    iter m (n + 1) s = some t ↔ ∃ u a, iter m n s = some u ∧ m u = .ok a t := by
  rw [iter_add n 1]
  simp only [iter_succ, iter_zero, Option.some.injEq]
  refine ⟨?_, ?_⟩
  · rintro ⟨u, h1, a, v, h2, rfl⟩; exact ⟨u, a, h1, h2⟩
  · rintro ⟨u, a, h1, h2⟩; exact ⟨u, h1, a, t, h2, rfl⟩

theorem iter_inv {m : Exec ε σ α} {P : σ → Prop} (hstep : ∀ s a t, P s → m s = .ok a t → P t) {n : ℕ} {s t : σ}
    (h : iter m n s = some t) (hs : P s) : P t := by
  induction n generalizing s with
  | zero => cases h; exact hs
  | succ n ih =>
    obtain ⟨a, u, h1, h2⟩ := iter_succ.1 h
    exact ih h2 (hstep s a u hs h1)

theorem iter_rel {m : Exec ε σ α} {m' : Exec ε τ β} {R : σ → τ → Prop}
    (hstep : ∀ s s' a a' t t', R s s' → m s = .ok a t → m' s' = .ok a' t' → R t t') {n : ℕ} {s t : σ} {s' t' : τ}
    (h : iter m n s = some t) (h' : iter m' n s' = some t') (hs : R s s') : R t t' := by
  induction n generalizing s s' with
  | zero => cases h; cases h'; exact hs
  | succ n ih =>
    obtain ⟨a, u, h1, h2⟩ := iter_succ.1 h
    obtain ⟨a', u', h1', h2'⟩ := iter_succ.1 h'
    exact ih h2 h2' (hstep s s' a a' u u' hs h1 h1')

/-- where the calls of one machine return, so do those of another one that follows it -/
theorem iter_follows {m : Exec ε σ α} {m' : Exec ε τ β} {R : σ → τ → Prop}
    (hstep : ∀ s s' a t, R s s' → m s = .ok a t → ∃ b t', m' s' = .ok b t' ∧ R t t') {n : ℕ} {s t : σ} {s' : τ}
    (ht : iter m n s = some t) (h : R s s') : ∃ t', iter m' n s' = some t' ∧ R t t' := by
  induction n generalizing s s' with
  | zero =>
    obtain rfl := Option.some.inj ht
    exact ⟨s', rfl, h⟩
  | succ n ih =>
    obtain ⟨a, u, hs, hu⟩ := iter_succ.1 ht
    obtain ⟨b, u', hs', hR⟩ := hstep s s' a u h hs
    obtain ⟨t', ht', hlast⟩ := ih hu hR
    exact ⟨t', iter_succ.2 ⟨b, u', hs', ht'⟩, hlast⟩

/-! ## What consecutive calls leave in a log -/

variable {γ : Type}

/-- the log of n calls that return: `f` says what one call adds to it -/
def log (m : Exec ε σ α) (f : σ → σ → List γ) : ℕ → σ → List γ
  | 0, _ => []
  | n + 1, s =>
    match m s with
    | .ok _ t => f s t ++ log m f n t
    | _ => []

theorem log_snoc {m : Exec ε σ α} (f : σ → σ → List γ) {n : ℕ} {s u t : σ} {a : α} (h : iter m n s = some u)
    (ht : m u = .ok a t) : log m f (n + 1) s = log m f n s ++ f u t := by
  induction n generalizing s with
  | zero =>
    cases h
    simp [log, ht]
  | succ n ih =>
    obtain ⟨b, v, h1, h2⟩ := iter_succ.1 h
    have hlog : ∀ k, log m f (k + 1) s = f s v ++ log m f k v := by
      intro k
      simp only [log, h1]
    rw [hlog, hlog, ih h2, List.append_assoc]

/-- an invariant of the state and the log so far -/
theorem log_inv {m : Exec ε σ α} {f : σ → σ → List γ} {P : σ → List γ → Prop}
    (hstep : ∀ u a t l, P u l → m u = .ok a t → P t (l ++ f u t)) {n : ℕ} {s t : σ} (h : iter m n s = some t)
    (hs : P s []) : P t (log m f n s) := by
  induction n generalizing t with
  | zero =>
    cases h
    exact hs
  | succ n ih =>
    obtain ⟨u, a, h1, h2⟩ := iter_snoc.1 h
    rw [log_snoc f h1 h2]
    exact hstep u a t _ (ih h1) h2

/-- related runs that log the same in every call have the same log -/
theorem log_rel {m : Exec ε σ α} {m' : Exec ε τ β} {f : σ → σ → List γ} {f' : τ → τ → List γ} {R : σ → τ → Prop}
    (hstep : ∀ s s' a a' t t', R s s' → m s = .ok a t → m' s' = .ok a' t' → R t t' ∧ f s t = f' s' t') {n : ℕ}
    {s t : σ} {s' t' : τ} (h : iter m n s = some t) (h' : iter m' n s' = some t') (hs : R s s') :
    log m f n s = log m' f' n s' := by
  induction n generalizing s s' with
  | zero => rfl
  | succ n ih =>
    obtain ⟨a, u, h1, h2⟩ := iter_succ.1 h
    obtain ⟨a', u', h1', h2'⟩ := iter_succ.1 h'
    obtain ⟨hr, hf⟩ := hstep s s' a a' u u' hs h1 h1'
    simp only [log, h1, h1']
    rw [hf, ih h2 h2' hr]

/-- the states reached from `s` by calls of `m`, whether they return or throw -/
inductive Called (m : Exec ε σ α) (s : σ) : σ → Prop where
  | start : Called m s s
  | ok {t u : σ} {a : α} : Called m s t → m t = .ok a u → Called m s u
  | throw {t u : σ} {e : ε} : Called m s t → m t = .throw e u → Called m s u

theorem Called.of_iter {m : Exec ε σ α} {n : ℕ} {s t : σ} (h : iter m n s = some t) : Called m s t := by
  induction n generalizing t with
  | zero =>
    cases h
    exact .start
  | succ n ih =>
    obtain ⟨u, a, h1, h2⟩ := iter_snoc.1 h
    exact (ih h1).ok h2

/-- the states reached by any calls, with the number of throws from states that satisfy P -/
inductive Tallied (m : Exec ε σ α) (P : σ → Prop) (s : σ) : ℕ → σ → Prop where
  | start : Tallied m P s 0 s
  | ok {n : ℕ} {t u : σ} {a : α} : Tallied m P s n t → m t = .ok a u → Tallied m P s n u
  | throw {n : ℕ} {t u : σ} {e : ε} : Tallied m P s n t → ¬ P t → m t = .throw e u → Tallied m P s n u
  | marked {n : ℕ} {t u : σ} {e : ε} : Tallied m P s n t → P t → m t = .throw e u → Tallied m P s (n + 1) u

/-- every state that calls reach has a tally -/
theorem Called.tallied {m : Exec ε σ α} {s t : σ} (h : Called m s t) (P : σ → Prop) : ∃ n, Tallied m P s n t := by
  induction h with
  | start => exact ⟨0, .start⟩
  | ok _ hstep ih =>
    obtain ⟨n, hn⟩ := ih
    exact ⟨n, hn.ok hstep⟩
  | throw _ hstep ih =>
    rename_i t u e _
    obtain ⟨n, hn⟩ := ih
    by_cases hP : P t
    · exact ⟨n + 1, hn.marked hP hstep⟩
    · exact ⟨n, hn.throw hP hstep⟩

end Exec
