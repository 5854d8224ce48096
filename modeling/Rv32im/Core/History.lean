/-
Histories of accesses to a direct-mapped store.

A history is the list of accesses so far, oldest first, each with its block and whether it marks. Nothing here depends
on a program.

- `run_entry`: what a store holds at an index is read off the history: the block of the last access at the index, and
  the block is dirty exactly when one of the accesses since it was brought in marks it.
- `ledger_access`: write-backs and dirty blocks are together the accesses that made a block dirty.
- `Ledger.writebacks_le`: a store with finer indices writes back at most as often. Its dirty blocks include those of the
  coarser one, so it makes a block dirty at most as often.
- `Paced.access`: both facts are kept by every access.
-/
import Mathlib.Data.List.DropRight
import Rv32im.Core.DirectMapped

namespace DirectMapped

/-- an access to a block -/
structure Access (α : Type) where
  block : α
  mark : Bool
deriving DecidableEq, Repr

section History

variable {ι α : Type} [DecidableEq ι] [DecidableEq α] (idx : α → ι)

/-- the store after a history -/
def run (c : Store ι α) (l : List (Access α)) : Store ι α := l.foldl (fun c x => access idx c x.block x.mark) c

/-- the accesses of a history at one index -/
def atIndex (i : ι) (l : List (Access α)) : List (Access α) := l.filter fun x => idx x.block = i

/-- the longest suffix of a list of accesses that all go to `b` -/
def unbroken (b : α) (l : List (Access α)) : List (Access α) := l.rtakeWhile fun x => x.block = b

variable {idx}

@[simp] theorem run_nil (c : Store ι α) : run idx c [] = c := rfl

theorem run_append (c : Store ι α) (l l' : List (Access α)) : run idx c (l ++ l') = run idx (run idx c l) l' := by
  simp [run, List.foldl_append]

theorem run_snoc (c : Store ι α) (l : List (Access α)) (x : Access α) :
    run idx c (l ++ [x]) = access idx (run idx c l) x.block x.mark := by
  rw [run_append]
  rfl

omit [DecidableEq α] in
theorem atIndex_snoc (i : ι) (l : List (Access α)) (x : Access α) :
    atIndex idx i (l ++ [x]) = if idx x.block = i then atIndex idx i l ++ [x] else atIndex idx i l := by
  unfold atIndex
  rw [List.filter_append, List.filter_singleton]
  split_ifs with h <;> simp [h]

theorem unbroken_snoc (b : α) (l : List (Access α)) (x : Access α) :
    unbroken b (l ++ [x]) = if x.block = b then unbroken b l ++ [x] else [] := by
  unfold unbroken
  rw [List.rtakeWhile_concat]
  simp

/-- the accesses since the last one to another block are none, when the last one is to another block -/
theorem unbroken_of_last_ne {b : α} {l : List (Access α)} {x : Access α} (h : l.getLast? = some x) (hne : x.block ≠ b) :
    unbroken b l = [] := by
  obtain ⟨l', rfl⟩ : ∃ l', l = l' ++ [x] := by
    rw [List.getLast?_eq_some_iff] at h
    exact h
  rw [unbroken_snoc, if_neg hne]

/-- **What a store holds is read off its history.** -/
theorem run_entry (l : List (Access α)) (i : ι) :
    run idx empty l i = (atIndex idx i l).getLast?.map fun x =>
      ⟨x.block, (unbroken x.block (atIndex idx i l)).any Access.mark⟩ := by
  -- the accesses one after the other, the newest last
  induction l using List.reverseRecOn with
  | nil => rfl
  | append_singleton l x ih =>
    rw [run_snoc, atIndex_snoc]
    by_cases hi : idx x.block = i
    · rw [if_pos hi, ← hi, access_self, List.getLast?_concat, Option.map_some, unbroken_snoc, if_pos rfl,
        List.any_append, List.any_cons, List.any_nil, Bool.or_false]
      subst hi
      congr 3
      -- the dirty bit of a block that is still there, or of a refill
      unfold isDirty
      rw [ih]
      cases hlast : (atIndex idx (idx x.block) l).getLast? with
      | none =>
        rw [List.getLast?_eq_none_iff] at hlast
        rw [hlast]
        rfl
      | some y =>
        rw [Option.map_some]
        by_cases hy : y.block = x.block
        · simp [hy]
        · simp [hy, unbroken_of_last_ne hlast hy]
    · rw [if_neg hi, access_of_ne _ _ _ (Ne.symm hi), ih]

/-! ## Write-backs are paid for by the accesses that made a block dirty -/

theorem isDirty_access {c : Store ι α} {a b : α} {mark : Bool} :
    isDirty idx (access idx c a mark) b = true ↔
      b = a ∧ (isDirty idx c a = true ∨ mark = true) ∨ idx b ≠ idx a ∧ isDirty idx c b = true := by
  by_cases h : idx b = idx a
  · by_cases hba : b = a
    · subst hba
      simp [isDirty_of_entry (access_self c b mark)]
    · have hgone : isDirty idx (access idx c a mark) b = false := by
        unfold isDirty
        rw [h, access_self]
        simp [Ne.symm hba]
      simp [hgone, h, hba]
  · have hba : b ≠ a := fun e => h (by rw [e])
    have hsame : isDirty idx (access idx c a mark) b = isDirty idx c b := by
      unfold isDirty
      rw [access_of_ne c a mark h]
    simp [hsame, h, hba]

/-- every block is at its index -/
def Indexed (idx : α → ι) (c : Store ι α) : Prop := ∀ i e, c i = some e → idx e.block = i

omit [DecidableEq α] [DecidableEq ι] in
theorem indexed_empty : Indexed idx (empty : Store ι α) := by simp [Indexed, empty]

theorem Indexed.access {c : Store ι α} (h : Indexed idx c) (a : α) (mark : Bool) :
    Indexed idx (access idx c a mark) := by
  intro i e he
  by_cases hi : i = idx a
  · subst hi
    rw [access_self] at he
    cases he
    rfl
  · rw [access_of_ne c a mark hi] at he
    exact h i e he

/-- an access marks a block that was not dirty -/
def Dirties (idx : α → ι) (c : Store ι α) (x : Access α) : Prop := x.mark = true ∧ isDirty idx c x.block = false

instance (c : Store ι α) (x : Access α) : Decidable (Dirties idx c x) := inferInstanceAs (Decidable (_ ∧ _))

/-- w write-backs and the dirty blocks add up to m accesses that made a block dirty -/
def Ledger (idx : α → ι) (c : Store ι α) (w m : ℕ) : Prop :=
  Indexed idx c ∧ ∃ D : Finset α, (∀ b, b ∈ D ↔ isDirty idx c b = true) ∧ D.card + w = m

omit [DecidableEq ι] in
theorem ledger_empty : Ledger idx (empty : Store ι α) 0 0 := ⟨indexed_empty, ∅, by simp [isDirty, empty], rfl⟩

/-- the dirty blocks that stay when the index of `a` is taken, and the write-back of the others -/
theorem Ledger.evict {c : Store ι α} {w m : ℕ} (h : Ledger idx c w m) (a : α) :
    ∃ E : Finset α, (∀ b, b ∈ E ↔ isDirty idx c b = true ∧ (b = a ∨ idx b ≠ idx a)) ∧
      E.card + (w + if result idx c a = .dirty then 1 else 0) = m := by
  obtain ⟨hidx, D, hD, hcard⟩ := h
  by_cases hr : result idx c a = .dirty
  · -- the victim is the one dirty block at the index
    obtain ⟨v, hne, hv⟩ := result_dirty.1 hr
    have hat : idx v = idx a := hidx _ _ hv
    have hin : v ∈ D := (hD v).2 (isDirty_of_entry (hat ▸ hv))
    have hpos : 0 < D.card := Finset.card_pos.2 ⟨v, hin⟩
    refine ⟨D.erase v, ?_, by rw [if_pos hr, Finset.card_erase_of_mem hin]; omega⟩
    intro b
    rw [Finset.mem_erase, hD]
    refine ⟨?_, ?_⟩
    · intro ⟨hbv, hb⟩
      refine ⟨hb, Or.inr ?_⟩
      intro hi
      apply hbv
      unfold isDirty at hb
      rw [hi, hv] at hb
      simp only [Bool.and_true, decide_eq_true_eq] at hb
      exact hb.symm
    · intro ⟨hb, hor⟩
      refine ⟨?_, hb⟩
      rintro rfl
      rcases hor with rfl | hi
      · exact hne rfl
      · exact hi hat
  · -- no dirty block at the index but `a` itself
    refine ⟨D, ?_, by rw [if_neg hr, Nat.add_zero]; exact hcard⟩
    intro b
    rw [hD]
    refine ⟨fun hb => ⟨hb, ?_⟩, And.left⟩
    by_contra hor
    rw [not_or, not_not] at hor
    apply hr
    unfold isDirty at hb
    cases hc : c (idx b) with
    | none => simp [hc] at hb
    | some e =>
      obtain ⟨v, d⟩ := e
      simp only [hc, Bool.and_eq_true, decide_eq_true_eq] at hb
      obtain ⟨rfl, rfl⟩ := hb
      exact result_dirty.2 ⟨v, hor.1, hor.2 ▸ hc⟩

theorem ledger_access {c : Store ι α} {w m : ℕ} (h : Ledger idx c w m) (x : Access α) :
    Ledger idx (access idx c x.block x.mark) (w + if result idx c x.block = .dirty then 1 else 0)
      (m + if Dirties idx c x then 1 else 0) := by
  obtain ⟨E, hE, hcard⟩ := h.evict x.block
  refine ⟨h.1.access x.block x.mark, ?_⟩
  by_cases hd : Dirties idx c x
  · have hnot : x.block ∉ E := by
      rw [hE, hd.2]
      simp
    refine ⟨insert x.block E, ?_, ?_⟩
    · intro b
      rw [isDirty_access, Finset.mem_insert, hE, hd.1]
      by_cases hb : b = x.block
      · simp [hb]
      · simp [hb, and_comm]
    · rw [Finset.card_insert_of_notMem hnot, if_pos hd]
      omega
  · refine ⟨E, ?_, by rw [if_neg hd]; exact hcard⟩
    intro b
    rw [isDirty_access, hE]
    by_cases hb : b = x.block
    · subst hb
      have hmark : x.mark = true → isDirty idx c x.block = true := by
        intro hm
        by_contra hno
        exact hd ⟨hm, by simpa using hno⟩
      simp only [and_true, true_and, ne_eq, not_true, false_and, or_false]
      exact ⟨Or.inl, fun h => h.elim id hmark⟩
    · simp [hb, and_comm]

end History

/-! ## A store with finer indices -/

section Inclusion

variable {ι κ α : Type} [DecidableEq ι] [DecidableEq κ] [DecidableEq α] {idx : α → ι} {fine : α → κ}

/-- every dirty block of the coarse store is dirty in the fine one -/
def DirtyIncluded (idx : α → ι) (fine : α → κ) (c : Store ι α) (f : Store κ α) : Prop :=
  ∀ b, isDirty idx c b = true → isDirty fine f b = true

theorem dirtyIncluded_access (hidx : ∀ a b, fine a = fine b → idx a = idx b) {c : Store ι α} {f : Store κ α}
    (h : DirtyIncluded idx fine c f) (a : α) (mark : Bool) :
    DirtyIncluded idx fine (access idx c a mark) (access fine f a mark) := by
  intro b hb
  rw [isDirty_access] at hb ⊢
  rcases hb with ⟨rfl, hd | hm⟩ | ⟨hne, hd⟩
  · exact Or.inl ⟨rfl, Or.inl (h b hd)⟩
  · exact Or.inl ⟨rfl, Or.inr hm⟩
  · exact Or.inr ⟨fun e => hne (hidx b a e), h b hd⟩

omit [DecidableEq ι] [DecidableEq κ] in
/-- an access that makes a block dirty in the fine store does so in the coarse one -/
theorem Dirties.coarse {c : Store ι α} {f : Store κ α} (h : DirtyIncluded idx fine c f) {x : Access α}
    (hx : Dirties fine f x) : Dirties idx c x := by
  refine ⟨hx.1, ?_⟩
  by_contra hd
  rw [Bool.not_eq_false] at hd
  have hf := h x.block hd
  rw [hx.2] at hf
  cases hf

omit [DecidableEq ι] [DecidableEq κ] in
/-- **The fine store has written back at most as often**, when it has made blocks dirty at most as often. -/
theorem Ledger.writebacks_le {c : Store ι α} {f : Store κ α} {w m w' m' : ℕ} (h : Ledger idx c w m)
    (h' : Ledger fine f w' m') (hd : DirtyIncluded idx fine c f) (hm : m' ≤ m) : w' ≤ w := by
  obtain ⟨-, D, hD, hcard⟩ := h
  obtain ⟨-, D', hD', hcard'⟩ := h'
  have hsub : D ⊆ D' := by
    intro b hb
    exact (hD' b).2 (hd b ((hD b).1 hb))
  have hle := Finset.card_le_card hsub
  omega

/-- the two stores have seen the same accesses and have written back w and w' times -/
structure Paced (idx : α → ι) (fine : α → κ) (c : Store ι α) (f : Store κ α) (w w' : ℕ) : Prop where
  included : Included idx fine c f
  dirty : DirtyIncluded idx fine c f
  ledgers : ∃ m m', Ledger idx c w m ∧ Ledger fine f w' m' ∧ m' ≤ m

omit [DecidableEq ι] [DecidableEq κ] in
theorem paced_empty : Paced idx fine empty empty 0 0 :=
  ⟨included_empty, fun b hb => by simp [isDirty, empty] at hb, 0, 0, ledger_empty, ledger_empty, le_rfl⟩

omit [DecidableEq ι] [DecidableEq κ] in
theorem Paced.writebacks_le {c : Store ι α} {f : Store κ α} {w w' : ℕ} (h : Paced idx fine c f w w') : w' ≤ w := by
  obtain ⟨m, m', hl, hl', hm⟩ := h.ledgers
  exact hl.writebacks_le hl' h.dirty hm

theorem Paced.access (hidx : ∀ a b, fine a = fine b → idx a = idx b) {c : Store ι α} {f : Store κ α} {w w' : ℕ}
    (h : Paced idx fine c f w w') (x : Access α) :
    Paced idx fine (access idx c x.block x.mark) (access fine f x.block x.mark)
      (w + if result idx c x.block = .dirty then 1 else 0) (w' + if result fine f x.block = .dirty then 1 else 0) := by
  obtain ⟨m, m', hl, hl', hm⟩ := h.ledgers
  refine ⟨access_mono hidx h.included x.block x.mark x.mark, dirtyIncluded_access hidx h.dirty x.block x.mark,
    _, _, ledger_access hl x, ledger_access hl' x, ?_⟩
  apply Nat.add_le_add hm
  by_cases hf : Dirties fine f x
  · rw [if_pos hf, if_pos (hf.coarse h.dirty)]
  · rw [if_neg hf]
    exact Nat.zero_le _

end Inclusion

end DirectMapped
