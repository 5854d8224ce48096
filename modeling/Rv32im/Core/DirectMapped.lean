/-
Direct-mapped stores with one block per index and a dirty bit, over any block type α and index type ι.

An access to a block replaces whatever else lives at its index. It is a hit, a miss with a clean (or absent) victim, or
a miss with a dirty victim. `mark` says that the access leaves the block dirty. Nothing here depends on a program.

- `resident_access`: what is resident after an access.
- `access_read_of_resident`, `readAll_replicate`: reading a resident block changes nothing and misses nothing.
- `misses_append`, `readAll_append`: misses and contents of a sequence of reads compose.
- `readAll_mono`, `misses_mono`: a store with finer indices keeps a superset of the blocks and misses at most as
  often, on every sequence of reads.
- `budget_access`: write-backs are paid for by earlier marking accesses.
-/
import Mathlib.Tactic

namespace DirectMapped

/-- a resident block and its dirty bit -/
structure Entry (α : Type) where
  block : α
  dirty : Bool
deriving DecidableEq, Repr

abbrev Store (ι α : Type) := ι → Option (Entry α)

/-- a hit, a miss on an absent or clean victim, a miss on a dirty victim -/
inductive Result where
  | hit
  | clean
  | dirty
deriving DecidableEq, Repr

def empty {ι α : Type} : Store ι α := fun _ => none

section Store

variable {ι α : Type}

/-- no dirty block -/
def Clean (c : Store ι α) : Prop := ∀ i e, c i = some e → e.dirty = false

theorem clean_empty : Clean (empty : Store ι α) := by simp [Clean, empty]

/-- the dirty entries fit into a set D with `D.card + w ≤ m`: w write-backs and m marking accesses so far -/
def Budget (c : Store ι α) (w m : ℕ) : Prop :=
  ∃ D : Finset ι, (∀ i e, c i = some e → e.dirty = true → i ∈ D) ∧ D.card + w ≤ m

theorem budget_empty : Budget (empty : Store ι α) 0 0 := ⟨∅, by simp [empty], by simp⟩

theorem Budget.mono {c : Store ι α} {w m m' : ℕ} (h : Budget c w m) (hm : m ≤ m') : Budget c w m' := by
  obtain ⟨D, hD, hcard⟩ := h
  exact ⟨D, hD, hcard.trans hm⟩

theorem Budget.le {c : Store ι α} {w m : ℕ} (h : Budget c w m) : w ≤ m := by
  obtain ⟨D, -, hD⟩ := h
  omega

variable [DecidableEq α] (idx : α → ι)

def Resident (c : Store ι α) (a : α) : Prop := ∃ d, c (idx a) = some ⟨a, d⟩

/-- the dirty bit of block `a`; false if `a` is not resident -/
def isDirty (c : Store ι α) (a : α) : Bool :=
  match c (idx a) with
  | some e => decide (e.block = a) && e.dirty
  | none => false

def result (c : Store ι α) (a : α) : Result :=
  match c (idx a) with
  | some e => if e.block = a then .hit else if e.dirty then .dirty else .clean
  | none => .clean

variable {idx}

theorem result_hit {c : Store ι α} {a : α} : result idx c a = .hit ↔ Resident idx c a := by
  unfold result Resident
  cases h : c (idx a) with
  | none => simp
  | some e =>
    obtain ⟨b, d⟩ := e
    by_cases hb : b = a
    · simp [hb]
    · cases d <;> simp [hb]

instance (c : Store ι α) (a : α) : Decidable (Resident idx c a) :=
  decidable_of_iff (result idx c a = .hit) result_hit

theorem result_dirty {c : Store ι α} {a : α} :
    result idx c a = .dirty ↔ ∃ b, b ≠ a ∧ c (idx a) = some ⟨b, true⟩ := by
  unfold result
  cases h : c (idx a) with
  | none => simp
  | some e =>
    obtain ⟨b, d⟩ := e
    by_cases hb : b = a
    · simp [hb]
    · cases d <;> simp [hb]

theorem isDirty_of_entry {c : Store ι α} {a : α} {d : Bool} (h : c (idx a) = some ⟨a, d⟩) :
    isDirty idx c a = d := by
  simp [isDirty, h]

theorem isDirty_of_not_hit {c : Store ι α} {a : α} (h : result idx c a ≠ .hit) : isDirty idx c a = false := by
  unfold isDirty
  cases hc : c (idx a) with
  | none => rfl
  | some e =>
    have : e.block ≠ a := fun he => h (result_hit.2 ⟨e.dirty, by rw [hc, ← he]⟩)
    simp [this]

theorem clean_result {c : Store ι α} (h : Clean c) (a : α) : result idx c a ≠ .dirty := by
  intro hd
  obtain ⟨b, _, hb⟩ := result_dirty.1 hd
  simpa using h _ _ hb

/-! ## One access -/

variable [DecidableEq ι]

variable (idx) in
/-- the store after an access; a hit keeps the dirty bit, a refill starts from `mark` -/
def access (c : Store ι α) (a : α) (mark : Bool) : Store ι α :=
  Function.update c (idx a) (some ⟨a, isDirty idx c a || mark⟩)

@[simp] theorem access_self (c : Store ι α) (a : α) (mark : Bool) :
    access idx c a mark (idx a) = some ⟨a, isDirty idx c a || mark⟩ := by
  simp [access]

theorem access_of_ne (c : Store ι α) (a : α) (mark : Bool) {i : ι} (h : i ≠ idx a) :
    access idx c a mark i = c i := by
  simp [access, h]

theorem resident_access {c : Store ι α} {a b : α} {mark : Bool} :
    Resident idx (access idx c a mark) b ↔ b = a ∨ (idx b ≠ idx a ∧ Resident idx c b) := by
  unfold Resident
  by_cases h : idx b = idx a
  · rw [h, access_self]
    simp [eq_comm]
  · rw [access_of_ne c a mark h]
    have hne : b ≠ a := fun e => h (by rw [e])
    simp [h, hne]

theorem resident_access_self (c : Store ι α) (a : α) (mark : Bool) : Resident idx (access idx c a mark) a :=
  resident_access.2 (Or.inl rfl)

/-- accessing a resident block again with the dirty bit it already has changes nothing -/
theorem access_of_entry {c : Store ι α} {a : α} {d mark : Bool} (h : c (idx a) = some ⟨a, d⟩)
    (hm : mark = true → d = true) : access idx c a mark = c := by
  funext i
  by_cases hi : i = idx a
  · subst hi
    rw [access_self, isDirty_of_entry h, h]
    cases mark <;> simp_all
  · rw [access_of_ne c a mark hi]

theorem access_read_of_resident {c : Store ι α} {a : α} (h : Resident idx c a) : access idx c a false = c := by
  obtain ⟨d, hd⟩ := h
  exact access_of_entry hd (by simp)

/-- repeating a marking access changes nothing -/
theorem access_mark_twice (c : Store ι α) (a : α) (mark : Bool) :
    access idx (access idx c a mark) a mark = access idx c a mark :=
  access_of_entry (access_self c a mark) (by rintro rfl; simp)

/-! ## Sequences of reads -/

variable (idx) in
def readAll (c : Store ι α) (l : List α) : Store ι α := l.foldl (fun c a => access idx c a false) c

variable (idx) in
def misses (c : Store ι α) : List α → ℕ
  | [] => 0
  | a :: l => (if Resident idx c a then 0 else 1) + misses (access idx c a false) l

@[simp] theorem readAll_nil (c : Store ι α) : readAll idx c [] = c := rfl

theorem readAll_cons (c : Store ι α) (a : α) (l : List α) :
    readAll idx c (a :: l) = readAll idx (access idx c a false) l := rfl

theorem readAll_append (c : Store ι α) (l l' : List α) :
    readAll idx c (l ++ l') = readAll idx (readAll idx c l) l' := by
  simp [readAll, List.foldl_append]

@[simp] theorem misses_nil (c : Store ι α) : misses idx c [] = 0 := rfl

theorem misses_cons (c : Store ι α) (a : α) (l : List α) :
    misses idx c (a :: l) = (if Resident idx c a then 0 else 1) + misses idx (access idx c a false) l := rfl

theorem misses_append (c : Store ι α) (l l' : List α) :
    misses idx c (l ++ l') = misses idx c l + misses idx (readAll idx c l) l' := by
  induction l generalizing c with
  | nil => simp
  | cons a l ih => simp only [List.cons_append, misses_cons, ih, readAll_cons]; omega

theorem misses_le_length (c : Store ι α) (l : List α) : misses idx c l ≤ l.length := by
  induction l generalizing c with
  | nil => simp
  | cons a l ih =>
    have := ih (access idx c a false)
    rw [misses_cons, List.length_cons]
    split_ifs <;> omega

theorem readAll_replicate {c : Store ι α} {a : α} (h : Resident idx c a) (n : ℕ) :
    readAll idx c (List.replicate n a) = c := by
  induction n with
  | zero => rfl
  | succ n ih => rw [List.replicate_succ, readAll_cons, access_read_of_resident h, ih]

theorem misses_replicate {c : Store ι α} {a : α} (h : Resident idx c a) (n : ℕ) :
    misses idx c (List.replicate n a) = 0 := by
  induction n with
  | zero => rfl
  | succ n ih => rw [List.replicate_succ, misses_cons, access_read_of_resident h, ih, if_pos h]

theorem resident_readAll_last (c : Store ι α) (l : List α) (a : α) : Resident idx (readAll idx c (l ++ [a])) a := by
  rw [readAll_append]
  exact resident_access_self _ a false

/-- reads of one block behind a list miss at most once -/
theorem misses_append_replicate (c : Store ι α) (l : List α) (a : α) (n : ℕ) :
    misses idx c (l ++ List.replicate (n + 1) a) = misses idx c (l ++ [a]) := by
  rw [List.replicate_succ, List.append_cons, misses_append, misses_replicate (resident_readAll_last c l a),
    Nat.add_zero]

/-! ## Reads leave no dirty block, and write-backs are paid for by marking accesses -/

theorem clean_access {c : Store ι α} (h : Clean c) (a : α) : Clean (access idx c a false) := by
  intro i e he
  by_cases hi : i = idx a
  · subst hi
    rw [access_self] at he
    cases he
    unfold isDirty
    cases hc : c (idx a) with
    | none => rfl
    | some e => simp [h _ _ hc]
  · rw [access_of_ne c a false hi] at he
    exact h i e he

theorem budget_access {c : Store ι α} {w m : ℕ} (h : Budget c w m) (a : α) (mark : Bool) :
    Budget (access idx c a mark) (w + if result idx c a = .dirty then 1 else 0) (m + if mark then 1 else 0) := by
  obtain ⟨D, hD, hcard⟩ := h
  have hother : ∀ i e, i ≠ idx a → access idx c a mark i = some e → e.dirty = true → i ∈ D := by
    intro i e hi he hd
    rw [access_of_ne c a mark hi] at he
    exact hD i e he hd
  by_cases hr : result idx c a = .dirty
  · -- the dirty victim leaves D, or its place is taken by the marking access
    obtain ⟨b, _, hb⟩ := result_dirty.1 hr
    have hin : idx a ∈ D := hD _ _ hb rfl
    have hpos : 0 < D.card := Finset.card_pos.2 ⟨_, hin⟩
    have hnew : isDirty idx c a = false := isDirty_of_not_hit (by rw [hr]; decide)
    cases mark with
    | true =>
      refine ⟨D, fun i e he hd => ?_, by rw [if_pos hr, if_pos rfl]; omega⟩
      by_cases hi : i = idx a
      · rw [hi]; exact hin
      · exact hother i e hi he hd
    | false =>
      refine ⟨D.erase (idx a), fun i e he hd => ?_, by rw [if_pos hr, Finset.card_erase_of_mem hin]; simp; omega⟩
      by_cases hi : i = idx a
      · subst hi
        rw [access_self, hnew] at he
        cases he
        simp at hd
      · exact Finset.mem_erase.2 ⟨hi, hother i e hi he hd⟩
  · rw [if_neg hr, Nat.add_zero]
    cases mark with
    | true =>
      refine ⟨insert (idx a) D, fun i e he hd => ?_, by have := Finset.card_insert_le (idx a) D; simp; omega⟩
      by_cases hi : i = idx a
      · simp [hi]
      · exact Finset.mem_insert_of_mem (hother i e hi he hd)
    | false =>
      refine ⟨D, fun i e he hd => ?_, by simpa using hcard⟩
      by_cases hi : i = idx a
      · subst hi
        rw [access_self, Bool.or_false] at he
        cases he
        unfold isDirty at hd
        cases hc : c (idx a) with
        | none => simp [hc] at hd
        | some e => simp only [hc, Bool.and_eq_true] at hd; exact hD _ _ hc hd.2
      · exact hother i e hi he hd

end Store

/-! ## Two stores with finer and coarser indices -/

section Inclusion

variable {ι κ α : Type} {idx : α → ι} {fine : α → κ}

/-- every block of the coarse store is in the fine one -/
def Included (idx : α → ι) (fine : α → κ) (c : Store ι α) (f : Store κ α) : Prop :=
  ∀ a, Resident idx c a → Resident fine f a

theorem included_empty : Included idx fine empty empty := by
  intro a ⟨d, hd⟩
  simp [empty] at hd

variable [DecidableEq ι] [DecidableEq κ] [DecidableEq α]

theorem access_mono (hidx : ∀ a b, fine a = fine b → idx a = idx b) {c : Store ι α} {f : Store κ α}
    (h : Included idx fine c f) (a : α) (mark mark' : Bool) :
    Included idx fine (access idx c a mark) (access fine f a mark') := by
  intro b hb
  rcases resident_access.1 hb with rfl | ⟨hne, hres⟩
  · exact resident_access_self f b mark'
  · exact resident_access.2 (Or.inr ⟨fun e => hne (hidx b a e), h b hres⟩)

theorem readAll_mono (hidx : ∀ a b, fine a = fine b → idx a = idx b) {c : Store ι α} {f : Store κ α}
    (h : Included idx fine c f) (l : List α) : Included idx fine (readAll idx c l) (readAll fine f l) := by
  induction l generalizing c f with
  | nil => exact h
  | cons a l ih => exact ih (access_mono hidx h a false false)

/-- **The fine store misses at most as often**, on every sequence of reads. -/
theorem misses_mono (hidx : ∀ a b, fine a = fine b → idx a = idx b) {c : Store ι α} {f : Store κ α}
    (h : Included idx fine c f) (l : List α) : misses fine f l ≤ misses idx c l := by
  induction l generalizing c f with
  | nil => simp
  | cons a l ih =>
    have ih' := ih (access_mono hidx h a false false)
    rw [misses_cons, misses_cons]
    by_cases hc : Resident idx c a
    · rw [if_pos hc, if_pos (h a hc)]; omega
    · rw [if_neg hc]
      split_ifs <;> omega

end Inclusion

end DirectMapped
