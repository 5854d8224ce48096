/-
More I-cache lines never cost cycles.

Two models whose I-caches have N and M lines, N dividing M, keep step (`InStep`): they fetch the same words first, and
the larger I-cache holds every word that the smaller one holds. The smaller one may earn an overlap credit that the
larger one does not. Then either the look-ahead of the larger one missed less, or the target of the coming redirect is
in the larger one only. The second case is a debt of one credit, and the demand fetch at the target pays it.

- `Covered`: the relation between the two runs, with the debt of at most one refill. A debt is pending until its target
  is fetched (`Pending`).
- `Covered.settled`, `Covered.spent`: the demand fetch that settles, the credit that is spent.
- `capacity_monotone`: misses and cycles of a run that halts.
-/
import Rv32im.Results.Isolation
import Rv32im.Results.CacheHistory
import Rv32im.Timing.Overlap

namespace Rv32im

open FrontEnd Caches

/-! ## Two numbers of lines -/

def CpuConfig.withLines (cfg : CpuConfig) (lines : ℕ) : CpuConfig :=
  { cfg with icache := { cfg.icache with lines := lines } }

theorem CpuConfig.alike_withLines (cfg : CpuConfig) (lines : ℕ) : cfg.Alike (cfg.withLines lines) :=
  ⟨rfl, rfl, rfl, rfl, rfl⟩

namespace CpuModel

variable {cfg : CpuConfig} {lines : ℕ} {s t : CpuModel cfg} {s' t' : CpuModel (cfg.withLines lines)} {b b' : Bool}

/-- the larger I-cache holds the word of `target`, and the smaller one does not -/
def Gained (s : CpuModel cfg) (s' : CpuModel (cfg.withLines lines)) (target : BitVec 32) : Prop :=
  DirectMapped.Resident (cfg.withLines lines).icache.idx s'.icache.contents (block target) ∧
    ¬ DirectMapped.Resident cfg.icache.idx s.icache.contents (block target)

/-- the redirect at the pc leads to a gained word, three words are fetched ahead; or the pc is at a gained word -/
inductive Pending (s : CpuModel cfg) (s' : CpuModel (cfg.withLines lines)) : Prop where
  | foreseen (target : BitVec 32) (look : s.sequentialNextRedirectTarget s.pc = .ok (some target))
      (lead : Lead s.caches.frontEnd s.pc 3) (gained : Gained s s' target)
  | arrived (lead : Lead s.caches.frontEnd s.pc 0) (gained : Gained s s' s.pc)

/-- `s'` has seen the run of `s` with a larger I-cache -/
structure Covered (s : CpuModel cfg) (s' : CpuModel (cfg.withLines lines)) : Prop where
  inStep : InStep s s'
  included : DirectMapped.Included cfg.icache.idx (cfg.withLines lines).icache.idx s.icache.contents s'.icache.contents
  misses : s'.icache.stats.misses ≤ s.icache.stats.misses
  account : ∃ debt, s'.icache.stats.misses * cfg.icache.penalty + s.cacheOverlapCycles ≤
      s.icache.stats.misses * cfg.icache.penalty + s'.cacheOverlapCycles + debt ∧
    (debt = 0 ∨ debt ≤ cfg.icache.penalty ∧ s.halted = false ∧ Pending s s')

/-! ## The stages of both models -/

/-- the D-caches are equal, and so are their stalls -/
theorem InStep.dstall_eq (h : InStep s s') (k : Kind) : s'.caches.dstall k = s.caches.dstall k := by
  have hcontents : s'.caches.dcache.contents = s.caches.dcache.contents := h.dcache.symm
  rw [Caches.dstall_eq, Caches.dstall_eq, hcontents]
  rfl

/-- stage by stage, the larger I-cache misses less and keeps the words of the smaller one -/
theorem Covered.stages (hdvd : cfg.icache.lines ∣ lines) (h : Covered s s') (k : Kind) (pc : BitVec 32) (j : ℕ) :
    s'.caches.demandMisses pc j ≤ s.caches.demandMisses pc j ∧
      s'.caches.aheadMisses k pc j ≤ s.caches.aheadMisses k pc j ∧
      s'.caches.tailMisses k pc j ≤ s.caches.tailMisses k pc j ∧
      DirectMapped.Included cfg.icache.idx (cfg.withLines lines).icache.idx (s.caches.behindAhead k pc j)
        (s'.caches.behindAhead k pc j) := by
  have hidx := cfg.icache.idx_withLines hdvd
  have hdemand := DirectMapped.readAll_mono hidx h.included (blocks (cfg.icache.demand pc j))
  have hahead := DirectMapped.readAll_mono hidx hdemand (blocks (cfg.icache.ahead pc j (s.caches.dstall k)))
  have hbehind : s'.caches.behindAhead k pc j = DirectMapped.readAll (cfg.withLines lines).icache.idx
      (DirectMapped.readAll (cfg.withLines lines).icache.idx s'.icache.contents (blocks (cfg.icache.demand pc j)))
      (blocks (cfg.icache.ahead pc j (s.caches.dstall k))) := by
    rw [← h.inStep.dstall_eq k]
    rfl
  have hmisses : s'.caches.aheadMisses k pc j = DirectMapped.misses (cfg.withLines lines).icache.idx
      (DirectMapped.readAll (cfg.withLines lines).icache.idx s'.icache.contents (blocks (cfg.icache.demand pc j)))
      (blocks (cfg.icache.ahead pc j (s.caches.dstall k))) := by
    rw [← h.inStep.dstall_eq k]
    rfl
  refine ⟨DirectMapped.misses_mono hidx h.included _, ?_, ?_, ?_⟩
  · rw [hmisses]
    exact DirectMapped.misses_mono hidx hdemand _
  · unfold tailMisses
    rw [hbehind]
    exact DirectMapped.misses_mono hidx hahead _
  · rw [hbehind]
    exact hahead

/-- **The demand fetch settles** a debt whose target has arrived; only a foreseen target is still to come. -/
theorem Covered.settled (hen : cfg.icache.enabled = true) (hdvd : cfg.icache.lines ∣ lines) (h : Covered s s') {j : ℕ}
    (hl : Lead s.caches.frontEnd s.pc j) :
    (s'.icache.stats.misses + s'.caches.demandMisses s.pc j) * cfg.icache.penalty + s.cacheOverlapCycles ≤
        (s.icache.stats.misses + s.caches.demandMisses s.pc j) * cfg.icache.penalty + s'.cacheOverlapCycles ∨
      ∃ target, s.sequentialNextRedirectTarget s.pc = .ok (some target) ∧ j = 3 ∧ Gained s s' target := by
  obtain ⟨hdemand, -, -, -⟩ := h.stages hdvd .alu s.pc j
  have hdemand' := Nat.mul_le_mul_right cfg.icache.penalty hdemand
  obtain ⟨debt, haccount, hdebt⟩ := h.account
  rw [Nat.add_mul, Nat.add_mul]
  rcases hdebt with rfl | ⟨hle, -, hpending⟩
  · exact Or.inl (by omega)
  · cases hpending with
    | foreseen target hlook hlead hgained => exact Or.inr ⟨target, hlook, hl.unique hen hlead, hgained⟩
    | arrived hlead hgained =>
      obtain rfl := hl.unique hen hlead
      have hmiss : s.caches.demandMisses s.pc 0 = 1 := by
        unfold demandMisses
        rw [cfg.icache.demand_zero hen]
        simp only [blocks_cons, blocks_nil, DirectMapped.misses_cons, DirectMapped.misses_nil]
        exact if_neg hgained.2
      have hhit : s'.caches.demandMisses s.pc 0 = 0 := by
        unfold demandMisses
        rw [(cfg.withLines lines).icache.demand_zero hen]
        simp only [blocks_cons, blocks_nil, DirectMapped.misses_cons, DirectMapped.misses_nil]
        exact if_pos hgained.1
      rw [hmiss, hhit]
      exact Or.inl (by omega)

section Credit

variable {k : Kind} {pc nextPc nextPc' st st' : BitVec 32} {look : Except Exn (Option (BitVec 32))} {c : Caches cfg}
  {c' : Caches (cfg.withLines lines)} {j : ℕ}

/-- **A credit that only the smaller I-cache earns** is paid by the look-ahead, or its redirect target is gained. -/
theorem Covered.spent (hsmall : cfg.Small) (hdvd : cfg.icache.lines ∣ lines) (h : Covered s s')
    (q : Charged s.caches k pc nextPc look st c) (q' : Charged s'.caches k pc nextPc' look st' c')
    (hl : Lead s.caches.frontEnd pc j) (hl' : Lead s'.caches.frontEnd pc j) (hj : j ≤ 3) (hp : Placed pc) :
    s'.caches.aheadMisses k pc j * cfg.icache.penalty + q.credit.toNat ≤
        s.caches.aheadMisses k pc j * cfg.icache.penalty + q'.credit.toNat ∨
      q.credit.toNat ≤ cfg.icache.penalty ∧ ∃ a target, k = .store a ∧ look = .ok (some target) ∧
        s.caches.dstall k ≠ 0 ∧
        DirectMapped.Resident (cfg.withLines lines).icache.idx (s'.caches.behindAhead k pc j) (block target) ∧
        ¬ DirectMapped.Resident cfg.icache.idx (s.caches.behindAhead k pc j) (block target) := by
  have hsmall' : (cfg.withLines lines).Small := hsmall
  obtain ⟨-, hahead, -, -⟩ := h.stages hdvd k pc j
  have hahead' := Nat.mul_le_mul_right cfg.icache.penalty hahead
  by_cases he : Earns s.caches k pc look j
  · have hcredit := q.credit_of_earns hsmall hl hj hp he
    have hle : q.credit.toNat ≤ cfg.icache.penalty := hcredit ▸ min_le_right _ _
    by_cases he' : Earns s'.caches k pc look j
    · have hcredit' := q'.credit_of_earns hsmall' hl' hj hp he'
      rw [h.inStep.dstall_eq k] at hcredit'
      have hsame : q'.credit.toNat = q.credit.toNat := hcredit'.trans hcredit.symm
      exact Or.inl (by omega)
    · obtain ⟨a, target, hk, hlook, hd, hmiss, hres⟩ := he
      by_cases hmiss' : s'.caches.aheadMisses k pc j = 0
      · have hone := Nat.mul_le_mul_right cfg.icache.penalty (Nat.one_le_iff_ne_zero.2 hmiss)
        rw [hmiss']
        exact Or.inl (by omega)
      · refine Or.inr ⟨hle, a, target, hk, hlook, hd, ?_, hres⟩
        by_contra hres'
        exact he' ⟨a, target, hk, hlook, by rwa [h.inStep.dstall_eq k], hmiss', hres'⟩
  · rw [(q.replay_unearned hsmall hl hj hp he).1]
    exact Or.inl (by simp; omega)

end Credit

/-- **One step of each** keeps the larger I-cache ahead. -/
theorem Stepped.covered (w : Stepped s b t) (w' : Stepped s' b' t') (hmem : cfg.memorySize + 16 ≤ 2 ^ 32)
    (hsmall : cfg.Small) (hen : cfg.icache.enabled = true) (hdvd : cfg.icache.lines ∣ lines) (h : Covered s s')
    (hi : s.Inv) (hi' : s'.Inv) : Covered t t' := by
  have hmem' : (cfg.withLines lines).memorySize + 16 ≤ 2 ^ 32 := hmem
  have hstep := w.inStep w' (cfg.alike_withLines lines) hsmall.data hsmall.data hmem h.inStep hi hi'
  obtain ⟨j, hj, hl, hl', ⟨q⟩, ⟨q'⟩⟩ := h.inStep.charged w w'
  have hp := w.placed hi hmem
  obtain ⟨hserved, hlead⟩ := w.served hi hmem hj hl q
  obtain ⟨hcontents, hmisses⟩ := q.icache hl hj hp
  obtain ⟨hcontents', hmisses'⟩ := q'.icache hl' hj hp
  obtain ⟨hdemand, hahead, htail, hincluded⟩ := h.stages hdvd w.e.kind s.pc j
  have hicontents : t.icache.contents = _ := hcontents
  have hicontents' : t'.icache.contents = _ := hcontents'
  have himisses : t.icache.stats.misses = s.icache.stats.misses + _ := hmisses
  have himisses' : t'.icache.stats.misses = s'.icache.stats.misses + _ := hmisses'
  have hadd : t.cacheOverlapCycles = s.cacheOverlapCycles + q.credit.toNat := q.overlap
  have hadd' : t'.cacheOverlapCycles = s'.cacheOverlapCycles + q'.credit.toNat := q'.overlap
  have hfewer := h.misses
  have htail' := Nat.mul_le_mul_right cfg.icache.penalty htail
  refine ⟨hstep, ?_, by omega, ?_⟩
  · have hread := DirectMapped.readAll_mono (cfg.icache.idx_withLines hdvd) hincluded
      (blocks (cfg.icache.tail w.e.kind s.pc j))
    rw [hicontents, hicontents']
    exact hread
  rw [himisses, himisses', hadd, hadd']
  rcases h.settled hen hdvd hl with hset | ⟨target, hlook, rfl, hgained⟩
  · rcases h.spent hsmall hdvd q q' hl hl' hj hp with hpaid | ⟨hle, a, target, hk, hlook, hd, hres', hres⟩
    · refine ⟨0, ?_, Or.inl rfl⟩
      simp only [Nat.add_mul] at hset ⊢
      omega
    · -- the credit becomes a debt: the store leaves three words ahead of the redirect
      have hahead' := Nat.mul_le_mul_right cfg.icache.penalty hahead
      have hnotail : cfg.icache.tail w.e.kind s.pc j = [] := by simp [CacheConfig.tail, hk, Kind.redirects, Kind.jumps]
      have hnotail' : (cfg.withLines lines).icache.tail w.e.kind s.pc j = [] := hnotail
      refine ⟨q.credit.toNat, ?_, Or.inr ⟨hle, ?_, .foreseen target ?_ ?_ ⟨?_, ?_⟩⟩⟩
      · simp only [Nat.add_mul] at hset ⊢
        omega
      · rw [w.halted, hk]
        rfl
      · rw [w.look_after hi hk, hlook]
      · have hthree : w.e.kind.leadAfter j (s.caches.dstall w.e.kind) = 3 := by
          unfold Kind.leadAfter
          rw [if_neg hd]
          simp [hk, Kind.jumps]
        rwa [hthree] at hlead
      · rw [hicontents', hnotail']
        exact hres'
      · rw [hicontents, hnotail]
        exact hres
  · obtain ⟨hjumps, htarget, hd⟩ := w.foreseen hlook
    obtain ⟨hzero, hzero₁, hzero₂, hsame⟩ := s.caches.idle hd s.pc
    obtain ⟨hzero', hzero₁', hzero₂', hsame'⟩ := s'.caches.idle (hd ▸ h.inStep.dstall_eq w.e.kind) s.pc
    have hnone : q.credit = 0 := by
      by_contra hne
      obtain ⟨a, hk, -, -⟩ := q.credit_store hne
      rw [hk] at hjumps
      cases hjumps
    obtain ⟨debt, haccount, hdebt⟩ := h.account
    refine ⟨debt, ?_, ?_⟩
    · rw [hzero, hzero₁, hzero₂, hzero', hzero₁', hzero₂', hnone]
      simp
      omega
    · rcases hdebt with h0 | ⟨hle, -, -⟩
      · exact Or.inl h0
      · refine Or.inr ⟨hle, ?_, .arrived ?_ ⟨?_, ?_⟩⟩
        · rw [w.halted]
          cases hk : w.e.kind <;> simp [hk, Kind.jumps] at hjumps ⊢
        · rwa [Kind.leadAfter, if_pos hjumps] at hlead
        · rw [hicontents', hsame', htarget]
          exact hgained.1
        · rw [hicontents, hsame, htarget]
          exact hgained.2

theorem covered_boot (h : cfg.Accepted) (h' : (cfg.withLines lines).Accepted) (program data : ℕ → BitVec 8)
    (pc : BitVec 32) :
    Covered (boot cfg h program data pc) (boot (cfg.withLines lines) h' program data pc) where
  inStep := inStep_boot h h' rfl program data pc
  included := by
    rw [(boot_contents h program data pc).1, (boot_contents h' program data pc).1]
    exact DirectMapped.included_empty
  misses := le_rfl
  account := ⟨0, le_rfl, Or.inl rfl⟩

theorem covered_run (hmem : cfg.memorySize + 16 ≤ 2 ^ 32) (hsmall : cfg.Small) (hen : cfg.icache.enabled = true)
    (hdvd : cfg.icache.lines ∣ lines) (h : cfg.Accepted) (h' : (cfg.withLines lines).Accepted)
    {program data : ℕ → BitVec 8} {pc : BitVec 32} {n : ℕ}
    (ht : Exec.iter step n (boot cfg h program data pc) = some t)
    (ht' : Exec.iter step n (boot (cfg.withLines lines) h' program data pc) = some t') : Covered t t' := by
  have hmem' : (cfg.withLines lines).memorySize + 16 ≤ 2 ^ 32 := hmem
  refine (run_rel (R := fun s s' => s.Inv ∧ s'.Inv ∧ Covered s s') ?_ ?_ ht ht'
    ⟨inv_boot h program data pc, inv_boot h' program data pc, covered_boot h h' program data pc⟩).2.2
  · intro s s' ⟨_, _, hr⟩
    exact congrArg Arch.halted hr.inStep.arch
  · intro s s' u u' b b' w w' ⟨hi, hi', hr⟩
    exact ⟨w.inv hi hmem, w'.inv hi' hmem', w.covered w' hmem hsmall hen hdvd hr hi hi'⟩

/-- a run that has halted owes nothing -/
theorem Covered.account_halted (h : Covered s s') (hh : s.halted = true) :
    s'.icache.stats.misses * cfg.icache.penalty + s.cacheOverlapCycles ≤
      s.icache.stats.misses * cfg.icache.penalty + s'.cacheOverlapCycles := by
  obtain ⟨debt, haccount, h0 | ⟨-, hlive, -⟩⟩ := h.account
  · omega
  · rw [hh] at hlive
    cases hlive

end CpuModel

end Rv32im
