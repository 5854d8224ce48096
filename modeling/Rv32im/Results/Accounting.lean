/-
The counters of a run add up.

- `Arch.Counted`: the class counters, the retired count and the redirect penalties, over the projection.
- `CpuModel.Books`: the counters of the timing model and of both caches.
- `cycles_exact`: the reported cycles are base, fill and all stalls, less the overlap, and no 32-bit stall sum of a
  step wraps.
- `counters_conserved`: the conservation laws of the reported counters.
-/
import Rv32im.Timing.Invariant

namespace Rv32im

/-! ## Class counters -/

namespace Arch

/-- the counters of the projection agree with each other -/
structure Counted (a : Arch) : Prop where
  classes : a.classes.retired = a.classes.alu + a.classes.branches + a.classes.jumps + a.classes.loads +
    a.classes.stores + a.classes.mulDiv + if a.halted then 1 else 0
  timing : a.timing.stats.retired = a.classes.retired
  taken : a.classes.branchesTaken ≤ a.classes.branches
  branch : a.timing.stats.branchRedirectStalls = 2 * a.classes.branchesTaken
  jump : a.timing.stats.jumpRedirectStalls = 2 * a.classes.jumps

/-- one instruction moves one class counter, and its redirect penalty -/
theorem Counted.after {a : Arch} {insn : BitVec 32} {e : Effect} (h : a.Counted) (hlive : a.halted = false)
    (hfits : e.Fits a.pc insn) : (a.after insn e).Counted := by
  obtain ⟨hclasses, htiming, htaken, hbranch, hjump⟩ := h
  have hbranch' : ((PipelineTimingModel.decode insn).isBranch && decide (e.kind = .branch true)) =
      decide (e.kind = .branch true) := by
    by_cases hk : e.kind = .branch true
    · rw [hfits.isBranch.2 ⟨true, hk⟩, Bool.true_and]
    · simp [hk]
  have hjump' : (PipelineTimingModel.decode insn).isJump = decide (e.kind = .jump) := by
    rw [Bool.eq_iff_iff, decide_eq_true_iff]
    exact hfits.isJump
  rw [hlive, if_neg Bool.false_ne_true, Nat.add_zero] at hclasses
  constructor
  · simp only [Arch.after, PipelineTimingModel.retire, htiming, hlive]
    cases e.kind with
    | branch taken => cases taken <;> simp [Kind.count] <;> omega
    | _ => simp [Kind.count]; omega
  · rfl
  · simp only [Arch.after]
    cases e.kind with
    | branch taken =>
      cases taken with
      | true => exact Nat.add_le_add_right htaken 1
      | false => exact htaken.trans (Nat.le_add_right _ 1)
    | _ => exact htaken
  · simp only [Arch.after, PipelineTimingModel.retire, PipelineTimingModel.erase, hbranch', hbranch]
    cases e.kind with
    | branch taken =>
      cases taken with
      | true => simp [Kind.count]; omega
      | false => simp [Kind.count]
    | _ => simp [Kind.count]
  · simp only [Arch.after, PipelineTimingModel.retire, PipelineTimingModel.erase, hjump', hjump]
    cases e.kind with
    | branch taken => cases taken <;> simp [Kind.count]
    | jump => simp [Kind.count]; omega
    | _ => simp [Kind.count]

end Arch

namespace CpuModel

open FrontEnd Caches

variable {cfg : CpuConfig}

/-! ## The whole model -/

/-- the counters of the timing model and of both caches -/
structure Books (s : CpuModel cfg) : Prop where
  counted : s.arch.Counted
  icache : s.icache.stats.Balanced cfg.icache
  readOnly : s.icache.stats.writebacks = 0
  dcache : s.dcache.stats.Balanced cfg.dcache
  presented : cfg.dcache.enabled = true →
    s.dcache.stats.accesses = s.stats.loads + s.stats.stores + s.dcacheIfstallReplays
  budget : DirectMapped.Budget s.dcache.contents s.dcache.stats.writebacks s.stats.stores
  total : s.timing.stats.totalCycles = s.timing.stats.baseInstructionCycles + s.timing.stats.pipelineFillDrain +
    s.timing.accumulatedStalls

/-- the I-cache writes nothing back, so its stalls follow from its misses -/
theorem Books.icache_stalls {s : CpuModel cfg} (h : s.Books) :
    s.icache.stats.stallCycles = s.icache.stats.misses * cfg.icache.penalty := by
  have hstalls := h.icache.stalls
  rw [h.readOnly] at hstalls
  omega

theorem books_boot (h : cfg.Accepted) (program data : ℕ → BitVec 8) (pc : BitVec 32) :
    (boot cfg h program data pc).Books where
  counted := by constructor <;> rfl
  icache := CacheStats.balanced_zero
  readOnly := rfl
  dcache := CacheStats.balanced_zero
  presented := fun _ => rfl
  budget := by
    rw [(boot_contents h program data pc).2]
    exact DirectMapped.budget_empty
  total := rfl

/-- the class counters of the next state -/
theorem Stepped.count {s t : CpuModel cfg} {b : Bool} (w : Stepped s b t) :
    t.stats.loads = (w.e.kind.count s.stats).loads ∧ t.stats.stores = (w.e.kind.count s.stats).stores ∧
      t.stats.branchesTaken = (w.e.kind.count s.stats).branchesTaken ∧
      t.stats.jumps = (w.e.kind.count s.stats).jumps := by
  have h : ∀ {γ : Type} (f : CpuModel cfg → γ), f t = f (s.retired w.insn w.e w.stalls w.c) :=
    fun f => congrArg f w.after
  exact ⟨h fun u => u.stats.loads, h fun u => u.stats.stores, h fun u => u.stats.branchesTaken,
    h fun u => u.stats.jumps⟩

/-- the misses and write-backs of one instruction -/
theorem Stepped.tally {s t : CpuModel cfg} {b : Bool} (w : Stepped s b t) :
    t.dcache.stats.misses = s.dcache.stats.misses +
        w.e.kind.tally (fun a => (cfg.dcache.outcome s.dcache.contents a).miss) ∧
      t.dcache.stats.writebacks = s.dcache.stats.writebacks +
        w.e.kind.tally (fun a => (cfg.dcache.outcome s.dcache.contents a).writeback) := by
  obtain ⟨r, -, hstats, -, -⟩ := w.dcache
  unfold Kind.tally
  cases hm : w.e.kind.mem with
  | none =>
    rw [hm] at hstats
    rw [hstats]
    exact ⟨rfl, rfl⟩
  | some m =>
    rw [hm] at hstats
    rw [hstats]
    simp [CacheStats.addReads, CacheConfig.count_misses, CacheConfig.count_writebacks]

theorem Stepped.timing {s t : CpuModel cfg} {b : Bool} (w : Stepped s b t) :
    t.timing = ((s.timing.addExternalStalls w.stalls).retire w.insn (w.e.kind = .branch true)).2 :=
  (congrArg CpuModel.timing w.after).trans rfl

theorem Stepped.books {s t : CpuModel cfg} {b : Bool} (w : Stepped s b t) (h : s.Books) (hi : s.Inv)
    (hmem : cfg.memorySize + 16 ≤ 2 ^ 32) : t.Books := by
  obtain ⟨j, hj, hl⟩ := hi.lead
  obtain ⟨q⟩ := w.charged
  obtain ⟨hs, -⟩ := w.served hi hmem hj hl q
  obtain ⟨hloads, hstores, -, -⟩ := w.count
  have hicache : t.icache.stats = s.icache.stats.addReads _ _ _ := hs.stats
  obtain ⟨r, hreplays, hdstats, hdcontents, -⟩ := w.dcache
  constructor
  · rw [w.arch]
    exact h.counted.after w.running.live w.fits
  · rw [hicache]
    exact h.icache.addReads ((s.caches.frontEnd.misses_le _).trans (by omega))
  · rw [hicache]
    exact h.readOnly
  · rw [hdstats]
    refine CacheStats.Balanced.addHits ?_ _
    cases w.e.kind.mem with
    | none => exact h.dcache
    | some m => exact h.dcache.count _ _
  · intro hen
    have hp := h.presented hen
    rw [hdstats, hreplays, hloads, hstores]
    cases hk : w.e.kind with
    | load a => simp [Kind.mem, Kind.count, CacheConfig.count, hen, CacheStats.addReads, CacheStats.charge]; omega
    | store a => simp [Kind.mem, Kind.count, CacheConfig.count, hen, CacheStats.addReads, CacheStats.charge]; omega
    | branch taken => cases taken <;> simp [Kind.mem, Kind.count, CacheStats.addReads] <;> omega
    | _ => simp [Kind.mem, Kind.count, CacheStats.addReads]; omega
  · rw [hdstats, hdcontents, hstores]
    have hbudget := h.budget
    cases hk : w.e.kind with
    | load a =>
      have hload := cfg.dcache.budget_store hbudget a false
      rw [← CacheConfig.count_writebacks] at hload
      exact hload
    | store a =>
      have hstore := cfg.dcache.budget_store hbudget a true
      rw [← CacheConfig.count_writebacks] at hstore
      exact hstore
    | branch taken => cases taken <;> exact hbudget
    | _ => exact hbudget
  · rw [w.timing]
    rfl

theorem books_run (hmem : cfg.memorySize + 16 ≤ 2 ^ 32) (h : cfg.Accepted) {program data : ℕ → BitVec 8}
    {pc : BitVec 32} {n : ℕ} {t : CpuModel cfg} (ht : Exec.iter step n (boot cfg h program data pc) = some t) :
    t.Inv ∧ t.Books := by
  apply run_inv (P := fun s => s.Inv ∧ s.Books) _ ht ⟨inv_boot h program data pc, books_boot h program data pc⟩
  intro s u b w ⟨hi, hb⟩
  exact ⟨w.inv hi hmem, w.books hb hi hmem⟩

/-- the stall total is the pipeline stalls and the cache stalls, less the overlap, which D-cache stalls back -/
structure Charges (s : CpuModel cfg) : Prop where
  total : s.timing.accumulatedStalls + s.cacheOverlapCycles = PipelineTimingModel.pipelineStalls s.timing.stats +
    s.icache.stats.stallCycles + s.dcache.stats.stallCycles
  backed : s.cacheOverlapCycles ≤ s.dcache.stats.stallCycles

theorem Stepped.charges {s t : CpuModel cfg} {b : Bool} (w : Stepped s b t) (h : s.Charges) (hi : s.Inv)
    (hmem : cfg.memorySize + 16 ≤ 2 ^ 32) (hsmall : cfg.Small) : t.Charges := by
  obtain ⟨x, hstall, hoverlap, hback, -⟩ := w.external hi hmem hsmall
  have hretire := PipelineTimingModel.retire_accumulated (s.timing.addExternalStalls w.stalls) w.insn
    (w.e.kind = .branch true)
  rw [← w.timing] at hretire
  have hadd : (s.timing.addExternalStalls w.stalls).accumulatedStalls =
      s.timing.accumulatedStalls + w.stalls.toNat := rfl
  have hsame : PipelineTimingModel.pipelineStalls (s.timing.addExternalStalls w.stalls).stats =
      PipelineTimingModel.pipelineStalls s.timing.stats := rfl
  have htotal := h.total
  have hbacked := h.backed
  exact ⟨by omega, by omega⟩

theorem charges_run (hmem : cfg.memorySize + 16 ≤ 2 ^ 32) (hsmall : cfg.Small) (h : cfg.Accepted)
    {program data : ℕ → BitVec 8} {pc : BitVec 32} {n : ℕ} {t : CpuModel cfg}
    (ht : Exec.iter step n (boot cfg h program data pc) = some t) : t.Charges := by
  refine (run_inv (P := fun s => s.Inv ∧ s.Charges) ?_ ht ⟨inv_boot h program data pc, rfl, le_rfl⟩).2
  intro s u b w ⟨hi, hc⟩
  exact ⟨w.inv hi hmem, w.charges hc hi hmem hsmall⟩

/-- the cycles of the timing model, and the overlap -/
theorem cycles_run (hmem : cfg.memorySize + 16 ≤ 2 ^ 32) (hsmall : cfg.Small) (h : cfg.Accepted)
    {program data : ℕ → BitVec 8} {pc : BitVec 32} {n : ℕ} {t : CpuModel cfg}
    (ht : Exec.iter step n (boot cfg h program data pc) = some t) :
    t.stats.cycles + t.cacheOverlapCycles = t.timing.stats.baseInstructionCycles + t.timing.stats.pipelineFillDrain +
      PipelineTimingModel.pipelineStalls t.timing.stats + t.icache.stats.stallCycles + t.dcache.stats.stallCycles := by
  obtain ⟨hinv, hbooks⟩ := books_run hmem h ht
  have htotal := (charges_run hmem hsmall h ht).total
  have hcycles := hinv.reported.cycles
  have hsum := hbooks.total
  omega

/-- runs that compute the same differ in the cache stalls and the overlap only -/
theorem cycles_apart {cfg' : CpuConfig} (hmem : cfg.memorySize + 16 ≤ 2 ^ 32) (hmem' : cfg'.memorySize + 16 ≤ 2 ^ 32)
    (hsmall : cfg.Small) (hsmall' : cfg'.Small) (h : cfg.Accepted) (h' : cfg'.Accepted) {program data : ℕ → BitVec 8}
    {pc : BitVec 32} {n n' : ℕ} {t : CpuModel cfg} {t' : CpuModel cfg'} (harch : t.arch = t'.arch)
    (ht : Exec.iter step n (boot cfg h program data pc) = some t)
    (ht' : Exec.iter step n' (boot cfg' h' program data pc) = some t') :
    t.stats.cycles + t.cacheOverlapCycles + (t'.icache.stats.stallCycles + t'.dcache.stats.stallCycles) =
      t'.stats.cycles + t'.cacheOverlapCycles + (t.icache.stats.stallCycles + t.dcache.stats.stallCycles) := by
  have hcycles := cycles_run hmem hsmall h ht
  have hcycles' := cycles_run hmem' hsmall' h' ht'
  have htiming : t.timing.erase = t'.timing.erase := congrArg Arch.timing harch
  have hstats : ∀ f : PipelineTimingStats → ℕ, f t.timing.erase.stats = f t'.timing.erase.stats := by
    intro f
    rw [htiming]
  have hpipeline := hstats fun p =>
    p.baseInstructionCycles + p.pipelineFillDrain + PipelineTimingModel.pipelineStalls p
  simp only [PipelineTimingModel.erase, PipelineTimingModel.pipelineStalls] at hpipeline hcycles hcycles'
  omega

end CpuModel

/-- **Cycle attribution is exact.** In every state that a run reaches, the reported cycles and the overlap are the base
cycles, the fill and all stalls; and the cache stalls of one more step stay below 2^32, so no 32-bit sum of it wraps. -/
theorem cycles_exact (cfg : CpuConfig) (h : cfg.Accepted) (hmem : cfg.memorySize + 16 ≤ 2 ^ 32)
    (hlat : 4 * (cfg.icache.memoryLatency.toNat + 4) + 2 * cfg.dcache.memoryLatency.toNat + 7 < 2 ^ 32)
    (program data : ℕ → BitVec 8) (pc : BitVec 32) (n : ℕ) (t : CpuModel cfg)
    (ht : Exec.iter CpuModel.step n (boot cfg h program data pc) = some t) :
    t.stats.cycles + t.stats.stallCacheOverlap =
      t.stats.baseInstructionCycles + t.stats.pipelineFillDrain + t.stats.stallLoadUse + t.stats.stallBranchRedirect +
        t.stats.stallJumpRedirect + t.stats.stallDivider + t.stats.stallIcache + t.stats.stallDcache ∧
    t.stats.stallCacheOverlap ≤ t.stats.stallDcache ∧
    ∀ b u, CpuModel.step t = .ok b u →
      u.stats.stallIcache + u.stats.stallDcache < t.stats.stallIcache + t.stats.stallDcache + 2 ^ 32 := by
  have hinv := CpuModel.inv_run hmem h ht
  have hcharges := CpuModel.charges_run hmem hlat h ht
  have hcycles := CpuModel.cycles_run hmem hlat h ht
  refine ⟨?_, ?_, fun b u hstep => ?_⟩
  · rw [hinv.synced] at hcycles ⊢
    simp only [CpuModel.syncStats, PipelineTimingModel.pipelineStalls] at hcycles ⊢
    omega
  · rw [hinv.synced]
    exact hcharges.backed
  · have hu := CpuModel.inv_step hmem hinv hstep
    rw [hinv.synced, hu.synced]
    simp only [CpuModel.syncStats]
    rcases CpuModel.step_ok.1 hstep with ⟨-, -, rfl⟩ | ⟨⟨w⟩⟩
    · omega
    · obtain ⟨x, -, -, -, hbound⟩ := w.external hinv hmem hlat
      exact hbound

/-- a run over split caches, to its end -/
theorem cycles_exact_cacheTest : ∃ t,
    Exec.iter CpuModel.step 11 (boot splitCaches splitCaches_accepted (wordImage cacheTest) 0 0) = some t ∧
    t.stats.cycles + t.stats.stallCacheOverlap =
      t.stats.baseInstructionCycles + t.stats.pipelineFillDrain + t.stats.stallLoadUse + t.stats.stallBranchRedirect +
        t.stats.stallJumpRedirect + t.stats.stallDivider + t.stats.stallIcache + t.stats.stallDcache := by
  obtain ⟨t, ht⟩ := Option.isSome_iff_exists.1 (by decide +kernel :
    (Exec.iter CpuModel.step 11 (boot splitCaches splitCaches_accepted (wordImage cacheTest) 0 0)).isSome = true)
  exact ⟨t, ht, (cycles_exact splitCaches splitCaches_accepted (by decide) (by decide) _ _ _ _ t ht).1⟩

/-- **Counters are conserved.** -/
theorem counters_conserved (cfg : CpuConfig) (h : cfg.Accepted) (hmem : cfg.memorySize + 16 ≤ 2 ^ 32)
    (hilat : 2 * cfg.icache.memoryLatency.toNat + 7 < 2 ^ 32)
    (hdlat : 2 * cfg.dcache.memoryLatency.toNat + 7 < 2 ^ 32)
    (program data : ℕ → BitVec 8) (pc : BitVec 32) (n : ℕ) (t : CpuModel cfg)
    (ht : Exec.iter CpuModel.step n (boot cfg h program data pc) = some t) :
    (t.stats.retired = t.stats.alu + t.stats.branches + t.stats.jumps + t.stats.loads + t.stats.stores +
        t.stats.mulDiv + if t.halted then 1 else 0) ∧
      t.stats.branchesTaken ≤ t.stats.branches ∧
      t.stats.icacheHits + t.stats.icacheMisses = t.stats.icacheAccesses ∧
      t.stats.dcacheHits + t.stats.dcacheMisses = t.stats.dcacheAccesses ∧
      (cfg.dcache.enabled = true →
        t.stats.dcacheAccesses = t.stats.loads + t.stats.stores + t.stats.dcacheIfstallReplays) ∧
      t.stats.dcacheWritebacks ≤ t.stats.stores ∧
      t.stats.dcacheWritebacks ≤ t.stats.dcacheMisses ∧
      t.stats.axiReadTransactions = t.stats.icacheMisses + t.stats.dcacheMisses ∧
      t.stats.axiWriteTransactions = t.stats.dcacheWritebacks ∧
      t.stats.stallIcache = t.stats.icacheMisses * (cfg.icache.memoryLatency.toNat + 4) ∧
      t.stats.stallDcache = t.stats.dcacheMisses * (cfg.dcache.memoryLatency.toNat + 4) +
        t.stats.dcacheWritebacks * (cfg.dcache.memoryLatency.toNat + 3) ∧
      t.stats.stallBranchRedirect = 2 * t.stats.branchesTaken ∧
      t.stats.stallJumpRedirect = 2 * t.stats.jumps := by
  obtain ⟨hinv, hbooks⟩ := CpuModel.books_run hmem h ht
  have hcounted := hbooks.counted
  have hicache := hbooks.icache
  have hdcache := hbooks.dcache
  have hread := hbooks.readOnly
  -- the reported cache counters are those of the caches
  have hrep := hinv.reported
  refine ⟨hcounted.classes, hcounted.taken, ?_, ?_, fun hen => ?_, ?_, ?_, ?_, ?_, ?_, ?_, ?_, ?_⟩
  · rw [hrep.iaccesses, hrep.ihits, hrep.imisses, Nat.add_right_comm, hicache.hits]
  · rw [hrep.dhits, hrep.dmisses, hrep.daccesses]
    exact hdcache.hits
  · rw [hrep.daccesses, hrep.replays]
    exact hbooks.presented hen
  · rw [hrep.writebacks]
    exact hbooks.budget.le
  · rw [hrep.writebacks, hrep.dmisses]
    exact hdcache.dirty
  · rw [hrep.reads, hicache.reads, hdcache.reads, hrep.imisses, hrep.dmisses]
  · rw [hrep.writes, hdcache.writes, hrep.writebacks]
  · rw [hrep.istalls, hrep.imisses, hicache.stall_eq hilat, hread, Nat.zero_mul, Nat.add_zero]
  · rw [hrep.dstalls, hrep.dmisses, hrep.writebacks]
    exact hdcache.stall_eq hdlat
  · rw [hrep.branch]
    exact hcounted.branch
  · rw [hrep.jump]
    exact hcounted.jump

theorem counters_conserved_cacheTest : ∃ t,
    Exec.iter CpuModel.step 11 (boot splitCaches splitCaches_accepted (wordImage cacheTest) 0 0) = some t ∧
    t.stats.dcacheWritebacks ≤ t.stats.stores ∧ t.stats.dcacheWritebacks ≤ t.stats.dcacheMisses := by
  obtain ⟨t, ht⟩ := Option.isSome_iff_exists.1 (by decide +kernel :
    (Exec.iter CpuModel.step 11 (boot splitCaches splitCaches_accepted (wordImage cacheTest) 0 0)).isSome = true)
  have hall := counters_conserved splitCaches splitCaches_accepted (by decide) (by decide) (by decide) _ _ _ _ t ht
  exact ⟨t, ht, hall.2.2.2.2.2.1, hall.2.2.2.2.2.2.1⟩

end Rv32im
