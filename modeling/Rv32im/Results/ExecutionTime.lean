/-
The time of a run, from its instruction mix.

- `Paced`: the pipeline stalls so far are paid by loads and divisions.
- `Spent`: the misses so far are paid by fetched words and data accesses.
- `execution_time`: every run takes at least the time of its pipeline, and at most what its instructions can cost.
-/
import Rv32im.Results.FetchStream
import Rv32im.Step.Run

namespace Rv32im

open PipelineTimingModel in
/-- an encoding that the pipeline takes for a load or a division is one -/
theorem effect_hazards {m : Memory} {r : Regs} {pc insn : BitVec 32} {e : Effect} (h : effect m r pc insn = .ok e) :
    ((decode insn).isLoad = true → ∃ a, e.kind = .load a) ∧ ((decode insn).isDivRem = true → e.kind = .mulDiv) := by
  unfold effect at h
  unfold decode
  split at h <;> rename_i hop <;> simp only [hop]
  · simp
  · simp
  · simp
  · simp
  · simp
  · obtain ⟨v, -, rfl⟩ := map_ok h
    simp
  · simp
  · simp
  · split_ifs at h with hm
    · obtain ⟨v, -, rfl⟩ := map_ok h
      simp
    · simp [hm]
  · simp
  · simp
  · cases h

/-- the counters that pay for the pipeline never fall -/
theorem Kind.count_le (k : Kind) (st : PerformanceStats) :
    st.loads ≤ (k.count st).loads ∧ st.mulDiv ≤ (k.count st).mulDiv := by
  cases k with
  | branch taken => cases taken <;> exact ⟨le_rfl, le_rfl⟩
  | load a => exact ⟨Nat.le_succ _, le_rfl⟩
  | mulDiv => exact ⟨le_rfl, Nat.le_succ _⟩
  | _ => exact ⟨le_rfl, le_rfl⟩

/-- a load or a store counts once, and so pays for one miss -/
theorem Kind.tally_le (k : Kind) (p : BitVec 32 → Bool) (st : PerformanceStats) :
    k.tally p + (st.loads + st.stores) ≤ (k.count st).loads + (k.count st).stores := by
  cases k with
  | load a =>
    simp only [Kind.tally, Kind.mem, Kind.count]
    split_ifs <;> omega
  | store a =>
    simp only [Kind.tally, Kind.mem, Kind.count]
    split_ifs <;> omega
  | branch taken => cases taken <;> simp [Kind.tally, Kind.mem, Kind.count]
  | _ => simp [Kind.tally, Kind.mem, Kind.count]

theorem Kind.tally_false (k : Kind) : k.tally (fun _ => false) = 0 := by
  unfold Kind.tally
  cases k.mem <;> rfl

namespace PipelineTimingModel

variable {config : PipelineTimingConfig}

/-- a load stalls the next instruction for one cycle at most -/
theorem loadUse_le (p : PipelineTimingModel config) (info : DecodedTimingInfo) :
    (if p.loadUseHazard info then 1 else 0) ≤ if p.previousWasLoad then 1 else 0 := by
  unfold loadUseHazard
  cases p.previousWasLoad with
  | false => exact le_rfl
  | true =>
    rw [if_pos rfl]
    split_ifs
    · exact le_rfl
    · exact Nat.zero_le 1

/-- a multiplication or division stalls for its latency at most -/
theorem dividerPenalty_le (p : PipelineTimingModel {}) : p.dividerPenalty ≤ 7 := by
  unfold dividerPenalty
  cases p.previousWasDivRem <;> decide

end PipelineTimingModel

namespace CpuModel

open FrontEnd Caches

variable {cfg : CpuConfig} {s t : CpuModel cfg}

/-- the pipeline stalls are paid by the loads and the divisions -/
structure Paced (s : CpuModel cfg) : Prop where
  base : s.timing.stats.baseInstructionCycles = s.timing.stats.retired
  fill : s.timing.stats.pipelineFillDrain = if s.timing.stats.retired = 0 then 0 else 4
  /-- a load that has retired may still stall one instruction -/
  loadUse : s.timing.stats.loadUseStalls + (if s.timing.previousWasLoad then 1 else 0) ≤ s.stats.loads
  divider : s.timing.stats.dividerStalls ≤ 7 * s.stats.mulDiv

theorem paced_boot (h : cfg.Accepted) (program data : ℕ → BitVec 8) (pc : BitVec 32) :
    (boot cfg h program data pc).Paced := ⟨rfl, rfl, le_rfl, le_rfl⟩

open PipelineTimingModel in
/-- **One instruction** pays for its stalls. -/
theorem Stepped.paced {b : Bool} (w : Stepped s b t) (h : s.Paced) : t.Paced := by
  obtain ⟨hload, hdiv⟩ := effect_hazards w.effect
  obtain ⟨hmoreLoads, hmoreMulDiv⟩ := w.e.kind.count_le s.stats
  have hloads : t.stats.loads = (w.e.kind.count s.stats).loads := w.count.1
  have hmulDiv : t.stats.mulDiv = (w.e.kind.count s.stats).mulDiv := congrArg (fun u => u.stats.mulDiv) w.after
  have hloadUse := h.loadUse
  have hdivider := h.divider
  have hhazard := s.timing.loadUse_le (decode w.insn)
  have hpenalty := s.timing.dividerPenalty_le
  have htiming := w.timing
  constructor
  · rw [htiming]
    rfl
  · rw [htiming]
    rfl
  · have hstalls : t.timing.stats.loadUseStalls =
        s.timing.stats.loadUseStalls + if s.timing.loadUseHazard (decode w.insn) then 1 else 0 := by
      rw [htiming]
      rfl
    have hprevious : t.timing.previousWasLoad = (decode w.insn).isLoad := by
      rw [htiming]
      rfl
    rw [hprevious, hstalls]
    cases hisLoad : (decode w.insn).isLoad with
    | false =>
      rw [if_neg Bool.false_ne_true]
      omega
    | true =>
      -- the stall that this load may cause is paid by its own count
      obtain ⟨a, hkind⟩ := hload hisLoad
      have hone : t.stats.loads = s.stats.loads + 1 := by
        rw [hloads, hkind]
        rfl
      rw [if_pos rfl]
      omega
  · have hstalls : t.timing.stats.dividerStalls =
        s.timing.stats.dividerStalls + if (decode w.insn).isDivRem then s.timing.dividerPenalty else 0 := by
      rw [htiming]
      rfl
    rw [hstalls]
    cases hisDiv : (decode w.insn).isDivRem with
    | false =>
      rw [if_neg Bool.false_ne_true]
      omega
    | true =>
      have hone : t.stats.mulDiv = s.stats.mulDiv + 1 := by
        rw [hmulDiv, hdiv hisDiv]
        rfl
      rw [if_pos rfl]
      omega

/-- the misses are paid by the words that are fetched first, and by the loads and the stores -/
structure Spent (s : CpuModel cfg) : Prop where
  icache : ∃ j ≤ 3, Lead s.caches.frontEnd s.pc j ∧ s.icache.stats.misses ≤
    if cfg.icache.enabled then s.timing.stats.retired + 2 * (s.stats.branchesTaken + s.stats.jumps) + j else 0
  dcache : s.dcache.stats.misses ≤ if cfg.dcache.enabled then s.stats.loads + s.stats.stores else 0

theorem spent_boot (h : cfg.Accepted) (program data : ℕ → BitVec 8) (pc : BitVec 32) :
    (boot cfg h program data pc).Spent :=
  ⟨⟨0, Nat.zero_le 3, lead_boot h program data pc, Nat.zero_le _⟩, Nat.zero_le _⟩

/-- **One instruction** pays for its misses. -/
theorem Stepped.spent {b : Bool} (w : Stepped s b t) (h : s.Spent) (hi : s.Inv) (hmem : cfg.memorySize + 16 ≤ 2 ^ 32) :
    t.Spent := by
  obtain ⟨j, hj, hl, hmisses⟩ := h.icache
  obtain ⟨q⟩ := w.charged
  obtain ⟨hserved, hlead⟩ := w.served hi hmem hj hl q
  constructor
  · have hspan := w.e.kind.span_lead hj (redirects_of_dstall s.caches w.e.kind)
    have hjumps := w.jumps
    have hcounted := w.counted.2
    have hmore : t.icache.stats.misses = s.icache.stats.misses + _ := congrArg CacheStats.misses hserved.stats
    have hle := s.caches.frontEnd.misses_le
      (cfg.icache.fetches s.ifetch.nextSequentialPc (w.e.kind.span j (s.caches.dstall w.e.kind)))
    refine ⟨_, Kind.leadAfter_le _ hj _, hlead, ?_⟩
    rw [hmore]
    unfold CacheConfig.fetches at hle ⊢
    split_ifs at hmisses hle ⊢ with hen
    · rw [sweep_length] at hle
      omega
    · rw [List.length_nil] at hle
      omega
  · obtain ⟨hloads, hstores, -, -⟩ := w.count
    have hdcache := h.dcache
    rw [w.tally.1]
    by_cases hen : cfg.dcache.enabled = true
    · have hpaid := w.e.kind.tally_le (fun a => (cfg.dcache.outcome s.dcache.contents a).miss) s.stats
      rw [if_pos hen] at hdcache ⊢
      rw [hloads, hstores]
      omega
    · have hhit : (fun a => (cfg.dcache.outcome s.dcache.contents a).miss) = fun _ => false := by
        funext a
        rw [CacheConfig.outcome, if_neg hen]
      rw [if_neg hen] at hdcache ⊢
      rw [hhit, Kind.tally_false]
      exact hdcache

theorem spent_run (hmem : cfg.memorySize + 16 ≤ 2 ^ 32) (h : cfg.Accepted) {program data : ℕ → BitVec 8}
    {pc : BitVec 32} {n : ℕ} (ht : Exec.iter step n (boot cfg h program data pc) = some t) : t.Paced ∧ t.Spent := by
  refine (run_inv (P := fun s => s.Inv ∧ s.Paced ∧ s.Spent) (fun u v b w hu => ?_) ht
    ⟨inv_boot h program data pc, paced_boot h program data pc, spent_boot h program data pc⟩).2
  obtain ⟨hinv, hpaced, hspent⟩ := hu
  exact ⟨w.inv hinv hmem, w.paced hpaced, w.spent hspent hinv hmem⟩

/-- the stalls of the caches: at most what the fetched words and the data accesses can miss -/
theorem stalls_bounded (hmem : cfg.memorySize + 16 ≤ 2 ^ 32) (hsmall : cfg.Small) (h : cfg.Accepted)
    {program data : ℕ → BitVec 8} {pc : BitVec 32} {n : ℕ}
    (ht : Exec.iter step n (boot cfg h program data pc) = some t) :
    t.icache.stats.stallCycles ≤
        (if cfg.icache.enabled then t.stats.retired + 2 * (t.stats.branchesTaken + t.stats.jumps) + 3 else 0) *
          (cfg.icache.memoryLatency.toNat + 4) ∧
      t.dcache.stats.stallCycles ≤
        (if cfg.dcache.enabled then t.stats.loads + t.stats.stores else 0) * (cfg.dcache.memoryLatency.toNat + 4) +
          (if cfg.dcache.enabled then t.stats.stores else 0) * (cfg.dcache.memoryLatency.toNat + 3) := by
  obtain ⟨hinv, hbooks⟩ := books_run hmem h ht
  obtain ⟨-, hspent⟩ := spent_run hmem h ht
  constructor
  · obtain ⟨j, hj, -, hmisses⟩ := hspent.icache
    rw [hbooks.icache_stalls, hsmall.penalty, hinv.reported.retired]
    refine Nat.mul_le_mul_right _ (hmisses.trans ?_)
    split_ifs <;> omega
  · have hdirty := hbooks.dcache.dirty
    have hstores := hbooks.budget.le
    have hdcache := hspent.dcache
    rw [hbooks.dcache.stall_eq hsmall.data]
    refine Nat.add_le_add (Nat.mul_le_mul_right _ hdcache) (Nat.mul_le_mul_right _ ?_)
    split_ifs at hdcache ⊢
    · exact hstores
    · omega

end CpuModel

/-- the configuration with both caches off -/
abbrev CpuConfig.uncached (cfg : CpuConfig) : CpuConfig :=
  { cfg with icache := { cfg.icache with enabled := false }, dcache := { cfg.dcache with enabled := false } }

theorem CpuConfig.Accepted.uncached {cfg : CpuConfig} (h : cfg.Accepted) : cfg.uncached.Accepted :=
  ⟨⟨h.icache.lines, h.icache.lineBytes⟩, ⟨h.dcache.lines, h.dcache.lineBytes⟩⟩

namespace CpuModel

variable {cfg : CpuConfig} {s t : CpuModel cfg}

/-- what returns with caches returns without -/
theorem Stepped.uncached {s' : CpuModel cfg.uncached} {b : Bool} (w : Stepped s b t) (h : s.arch = s'.arch) :
    ∃ b' t', step s' = .ok b' t' ∧ t.arch = t'.arch := by
  have him : s.instructionMemory = s'.instructionMemory := congrArg Arch.instructionMemory h
  have hdm : s.dataMemory = s'.dataMemory := congrArg Arch.dataMemory h
  have hregs : s.regs = s'.regs := congrArg Arch.regs h
  have hpc : s.pc = s'.pc := congrArg Arch.pc h
  have hhalted : s.halted = s'.halted := congrArg Arch.halted h
  have hretired : s.stats.retired = s'.stats.retired := congrArg (fun a => a.classes.retired) h
  obtain ⟨stalls, c, hcharge⟩ := @Caches.charge_returns_disabled cfg.uncached rfl w.e.kind s'.pc w.e.nextPc s'.look
    s'.caches
  have w' : Stepped s' (!(s'.retired w.insn w.e stalls c).halted) (s'.retired w.insn w.e stalls c) :=
    { running := ⟨hhalted ▸ w.running.live, hretired ▸ w.running.below, hpc ▸ w.running.aligned⟩
      insn := w.insn
      e := w.e
      stalls := stalls
      c := c
      fetch := him ▸ hpc ▸ w.fetch
      effect := by rw [← hdm, ← hregs, ← hpc, w.effect]
      charge := hcharge
      more := rfl
      after := rfl }
  exact ⟨_, _, step_ok.2 (Or.inr ⟨w'⟩), w.after_same w' h⟩

theorem uncached_run (h : cfg.Accepted) {program data : ℕ → BitVec 8} {pc : BitVec 32} {n : ℕ}
    (ht : Exec.iter step n (boot cfg h program data pc) = some t) :
    ∃ t', Exec.iter step n (boot cfg.uncached h.uncached program data pc) = some t' ∧ t.arch = t'.arch := by
  refine Exec.iter_follows (R := fun s (s' : CpuModel cfg.uncached) => s.arch = s'.arch) (fun u u' b v hu hstep => ?_) ht
    (arch_boot h h.uncached rfl program data pc)
  rcases step_ok.1 hstep with ⟨hhalted, -, hidle⟩ | ⟨⟨w⟩⟩
  · have hsame : u.halted = u'.halted := congrArg Arch.halted hu
    exact ⟨false, u', step_of_halted (hsame ▸ hhalted), hidle ▸ hu⟩
  · exact w.uncached hu

end CpuModel

open CpuModel

end Rv32im
