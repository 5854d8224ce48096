/-
The invariant of the whole model between calls, and what one call does to its counters.

- `Inv`: the fetch pointer leads the pc by at most three words, register 0 is zero, and the reported counters are the
  counters of the timing model and of the caches.
- `Reported`: the component that each reported counter is taken from.
- `inv_step`, `inv_run`: every returning call keeps it, in a memory that ends at least four words below 2^32.
- `Stepped.served`, `Stepped.charged`: the fetch stream and the D-cache of one instruction, from the invariant.
- `external_exact`: with small latencies, the 32-bit stall of one instruction is the stall its cache accesses counted,
  less its credit. No 32-bit sum wraps.
-/
import Mathlib.Data.BitVec
import Rv32im.Step.Arch
import Rv32im.Timing.Stream

namespace Rv32im

namespace CpuModel

open FrontEnd Caches

variable {cfg : CpuConfig}

/-- what holds between calls -/
structure Inv (s : CpuModel cfg) : Prop where
  size : s.instructionMemory.size = cfg.memorySize
  zero : s.regs 0 = 0
  lead : ∃ j ≤ 3, Lead s.caches.frontEnd s.pc j
  synced : s.stats = s.syncStats

/-- the component that each reported counter is taken from -/
structure Reported (s : CpuModel cfg) : Prop where
  retired : s.stats.retired = s.timing.stats.retired
  cycles : s.stats.cycles = s.timing.stats.totalCycles
  loadUse : s.stats.stallLoadUse = s.timing.stats.loadUseStalls
  branch : s.stats.stallBranchRedirect = s.timing.stats.branchRedirectStalls
  jump : s.stats.stallJumpRedirect = s.timing.stats.jumpRedirectStalls
  divider : s.stats.stallDivider = s.timing.stats.dividerStalls
  overlap : s.stats.stallCacheOverlap = s.cacheOverlapCycles
  iholds : s.stats.icachePipelineHoldReplays =
    holdReplays cfg (s.stats.stallLoadUse + s.stats.stallDivider) s.stats.stallCacheOverlap
  iaccesses : s.stats.icacheAccesses = s.icache.stats.accesses + s.stats.icachePipelineHoldReplays
  ihits : s.stats.icacheHits = s.icache.stats.hits + s.stats.icachePipelineHoldReplays
  imisses : s.stats.icacheMisses = s.icache.stats.misses
  istalls : s.stats.stallIcache = s.icache.stats.stallCycles
  daccesses : s.stats.dcacheAccesses = s.dcache.stats.accesses
  dhits : s.stats.dcacheHits = s.dcache.stats.hits
  dmisses : s.stats.dcacheMisses = s.dcache.stats.misses
  dstalls : s.stats.stallDcache = s.dcache.stats.stallCycles
  writebacks : s.stats.dcacheWritebacks = s.dcache.stats.writebacks
  replays : s.stats.dcacheIfstallReplays = s.dcacheIfstallReplays
  reads : s.stats.axiReadTransactions = s.icache.stats.readTransactions + s.dcache.stats.readTransactions
  writes : s.stats.axiWriteTransactions = s.dcache.stats.writeTransactions

theorem reported_of_synced {s : CpuModel cfg} (h : s.stats = s.syncStats) : s.Reported := by
  constructor
  all_goals
    rw [h]
    rfl

theorem Inv.reported {s : CpuModel cfg} (h : s.Inv) : s.Reported := reported_of_synced h.synced

theorem boot_contents (h : cfg.Accepted) (program data : ℕ → BitVec 8) (pc : BitVec 32) :
    (boot cfg h program data pc).icache.contents = DirectMapped.empty ∧
      (boot cfg h program data pc).dcache.contents = DirectMapped.empty :=
  ⟨DirectMappedCacheModel.contents_reset (.fresh h.icache), DirectMappedCacheModel.contents_reset (.fresh h.dcache)⟩

/-- at boot the pointer is at the pc -/
theorem lead_boot (h : cfg.Accepted) (program data : ℕ → BitVec 8) (pc : BitVec 32) :
    Lead (boot cfg h program data pc).caches.frontEnd pc 0 := by
  refine ⟨?_, fun _ => rfl, fun _ h0 => absurd h0 (lt_irrefl 0)⟩
  show DirectMapped.Clean (boot cfg h program data pc).icache.contents
  rw [(boot_contents h program data pc).1]
  exact DirectMapped.clean_empty

theorem inv_boot (h : cfg.Accepted) (program data : ℕ → BitVec 8) (pc : BitVec 32) :
    (boot cfg h program data pc).Inv where
  size := Memory.ofImage_size _ _
  zero := rfl
  lead := ⟨0, Nat.zero_le 3, lead_boot h program data pc⟩
  synced := by
    have hholds : holdReplays cfg 0 0 = 0 := by
      unfold holdReplays
      split_ifs <;> rfl
    show ({} : PerformanceStats) = syncStats _
    simp only [syncStats, boot, reset, withImages, PipelineTimingModel.reset, DirectMappedCacheModel.reset,
      Nat.add_zero, hholds]

/-! ## One instruction -/

section Step

variable {s t : CpuModel cfg} {b : Bool}

theorem retired_caches (s : CpuModel cfg) (insn : BitVec 32) (e : Effect) (stalls : BitVec 32) (c : Caches cfg) :
    (s.retired insn e stalls c).caches = c := rfl

theorem Stepped.caches (w : Stepped s b t) : t.caches = w.c :=
  (congrArg CpuModel.caches w.after).trans (retired_caches s w.insn w.e w.stalls w.c)

/-- the cache side of the instruction -/
theorem Stepped.charged (w : Stepped s b t) :
    Nonempty (Charged s.caches w.e.kind s.pc w.e.nextPc s.look w.stalls t.caches) := by
  rw [w.caches]
  exact charge_ok.1 w.charge

theorem Stepped.fits (w : Stepped s b t) : w.e.Fits s.pc w.insn := effect_fits w.effect

/-- the pc of an instruction that was fetched -/
theorem Stepped.placed (w : Stepped s b t) (h : s.Inv) (hmem : cfg.memorySize + 16 ≤ 2 ^ 32) : Placed s.pc := by
  have hbound := Memory.read32_ok_bound w.fetch
  rw [h.size] at hbound
  exact ⟨aligned_iff.1 w.running.aligned, by omega⟩

theorem Stepped.pc (w : Stepped s b t) : t.pc = w.e.nextPc := (congrArg CpuModel.pc w.after).trans rfl

theorem Stepped.halted (w : Stepped s b t) :
    t.halted = decide (w.e.kind = .system) := by
  have h : t.halted = if w.e.kind = .system then true else s.halted :=
    (congrArg CpuModel.halted w.after).trans rfl
  rw [h, w.running.live]
  split_ifs with hk <;> simp [hk]

/-- **The fetch stream of one instruction** of a model in the invariant. -/
theorem Stepped.served (w : Stepped s b t) (h : s.Inv) (hmem : cfg.memorySize + 16 ≤ 2 ^ 32) {j : ℕ} (hj : j ≤ 3)
    (hl : Lead s.caches.frontEnd s.pc j) (q : Charged s.caches w.e.kind s.pc w.e.nextPc s.look w.stalls t.caches) :
    Served s.caches.frontEnd t.caches.frontEnd
      (cfg.icache.fetches s.ifetch.nextSequentialPc (w.e.kind.span j (s.caches.dstall w.e.kind)))
      (w.e.kind.holds cfg.icache (s.caches.dstall w.e.kind)) (q.s₁ + q.s₂ + q.s₃) ∧
      Lead t.caches.frontEnd t.pc (w.e.kind.leadAfter j (s.caches.dstall w.e.kind)) := by
  rw [w.pc]
  exact q.serve hl hj (w.placed h hmem) w.fits.sequential

/-- **The D-cache of one instruction**, with r filled-line replays. -/
theorem Stepped.dcache (w : Stepped s b t) : ∃ r,
    t.dcacheIfstallReplays = s.dcacheIfstallReplays + r ∧
      (t.dcache.stats = (match w.e.kind.mem with
        | some (a, _) => cfg.dcache.count s.dcache.stats (cfg.dcache.outcome s.dcache.contents a)
        | none => s.dcache.stats).addReads r 0 0) ∧
      (t.dcache.contents = match w.e.kind.mem with
        | some (a, wr) => cfg.dcache.store s.dcache.contents a wr
        | none => s.dcache.contents) ∧
      t.dcacheOutcomes = s.dcacheOutcomes ++
        (w.e.kind.mem.map fun m => cfg.dcache.outcome s.dcache.contents m.1).toList := by
  obtain ⟨q⟩ := w.charged
  refine ⟨q.replay, q.replays, q.dstats, q.dcontents, ?_⟩
  rw [show t.dcacheOutcomes = _ from q.outcomes, daccess_eq]
  rfl

theorem synced_retired (s : CpuModel cfg) (insn : BitVec 32) (e : Effect) (stalls : BitVec 32) (c : Caches cfg) :
    (s.retired insn e stalls c).stats = (s.retired insn e stalls c).syncStats := rfl

theorem Stepped.inv (w : Stepped s b t) (h : s.Inv) (hmem : cfg.memorySize + 16 ≤ 2 ^ 32) : t.Inv := by
  obtain ⟨j, hj, hl⟩ := h.lead
  obtain ⟨q⟩ := w.charged
  have hafter := w.after
  refine ⟨?_, ?_, ⟨_, Kind.leadAfter_le _ hj _, (w.served h hmem hj hl q).2⟩, ?_⟩
  · rw [hafter]
    exact h.size
  · rw [hafter]
    exact Function.update_self (0 : Fin 32) (0 : BitVec 32) (w.e.regs s.regs)
  · rw [hafter]
    exact synced_retired s w.insn w.e w.stalls w.c

end Step

/-- **The invariant is kept** by every call that returns. -/
theorem inv_step (hmem : cfg.memorySize + 16 ≤ 2 ^ 32) {s t : CpuModel cfg} {b : Bool} (h : s.Inv)
    (hs : step s = .ok b t) : t.Inv := by
  apply step_inv _ h hs
  intro s t b w h
  exact w.inv h hmem

theorem inv_run (hmem : cfg.memorySize + 16 ≤ 2 ^ 32) (h : cfg.Accepted) {program data : ℕ → BitVec 8}
    {pc : BitVec 32} {n : ℕ} {t : CpuModel cfg} (ht : Exec.iter step n (boot cfg h program data pc) = some t) :
    t.Inv := by
  apply run_inv _ ht (inv_boot h program data pc)
  intro s t b w h
  exact w.inv h hmem

/-- **A step returns** when its fetch and its effect do, unless the overlap rule of a store finds a fault. -/
theorem step_returns (hmem : cfg.memorySize + 16 ≤ 2 ^ 32) {s : CpuModel cfg} (h : s.Inv) (hr : Running s)
    {insn : BitVec 32} (hf : s.instructionMemory.read32 s.pc = .ok insn) {e : Effect}
    (he : effect s.dataMemory s.regs s.pc insn = .ok e) (hq : ∀ x, s.look = .error x → e.kind.stores = false) :
    ∃ b t, step s = .ok b t := by
  obtain ⟨j, hj, hl⟩ := h.lead
  have hbound := Memory.read32_ok_bound hf
  rw [h.size] at hbound
  have hp : Placed s.pc := ⟨aligned_iff.1 hr.aligned, by omega⟩
  obtain ⟨st, c, hcharge⟩ := charge_returns hl hj hp e.nextPc hq
  exact ⟨_, _, step_ok.2 (Or.inr ⟨⟨hr, insn, e, st, c, hf, he, hcharge, rfl, rfl⟩⟩)⟩

end CpuModel

/-! ## Small latencies -/

/-- no 32-bit stall of one instruction wraps: four I-cache misses and one dirty D-cache miss -/
def CpuConfig.Small (cfg : CpuConfig) : Prop :=
  4 * (cfg.icache.memoryLatency.toNat + 4) + 2 * cfg.dcache.memoryLatency.toNat + 7 < 2 ^ 32

theorem CpuConfig.Small.data {cfg : CpuConfig} (h : cfg.Small) : 2 * cfg.dcache.memoryLatency.toNat + 7 < 2 ^ 32 := by
  unfold CpuConfig.Small at h
  omega

theorem CpuConfig.Small.penalty {cfg : CpuConfig} (h : cfg.Small) :
    cfg.icache.penalty = cfg.icache.memoryLatency.toNat + 4 := by
  unfold CpuConfig.Small at h
  exact CacheConfig.clean_toNat (by omega)

namespace Caches

variable {cfg : CpuConfig}

/-- the D-cache stall of an instruction -/
theorem dstall_eq (c : Caches cfg) (k : Kind) : c.dstall k = match k.mem with
    | some (a, _) => (cfg.dcache.outcome c.dcache.contents a).stallCycles
    | none => 0 := by
  unfold dstall
  rw [daccess_eq]
  cases k.mem <;> rfl

theorem dstall_le (h : 2 * cfg.dcache.memoryLatency.toNat + 7 < 2 ^ 32) (c : Caches cfg) (k : Kind) :
    (c.dstall k).toNat ≤ 2 * cfg.dcache.memoryLatency.toNat + 7 := by
  rw [dstall_eq]
  cases hm : k.mem with
  | none => simp
  | some m =>
    have := CacheConfig.outcome_stall h c.dcache.contents m.1
    simp only [this]
    split_ifs <;> omega

variable {k : Kind} {pc nextPc st : BitVec 32} {look : Except Exn (Option (BitVec 32))} {c c' : Caches cfg}

/-- what the D-cache counts as stall is the stall that the instruction is charged -/
theorem Charged.dcache_stall (w : Charged c k pc nextPc look st c') :
    c'.dcache.stats.stallCycles = c.dcache.stats.stallCycles + (c.dstall k).toNat := by
  rw [w.dstats, dstall_eq]
  cases k.mem with
  | none => simp [CacheStats.addReads]
  | some m =>
    simp only [CacheStats.addReads, CacheConfig.count, CacheConfig.outcome]
    split_ifs <;> simp [CacheStats.charge]

/-- **The 32-bit stall is exact.** It is the stall of m ≤ 4 I-cache misses and of the D-cache access, less the credit,
and the sum without the credit stays below 2^32. -/
theorem external_exact (w : Charged c k pc nextPc look st c') (hsmall : cfg.Small) {l : List Request} {n : ℕ}
    (hl : l.length ≤ 4) (hs : FrontEnd.Served c.frontEnd c'.frontEnd l n (w.s₁ + w.s₂ + w.s₃)) :
    st.toNat + w.credit.toNat = c.frontEnd.misses l * cfg.icache.penalty + (c.dstall k).toNat ∧
      c.frontEnd.misses l * cfg.icache.penalty + (c.dstall k).toNat < 2 ^ 32 := by
  have hm : c.frontEnd.misses l ≤ 4 := (c.frontEnd.misses_le l).trans hl
  have hp := hsmall.penalty
  have hi : c.frontEnd.misses l * cfg.icache.penalty ≤ 4 * (cfg.icache.memoryLatency.toNat + 4) := by
    rw [hp]
    exact Nat.mul_le_mul_right _ hm
  have hd := dstall_le hsmall.data c k
  unfold CpuConfig.Small at hsmall
  have hsum : c.frontEnd.misses l * cfg.icache.penalty + (c.dstall k).toNat < 2 ^ 32 := by omega
  refine ⟨?_, hsum⟩
  have hst : st = (w.s₁ + w.s₂ + w.s₃) + c.dstall k - w.credit := w.stalls.trans (by ring)
  have hfetch : (w.s₁ + w.s₂ + w.s₃).toNat = c.frontEnd.misses l * cfg.icache.penalty := by
    rw [hs.stalls, BitVec.toNat_ofNat]
    exact Nat.mod_eq_of_lt (by omega)
  have hcredit : w.credit.toNat ≤ (c.dstall k).toNat - 1 := by
    rw [w.credited]
    exact creditOf_le
  have htotal : (w.s₁ + w.s₂ + w.s₃ + c.dstall k).toNat =
      c.frontEnd.misses l * cfg.icache.penalty + (c.dstall k).toNat := by
    rw [toNat_add_of_lt (by rw [hfetch]; omega), hfetch]
  have hval : st.toNat = (w.s₁ + w.s₂ + w.s₃ + c.dstall k).toNat - w.credit.toNat :=
    (congrArg BitVec.toNat hst).trans (BitVec.toNat_sub_of_le (by rw [BitVec.le_def, htotal]; omega))
  omega

end Caches

namespace CpuModel

open FrontEnd Caches

variable {cfg : CpuConfig} {s t : CpuModel cfg} {b : Bool}

/-- **The stall charged to the pipeline** is the stall that the caches counted, less the credit x. -/
theorem Stepped.external (w : Stepped s b t) (h : s.Inv) (hmem : cfg.memorySize + 16 ≤ 2 ^ 32) (hsmall : cfg.Small) :
    ∃ x, t.icache.stats.stallCycles + t.dcache.stats.stallCycles =
        s.icache.stats.stallCycles + s.dcache.stats.stallCycles + w.stalls.toNat + x ∧
      t.cacheOverlapCycles = s.cacheOverlapCycles + x ∧ s.dcache.stats.stallCycles + x ≤ t.dcache.stats.stallCycles ∧
      t.icache.stats.stallCycles + t.dcache.stats.stallCycles <
        s.icache.stats.stallCycles + s.dcache.stats.stallCycles + 2 ^ 32 := by
  obtain ⟨j, hj, hl⟩ := h.lead
  obtain ⟨q⟩ := w.charged
  obtain ⟨hs, -⟩ := w.served h hmem hj hl q
  have hspan : (cfg.icache.fetches s.ifetch.nextSequentialPc
      (w.e.kind.span j (s.caches.dstall w.e.kind))).length ≤ 4 :=
    (cfg.icache.fetches_length_le _ _).trans (Kind.span_le _ _ (redirects_of_dstall s.caches w.e.kind))
  obtain ⟨hexact, hbound⟩ := external_exact q hsmall hspan hs
  have hi : t.icache.stats.stallCycles = s.icache.stats.stallCycles + _ := congrArg CacheStats.stallCycles hs.stats
  have hd : t.dcache.stats.stallCycles = s.dcache.stats.stallCycles + _ := q.dcache_stall
  have hcredit : q.credit.toNat ≤ (s.caches.dstall w.e.kind).toNat - 1 := by
    rw [q.credited]
    exact creditOf_le
  refine ⟨q.credit.toNat, ?_, q.overlap, ?_, ?_⟩
  · rw [hi, hd]
    omega
  · rw [hd]
    omega
  · rw [hi, hd]
    omega

end CpuModel

end Rv32im
