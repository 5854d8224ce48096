/-
The replays that the reported I-cache counters add for load-use and divider holds.

A held instruction presents its successor's fetch once per hold cycle. The report adds these cycles to the accesses and
hits of the I-cache, less those already in a cache overlap. It compares running totals: all holds so far with all
overlap so far. An overlap of an earlier store therefore also suppresses the replays of later holds, until the holds
have caught up with it. A call that throws behind I-cache requests reports none of them; the next call that returns
reports them with its own.

- `Held`: the next instruction pays a load-use or divider penalty.
- `AccessesReported`: no I-cache access of an earlier call is missing from the report.
- `LocalReplays`: one step adds to the report its I-cache accesses and its own hold cycles.
- `Missing`: the accesses and misses that the report lacks. A throw adds to them, a step that returns clears them.
- `called_accounted`: in every state that calls reach, accesses are missing only behind misses, or where no step returns.
- `Stepped.local_iff`: without a credit the report is local exactly if it lacks nothing, and nothing is held or the
  overlap has been caught up with.
- `hold_replays_local_iff`: the statement for every state that calls reach, also behind calls that threw.
-/
import Rv32im.Timing.Sound
import Rv32im.Results.Isolation

namespace Rv32im

namespace CpuModel

variable {cfg : CpuConfig} {s t : CpuModel cfg} {b : Bool}

/-! ## One step -/

/-- the next instruction waits for a load, or is a division behind another instruction -/
def Held (s : CpuModel cfg) : Prop :=
  s.halted = false ∧ ∃ insn, s.instructionMemory.read32 s.pc = .ok insn ∧
    (s.timing.loadUseHazard (PipelineTimingModel.decode insn) = true ∨
      (PipelineTimingModel.decode insn).isDivRem = true ∧ s.timing.previousWasDivRem = false)

/-- the reported I-cache accesses are those made so far and the reported hold replays -/
def AccessesReported (s : CpuModel cfg) : Prop :=
  s.stats.icacheAccesses = s.icache.stats.accesses + s.stats.icachePipelineHoldReplays

/-- the reported I-cache accesses and hits grow by those of the I-cache and by the hold cycles of the step -/
structure LocalReplays (s t : CpuModel cfg) : Prop where
  accesses : (t.stats.icacheAccesses : ℤ) - s.stats.icacheAccesses =
    (t.icache.stats.accesses - s.icache.stats.accesses) +
      ((t.stats.stallLoadUse - s.stats.stallLoadUse) + (t.stats.stallDivider - s.stats.stallDivider))
  hits : (t.stats.icacheHits : ℤ) - s.stats.icacheHits =
    (t.icache.stats.hits - s.icache.stats.hits) +
      ((t.stats.stallLoadUse - s.stats.stallLoadUse) + (t.stats.stallDivider - s.stats.stallDivider))

theorem holdReplays_eq (hen : cfg.icache.enabled = true) (holds overlap : ℕ) :
    holdReplays cfg holds overlap = holds - overlap := by
  unfold holdReplays
  rw [if_pos hen]
  dsimp only
  split_ifs <;> omega

/-- the hold cycles of one instruction -/
theorem Stepped.holds (w : Stepped s b t) : ∃ held,
    t.timing.stats.loadUseStalls + t.timing.stats.dividerStalls =
      s.timing.stats.loadUseStalls + s.timing.stats.dividerStalls + held ∧ (held = 0 ↔ ¬ s.Held) := by
  have hiff : s.Held ↔ s.timing.loadUseHazard (PipelineTimingModel.decode w.insn) = true ∨
      (PipelineTimingModel.decode w.insn).isDivRem = true ∧ s.timing.previousWasDivRem = false := by
    refine ⟨?_, fun h => ⟨w.running.live, w.insn, w.fetch, h⟩⟩
    intro ⟨_, insn, hfetch, h⟩
    cases hfetch.symm.trans w.fetch
    exact h
  refine ⟨(if s.timing.loadUseHazard (PipelineTimingModel.decode w.insn) then 1 else 0) +
    if (PipelineTimingModel.decode w.insn).isDivRem then s.timing.dividerPenalty else 0, ?_, ?_⟩
  · have hload : t.timing.stats.loadUseStalls = s.timing.stats.loadUseStalls +
        if s.timing.loadUseHazard (PipelineTimingModel.decode w.insn) then 1 else 0 := by
      rw [w.timing]
      rfl
    have hdiv : t.timing.stats.dividerStalls = s.timing.stats.dividerStalls +
        if (PipelineTimingModel.decode w.insn).isDivRem then s.timing.dividerPenalty else 0 := by
      rw [w.timing]
      rfl
    omega
  · rw [hiff]
    -- the first division of a row waits seven cycles, the others none
    have hpenalty : s.timing.dividerPenalty = if s.timing.previousWasDivRem then 0 else 7 := by
      unfold PipelineTimingModel.dividerPenalty
      cases s.timing.previousWasDivRem <;> rfl
    rw [hpenalty]
    cases s.timing.loadUseHazard (PipelineTimingModel.decode w.insn) <;>
      cases (PipelineTimingModel.decode w.insn).isDivRem <;> cases s.timing.previousWasDivRem <;> simp

/-! ## What the report lacks -/

/-- the report is that of the last call that returned: it lacks `n` I-cache accesses, `m` of them misses -/
structure Missing (s : CpuModel cfg) (n m : ℕ) : Prop where
  loadUse : s.stats.stallLoadUse = s.timing.stats.loadUseStalls
  divider : s.stats.stallDivider = s.timing.stats.dividerStalls
  overlap : s.stats.stallCacheOverlap = s.cacheOverlapCycles
  holds : s.stats.icachePipelineHoldReplays =
    holdReplays cfg (s.timing.stats.loadUseStalls + s.timing.stats.dividerStalls) s.cacheOverlapCycles
  accesses : s.icache.stats.accesses + s.stats.icachePipelineHoldReplays = s.stats.icacheAccesses + n
  hits : s.icache.stats.hits + m + s.stats.icachePipelineHoldReplays = s.stats.icacheHits + n
  le : m ≤ n

theorem missing_of_synced (h : s.stats = s.syncStats) : s.Missing 0 0 := by
  have hrep := reported_of_synced h
  refine ⟨hrep.loadUse, hrep.divider, hrep.overlap, ?_, hrep.iaccesses.symm, hrep.ihits.symm, le_refl 0⟩
  rw [hrep.iholds, hrep.loadUse, hrep.divider, hrep.overlap]

/-- a step that returns reports everything -/
theorem Stepped.missing (w : Stepped s b t) : t.Missing 0 0 := by
  apply missing_of_synced
  rw [w.after]
  exact synced_retired s w.insn w.e w.stalls w.c

theorem Missing.reported_iff {n m : ℕ} (h : s.Missing n m) : s.AccessesReported ↔ n = 0 := by
  have haccesses := h.accesses
  unfold AccessesReported
  omega

/-- a call that fetches `reqs` and reports nothing leaves them missing -/
theorem Missing.fetched {n m : ℕ} (h : s.Missing n m) {f : FrontEnd {} cfg.icache} {reqs : List Request}
    {st : BitVec 32} (hf : FrontEnd.Fetched s.caches.frontEnd f reqs st) (hicache : t.icache = f.icache)
    (htiming : t.timing = s.timing) (hoverlap : t.cacheOverlapCycles = s.cacheOverlapCycles)
    (hstats : ∃ alu mulDiv, t.stats = { s.stats with alu := alu, mulDiv := mulDiv }) :
    t.Missing (n + reqs.length) (m + s.caches.frontEnd.misses reqs) := by
  obtain ⟨alu, mulDiv, hstats⟩ := hstats
  have hle : s.caches.frontEnd.misses reqs ≤ reqs.length := FrontEnd.misses_le _ reqs
  have haccesses : t.icache.stats.accesses = s.icache.stats.accesses + reqs.length := by
    rw [hicache, hf.stats]
    rfl
  have hhits : t.icache.stats.hits = s.icache.stats.hits + (reqs.length - s.caches.frontEnd.misses reqs) := by
    rw [hicache, hf.stats]
    rfl
  have hacc := h.accesses
  have hhit := h.hits
  refine ⟨?_, ?_, ?_, ?_, ?_, ?_, Nat.add_le_add h.le hle⟩ <;> rw [hstats]
  · rw [htiming]
    exact h.loadUse
  · rw [htiming]
    exact h.divider
  · rw [hoverlap]
    exact h.overlap
  · rw [htiming, hoverlap]
    exact h.holds
  · rw [haccesses]
    dsimp only
    omega
  · rw [hhits]
    dsimp only
    omega

/-- the switch throws at the next instruction, and leaves the model so -/
def Refuses (s : CpuModel cfg) : Prop :=
  ∃ insn x, s.instructionMemory.read32 s.pc = .ok insn ∧ effect s.dataMemory s.regs s.pc insn = .error x

theorem Stepped.not_refuses (w : Stepped s b t) : ¬ s.Refuses := by
  intro ⟨insn, x, hfetch, heffect⟩
  cases w.fetch.symm.trans hfetch
  cases w.effect.symm.trans heffect

/-- the report lacks nothing, or it lacks a miss, or no step returns any more -/
structure Accounted (s : CpuModel cfg) : Prop where
  sound : s.Sound
  missing : ∃ n m, s.Missing n m ∧ (n = 0 ∨ s.halted = false ∧ (s.Refuses ∨ 0 < m))

theorem Stepped.accounted (w : Stepped s b t) (h : s.Accounted) : t.Accounted :=
  ⟨w.sound h.sound, 0, 0, w.missing, Or.inl rfl⟩

theorem earlyCount_counts (insn : BitVec 32) (st : PerformanceStats) :
    ∃ alu mulDiv, earlyCount insn st = { st with alu := alu, mulDiv := mulDiv } := by
  unfold earlyCount
  split_ifs
  · exact ⟨st.alu, _, rfl⟩
  · exact ⟨_, st.mulDiv, rfl⟩
  · exact ⟨st.alu, st.mulDiv, rfl⟩

/-- a throw behind the look-ahead leaves a miss unreported, one of the switch leaves the model refusing -/
theorem Thrown.accounted {x : Exn} (h : Thrown s x t) (hs : s.Accounted) : t.Accounted := by
  refine ⟨h.sound hs.sound, ?_⟩
  obtain ⟨n, m, hmissing, hcause⟩ := hs.missing
  cases h with
  | limit _ => exact ⟨n, m, hmissing, hcause⟩
  | misaligned _ _ => exact ⟨n, m, hmissing, hcause⟩
  | fetch _ _ => exact ⟨n, m, hmissing, hcause⟩
  | switch hrun hfetch hdemand heffect =>
    have ha : Aligned s.pc := aligned_iff.1 hrun.aligned
    obtain ⟨f, hf, rfl⟩ := Exec.zoom_ok.1 hdemand
    obtain ⟨hfetched, -⟩ := FrontEnd.ensureThrough_fetched (hs.sound.frontEnd ha) ha hf
    exact ⟨_, _, hmissing.fetched hfetched rfl rfl rfl (earlyCount_counts _ _),
      Or.inr ⟨hrun.live, Or.inl ⟨_, x, hfetch, heffect⟩⟩⟩
  | lookahead hrun _ _ hcharge =>
    have ha : Aligned s.pc := aligned_iff.1 hrun.aligned
    have hfront := hs.sound.frontEnd ha
    obtain ⟨s₁, f₁, s₂, f₂, h₁, h₂, hfault, rfl⟩ := (Caches.charge_throw ha).1 hcharge
    obtain ⟨-, -, hd, hs₂⟩ := Caches.lookFault_some.1 hfault
    obtain ⟨hf₁, -⟩ := FrontEnd.ensureThrough_fetched hfront ha h₁
    obtain ⟨hf₂, -⟩ := FrontEnd.onDcacheStall_fetched (FrontEnd.ensureThrough_sound hfront ha h₁) hd
      (ha.add aligned_twelve) h₂
    generalize f₁.firsts _ ++ FrontEnd.replays _ _ _ = ahead at hf₂
    refine ⟨_, _, hmissing.fetched (hf₁.trans hf₂) rfl rfl ?_ ⟨_, _, rfl⟩, Or.inr ⟨hrun.live, Or.inr ?_⟩⟩
    · show (s.caches.accessed _).overlap = s.caches.overlap
      unfold Caches.accessed
      split <;> rfl
    · -- the fetches behind the D-cache stall stalled, so one of them missed
      have hmiss : f₁.misses ahead ≠ 0 := by
        intro hzero
        rw [hf₂.stalls, hzero, Nat.zero_mul] at hs₂
        exact hs₂ rfl
      rw [FrontEnd.misses_append hf₁.contents]
      omega

/-- **In every state that calls reach** the report lacks nothing, or a miss, or no step returns any more. -/
theorem called_accounted {s₀ : CpuModel cfg} (h₀ : s₀.Accounted) (h : Exec.Called step s₀ s) : s.Accounted := by
  apply called_inv _ _ h h₀
  · intro s t b w hs
    exact w.accounted hs
  · intro s t x w hs
    exact w.accounted hs

theorem accounted_boot (h : cfg.Accepted) (program data : ℕ → BitVec 8) (pc : BitVec 32) :
    (boot cfg h program data pc).Accounted :=
  ⟨sound_boot h program data pc, 0, 0, missing_of_synced (inv_boot h program data pc).synced, Or.inl rfl⟩

/-- **The report is local** without a credit exactly if it lacks no access, and nothing is held or no earlier overlap is
left to suppress it. -/
theorem Stepped.local_iff (w : Stepped s b t) (hen : cfg.icache.enabled = true) {n m : ℕ} (h : s.Missing n m)
    (hmiss : n ≠ 0 → 0 < m) (hcredit : t.cacheOverlapCycles = s.cacheOverlapCycles) :
    LocalReplays s t ↔ s.AccessesReported ∧
      (¬ s.Held ∨ s.stats.stallCacheOverlap ≤ s.stats.stallLoadUse + s.stats.stallDivider) := by
  obtain ⟨held, hholds, hzero⟩ := w.holds
  have ht := w.missing
  rw [h.reported_iff, ← hzero, h.overlap, h.loadUse, h.divider]
  have hs_holds := h.holds
  have ht_holds := ht.holds
  rw [holdReplays_eq hen] at hs_holds ht_holds
  have hs_accesses := h.accesses
  have ht_accesses := ht.accesses
  have hs_hits := h.hits
  have ht_hits := ht.hits
  have hle := h.le
  refine ⟨?_, ?_⟩
  · intro ⟨hgrow, hgrow'⟩
    rw [ht.loadUse, ht.divider, h.loadUse, h.divider] at hgrow hgrow'
    omega
  · intro hlocal
    constructor <;> rw [ht.loadUse, ht.divider, h.loadUse, h.divider] <;> omega

end CpuModel

/-- **When hold-replay accounting is local.** In a step without a credit, from any state that calls reach, the reported
I-cache accesses and hits grow by those of the I-cache and by the hold cycles of the step if and only if no access of an
earlier call is missing from the report, and nothing is held in the step or the overlap so far is at most the holds so
far. -/
theorem hold_replays_local_iff (cfg : CpuConfig) (h : cfg.Accepted) (hen : cfg.icache.enabled = true)
    (program data : ℕ → BitVec 8) (pc : BitVec 32) (s t : CpuModel cfg) (b : Bool)
    (hs : Exec.Called CpuModel.step (boot cfg h program data pc) s) (ht : CpuModel.step s = .ok b t)
    (hcredit : t.stats.stallCacheOverlap = s.stats.stallCacheOverlap) :
    CpuModel.LocalReplays s t ↔ s.AccessesReported ∧
      (¬ s.Held ∨ s.stats.stallCacheOverlap ≤ s.stats.stallLoadUse + s.stats.stallDivider) := by
  obtain ⟨-, n, m, hmissing, hcause⟩ := CpuModel.called_accounted (CpuModel.accounted_boot h program data pc) hs
  rcases CpuModel.step_ok.1 ht with ⟨hhalted, -, rfl⟩ | ⟨⟨w⟩⟩
  · -- a halted model holds nothing, lacks nothing and reports nothing new
    have hnone : n = 0 := by
      rcases hcause with hnone | ⟨hlive, -⟩
      · exact hnone
      · rw [hhalted] at hlive
        cases hlive
    refine iff_of_true ⟨by omega, by omega⟩ ⟨hmissing.reported_iff.2 hnone, Or.inl ?_⟩
    intro ⟨hlive, _⟩
    rw [hhalted] at hlive
    cases hlive
  · refine w.local_iff hen hmissing ?_ ?_
    · intro hsome
      rcases hcause with hnone | ⟨-, hrefuses | hmiss⟩
      · exact absurd hnone hsome
      · exact absurd hrefuses w.not_refuses
      · exact hmiss
    · rw [← hmissing.overlap, ← w.missing.overlap]
      exact hcredit

/-- `storeThenJump` with a load at the target, and a use of what it loads -/
def creditThenHold : List (BitVec 32) :=
  [0x00002023, 0x01c0006f, 0x00000013, 0x00000013, 0x00000013, 0x00000013, 0x00000013, 0x00000013, 0x00002183,
    0x00118213, 0x00000073]

def creditThenHoldBoot : CpuModel splitCaches := boot splitCaches splitCaches_accepted (wordImage creditThenHold) 0 0

/-- the load holds nothing, so its report is local -/
theorem hold_replays_local_creditThenHold : ∃ s t b, Exec.iter CpuModel.step 2 creditThenHoldBoot = some s ∧
    CpuModel.step s = .ok b t ∧ s.stats.stallCacheOverlap = 6 ∧ CpuModel.LocalReplays s t := by
  obtain ⟨t, ht⟩ := Option.isSome_iff_exists.1 (by decide +kernel :
    (Exec.iter CpuModel.step 3 creditThenHoldBoot).isSome = true)
  obtain ⟨s, b, hs, hstep⟩ := Exec.iter_snoc.1 ht
  have hbefore : (Exec.iter CpuModel.step 2 creditThenHoldBoot).any (fun s => s.stats.stallCacheOverlap = 6 ∧
      s.instructionMemory.read32 s.pc = .ok 0x00002183 ∧
      s.timing.loadUseHazard (PipelineTimingModel.decode 0x00002183) = false ∧
      s.stats.icacheAccesses = s.icache.stats.accesses + s.stats.icachePipelineHoldReplays) = true := by
    decide +kernel
  have hafter : (Exec.iter CpuModel.step 3 creditThenHoldBoot).any (fun t => t.stats.stallCacheOverlap = 6) = true := by
    decide +kernel
  rw [hs] at hbefore
  rw [ht] at hafter
  obtain ⟨hoverlap, hfetch, hhazard, hreported⟩ := of_decide_eq_true hbefore
  have hoverlap' : t.stats.stallCacheOverlap = 6 := of_decide_eq_true hafter
  refine ⟨s, t, b, hs, hstep, hoverlap, ?_⟩
  refine (hold_replays_local_iff splitCaches splitCaches_accepted rfl (wordImage creditThenHold) 0 0 s t b
    (.of_iter hs) hstep (hoverlap'.trans hoverlap.symm)).2 ⟨hreported, Or.inl ?_⟩
  intro ⟨_, insn, hinsn, hheld⟩
  cases hfetch.symm.trans hinsn
  rcases hheld with hload | ⟨hdiv, -⟩
  · rw [hhazard] at hload
    cases hload
  · exact absurd hdiv (by decide)

/-- the instruction behind the load waits one cycle, which the overlap of the store suppresses -/
theorem hold_replays_suppressed : ∃ s t b, Exec.iter CpuModel.step 3 creditThenHoldBoot = some s ∧
    CpuModel.step s = .ok b t ∧ t.stats.stallCacheOverlap = s.stats.stallCacheOverlap ∧
    t.stats.stallLoadUse = s.stats.stallLoadUse + 1 ∧ ¬ CpuModel.LocalReplays s t := by
  obtain ⟨t, ht⟩ := Option.isSome_iff_exists.1 (by decide +kernel :
    (Exec.iter CpuModel.step 4 creditThenHoldBoot).isSome = true)
  obtain ⟨s, b, hs, hstep⟩ := Exec.iter_snoc.1 ht
  have hbefore : (Exec.iter CpuModel.step 3 creditThenHoldBoot).any (fun s => s.stats.stallCacheOverlap = 6 ∧
      s.stats.stallLoadUse = 0 ∧ s.stats.stallDivider = 0 ∧ s.stats.icacheAccesses = 12 ∧
      s.icache.stats.accesses = 12) = true := by decide +kernel
  have hafter : (Exec.iter CpuModel.step 4 creditThenHoldBoot).any (fun t => t.stats.stallCacheOverlap = 6 ∧
      t.stats.stallLoadUse = 1 ∧ t.stats.stallDivider = 0 ∧ t.stats.icacheAccesses = 13 ∧
      t.icache.stats.accesses = 13) = true := by decide +kernel
  rw [hs] at hbefore
  rw [ht] at hafter
  obtain ⟨hoverlap, hload, hdiv, hreported, haccesses⟩ := of_decide_eq_true hbefore
  obtain ⟨hoverlap', hload', hdiv', hreported', haccesses'⟩ := of_decide_eq_true hafter
  refine ⟨s, t, b, hs, hstep, hoverlap'.trans hoverlap.symm, by rw [hload, hload'], ?_⟩
  -- one access and one hold cycle, but one more reported access only
  intro ⟨hgrow, _⟩
  rw [hload, hload', hdiv, hdiv', hreported, hreported', haccesses, haccesses'] at hgrow
  exact absurd hgrow (by decide)

end Rv32im
