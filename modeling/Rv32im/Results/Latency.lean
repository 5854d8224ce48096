/-
The cycles of a run are an affine function of the backing latency.

Two models with latencies L and L' keep step (`InStep`): they fetch the same words first and miss the same accesses.
Replays differ in number, but they hit. Every credit is L + 3 behind a clean victim and L + 4 behind a dirty one, so
its slope is one.

- `SameMisses`: the relation between the two runs. `Stepped.sameMisses`: one step of each keeps it.
- `Charged.credit_affine`: the credit of one instruction.
- `latency_affine`: equal misses, write-backs, replays and pipeline stalls, and the difference of the cycles.
-/
import Rv32im.Results.Accounting
import Rv32im.Timing.Overlap

namespace Rv32im

/-! ## One latency for both caches -/

/-- `--memory-latency` -/
def CpuConfig.withLatency (cfg : CpuConfig) (latency : BitVec 32) : CpuConfig :=
  { cfg with
    icache := { cfg.icache with memoryLatency := latency }
    dcache := { cfg.dcache with memoryLatency := latency } }

theorem CpuConfig.Accepted.withLatency {cfg : CpuConfig} (h : cfg.Accepted) (latency : BitVec 32) :
    (cfg.withLatency latency).Accepted :=
  ⟨⟨h.icache.lines, h.icache.lineBytes⟩, ⟨h.dcache.lines, h.dcache.lineBytes⟩⟩

theorem CpuConfig.alike_withLatency (cfg : CpuConfig) (latency latency' : BitVec 32) :
    (cfg.withLatency latency).Alike (cfg.withLatency latency') :=
  ⟨rfl, rfl, rfl, rfl, rfl⟩

theorem CpuConfig.small_withLatency (cfg : CpuConfig) {latency : BitVec 32} (h : 6 * latency.toNat + 23 < 2 ^ 32) :
    (cfg.withLatency latency).Small := by
  simp only [CpuConfig.Small, CpuConfig.withLatency]
  omega

theorem CpuConfig.dcache_withLatency (cfg : CpuConfig) {latency : BitVec 32} (h : 6 * latency.toNat + 23 < 2 ^ 32) :
    2 * (cfg.withLatency latency).dcache.memoryLatency.toNat + 7 < 2 ^ 32 := by
  simp only [CpuConfig.withLatency]
  omega

theorem CpuConfig.penalty_withLatency (cfg : CpuConfig) {latency : BitVec 32} (h : 6 * latency.toNat + 23 < 2 ^ 32) :
    (cfg.withLatency latency).icache.penalty = latency.toNat + 4 := by
  apply CacheConfig.clean_toNat
  simp only [CpuConfig.withLatency]
  omega

/-- the credit behind a clean and behind a dirty victim, without the latency -/
def CacheAccessResult.margin (a : CacheAccessResult) : ℕ := if a.writeback then 4 else 3

namespace Caches

variable {cfg : CpuConfig} {latency : BitVec 32} {c c' : Caches (cfg.withLatency latency)} {k : Kind}
  {pc nextPc st : BitVec 32} {look : Except Exn (Option (BitVec 32))} {j : ℕ}

/-- **The credit has slope one** in the latency. -/
theorem Charged.credit_affine (w : Charged c k pc nextPc look st c') (hlat : 6 * latency.toNat + 23 < 2 ^ 32)
    (h : FrontEnd.Lead c.frontEnd pc j) (hj : j ≤ 3) (hp : Placed pc) (he : Earns c k pc look j) :
    ∃ a, k = .store a ∧ w.credit.toNat =
      latency.toNat + ((cfg.withLatency latency).dcache.outcome c.dcache.contents a).margin := by
  obtain ⟨a, hk, hcredit⟩ := w.credit_of_victim (cfg.small_withLatency hlat) h hj hp he
  have hdlatency : (cfg.withLatency latency).dcache.memoryLatency = latency := rfl
  have hilatency : (cfg.withLatency latency).icache.memoryLatency = latency := rfl
  refine ⟨a, hk, ?_⟩
  rw [hcredit, hdlatency, hilatency]
  unfold CacheAccessResult.margin
  split_ifs <;> omega

end Caches

namespace CpuModel

open FrontEnd Caches

variable {cfg : CpuConfig} {latency latency' : BitVec 32} {s t : CpuModel (cfg.withLatency latency)}
  {s' t' : CpuModel (cfg.withLatency latency')} {b b' : Bool}

/-! ## Two latencies -/

/-- the same misses, write-backs and replays, and overlaps that differ by the latency of each replay -/
structure SameMisses (s : CpuModel (cfg.withLatency latency)) (s' : CpuModel (cfg.withLatency latency')) : Prop where
  inStep : InStep s s'
  icache : s.icache.contents = s'.icache.contents
  imisses : s.icache.stats.misses = s'.icache.stats.misses
  dmisses : s.dcache.stats.misses = s'.dcache.stats.misses
  writebacks : s.dcache.stats.writebacks = s'.dcache.stats.writebacks
  replays : s.dcacheIfstallReplays = s'.dcacheIfstallReplays
  overlap : ∃ m, s.cacheOverlapCycles = s.dcacheIfstallReplays * latency.toNat + m ∧
    s'.cacheOverlapCycles = s.dcacheIfstallReplays * latency'.toNat + m

theorem sameMisses_boot (h : cfg.Accepted) (program data : ℕ → BitVec 8) (pc : BitVec 32) :
    SameMisses (boot (cfg.withLatency latency) (h.withLatency latency) program data pc)
      (boot (cfg.withLatency latency') (h.withLatency latency') program data pc) where
  inStep := inStep_boot (h.withLatency latency) (h.withLatency latency') rfl program data pc
  icache := by rw [(boot_contents (h.withLatency latency) program data pc).1,
    (boot_contents (h.withLatency latency') program data pc).1]
  imisses := rfl
  dmisses := rfl
  writebacks := rfl
  replays := rfl
  overlap := ⟨0, by simp [boot, reset, withImages], by simp [boot, reset, withImages]⟩

section Step

variable (h : SameMisses s s') (hlat : 6 * latency.toNat + 23 < 2 ^ 32) (hlat' : 6 * latency'.toNat + 23 < 2 ^ 32)

include h hlat hlat'

theorem SameMisses.dstall (k : Kind) : s.caches.dstall k = 0 ↔ s'.caches.dstall k = 0 :=
  h.inStep.dstall (cfg.alike_withLatency latency latency') (cfg.dcache_withLatency hlat)
    (cfg.dcache_withLatency hlat') k

/-- the stages of an instruction read the same words from the same contents -/
theorem SameMisses.stages (k : Kind) (pc : BitVec 32) (j : ℕ) :
    s'.caches.behindAhead k pc j = s.caches.behindAhead k pc j ∧
      s'.caches.demandMisses pc j = s.caches.demandMisses pc j ∧
      s'.caches.aheadMisses k pc j = s.caches.aheadMisses k pc j ∧
      s'.caches.tailMisses k pc j = s.caches.tailMisses k pc j := by
  have hcontents : s'.caches.icache.contents = s.caches.icache.contents := h.icache.symm
  have hahead : (cfg.withLatency latency').icache.ahead pc j (s'.caches.dstall k) =
      (cfg.withLatency latency).icache.ahead pc j (s.caches.dstall k) :=
    CacheConfig.ahead_congr rfl pc j (h.dstall hlat hlat' k).symm
  have hbehind : s'.caches.behindDemand pc j = s.caches.behindDemand pc j :=
    congrArg (fun x => DirectMapped.readAll _ x _) hcontents
  have hmisses : s'.caches.aheadMisses k pc j = s.caches.aheadMisses k pc j := by
    unfold aheadMisses
    rw [hahead, hbehind]
    rfl
  have hafter : s'.caches.behindAhead k pc j = s.caches.behindAhead k pc j := by
    unfold behindAhead
    rw [hahead, hbehind]
    rfl
  refine ⟨hafter, ?_, hmisses, ?_⟩
  · unfold demandMisses
    rw [hcontents]
    rfl
  · unfold tailMisses
    rw [hafter]
    rfl

theorem SameMisses.earns (k : Kind) (pc : BitVec 32) (look : Except Exn (Option (BitVec 32))) (j : ℕ) :
    Earns s.caches k pc look j ↔ Earns s'.caches k pc look j := by
  obtain ⟨hafter, -, hmisses, -⟩ := h.stages hlat hlat' k pc j
  unfold Earns
  rw [hafter, hmisses, ne_eq, ne_eq, h.dstall hlat hlat' k]
  rfl

/-- both overlap rules grant a credit or none, and the credits differ by the latencies -/
theorem SameMisses.credits {k : Kind} {pc nextPc nextPc' st st' : BitVec 32} {look : Except Exn (Option (BitVec 32))}
    {c : Caches (cfg.withLatency latency)} {c' : Caches (cfg.withLatency latency')} {j : ℕ}
    (q : Charged s.caches k pc nextPc look st c) (q' : Charged s'.caches k pc nextPc' look st' c')
    (hl : Lead s.caches.frontEnd pc j) (hl' : Lead s'.caches.frontEnd pc j) (hj : j ≤ 3) (hp : Placed pc) :
    q.replay = q'.replay ∧ ∃ m, q.credit.toNat = q.replay * latency.toNat + m ∧
      q'.credit.toNat = q.replay * latency'.toNat + m := by
  have hsmall := cfg.small_withLatency hlat
  have hsmall' := cfg.small_withLatency hlat'
  have hsame := h.earns hlat hlat' k pc look j
  by_cases he : Earns s.caches k pc look j
  · rw [q.replay_earned hsmall hl hj hp he, q'.replay_earned hsmall' hl' hj hp (hsame.1 he)]
    obtain ⟨a, hk, hcredit⟩ := q.credit_affine hlat hl hj hp he
    obtain ⟨a', hk', hcredit'⟩ := q'.credit_affine hlat' hl' hj hp (hsame.1 he)
    obtain rfl : a = a' := Kind.store.inj (hk.symm.trans hk')
    have hcontents : s'.caches.dcache.contents = s.caches.dcache.contents := h.inStep.dcache.symm
    have hmargin : ((cfg.withLatency latency').dcache.outcome s'.caches.dcache.contents a).margin =
        ((cfg.withLatency latency).dcache.outcome s.caches.dcache.contents a).margin := by
      unfold CacheAccessResult.margin
      rw [hcontents, ((cfg.alike_withLatency latency latency').outcome _ a).2]
    exact ⟨rfl, _, by rw [hcredit, Nat.one_mul], by rw [hcredit', hmargin, Nat.one_mul]⟩
  · obtain ⟨hnone, hreplay⟩ := q.replay_unearned hsmall hl hj hp he
    obtain ⟨hnone', hreplay'⟩ := q'.replay_unearned hsmall' hl' hj hp (mt hsame.2 he)
    rw [hnone, hnone', hreplay, hreplay']
    exact ⟨rfl, 0, by simp, by simp⟩

/-- **One step of each** misses the same, and grants the same credit but for its latency. -/
theorem Stepped.sameMisses (w : Stepped s b t) (w' : Stepped s' b' t') (hmem : cfg.memorySize + 16 ≤ 2 ^ 32)
    (hi : s.Inv) (hi' : s'.Inv) : SameMisses t t' := by
  have halike := cfg.alike_withLatency latency latency'
  have hstep := w.inStep w' halike (cfg.dcache_withLatency hlat) (cfg.dcache_withLatency hlat') hmem h.inStep hi hi'
  obtain ⟨j, hj, hl, hl', ⟨q⟩, ⟨q'⟩⟩ := h.inStep.charged w w'
  obtain ⟨-, he⟩ := w.same w' h.inStep.arch
  have hp := w.placed hi hmem
  obtain ⟨hbehind, hdemand, hahead, htail⟩ := h.stages hlat hlat' w.e.kind s.pc j
  obtain ⟨hcontents, hcount⟩ := q.icache hl hj hp
  obtain ⟨hcontents', hcount'⟩ := q'.icache hl' hj hp
  obtain ⟨hreplay, m, hcredit, hcredit'⟩ := h.credits hlat hlat' q q' hl hl' hj hp
  obtain ⟨k, hoverlap, hoverlap'⟩ := h.overlap
  have hreplays : t.dcacheIfstallReplays = s.dcacheIfstallReplays + q.replay := q.replays
  have hreplays' : t'.dcacheIfstallReplays = s'.dcacheIfstallReplays + q'.replay := q'.replays
  have hadd : t.cacheOverlapCycles = s.cacheOverlapCycles + q.credit.toNat := q.overlap
  have hadd' : t'.cacheOverlapCycles = s'.cacheOverlapCycles + q'.credit.toNat := q'.overlap
  have hicontents : t.icache.contents = _ := hcontents
  have hicontents' : t'.icache.contents = _ := hcontents'
  have himisses : t.icache.stats.misses = s.icache.stats.misses + _ := hcount
  have himisses' : t'.icache.stats.misses = s'.icache.stats.misses + _ := hcount'
  have hreq := h.replays
  obtain ⟨hmiss, hwriteback⟩ := w.tally
  obtain ⟨hmiss', hwriteback'⟩ := w'.tally
  rw [← he, ← h.inStep.dcache] at hmiss' hwriteback'
  refine ⟨hstep, ?_, ?_, ?_, ?_, by omega, m + k, ?_, ?_⟩
  · rw [hicontents, hicontents', hbehind]
    rfl
  · rw [himisses, himisses', hdemand, hahead, htail, h.imisses]
  · rw [hmiss, hmiss', h.dmisses]
    simp only [(halike.outcome _ _).1]
  · rw [hwriteback, hwriteback', h.writebacks]
    simp only [(halike.outcome _ _).2]
  · rw [hadd, hoverlap, hcredit, hreplays, Nat.add_mul]
    omega
  · rw [hadd', hoverlap', hcredit', hreplays, Nat.add_mul]
    omega

end Step

theorem sameMisses_run (h : cfg.Accepted) (hmem : cfg.memorySize + 16 ≤ 2 ^ 32)
    (hlat : 6 * latency.toNat + 23 < 2 ^ 32) (hlat' : 6 * latency'.toNat + 23 < 2 ^ 32)
    {program data : ℕ → BitVec 8} {pc : BitVec 32} {n : ℕ}
    (ht : Exec.iter step n (boot (cfg.withLatency latency) (h.withLatency latency) program data pc) = some t)
    (ht' : Exec.iter step n (boot (cfg.withLatency latency') (h.withLatency latency') program data pc) = some t') :
    SameMisses t t' := by
  have hmem₁ : (cfg.withLatency latency).memorySize + 16 ≤ 2 ^ 32 := hmem
  have hmem₂ : (cfg.withLatency latency').memorySize + 16 ≤ 2 ^ 32 := hmem
  refine (run_rel (R := fun s s' => s.Inv ∧ s'.Inv ∧ SameMisses s s') ?_ ?_ ht ht'
    ⟨inv_boot _ program data pc, inv_boot _ program data pc, sameMisses_boot h program data pc⟩).2.2
  · intro s s' ⟨_, _, hr⟩
    exact congrArg Arch.halted hr.inStep.arch
  · intro s s' u u' b b' w w' ⟨hi, hi', hr⟩
    exact ⟨w.inv hi hmem₁, w'.inv hi' hmem₂, w.sameMisses hr hlat hlat' w' hmem hi hi'⟩

/-- the stalls of each cache, from its misses and write-backs -/
theorem Books.stalls (h : s.Books) (hlat : 6 * latency.toNat + 23 < 2 ^ 32) :
    s.icache.stats.stallCycles = s.icache.stats.misses * (latency.toNat + 4) ∧
      s.dcache.stats.stallCycles =
        s.dcache.stats.misses * (latency.toNat + 4) + s.dcache.stats.writebacks * (latency.toNat + 3) := by
  have hpenalty := cfg.penalty_withLatency hlat
  exact ⟨hpenalty ▸ h.icache_stalls, h.dcache.stall_eq (cfg.dcache_withLatency hlat)⟩

end CpuModel

/-- **Latency affinity.** Two runs that differ in the backing latency only have the same misses, write-backs, replays
and pipeline stalls, and the difference of their cycles is the difference of the latencies times the misses and
write-backs that no replay hides. -/
theorem latency_affine (cfg : CpuConfig) (h : cfg.Accepted) (hmem : cfg.memorySize + 16 ≤ 2 ^ 32)
    (latency latency' : BitVec 32) (hlat : 6 * latency.toNat + 23 < 2 ^ 32) (hlat' : 6 * latency'.toNat + 23 < 2 ^ 32)
    (program data : ℕ → BitVec 8) (pc : BitVec 32) (n : ℕ) (t : CpuModel (cfg.withLatency latency))
    (t' : CpuModel (cfg.withLatency latency'))
    (ht : Exec.iter CpuModel.step n (boot (cfg.withLatency latency) (h.withLatency latency) program data pc) = some t)
    (ht' : Exec.iter CpuModel.step n (boot (cfg.withLatency latency') (h.withLatency latency') program data pc) =
      some t') :
    t.stats.icacheMisses = t'.stats.icacheMisses ∧
    t.stats.dcacheMisses = t'.stats.dcacheMisses ∧
    t.stats.dcacheWritebacks = t'.stats.dcacheWritebacks ∧
    t.stats.dcacheIfstallReplays = t'.stats.dcacheIfstallReplays ∧
    t.stats.stallLoadUse = t'.stats.stallLoadUse ∧
    t.stats.stallBranchRedirect = t'.stats.stallBranchRedirect ∧
    t.stats.stallJumpRedirect = t'.stats.stallJumpRedirect ∧
    t.stats.stallDivider = t'.stats.stallDivider ∧
    (t'.stats.cycles : ℤ) - t.stats.cycles = ((latency'.toNat : ℤ) - latency.toNat) *
      ((t.stats.icacheMisses : ℤ) + t.stats.dcacheMisses + t.stats.dcacheWritebacks - t.stats.dcacheIfstallReplays) := by
  have hsame := CpuModel.sameMisses_run h hmem hlat hlat' ht ht'
  have hmem₁ : (cfg.withLatency latency).memorySize + 16 ≤ 2 ^ 32 := hmem
  have hmem₂ : (cfg.withLatency latency').memorySize + 16 ≤ 2 ^ 32 := hmem
  obtain ⟨hinv, hbooks⟩ := CpuModel.books_run hmem₁ (h.withLatency latency) ht
  obtain ⟨hinv', hbooks'⟩ := CpuModel.books_run hmem₂ (h.withLatency latency') ht'
  have hcycles := CpuModel.cycles_apart hmem₁ hmem₂ (cfg.small_withLatency hlat) (cfg.small_withLatency hlat')
    (h.withLatency latency) (h.withLatency latency') hsame.inStep.arch ht ht'
  have htiming : t.timing.erase = t'.timing.erase := congrArg Arch.timing hsame.inStep.arch
  have hfields : ∀ {γ : Type} (f : PipelineTimingStats → γ), f t.timing.erase.stats = f t'.timing.erase.stats :=
    fun f => congrArg (fun p => f p.stats) htiming
  have hloadUse : t.timing.stats.loadUseStalls = t'.timing.stats.loadUseStalls := hfields (·.loadUseStalls)
  have hbranch : t.timing.stats.branchRedirectStalls = t'.timing.stats.branchRedirectStalls :=
    hfields (·.branchRedirectStalls)
  have hjump : t.timing.stats.jumpRedirectStalls = t'.timing.stats.jumpRedirectStalls :=
    hfields (·.jumpRedirectStalls)
  have hdivider : t.timing.stats.dividerStalls = t'.timing.stats.dividerStalls := hfields (·.dividerStalls)
  obtain ⟨hi, hd⟩ := hbooks.stalls hlat
  obtain ⟨hi', hd'⟩ := hbooks'.stalls hlat'
  rw [← hsame.imisses] at hi'
  rw [← hsame.dmisses, ← hsame.writebacks] at hd'
  obtain ⟨m, hoverlap, hoverlap'⟩ := hsame.overlap
  have hrep := hinv.reported
  have hrep' := hinv'.reported
  refine ⟨?_, ?_, ?_, ?_, ?_, ?_, ?_, ?_, ?_⟩
  · rw [hrep.imisses, hrep'.imisses, hsame.imisses]
  · rw [hrep.dmisses, hrep'.dmisses, hsame.dmisses]
  · rw [hrep.writebacks, hrep'.writebacks, hsame.writebacks]
  · rw [hrep.replays, hrep'.replays, hsame.replays]
  · rw [hrep.loadUse, hrep'.loadUse, hloadUse]
  · rw [hrep.branch, hrep'.branch, hbranch]
  · rw [hrep.jump, hrep'.jump, hjump]
  · rw [hrep.divider, hrep'.divider, hdivider]
  · rw [hi, hd, hoverlap, hi', hd', hoverlap'] at hcycles
    rw [hrep.imisses, hrep.dmisses, hrep.writebacks, hrep.replays]
    have hcycles := congrArg (Nat.cast : ℕ → ℤ) hcycles
    push_cast at hcycles
    linear_combination -hcycles

/-- a workload with latencies 3 and 40 -/
theorem latency_affine_cacheTest : ∃ t t',
    Exec.iter CpuModel.step 11 (boot (splitCaches.withLatency 3) (splitCaches_accepted.withLatency 3)
      (wordImage cacheTest) 0 0) = some t ∧
    Exec.iter CpuModel.step 11 (boot (splitCaches.withLatency 40) (splitCaches_accepted.withLatency 40)
      (wordImage cacheTest) 0 0) = some t' ∧
    (t'.stats.cycles : ℤ) - t.stats.cycles = 37 * ((t.stats.icacheMisses : ℤ) + t.stats.dcacheMisses +
      t.stats.dcacheWritebacks - t.stats.dcacheIfstallReplays) := by
  obtain ⟨t, ht⟩ := Option.isSome_iff_exists.1 (by decide +kernel :
    (Exec.iter CpuModel.step 11 (boot (splitCaches.withLatency 3) (splitCaches_accepted.withLatency 3)
      (wordImage cacheTest) 0 0)).isSome = true)
  obtain ⟨t', ht'⟩ := Option.isSome_iff_exists.1 (by decide +kernel :
    (Exec.iter CpuModel.step 11 (boot (splitCaches.withLatency 40) (splitCaches_accepted.withLatency 40)
      (wordImage cacheTest) 0 0)).isSome = true)
  obtain ⟨-, -, -, -, -, -, -, -, hcycles⟩ := latency_affine splitCaches splitCaches_accepted (by decide) 3 40
    (by decide) (by decide) _ _ _ _ t t' ht ht'
  exact ⟨t, t', ht, ht', by simpa using hcycles⟩

end Rv32im
