/-
Each cache is isolated from the configuration of the other.

- `SameData`: two models with one D-cache configuration that have computed the same and have seen the same data
  accesses. Filled-line replays are the only difference, and they are counted hits.
- `Read`: contents and misses of the I-cache are those of the first-time requests, and by the canonical stream these
  are a function of the retired PCs.
- `caches_isolated`: the D-cache counters do not depend on the I-cache, and the I-cache misses and stalls of a run that
  halts do not depend on the D-cache.
-/
import Rv32im.Results.FetchStream

namespace Rv32im

namespace CpuModel

open FrontEnd Caches

variable {cfg cfg' : CpuConfig}

/-! ## The D-cache does not depend on the I-cache -/

/-- equal computation and equal data accesses, apart from the filled-line replays -/
structure SameData (s : CpuModel cfg) (s' : CpuModel cfg') : Prop where
  arch : s.arch = s'.arch
  contents : s.dcache.contents = s'.dcache.contents
  outcomes : s.dcacheOutcomes = s'.dcacheOutcomes
  misses : s.dcache.stats.misses = s'.dcache.stats.misses
  writebacks : s.dcache.stats.writebacks = s'.dcache.stats.writebacks
  stalls : s.dcache.stats.stallCycles = s'.dcache.stats.stallCycles
  accesses : s.dcache.stats.accesses + s'.dcacheIfstallReplays = s'.dcache.stats.accesses + s.dcacheIfstallReplays

theorem sameData_boot (h : cfg.Accepted) (h' : cfg'.Accepted) (hm : cfg.memorySize = cfg'.memorySize)
    (program data : ℕ → BitVec 8) (pc : BitVec 32) :
    SameData (boot cfg h program data pc) (boot cfg' h' program data pc) where
  arch := arch_boot h h' hm program data pc
  contents := by rw [(boot_contents h program data pc).2, (boot_contents h' program data pc).2]
  outcomes := rfl
  misses := rfl
  writebacks := rfl
  stalls := rfl
  accesses := rfl

/-- the counters after an access move alike, from any counters -/
theorem count_same (config : CacheConfig) (s s' : CacheStats) (a : CacheAccessResult) :
    (s.misses = s'.misses → (config.count s a).misses = (config.count s' a).misses) ∧
      (s.writebacks = s'.writebacks → (config.count s a).writebacks = (config.count s' a).writebacks) ∧
      (s.stallCycles = s'.stallCycles → (config.count s a).stallCycles = (config.count s' a).stallCycles) ∧
      ∀ p p', s.accesses + p = s'.accesses + p' →
        (config.count s a).accesses + p = (config.count s' a).accesses + p' := by
  unfold CacheConfig.count
  split_ifs
  · simp only [CacheStats.charge]
    exact ⟨fun h => by rw [h], fun h => by rw [h], fun h => by rw [h], fun p p' h => by omega⟩
  · exact ⟨id, id, id, fun _ _ => id⟩

theorem Stepped.sameData {s t : CpuModel cfg} {s' t' : CpuModel cfg'} {b b' : Bool} (w : Stepped s b t)
    (w' : Stepped s' b' t') (hd : cfg.dcache = cfg'.dcache) (h : SameData s s') : SameData t t' := by
  obtain ⟨hinsn, he⟩ := w.same w' h.arch
  obtain ⟨r, hr, hstats, hcontents, houtcomes⟩ := w.dcache
  obtain ⟨r', hr', hstats', hcontents', houtcomes'⟩ := w'.dcache
  have hstore : cfg'.dcache.store = cfg.dcache.store := congrArg CacheConfig.store hd.symm
  have houtcome : cfg'.dcache.outcome = cfg.dcache.outcome := congrArg CacheConfig.outcome hd.symm
  have hcount : cfg'.dcache.count = cfg.dcache.count := congrArg CacheConfig.count hd.symm
  rw [← he, hstore, ← h.contents] at hcontents'
  rw [← he, hcount, houtcome, ← h.contents] at hstats'
  rw [← he, houtcome, ← h.contents] at houtcomes'
  have harch : t.arch = t'.arch := by rw [w.arch, w'.arch, hinsn, he, h.arch]
  have haccesses := h.accesses
  cases hm : w.e.kind.mem with
  | none =>
    rw [hm] at hstats hstats' hcontents hcontents' houtcomes houtcomes'
    refine ⟨harch, by rw [hcontents, hcontents'], by rw [houtcomes, houtcomes', h.outcomes], ?_, ?_, ?_, ?_⟩ <;>
      rw [hstats, hstats'] <;> simp only [CacheStats.addReads, Nat.add_zero, Nat.zero_mul]
    · exact h.misses
    · exact h.writebacks
    · exact h.stalls
    · omega
  | some m =>
    rw [hm] at hstats hstats' hcontents hcontents' houtcomes houtcomes'
    obtain ⟨hmisses, hwritebacks, hstalls, hacc⟩ := count_same cfg.dcache s.dcache.stats s'.dcache.stats
      (cfg.dcache.outcome s.dcache.contents m.1)
    have hacc' := hacc _ _ haccesses
    refine ⟨harch, by rw [hcontents, hcontents'], by rw [houtcomes, houtcomes', h.outcomes], ?_, ?_, ?_, ?_⟩ <;>
      rw [hstats, hstats'] <;> simp only [CacheStats.addReads, Nat.add_zero, Nat.zero_mul]
    · exact hmisses h.misses
    · exact hwritebacks h.writebacks
    · exact hstalls h.stalls
    · omega

/-- the reported counters are those of the components, in a memory of any size -/
theorem synced_run (h : cfg.Accepted) {program data : ℕ → BitVec 8} {pc : BitVec 32} {n : ℕ} {t : CpuModel cfg}
    (ht : Exec.iter step n (boot cfg h program data pc) = some t) : t.stats = t.syncStats := by
  apply run_inv (P := fun s => s.stats = s.syncStats) _ ht (inv_boot h program data pc).synced
  intro s u b w _
  have hafter := w.after
  rw [hafter]
  exact synced_retired s w.insn w.e w.stalls w.c

/-! ## The I-cache does not depend on the D-cache -/

/-- contents and misses of the I-cache, from its first-time requests; a disabled I-cache has none -/
structure Read (s : CpuModel cfg) : Prop where
  contents : s.icache.contents =
    DirectMapped.readAll cfg.icache.idx DirectMapped.empty (blocks (firstTime s.ifetch.requests))
  misses : s.icache.stats.misses =
    DirectMapped.misses cfg.icache.idx DirectMapped.empty (blocks (firstTime s.ifetch.requests))
  disabled : cfg.icache.enabled = false → firstTime s.ifetch.requests = []

theorem Stepped.read {s t : CpuModel cfg} {b : Bool} (w : Stepped s b t) (h : s.Read) (hi : s.Inv)
    (hmem : cfg.memorySize + 16 ≤ 2 ^ 32) : t.Read := by
  obtain ⟨j, hj, hl⟩ := hi.lead
  obtain ⟨q⟩ := w.charged
  obtain ⟨hs, -⟩ := w.served hi hmem hj hl q
  have hlog : firstTime t.ifetch.requests = firstTime s.ifetch.requests ++ _ := hs.log
  have hcontents : t.icache.contents = DirectMapped.readAll cfg.icache.idx s.icache.contents _ := hs.contents
  have hmisses : t.icache.stats.misses = s.icache.stats.misses + _ := congrArg CacheStats.misses hs.stats
  constructor
  · rw [hcontents, h.contents, hlog, blocks_append, DirectMapped.readAll_append]
  · rw [hmisses, h.misses, hlog, blocks_append, DirectMapped.misses_append, ← h.contents]
    rfl
  · intro hdis
    rw [hlog, h.disabled hdis, CacheConfig.fetches, hdis]
    rfl

theorem read_run (hmem : cfg.memorySize + 16 ≤ 2 ^ 32) (h : cfg.Accepted) {program data : ℕ → BitVec 8}
    {pc : BitVec 32} {n : ℕ} {t : CpuModel cfg} (ht : Exec.iter step n (boot cfg h program data pc) = some t) :
    t.Read := by
  refine (run_inv (P := fun s => s.Inv ∧ s.Read) ?_ ht
    ⟨inv_boot h program data pc, (boot_contents h program data pc).1, rfl, fun _ => rfl⟩).2
  intro s u b w ⟨hi, hr⟩
  exact ⟨w.inv hi hmem, w.read hr hi hmem⟩

/-- a halted model idles -/
theorem iter_of_halted {k : ℕ} {s t : CpuModel cfg} (hh : s.halted = true) (h : Exec.iter step k s = some t) :
    t = s := by
  induction k generalizing s with
  | zero =>
    cases h
    rfl
  | succ k ih =>
    obtain ⟨a, u, h1, h2⟩ := Exec.iter_succ.1 h
    rw [step_of_halted hh] at h1
    cases h1
    exact ih hh h2

/-- the later of two halted models was already halted when the earlier one halted -/
theorem halted_earlier {s₀ : CpuModel cfg} {s₀' : CpuModel cfg'} (h₀ : s₀.arch = s₀'.arch) {n n' : ℕ} (hn : n ≤ n')
    {t : CpuModel cfg} {t' : CpuModel cfg'} (ht : Exec.iter step n s₀ = some t) (ht' : Exec.iter step n' s₀' = some t')
    (hh : t.halted = true) : Exec.iter step n s₀' = some t' := by
  obtain ⟨k, rfl⟩ := Nat.exists_eq_add_of_le hn
  obtain ⟨u, hu, hrest⟩ := (Exec.iter_add n k).1 ht'
  have harch : t.arch = u.arch := arch_iter ht hu h₀
  have hhu : u.halted = true := by
    rw [← hh]
    exact (congrArg Arch.halted harch).symm
  rw [hu, iter_of_halted hhu hrest]

/-- two runs that both halt are at their ends after the same number of steps -/
theorem halted_together {s₀ : CpuModel cfg} {s₀' : CpuModel cfg'} (h₀ : s₀.arch = s₀'.arch) {n n' : ℕ}
    {t : CpuModel cfg} {t' : CpuModel cfg'} (ht : Exec.iter step n s₀ = some t) (ht' : Exec.iter step n' s₀' = some t')
    (hh : t.halted = true) (hh' : t'.halted = true) :
    ∃ m, Exec.iter step m s₀ = some t ∧ Exec.iter step m s₀' = some t' := by
  rcases le_total n n' with hn | hn
  · exact ⟨n, ht, halted_earlier h₀ hn ht ht' hh⟩
  · exact ⟨n', halted_earlier h₀.symm hn ht' ht hh', ht'⟩

/-- the retired PCs and their segments are read off the projection -/
theorem retiredPcs_same {s₀ t : CpuModel cfg} {s₀' t' : CpuModel cfg'} (h₀ : s₀.arch = s₀'.arch) {n : ℕ}
    (ht : Exec.iter step n s₀ = some t) (ht' : Exec.iter step n s₀' = some t') :
    retiredPcs n s₀ = retiredPcs n s₀' := by
  apply Exec.log_rel (R := fun s s' => s.arch = s'.arch) _ ht ht' h₀
  intro s s' a a' u u' hr h1 h2
  have hu := step_transparent hr h1 h2
  have hclass : ∀ {p : CpuModel cfg} {p' : CpuModel cfg'}, p.arch = p'.arch →
      p.stats.branchesTaken = p'.stats.branchesTaken ∧ p.stats.jumps = p'.stats.jumps := by
    intro p p' h
    exact ⟨congrArg (fun a => a.classes.branchesTaken) h, congrArg (fun a => a.classes.jumps) h⟩
  have hhalt : s.halted = s'.halted := congrArg Arch.halted hr
  have hhalt' : u.halted = u'.halted := congrArg Arch.halted hu
  have hpc : s.pc = s'.pc := congrArg Arch.pc hr
  refine ⟨hu, ?_⟩
  simp only [retiredPc, endsSegment, hhalt, hhalt', hpc, (hclass hr).1, (hclass hr).2, (hclass hu).1, (hclass hu).2]

/-- two runs that halt have the same first-time requests -/
theorem firstTime_same (hmem : cfg.memorySize + 16 ≤ 2 ^ 32) (h : cfg.Accepted) (h' : cfg'.Accepted)
    (hm : cfg.memorySize = cfg'.memorySize) (hi : cfg.icache = cfg'.icache) {program data : ℕ → BitVec 8}
    {pc : BitVec 32} {m : ℕ} {t : CpuModel cfg} {t' : CpuModel cfg'}
    (ht : Exec.iter step m (boot cfg h program data pc) = some t)
    (ht' : Exec.iter step m (boot cfg' h' program data pc) = some t') (hh : t.halted = true) (hh' : t'.halted = true) :
    blocks (firstTime t.ifetch.requests) = blocks (firstTime t'.ifetch.requests) := by
  have hmem' : cfg'.memorySize + 16 ≤ 2 ^ 32 := hm ▸ hmem
  have hpcs : ∀ l : List Request, blocks l = (l.map Request.pc).map block := by
    intro l
    simp [blocks]
  cases hen : cfg.icache.enabled with
  | false => rw [(read_run hmem h ht).disabled hen, (read_run hmem' h' ht').disabled (hi ▸ hen)]
  | true =>
    have hs := ((streamed_run hmem hen h ht).done hh).2
    have hs' := ((streamed_run hmem' (hi ▸ hen) h' ht').done hh').2
    rw [retiredPcs_same (arch_boot h h' hm program data pc) ht ht'] at hs
    rw [hpcs, hpcs, hs, hs']

/-- runs with one D-cache configuration -/
theorem dcache_isolated (h : cfg.Accepted) (h' : cfg'.Accepted) (hm : cfg.memorySize = cfg'.memorySize)
    (hd : cfg.dcache = cfg'.dcache) {program data : ℕ → BitVec 8} {pc : BitVec 32} {n : ℕ} {t : CpuModel cfg}
    {t' : CpuModel cfg'} (ht : Exec.iter step n (boot cfg h program data pc) = some t)
    (ht' : Exec.iter step n (boot cfg' h' program data pc) = some t') : SameData t t' := by
  apply run_rel (R := SameData) _ _ ht ht' (sameData_boot h h' hm program data pc)
  · intro s s' hr
    exact congrArg Arch.halted hr.arch
  · intro s s' u u' b b' w w' hr
    exact w.sameData w' hd hr

/-- runs with one I-cache configuration, up to their ends -/
theorem icache_isolated (hmem : cfg.memorySize + 16 ≤ 2 ^ 32) (h : cfg.Accepted) (h' : cfg'.Accepted)
    (hm : cfg.memorySize = cfg'.memorySize) (hi : cfg.icache = cfg'.icache) {program data : ℕ → BitVec 8}
    {pc : BitVec 32} {n n' : ℕ} {t : CpuModel cfg} {t' : CpuModel cfg'}
    (ht : Exec.iter step n (boot cfg h program data pc) = some t)
    (ht' : Exec.iter step n' (boot cfg' h' program data pc) = some t') (hh : t.halted = true) (hh' : t'.halted = true) :
    t.icache.stats.misses = t'.icache.stats.misses ∧ t.icache.stats.stallCycles = t'.icache.stats.stallCycles := by
  have hmem' : cfg'.memorySize + 16 ≤ 2 ^ 32 := hm ▸ hmem
  obtain ⟨m, hrun, hrun'⟩ := halted_together (arch_boot h h' hm program data pc) ht ht' hh hh'
  have hblocks := firstTime_same hmem h h' hm hi hrun hrun' hh hh'
  have hidx : cfg.icache.idx = cfg'.icache.idx := congrArg CacheConfig.idx hi
  have hpenalty : cfg.icache.penalty = cfg'.icache.penalty := congrArg CacheConfig.penalty hi
  have hmisses : t.icache.stats.misses = t'.icache.stats.misses := by
    rw [(read_run hmem h hrun).misses, (read_run hmem' h' hrun').misses, hblocks, hidx]
  have hstalls := (books_run hmem h hrun).2.icache_stalls
  have hstalls' := (books_run hmem' h' hrun').2.icache_stalls
  exact ⟨hmisses, by rw [hstalls, hstalls', hmisses, hpenalty]⟩

end CpuModel

/-- **Cache isolation.** After n steps, the D-cache results and counters do not depend on the I-cache configuration; the
accesses differ by the filled-line replays only. When a run halts, its I-cache misses and stalls do not depend on the
D-cache configuration. -/
theorem caches_isolated (cfg : CpuConfig) (h : cfg.Accepted) (icache' dcache' : CacheConfig) (hi' : icache'.Accepted)
    (hd' : dcache'.Accepted) (program data : ℕ → BitVec 8) (pc : BitVec 32) :
    (∀ n t t', Exec.iter CpuModel.step n (boot cfg h program data pc) = some t →
      Exec.iter CpuModel.step n (boot { cfg with icache := icache' } ⟨hi', h.dcache⟩ program data pc) = some t' →
        t.dcacheOutcomes = t'.dcacheOutcomes ∧
        t.stats.dcacheMisses = t'.stats.dcacheMisses ∧
        t.stats.dcacheWritebacks = t'.stats.dcacheWritebacks ∧
        t.stats.stallDcache = t'.stats.stallDcache ∧
        t.stats.dcacheAccesses + t'.stats.dcacheIfstallReplays =
          t'.stats.dcacheAccesses + t.stats.dcacheIfstallReplays) ∧
    (cfg.memorySize + 16 ≤ 2 ^ 32 → ∀ n n' t t',
      Exec.iter CpuModel.step n (boot cfg h program data pc) = some t →
      Exec.iter CpuModel.step n' (boot { cfg with dcache := dcache' } ⟨h.icache, hd'⟩ program data pc) = some t' →
      t.halted = true → t'.halted = true →
        t.stats.icacheMisses = t'.stats.icacheMisses ∧ t.stats.stallIcache = t'.stats.stallIcache) := by
  refine ⟨?_, ?_⟩
  · intro n t t' ht ht'
    have h' : CpuConfig.Accepted { cfg with icache := icache' } := ⟨hi', h.dcache⟩
    have hsame := CpuModel.dcache_isolated h h' rfl rfl ht ht'
    rw [CpuModel.synced_run h ht, CpuModel.synced_run h' ht']
    exact ⟨hsame.outcomes, hsame.misses, hsame.writebacks, hsame.stalls, hsame.accesses⟩
  · intro hmem n n' t t' ht ht' hh hh'
    have h' : CpuConfig.Accepted { cfg with dcache := dcache' } := ⟨h.icache, hd'⟩
    have hsame := CpuModel.icache_isolated hmem h h' rfl rfl ht ht' hh hh'
    rw [CpuModel.synced_run h ht, CpuModel.synced_run h' ht']
    exact hsame

/-- a workload with split caches, without its I-cache, and without its D-cache -/
theorem caches_isolated_cacheTest : ∃ t t' u,
    Exec.iter CpuModel.step 11 (boot splitCaches splitCaches_accepted (wordImage cacheTest) 0 0) = some t ∧
    Exec.iter CpuModel.step 11 (boot { splitCaches with icache := {} } ⟨noCaches_accepted.icache,
      splitCaches_accepted.dcache⟩ (wordImage cacheTest) 0 0) = some t' ∧
    Exec.iter CpuModel.step 11 (boot { splitCaches with dcache := {} } ⟨splitCaches_accepted.icache,
      noCaches_accepted.dcache⟩ (wordImage cacheTest) 0 0) = some u ∧
    t.halted = true ∧ u.halted = true ∧ t.dcacheOutcomes = t'.dcacheOutcomes ∧
    t.stats.stallIcache = u.stats.stallIcache := by
  obtain ⟨t, ht, hhalt⟩ := (Option.any_eq_true _ _).1 (by decide +kernel :
    (Exec.iter CpuModel.step 11 (boot splitCaches splitCaches_accepted (wordImage cacheTest) 0 0)).any
      (fun t => t.halted) = true)
  obtain ⟨t', ht'⟩ := Option.isSome_iff_exists.1 (by decide +kernel :
    (Exec.iter CpuModel.step 11 (boot { splitCaches with icache := {} } ⟨noCaches_accepted.icache,
      splitCaches_accepted.dcache⟩ (wordImage cacheTest) 0 0)).isSome = true)
  obtain ⟨u, hu, hhalt'⟩ := (Option.any_eq_true _ _).1 (by decide +kernel :
    (Exec.iter CpuModel.step 11 (boot { splitCaches with dcache := {} } ⟨splitCaches_accepted.icache,
      noCaches_accepted.dcache⟩ (wordImage cacheTest) 0 0)).any (fun u => u.halted) = true)
  obtain ⟨hdata, hfetch⟩ := caches_isolated splitCaches splitCaches_accepted {} {} noCaches_accepted.icache
    noCaches_accepted.dcache (wordImage cacheTest) 0 0
  exact ⟨t, t', u, ht, ht', hu, hhalt, hhalt', (hdata 11 t t' ht ht').1,
    (hfetch (by decide) 11 11 t u ht hu hhalt hhalt').2⟩

end Rv32im
