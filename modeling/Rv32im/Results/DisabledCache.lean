/-
A disabled D-cache can have any configuration.

- `Caches.Alike`, `CpuModel.Alike`: two models that differ in the configuration of a disabled D-cache, and in its lines.
- `charge_alike`: they charge the same. `Stepped.alike`, `Thrown.alike`: they return and throw alike.
- `run_alike`: so do their runs.
-/
import Rv32im.Core.Related
import Rv32im.Step.Run
import Rv32im.Step.Throw

namespace Rv32im

variable {cfg : CpuConfig} {d : CacheConfig}

namespace Caches

/-- the cache sides of two configurations with the same I-cache, part by part -/
theorem charge_related {size limit : ℕ}
    {R : Caches cfg → Caches { cfg with memorySize := size, maxInstructions := limit, dcache := d } → Prop}
    (hfront : ∀ m : FetchM {} cfg.icache (BitVec 32), Exec.Related R (front m) (front m)) {k : Kind} {pc : BitVec 32}
    {look : Except Exn (Option (BitVec 32))}
    (hmemory : ∀ stalls, Exec.Related R (memory k pc look stalls) (memory k pc look stalls)) (nextPc : BitVec 32) :
    Exec.Related R (charge k pc nextPc look) (charge k pc nextPc look) := by
  refine (hfront _).bind fun demand => (hmemory demand).bind fun stalls => ?_
  unfold control
  cases k with
  | branch taken =>
    cases taken with
    | true => exact (hfront _).bind fun _ => Exec.related_pure _
    | false => exact Exec.related_pure _
  | jump => exact (hfront _).bind fun _ => Exec.related_pure _
  | system => exact (hfront _).bind fun _ => Exec.related_pure _
  | _ => exact Exec.related_pure _

/-- all of the cache side is equal, but the lines of the D-cache -/
structure Alike (c : Caches cfg) (c' : Caches { cfg with dcache := d }) : Prop where
  icache : c.icache = c'.icache
  stats : c.dcache.stats = c'.dcache.stats
  ifetch : c.ifetch = c'.ifetch
  overlap : c.overlap = c'.overlap
  replays : c.replays = c'.replays
  outcomes : c.outcomes = c'.outcomes

/-- what an access to a disabled D-cache does -/
def logHit : M cfg Unit := Exec.modify fun c => { c with outcomes := c.outcomes ++ [{ hit := true }] }

theorem access_of_disabled (h : cfg.dcache.enabled = false) (addr : BitVec 32) (w : Bool) :
    (access addr w : M cfg CacheAccessResult) = do
      logHit
      return { hit := true } := by
  funext c
  unfold access
  rw [DirectMappedCacheModel.access_disabled h]
  rfl

/-- there is no credit without a D-cache stall -/
theorem credit_zero (look : Except Exn (Option (BitVec 32))) (addr ifetchStalls : BitVec 32) :
    (credit look addr 0 ifetchStalls : M cfg (BitVec 32)) = pure 0 := by
  funext c
  unfold credit
  rw [if_neg fun h => h.1 rfl]
  rfl

theorem front_alike {α : Type} (m : FetchM {} cfg.icache α) :
    Exec.Related (@Alike cfg d) (front m) (front m) := by
  apply Exec.Related.zoom (Q := Eq)
  · intro c c' h
    unfold frontEnd
    rw [h.icache, h.ifetch]
  · rintro f _ c c' rfl h
    exact ⟨rfl, h.stats, rfl, h.overlap, h.replays, h.outcomes⟩
  · rintro f _ rfl
    exact Exec.Related.refl (fun _ => rfl) m f

theorem logHit_alike : Exec.Related (@Alike cfg d) logHit logHit := by
  apply Exec.related_modify
  intro c c' h
  exact ⟨h.icache, h.stats, h.ifetch, h.overlap, h.replays, congrArg (· ++ _) h.outcomes⟩

theorem memory_alike (hc : cfg.dcache.enabled = false) (hd : d.enabled = false) (k : Kind) (pc : BitVec 32)
    (look : Except Exn (Option (BitVec 32))) (stalls : BitVec 32) :
    Exec.Related (@Alike cfg d) (memory k pc look stalls) (memory k pc look stalls) := by
  unfold memory
  cases k with
  | load addr =>
    simp only [access_of_disabled hc, @access_of_disabled { cfg with dcache := d } hd, bind_assoc, pure_bind]
    exact logHit_alike.bind fun _ => (front_alike _).bind fun _ => Exec.related_pure _
  | store addr =>
    simp only [access_of_disabled hc, @access_of_disabled { cfg with dcache := d } hd, bind_assoc, pure_bind,
      credit_zero]
    exact logHit_alike.bind fun _ => (front_alike _).bind fun _ => Exec.related_pure _
  | _ => exact Exec.related_pure _

/-- **An instruction charges the same** in both. -/
theorem charge_alike (hc : cfg.dcache.enabled = false) (hd : d.enabled = false) (k : Kind) (pc nextPc : BitVec 32)
    (look : Except Exn (Option (BitVec 32))) :
    Exec.Related (@Alike cfg d) (charge k pc nextPc look) (charge k pc nextPc look) :=
  charge_related front_alike (memory_alike hc hd k pc look) nextPc

end Caches

namespace CpuModel

/-- all of the model is equal, but the lines of the D-cache -/
structure Alike (s : CpuModel cfg) (s' : CpuModel { cfg with dcache := d }) : Prop where
  instructionMemory : s.instructionMemory = s'.instructionMemory
  dataMemory : s.dataMemory = s'.dataMemory
  regs : s.regs = s'.regs
  pc : s.pc = s'.pc
  halted : s.halted = s'.halted
  stats : s.stats = s'.stats
  timing : s.timing = s'.timing
  trace : s.trace = s'.trace
  caches : s.caches.Alike s'.caches

variable {s t : CpuModel cfg} {s' : CpuModel { cfg with dcache := d }}

theorem Alike.running (h : Alike s s') (w : Running s) : Running s' where
  live := h.halted ▸ w.live
  below := h.stats ▸ w.below
  aligned := h.pc ▸ w.aligned

theorem Alike.look (h : Alike s s') : s.look = s'.look := by
  have hlook : ∀ pc, s.sequentialNextRedirectTarget pc = s'.sequentialNextRedirectTarget pc := by
    intro pc
    simp only [sequentialNextRedirectTarget, h.instructionMemory, h.regs]
  unfold CpuModel.look
  rw [h.pc]
  exact hlook _

theorem Alike.effect (h : Alike s s') (insn : BitVec 32) :
    Rv32im.effect s'.dataMemory s'.regs s'.pc insn = Rv32im.effect s.dataMemory s.regs s.pc insn := by
  rw [h.dataMemory, h.regs, h.pc]

theorem Alike.read (h : Alike s s') : s'.instructionMemory.read32 s'.pc = s.instructionMemory.read32 s.pc := by
  rw [h.instructionMemory, h.pc]

/-- the cache sides do the same -/
theorem Alike.charge (h : Alike s s') (hc : cfg.dcache.enabled = false) (hd : d.enabled = false) (e : Effect) :
    (Caches.charge e.kind s.pc e.nextPc s.look s.caches).Matches Caches.Alike
      (Caches.charge e.kind s'.pc e.nextPc s'.look s'.caches) := by
  rw [← h.pc, ← h.look]
  exact Caches.charge_alike hc hd e.kind s.pc e.nextPc s.look s.caches s'.caches h.caches

/-- the caches report alike -/
theorem Alike.syncStats (h : Alike s s') : s.syncStats = s'.syncStats := by
  have hicache : s.icache = s'.icache := h.caches.icache
  have hdcache : s.dcache.stats = s'.dcache.stats := h.caches.stats
  have hoverlap : s.cacheOverlapCycles = s'.cacheOverlapCycles := h.caches.overlap
  have hreplays : s.dcacheIfstallReplays = s'.dcacheIfstallReplays := h.caches.replays
  unfold CpuModel.syncStats
  rw [hicache, hdcache, hoverlap, hreplays, h.stats, h.timing]
  rfl

/-- they retire alike -/
theorem Alike.retired (h : Alike s s') (insn : BitVec 32) (e : Effect) (stalls : BitVec 32) {c : Caches cfg}
    {c' : Caches { cfg with dcache := d }} (hc : c.Alike c') :
    Alike (s.retired insn e stalls c) (s'.retired insn e stalls c') := by
  have hregs : Function.update (e.regs s.regs) 0 0 = Function.update (e.regs s'.regs) 0 0 := by rw [h.regs]
  have hhalted : (if e.kind = .system then true else s.halted) = if e.kind = .system then true else s'.halted := by
    rw [h.halted]
  have htiming : (s.timing.addExternalStalls stalls).retire insn (e.kind = .branch true) =
      (s'.timing.addExternalStalls stalls).retire insn (e.kind = .branch true) := by rw [h.timing]
  have hexecuted : Alike
      { s.executed e c with
        regs := Function.update (e.regs s.regs) 0 0, pc := e.nextPc
        timing := ((s.timing.addExternalStalls stalls).retire insn (e.kind = .branch true)).2 }
      { s'.executed e c' with
        regs := Function.update (e.regs s'.regs) 0 0, pc := e.nextPc
        timing := ((s'.timing.addExternalStalls stalls).retire insn (e.kind = .branch true)).2 } :=
    ⟨h.instructionMemory, rfl, hregs, rfl, hhalted, congrArg e.kind.count h.stats, congrArg Prod.snd htiming, h.trace, hc⟩
  refine ⟨h.instructionMemory, rfl, hregs, rfl, hhalted, hexecuted.syncStats, congrArg Prod.snd htiming, ?_, hc⟩
  show s.trace ++ _ = s'.trace ++ _
  rw [h.trace, h.pc, htiming]

/-- **They step alike**, where one of them returns. -/
theorem Stepped.alike {b : Bool} (w : Stepped s b t) (h : Alike s s') (hc : cfg.dcache.enabled = false)
    (hd : d.enabled = false) : ∃ t', step s' = .ok b t' ∧ Alike t t' := by
  have hcharge := h.charge hc hd w.e
  rw [w.charge] at hcharge
  rcases hcharge.cases with ⟨a, c, c', hok, hok', hcaches⟩ | ⟨x, c, c', hthrow, -, -⟩ | ⟨hhang, -⟩
  · obtain ⟨rfl, rfl⟩ := Outcome.ok.inj hok
    have halike := h.retired w.insn w.e w.stalls hcaches
    rw [w.after]
    refine ⟨_, step_ok.2 (Or.inr ⟨⟨h.running w.running, w.insn, w.e, w.stalls, c', h.read.trans w.fetch,
      (h.effect w.insn).trans w.effect, hok', ?_, rfl⟩⟩), halike⟩
    rw [← halike.halted, ← w.after]
    exact w.more
  · cases hthrow
  · cases hhang

/-- **They throw alike**, where one of them throws. -/
theorem Thrown.alike {x : Exn} (w : Thrown s x t) (h : Alike s s') (hc : cfg.dcache.enabled = false)
    (hd : d.enabled = false) : ∃ t', Thrown s' x t' ∧ Alike t t' := by
  cases w with
  | limit hmax => exact ⟨s', .limit (h.stats ▸ hmax), h⟩
  | misaligned hmax ha => exact ⟨s', .misaligned (h.stats ▸ hmax) (h.pc ▸ ha), h⟩
  | fetch hrun hf => exact ⟨s', .fetch (h.running hrun) (h.read.trans hf), h⟩
  | @switch _ insn st c hrun hf hfront he =>
    have hrel := Caches.front_alike (d := d) (FrontEnd.ensureThrough s.pc) s.caches s'.caches h.caches
    rw [hfront] at hrel
    rcases hrel.cases with ⟨a, c₁, c', hok, hok', hcaches⟩ | ⟨x, c₁, c', hthrow, -, -⟩ | ⟨hhang, -⟩
    · obtain ⟨rfl, rfl⟩ := Outcome.ok.inj hok
      have he' : Rv32im.effect s'.dataMemory s'.regs s'.pc insn = .error x := (h.effect insn).trans he
      have hput : Alike { s.putCaches c with stats := earlyCount insn s.stats }
          { s'.putCaches c' with stats := earlyCount insn s'.stats } :=
        ⟨h.instructionMemory, h.dataMemory, h.regs, h.pc, h.halted, congrArg (earlyCount insn) h.stats, h.timing, h.trace,
          hcaches⟩
      exact ⟨_, .switch (h.running hrun) (h.read.trans hf) (h.pc ▸ hok') he', hput⟩
    · cases hthrow
    · cases hhang
  | @lookahead _ insn e c hrun hf he hthrow =>
    have hrel := h.charge hc hd e
    rw [hthrow] at hrel
    rcases hrel.cases with ⟨a, c₁, c', hok, -, -⟩ | ⟨y, c₁, c', hx, hthrow', hcaches⟩ | ⟨hhang, -⟩
    · cases hok
    · obtain ⟨rfl, rfl⟩ := Outcome.throw.inj hx
      have hput : Alike (({ s with dataMemory := e.mem } : CpuModel cfg).putCaches c)
          (({ s' with dataMemory := e.mem } : CpuModel { cfg with dcache := d }).putCaches c') :=
        ⟨h.instructionMemory, rfl, h.regs, h.pc, h.halted, h.stats, h.timing, h.trace, hcaches⟩
      exact ⟨_, .lookahead (h.running hrun) (h.read.trans hf) ((h.effect insn).trans he) hthrow', hput⟩
    · cases hhang

/-! ## Runs -/

theorem turns_alike {n : ℕ} (hpath : Turns n s t) (h : Alike s s') (hc : cfg.dcache.enabled = false)
    (hd : d.enabled = false) : ∃ t', Turns n s' t' ∧ Alike t t' := by
  refine Exec.Path.simulated (fun u u' b v hlive hstep halike => ?_) hpath h
  obtain ⟨w⟩ := step_of_live hlive hstep
  obtain ⟨v', hstep', hv⟩ := w.alike halike hc hd
  exact ⟨halike.halted ▸ hlive, b, v', hstep', hv⟩

/-- **A disabled D-cache can have any configuration**: a run returns alike and throws alike. -/
theorem run_alike (h : Alike s s') (hc : cfg.dcache.enabled = false) (hd : d.enabled = false) :
    (run s = .ok () t → ∃ t', run s' = .ok () t' ∧ Alike t t') ∧
      ∀ x, run s = .throw x t → ∃ t', run s' = .throw x t' ∧ Alike t t' := by
  refine ⟨?_, ?_⟩
  · intro hrun
    obtain ⟨n, hpath, hhalt⟩ := run_ok.1 hrun
    obtain ⟨t', hpath', halike⟩ := turns_alike hpath h hc hd
    exact ⟨t', run_ok.2 ⟨n, hpath', halike.halted ▸ hhalt⟩, halike⟩
  · intro x hrun
    obtain ⟨n, u, hpath, hthrow⟩ := run_throw.1 hrun
    obtain ⟨u', hpath', halike⟩ := turns_alike hpath h hc hd
    have hlive := live_of_throw hthrow
    obtain ⟨t', hthrown, ht'⟩ := ((step_throw hlive).1 hthrow).alike halike hc hd
    exact ⟨t', run_throw.2 ⟨n, u', hpath', (step_throw (halike.halted ▸ hlive)).2 hthrown⟩, ht'⟩

/-- the models boot alike -/
theorem alike_boot (h : cfg.Accepted) (hd : d.Accepted) (program data : ℕ → BitVec 8) (pc : BitVec 32) :
    Alike (boot cfg h program data pc) (boot { cfg with dcache := d } ⟨h.icache, hd⟩ program data pc) :=
  ⟨rfl, rfl, rfl, rfl, rfl, rfl, rfl, rfl, rfl, rfl, rfl, rfl, rfl, rfl⟩

end CpuModel

end Rv32im
