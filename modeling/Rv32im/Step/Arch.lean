/-
The architectural projection of the model, and timing transparency.

- `Arch`: the state without caches, fetch stream and clock. It keeps the class counters, the pipeline model without
  its stall total and the emitted events without their cycle.
- `arch_retired`: what a step does to the projection is a function of the projection, of the instruction word and of
  its effect.
- `step_transparent`: two models with equal projections that both return keep equal projections, whatever their
  caches are.
- `run_transparent`: the same for n steps from the boot state.
-/
import Rv32im.Step.Factor

namespace Rv32im

/-! ## The projection -/

/-- the counters that no cache moves -/
def PerformanceStats.classes (st : PerformanceStats) : PerformanceStats where
  retired := st.retired
  alu := st.alu
  branches := st.branches
  branchesTaken := st.branchesTaken
  loads := st.loads
  stores := st.stores
  mulDiv := st.mulDiv
  jumps := st.jumps

/-- an event without its cycle -/
def RetireEvent.untimed (e : RetireEvent) : RetireEvent := { e with cycle := 0 }

structure Arch where
  instructionMemory : Memory
  dataMemory : Memory
  regs : Regs
  pc : BitVec 32
  halted : Bool
  classes : PerformanceStats
  timing : PipelineTimingModel {}
  trace : List RetireEvent

namespace Arch

/-- the projection after one retired instruction -/
def after (a : Arch) (insn : BitVec 32) (e : Effect) : Arch :=
  let result := a.timing.retire insn (e.kind = .branch true)
  { instructionMemory := a.instructionMemory
    dataMemory := e.mem
    regs := Function.update (e.regs a.regs) 0 0
    pc := e.nextPc
    halted := if e.kind = .system then true else a.halted
    classes := { e.kind.count a.classes with retired := result.2.stats.retired }
    timing := result.2.erase
    trace := a.trace ++ [{ e.event a.pc insn with retired := result.2.stats.retired }] }

end Arch

namespace CpuModel

variable {cfg cfg' : CpuConfig}

def arch (s : CpuModel cfg) : Arch where
  instructionMemory := s.instructionMemory
  dataMemory := s.dataMemory
  regs := s.regs
  pc := s.pc
  halted := s.halted
  classes := s.stats.classes
  timing := s.timing.erase
  trace := s.trace.map RetireEvent.untimed

theorem classes_count (k : Kind) (st : PerformanceStats) : (k.count st).classes = k.count st.classes := by
  cases k with
  | branch taken => cases taken <;> rfl
  | _ => rfl

/-- **The projection evolves on its own**: neither the stalls nor the caches enter it. -/
theorem arch_retired (s : CpuModel cfg) (insn : BitVec 32) (e : Effect) (stalls : BitVec 32) (c : Caches cfg) :
    (s.retired insn e stalls c).arch = s.arch.after insn e := by
  have hclasses : (s.retired insn e stalls c).stats.classes =
      { e.kind.count s.stats.classes with retired := s.timing.stats.retired + 1 } := by
    rw [← classes_count]
    rfl
  have htiming : (s.retired insn e stalls c).timing.erase = (s.arch.after insn e).timing :=
    PipelineTimingModel.retire_erase s.timing stalls insn _
  simp only [arch, hclasses, htiming, Arch.after]
  congr 1
  simp only [retired, List.map_append, List.map_cons, List.map_nil]
  congr 2
  simp only [RetireEvent.untimed, RetireEvent.mk.injEq]
  refine ⟨?_, rfl, trivial, trivial, trivial, trivial, trivial, trivial, trivial, trivial⟩
  -- no kind of instruction sets the cycle of its event
  unfold Effect.event
  cases e.kind <;> rcases e.wr with _ | ⟨rd, v⟩ <;> rfl

theorem Stepped.arch {s t : CpuModel cfg} {b : Bool} (w : Stepped s b t) : t.arch = s.arch.after w.insn w.e :=
  (congrArg CpuModel.arch w.after).trans (arch_retired s w.insn w.e w.stalls w.c)

/-- the instruction and its effect are read off the projection -/
theorem Stepped.same {s t : CpuModel cfg} {s' t' : CpuModel cfg'} {b b' : Bool} (w : Stepped s b t)
    (w' : Stepped s' b' t') (h : s.arch = s'.arch) : w.insn = w'.insn ∧ w.e = w'.e := by
  have him : s.instructionMemory = s'.instructionMemory := congrArg Arch.instructionMemory h
  have hdm : s.dataMemory = s'.dataMemory := congrArg Arch.dataMemory h
  have hr : s.regs = s'.regs := congrArg Arch.regs h
  have hpc : s.pc = s'.pc := congrArg Arch.pc h
  have hinsn : w.insn = w'.insn := by
    have := w.fetch
    rw [him, hpc, w'.fetch] at this
    exact (Except.ok.inj this).symm
  refine ⟨hinsn, ?_⟩
  have := w.effect
  rw [hdm, hr, hpc, hinsn, w'.effect] at this
  exact (Except.ok.inj this).symm

theorem Stepped.after_same {s t : CpuModel cfg} {s' t' : CpuModel cfg'} {b b' : Bool} (w : Stepped s b t)
    (w' : Stepped s' b' t') (h : s.arch = s'.arch) : t.arch = t'.arch := by
  obtain ⟨hinsn, he⟩ := w.same w' h
  rw [w.arch, w'.arch, hinsn, he, h]

/-- so is the look-ahead -/
theorem look_same {s : CpuModel cfg} {s' : CpuModel cfg'} (h : s.arch = s'.arch) : s.look = s'.look := by
  have him : s.instructionMemory = s'.instructionMemory := congrArg Arch.instructionMemory h
  have hr : s.regs = s'.regs := congrArg Arch.regs h
  have hpc : s.pc = s'.pc := congrArg Arch.pc h
  simp only [look, sequentialNextRedirectTarget, him, hr, hpc]

/-- **Timing transparency of one step.** -/
theorem step_transparent {s t : CpuModel cfg} {s' t' : CpuModel cfg'} {b b' : Bool} (h : s.arch = s'.arch)
    (hs : step s = .ok b t) (hs' : step s' = .ok b' t') : t.arch = t'.arch := by
  apply step_rel (R := fun s s' => s.arch = s'.arch) _ _ h hs hs'
  · intro s s' h
    exact congrArg Arch.halted h
  · intro s s' t t' b b' w w' h
    exact w.after_same w' h

theorem arch_iter {s t : CpuModel cfg} {s' t' : CpuModel cfg'} {n : ℕ} (ht : Exec.iter step n s = some t)
    (ht' : Exec.iter step n s' = some t') (h : s.arch = s'.arch) : t.arch = t'.arch := by
  apply Exec.iter_rel (R := fun s s' => s.arch = s'.arch) _ ht ht' h
  intro s s' a a' u u' hr hs hs'
  exact step_transparent hr hs hs'

theorem arch_boot (h : cfg.Accepted) (h' : cfg'.Accepted) (hm : cfg.memorySize = cfg'.memorySize)
    (program data : ℕ → BitVec 8) (pc : BitVec 32) :
    (boot cfg h program data pc).arch = (boot cfg' h' program data pc).arch := by
  simp only [boot, arch, reset, withImages, hm]

/-- n steps of two models that differ in their caches only -/
theorem run_arch (h : cfg.Accepted) (h' : cfg'.Accepted) (hm : cfg.memorySize = cfg'.memorySize)
    {program data : ℕ → BitVec 8} {pc : BitVec 32} {n : ℕ} {t : CpuModel cfg} {t' : CpuModel cfg'}
    (ht : Exec.iter step n (boot cfg h program data pc) = some t)
    (ht' : Exec.iter step n (boot cfg' h' program data pc) = some t') : t.arch = t'.arch :=
  arch_iter ht ht' (arch_boot h h' hm program data pc)

end CpuModel

/-- **Timing transparency.** Two configurations with the same memory size compute the same from the same images and
reset PC, whatever their caches are, as long as both return. -/
theorem run_transparent (cfg cfg' : CpuConfig) (h : cfg.Accepted) (h' : cfg'.Accepted)
    (hmem : cfg.memorySize = cfg'.memorySize) (program data : ℕ → BitVec 8) (pc : BitVec 32) (n : ℕ)
    (t : CpuModel cfg) (t' : CpuModel cfg')
    (ht : Exec.iter CpuModel.step n (boot cfg h program data pc) = some t)
    (ht' : Exec.iter CpuModel.step n (boot cfg' h' program data pc) = some t') :
    t.regs = t'.regs ∧ t.pc = t'.pc ∧ t.halted = t'.halted ∧ t.dataMemory = t'.dataMemory ∧
      t.stats.classes = t'.stats.classes ∧
      t.trace.map RetireEvent.untimed = t'.trace.map RetireEvent.untimed := by
  have harch := CpuModel.run_arch h h' hmem ht ht'
  exact ⟨congrArg Arch.regs harch, congrArg Arch.pc harch, congrArg Arch.halted harch,
    congrArg Arch.dataMemory harch, congrArg Arch.classes harch, congrArg Arch.trace harch⟩

/-- the same program with split caches and without caches -/
theorem run_transparent_cacheTest :
    ∃ t t', Exec.iter CpuModel.step 11 (boot splitCaches splitCaches_accepted (wordImage cacheTest) 0 0) = some t ∧
      Exec.iter CpuModel.step 11 (boot noCaches noCaches_accepted (wordImage cacheTest) 0 0) = some t' ∧
      t.regs = t'.regs ∧ t.pc = t'.pc ∧ t.halted = t'.halted ∧ t.dataMemory = t'.dataMemory ∧
      t.stats.classes = t'.stats.classes ∧ t.trace.map RetireEvent.untimed = t'.trace.map RetireEvent.untimed := by
  obtain ⟨t, ht⟩ := Option.isSome_iff_exists.1 (by decide +kernel :
    (Exec.iter CpuModel.step 11 (boot splitCaches splitCaches_accepted (wordImage cacheTest) 0 0)).isSome = true)
  obtain ⟨t', ht'⟩ := Option.isSome_iff_exists.1 (by decide +kernel :
    (Exec.iter CpuModel.step 11 (boot noCaches noCaches_accepted (wordImage cacheTest) 0 0)).isSome = true)
  exact ⟨t, t', ht, ht',
    run_transparent splitCaches noCaches splitCaches_accepted noCaches_accepted rfl _ _ _ _ t t' ht ht'⟩

end Rv32im
