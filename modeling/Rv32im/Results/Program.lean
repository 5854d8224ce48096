/-
The whole program, from its arguments to its output (`main.cpp`).

- `Main.Completed`: the images are loaded, and the program in them ends within the limit.
- `simulate_completed`, `simulate_follows`: the program exits with 0 exactly behind a completed run.
- `main_computes_isa`: what it prints and writes is about the run of the instruction set.
-/
import Rv32im.Results.IsaRun
import Rv32im.Tools.Stdout

namespace Rv32im

open CpuModel

namespace Main

/-- the program in a loaded image -/
def machine (o : Options) (code : Memory) : Isa.Machine := ⟨code.image, o.config.memorySize⟩

/-- where it starts, over a loaded image of data -/
def start (o : Options) (data : Memory) : Isa.State := ⟨fun _ => 0, o.config.resetPc.toNat, data.image⟩

/-- the RTL trace can be summed up, if one is given -/
def Readable (w : World) (o : Options) : Prop :=
  o.rtlTracePath = "" ∨ ∃ rtl, RtlSummary.readRtlSummary o.rtlTracePath (w.files o.rtlTracePath) = .ok rtl

/-- a run of the loaded images to the end of their program -/
structure Completed (w : World) (program : String) (o : Options) (code data : Memory)
    (log : List (Isa.State × Isa.Instr)) (t : CpuModel o.config) : Prop where
  loaded : Loaded w program o code data
  run : (boot o.config loaded.accepted (bytesOf code) (bytesOf data) o.config.resetPc).run = .ok () t
  isa : (machine o code).run o.config.maxInstructions (start o data) = some (log, t.isa)
  rows : t.trace.map RetireEvent.untimed = (machine o code).rows 0 log
  retired : t.stats.retired = log.length

section

variable {w : World} {fl : Floats} {program : String} {o : Options} {code data : Memory} {e : Ended}

theorem Loaded.machine (h : Loaded w program o code data) :
    imageMachine o.config (bytesOf code) = Main.machine o code ∧
      imageStart o.config (bytesOf data) o.config.resetPc = start o data := by
  unfold imageMachine imageStart Main.machine start
  rw [h.images.1, h.images.2]
  exact ⟨rfl, rfl⟩

/-- the loaded images have a run to their end, if their program has one -/
theorem completed_of_run (hmem : o.config.memorySize + 16 ≤ 2 ^ 32) (h : Loaded w program o code data)
    {t : CpuModel o.config}
    (ht : (boot o.config h.accepted (bytesOf code) (bytesOf data) o.config.resetPc).run = .ok () t) :
    ∃ log, Completed w program o code data log t := by
  obtain ⟨log, hrun, hrows, hretired⟩ := boot_returns hmem ht
  rw [h.machine.1] at hrun hrows
  rw [h.machine.2] at hrun
  exact ⟨log, h, ht, hrun, hrows, hretired⟩

theorem report_code (w : World) (fl : Floats) (o : Options) (t : CpuModel o.config) :
    (report w fl o t).code ≤ 1 ∧ ((report w fl o t).code = 0 ↔ Readable w o) := by
  unfold report Readable
  by_cases hrtl : o.rtlTracePath = ""
  · simp only [if_pos hrtl]
    exact ⟨Nat.zero_le 1, iff_of_true trivial (Or.inl hrtl)⟩
  · simp only [if_neg hrtl]
    cases RtlSummary.readRtlSummary o.rtlTracePath (w.files o.rtlTracePath) with
    | error x =>
      refine ⟨le_rfl, iff_of_false Nat.one_ne_zero ?_⟩
      rintro (h | ⟨rtl, h⟩)
      · exact hrtl h
      · cases h
    | ok rtl => exact ⟨Nat.zero_le 1, iff_of_true rfl (Or.inr ⟨rtl, rfl⟩)⟩

/-- **The program always ends**, and fails with 1. -/
theorem simulate_ends (w : World) (fl : Floats) (program : String) (o : Options)
    (hmem : o.config.memorySize + 16 ≤ 2 ^ 32) : ∃ e, simulate w fl program o = some e ∧ e.code ≤ 1 := by
  by_cases h : ∃ code data, Loaded w program o code data
  · obtain ⟨code, data, h⟩ := h
    rw [simulate_loaded h]
    have hends := run_ne_diverge hmem (sound_boot h.accepted (bytesOf code) (bytesOf data) o.config.resetPc) .start
    cases hrun : (boot o.config h.accepted (bytesOf code) (bytesOf data) o.config.resetPc).run with
    | ok a t => exact ⟨_, rfl, (report_code w fl o t).1⟩
    | throw x t => exact ⟨_, rfl, le_rfl⟩
    | diverge => exact absurd hrun hends
  · obtain ⟨x, rest, hfail⟩ := simulate_unloaded fl h
    exact ⟨_, hfail, le_rfl⟩

/-- an exit with 0 is behind a run that returns -/
theorem simulate_zero (h : simulate w fl program o = some e) (hcode : e.code = 0) :
    ∃ (code data : Memory) (hload : Loaded w program o code data) (t : CpuModel o.config),
      (boot o.config hload.accepted (bytesOf code) (bytesOf data) o.config.resetPc).run = .ok () t ∧ e = report w fl o t := by
  by_cases hload : ∃ code data, Loaded w program o code data
  · obtain ⟨code, data, hload⟩ := hload
    rw [simulate_loaded hload] at h
    cases hrun : (boot o.config hload.accepted (bytesOf code) (bytesOf data) o.config.resetPc).run with
    | ok a t =>
      rw [hrun] at h
      exact ⟨code, data, hload, t, hrun, (Option.some.inj h).symm⟩
    | throw x t =>
      rw [hrun] at h
      obtain rfl := Option.some.inj h
      cases hcode
    | diverge =>
      rw [hrun] at h
      cases h
  · obtain ⟨x, rest, hfail⟩ := simulate_unloaded fl hload
    rw [hfail] at h
    obtain rfl := Option.some.inj h
    cases hcode

/-- that run is one to the end of the program -/
theorem simulate_completed (hmem : o.config.memorySize + 16 ≤ 2 ^ 32) (h : simulate w fl program o = some e)
    (hcode : e.code = 0) : ∃ code data log t, Completed w program o code data log t ∧ e = report w fl o t := by
  obtain ⟨code, data, hload, t, hrun, he⟩ := simulate_zero h hcode
  obtain ⟨log, hdone⟩ := completed_of_run hmem hload hrun
  exact ⟨code, data, log, t, hdone, he⟩

/-- a program that ends is run to its end -/
theorem simulate_follows (fl : Floats) (hmem : o.config.memorySize + 16 ≤ 2 ^ 32) (h : Loaded w program o code data)
    (hsome : ((machine o code).run o.config.maxInstructions (start o data)).isSome = true) :
    ∃ log t, Completed w program o code data log t ∧ simulate w fl program o = some (report w fl o t) := by
  rw [← h.machine.1, ← h.machine.2] at hsome
  obtain ⟨t, ht⟩ := boot_follows (h := h.accepted) hmem hsome
  obtain ⟨log, hdone⟩ := completed_of_run hmem h ht
  refine ⟨log, t, hdone, ?_⟩
  rw [simulate_loaded h, ht]
  rfl

end

end Main

open Main

/-- **The program computes the instruction set.** For arguments that are accepted, in a memory that ends at least four
words below 2^32, `main` always ends. It exits with 0 exactly if the cache configurations are accepted, the memories and
the cache lines can be had, the trace file can be opened, all files can be read, and the program in the image ends within
the limit and without an exception. Its output and its trace file are then about the instructions of that program. -/
theorem main_computes_isa (w : World) (fl : Floats) (argv0 program : String) (args : List String) (o : Options)
    (hread : CommandLine.readOptions {} args = .ok (some o)) (hmem : o.config.memorySize + 16 ≤ 2 ^ 32) :
    ∃ e, main w fl argv0 (program :: args) = some e ∧ e.code ≤ 1 ∧
    (e.code = 0 ↔ Readable w o ∧ ∃ code data, Loaded w program o code data ∧
      ((machine o code).run o.config.maxInstructions (start o data)).isSome = true) ∧
    (e.code = 0 → ∃ code data log t, Completed w program o code data log t ∧ e = report w fl o t) := by
  obtain ⟨e, he, hcode⟩ := simulate_ends w fl program o hmem
  refine ⟨e, (main_accepts hread).trans he, hcode, ⟨?_, ?_⟩, simulate_completed hmem he⟩
  · intro hzero
    obtain ⟨code, data, log, t, hdone, rfl⟩ := simulate_completed hmem he hzero
    refine ⟨(report_code w fl o t).2.1 hzero, code, data, hdone.loaded, ?_⟩
    rw [hdone.isa]
    rfl
  · rintro ⟨hreadable, code, data, hload, hsome⟩
    obtain ⟨log, t, -, hsim⟩ := simulate_follows fl hmem hload hsome
    obtain rfl := Option.some.inj (he.symm.trans hsim)
    exact (report_code w fl o t).2.2 hreadable

/-- one file with one ECALL -/
def ecallWorld : World where
  files path := if path = "ecall.hex" then some "00000073".toList else none
  opens _ := true

def zeroRates : Floats := ⟨fun _ => ⟨zeroText, zeroText, zeroText⟩, fun _ => zeroText, fun _ _ => zeroText⟩

/-- options with a small memory -/
def smallMemory : Options := CommandLine.Setting.apply {} (.memSize 64)

theorem allocated_small : Allocated ecallWorld smallMemory.config := by
  intro v
  cases v <;> exact ⟨by decide, rfl⟩

theorem main_computes_isa_ecall : ∃ e, main ecallWorld zeroRates "rv32im_model" ["ecall.hex", "--mem-size", "64"] =
    some e ∧ e.code = 0 := by
  obtain ⟨e, he, -, hzero, -⟩ := main_computes_isa ecallWorld zeroRates "rv32im_model" "ecall.hex" ["--mem-size", "64"]
    smallMemory (by decide +kernel) (by decide)
  have hcode : HexLoader.loadHexWords "ecall.hex" (ecallWorld.files "ecall.hex") 0 (Memory.zeros 64) =
      .ok () (Memory.ofImage 64 (wordImage [0x73])) := by decide +kernel
  refine ⟨e, he, hzero.2 ⟨Or.inl rfl, _, _, ⟨⟨⟨by decide, rfl⟩, ⟨by decide, rfl⟩⟩, allocated_small, Or.inr rfl,
    hcode, rfl⟩, ?_⟩⟩
  exact congrArg Option.isSome (Isa.Machine.run_mono (n := 1) (k := 10000000) (by rfl) (by decide))

end Rv32im
