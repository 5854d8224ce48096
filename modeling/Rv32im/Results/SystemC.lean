/-
The clocked module and the command line run one model.

- `run_options`: the two programs differ in the write policy of a disabled D-cache only.
- `systemc_main_agrees`: they end alike on every program, with one trace.
-/
import Rv32im.Results.DisabledCache
import Rv32im.Results.Program
import Rv32im.Tools.SystemC

namespace Rv32im

open CpuModel

namespace SystemC

/-- the options of the same run on the command line -/
def options (path : String) : Options := { tracePath := path }

theorem readOptions_trace (path : String) :
    CommandLine.readOptions {} ["--trace", path] = .ok (some (options path)) :=
  CommandLine.readOptions_ok.2 ⟨[.trace path], .cons (.trace path) .nil, rfl⟩

/-- how the command line and the clocked module end: with the same statistics, or with the same exception -/
inductive Agree (k : Kernel {}) (path : String) : Ended → Ended → Prop where
  | completed (stats : List Char) (trace : Option (List Char)) :
    Agree k path { stdout := stats ++ ("\nModel trace: ".toList ++ path.toList ++ ['\n']), trace := trace }
      { stdout := stats ++ ("\nSystemC trace: ".toList ++ path.toList ++ ['\n']), trace := trace }
  | unloaded (e : MainExn) (trace : Option (List Char)) :
    Agree k path (Main.failed e { trace := trace }) (Main.failed e { trace := trace })
  | thrown (x : Exn) (trace : Option (List Char)) : Agree k path (Main.failed (.model x) { trace := trace })
      { code := 1, stderr := ("ERROR: " ++ k.what x ++ "\n").toList, trace := trace }

theorem accepted_default : CpuConfig.Accepted {} := ⟨⟨by decide, rfl⟩, ⟨by decide, rfl⟩⟩

theorem accepted_options (path : String) : (options path).config.Accepted :=
  ⟨accepted_default.icache, ⟨accepted_default.dcache.lines, rfl⟩⟩

theorem allocated_default {w : World} {path : String} (h : Main.Allocated w (options path).config) :
    Main.Allocated w {} := by
  intro v
  cases v with
  | instructionMemory => exact h .instructionMemory
  | dataMemory => exact h .dataMemory
  | icacheLines => exact h .icacheLines
  | dcacheLines => exact h .dcacheLines

/-- **The two programs run alike**: the command line has a write-back D-cache, but does not enable it. -/
theorem run_options (path : String) (program data : ℕ → BitVec 8) :
    (∀ t, (boot {} accepted_default program data 0).run = .ok () t →
      ∃ t', (boot (options path).config (accepted_options path) program data 0).run = .ok () t' ∧
        t'.stats = t.stats ∧ t'.trace = t.trace) ∧
    ∀ x t, (boot {} accepted_default program data 0).run = .throw x t →
      ∃ t', (boot (options path).config (accepted_options path) program data 0).run = .throw x t' ∧
        t'.trace = t.trace := by
  have halike : Alike (d := (options path).config.dcache) (boot {} accepted_default program data 0)
      (boot (options path).config (accepted_options path) program data 0) :=
    alike_boot accepted_default (accepted_options path).dcache program data 0
  refine ⟨?_, ?_⟩
  · intro t hrun
    obtain ⟨t', hrun', ht⟩ := (run_alike halike rfl rfl).1 hrun
    exact ⟨t', hrun', ht.stats.symm, ht.trace.symm⟩
  · intro x t hrun
    obtain ⟨t', hrun', ht⟩ := (run_alike halike rfl rfl).2 x hrun
    exact ⟨t', hrun', ht.trace.symm⟩

/-- the output of the command line behind a run -/
theorem report_options (w : World) (fl : Floats) (path : String) (t : CpuModel (options path).config) :
    Main.report w fl (options path) t =
      { stdout := (t.stats.print (fl.rates t.stats)).toList ++ ("\nModel trace: ".toList ++ path.toList ++ ['\n'])
        trace := if path = "" then none else some (Writer.traceWriter.file t.trace) } := by
  unfold Main.report
  rw [if_pos (show (options path).rtlTracePath = "" from rfl), List.append_assoc]
  rfl

/-- the ends of the two runs -/
theorem ending_agrees (w : World) (fl : Floats) {k : Kernel {}} (hk : k.Clocked) (path : String)
    (program data : ℕ → BitVec 8) : ∃ e e',
      Main.ending w fl (options path) (boot (options path).config (accepted_options path) program data 0).run = some e ∧
      ending fl k path (k.start (behind (boot {} accepted_default program data 0))) = some e' ∧ Agree k path e e' := by
  cases hrun : (boot {} accepted_default program data 0).run with
  | diverge => exact absurd hrun (run_ne_diverge (by decide) (sound_boot accepted_default program data 0) .start)
  | ok u t =>
    obtain ⟨t', hrun', hstats, htrace⟩ := (run_options path program data).1 t hrun
    rw [hrun', start_ok hk hrun]
    refine ⟨_, _, rfl, rfl, ?_⟩
    rw [report_options, hstats, htrace]
    exact .completed _ _
  | throw x t =>
    obtain ⟨t', hrun', htrace⟩ := (run_options path program data).2 x t hrun
    rw [hrun', start_throw hk hrun]
    refine ⟨_, _, rfl, rfl, ?_⟩
    unfold Main.written
    rw [htrace]
    exact .thrown x _

variable {w : World} {fl : Floats} {k : Kernel {}} {program path : String} {code : Memory}

/-- behind its image, the clocked program runs the booted model -/
theorem simulate_loaded
    (h : Main.Loaded w program (options path) code (Memory.zeros (options path).config.memorySize)) :
    simulate {} w fl k program path = ending fl k path (k.start (behind (boot {} accepted_default (Main.bytesOf code)
      (Main.bytesOf (Memory.zeros (options path).config.memorySize)) 0))) := by
  have hcpu := Main.construct_of_accepted (w := w) accepted_default (allocated_default h.allocated)
  have hopened : ¬ (path ≠ "" ∧ w.opens path = false) := by
    intro hclosed
    rcases h.opened with hempty | hopen
    · exact hclosed.1 hempty
    · exact Bool.false_ne_true (hclosed.2.symm.trans hopen)
  have hcode : HexLoader.loadHexWords program (w.files program) 0 (Memory.zeros ({} : CpuConfig).memorySize) =
      .ok () code := h.code
  have hcodeImage : Memory.ofImage ({} : CpuConfig).memorySize (Main.bytesOf code) = code := h.images.1
  have hdataImage : Memory.ofImage ({} : CpuConfig).memorySize (Main.bytesOf (Memory.zeros
      (options path).config.memorySize)) = Memory.zeros ({} : CpuConfig).memorySize := h.images.2
  unfold simulate
  simp only [hcpu, if_neg hopened, hcode]
  unfold boot CpuModel.withImages
  rw [hcodeImage, hdataImage]
  rfl

/-- where no image is loaded, both programs fail alike -/
theorem simulate_unloaded (h : ¬ ∃ code, Main.Loaded w program (options path) code
    (Memory.zeros (options path).config.memorySize)) :
    ∃ e trace, Main.simulate w fl program (options path) = some (Main.failed e { trace := trace }) ∧
      simulate {} w fl k program path = some (Main.failed e { trace := trace }) := by
  unfold Main.simulate simulate
  by_cases hroom : Main.Allocated w (options path).config
  case neg =>
    -- one of the vectors cannot be had, and the sizes are the same in both programs
    cases hcpu : Main.construct w (options path).config with
    | ok cpu => exact absurd (Main.construct_ok.1 hcpu).1 hroom
    | error x =>
      have hsame : ∀ v : SizedVector, v.elements (options path).config = v.elements {} := fun v => by cases v <;> rfl
      have hcpu' := (Main.construct_error (accepted_options path) accepted_default hsame).1 hcpu
      simp only [hcpu']
      exact ⟨x, none, rfl, rfl⟩
  have hcpu := Main.construct_of_accepted (accepted_options path) hroom
  have hcpu' := Main.construct_of_accepted accepted_default (allocated_default hroom)
  by_cases hopened : path ≠ "" ∧ w.opens path = false
  · have hopened' : (options path).tracePath ≠ "" ∧ w.opens (options path).tracePath = false := hopened
    simp only [hcpu, hcpu', if_pos hopened, if_pos hopened']
    exact ⟨_, _, rfl, rfl⟩
  · have hopened' : ¬ ((options path).tracePath ≠ "" ∧ w.opens (options path).tracePath = false) := hopened
    cases hcode : HexLoader.loadHexWords program (w.files program) 0 (Memory.zeros (options path).config.memorySize) with
    | diverge => exact absurd hcode (Main.loadHexWords_ends _ _ _ _)
    | throw e m =>
      have hcode' : HexLoader.loadHexWords program (w.files program) 0 (Memory.zeros ({} : CpuConfig).memorySize) =
          .throw e m := hcode
      simp only [hcpu, hcpu', if_neg hopened, if_neg hopened', hcode, hcode']
      exact ⟨_, _, rfl, rfl⟩
    | ok u code =>
      refine absurd ⟨code, accepted_options path, hroom, ?_, hcode, rfl⟩ h
      by_cases hempty : path = ""
      · exact Or.inl hempty
      · exact Or.inr (Bool.of_not_eq_false fun hclosed => hopened ⟨hempty, hclosed⟩)

end SystemC

open SystemC

/-- **The clocked module runs the same model.** Under every kernel that calls `tick` on each rising edge until `sc_stop`,
the SystemC program ends on a program as the command line does that writes the same trace: with the same statistics and
trace file, or with the same exception and the rows in front of it. -/
theorem systemc_main_agrees (w : World) (fl : Floats) (k : Kernel {}) (hk : k.Clocked) (argv0 argv0' program : String)
    (args : List String) : ∃ e e', main w fl argv0 [program, "--trace", tracePath args] = some e ∧
      SystemC.main w fl k argv0' (program :: args) = some e' ∧ Agree k (tracePath args) e e' := by
  have hmain : SystemC.main w fl k argv0' (program :: args) = simulate {} w fl k program (tracePath args) := rfl
  rw [Main.main_accepts (readOptions_trace _), hmain]
  generalize tracePath args = path
  by_cases hload : ∃ code, Main.Loaded w program (options path) code (Memory.zeros (options path).config.memorySize)
  · obtain ⟨code, hload⟩ := hload
    rw [Main.simulate_loaded hload, simulate_loaded hload]
    exact ending_agrees w fl hk path _ _
  · obtain ⟨e, trace, he, he'⟩ := simulate_unloaded hload
    exact ⟨_, _, he, he', .unloaded e trace⟩

/-- the two programs on a file with one ECALL -/
theorem systemc_main_agrees_ecall : ∃ e e',
    main ecallWorld zeroRates "rv32im_model" ["ecall.hex", "--trace", "results/systemc_trace.csv"] = some e ∧
      SystemC.main ecallWorld zeroRates (.loop {}) "rv32im_systemc" ["ecall.hex"] = some e' ∧ e'.trace = e.trace := by
  obtain ⟨e, e', he, he', hagree⟩ := systemc_main_agrees ecallWorld zeroRates (.loop {}) (clocked_loop {}) "rv32im_model"
    "rv32im_systemc" "ecall.hex" []
  have htrace : e'.trace = e.trace := by
    cases hagree <;> rfl
  exact ⟨e, e', he, he', htrace⟩

end Rv32im
