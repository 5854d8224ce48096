/-
The program around the model (`main` of `main.cpp`): it loads the images, runs the model, prints the statistics and
compares them with an RTL trace.

Files are read from a `World`, after the trace file has been opened. The floating-point numbers of the output are any
digits around a point. What is in memory when an exception is caught is lost, but the output stays written and the trace
file keeps its rows. The memories and the lines of the caches are vectors of the sizes that the options give: above
`max_size()` they throw, and below it the `World` says whether they can be had. Nothing else is short of memory.

- `construct`: the constructor of the model, in its order. `construct_ok`: it succeeds where the configuration is accepted
  and every vector can be had.
- `simulate`: `main` behind the option loop. `report`: its output behind the run.
- `main`: the whole program; `none` where it does not return.
- `simulate_loaded`: behind its loaded images, the program runs the model that `boot` makes from them.
- `simulate_unloaded`: anything else fails before the first instruction.
-/
import Rv32im.Core.Ostream
import Rv32im.Model.HexLoader
import Rv32im.Step.Run
import Rv32im.Tools.CommandLine
import Rv32im.Tools.Report

namespace Rv32im

/-- the vectors of the model whose sizes the configuration gives -/
inductive SizedVector where
  | instructionMemory | dataMemory | icacheLines | dcacheLines
deriving DecidableEq, Repr

/-- a `std::uint8_t`, or a `Line` of two flags and a 64-bit tag -/
def SizedVector.elementBytes : SizedVector → ℕ
  | .instructionMemory | .dataMemory => 1
  | .icacheLines | .dcacheLines => 16

/-- `max_size()` -/
def SizedVector.maxSize (v : SizedVector) : ℕ := (2 ^ 63 - 1) / v.elementBytes

def SizedVector.elements (cfg : CpuConfig) : SizedVector → ℕ
  | .instructionMemory | .dataMemory => cfg.memorySize
  | .icacheLines => cfg.icache.lines
  | .dcacheLines => cfg.dcache.lines

/-- the bytes of the files that can be read, the trace files that can be opened, and whether there is memory for a vector
of so many elements -/
structure World where
  files : String → Option (List Char)
  opens : String → Bool
  available : SizedVector → ℕ → Bool := fun _ _ => true

/-- the floating-point numbers of the output -/
structure Floats where
  rates : PerformanceStats → Rates
  rtlCpi : RtlTraceSummary → FixedText
  cycleError : PerformanceStats → RtlTraceSummary → FixedText

/-- what a program that has ended leaves behind -/
structure Ended where
  code : ℕ := 0
  stdout : List Char := []
  stderr : List Char := []
  /-- the trace file, if it was opened -/
  trace : Option (List Char) := none

inductive MainExn where
  | option (e : OptionExn)
  | lengthError
  | badAlloc
  | traceNotOpened (path : String)
  | load (e : LoadExn)
  | model (e : Exn)
  | summary (e : SummaryExn)
deriving DecidableEq, Repr

def MainExn.what : MainExn → String
  | .option e => e.what
  | .lengthError => "cannot create std::vector larger than max_size()"
  | .badAlloc => "std::bad_alloc"
  | .traceNotOpened path => "Could not open trace file: " ++ path
  | .load e => e.what
  | .model e => e.what
  | .summary e => e.what

namespace Main

/-- `catch (const std::exception& e)`, behind what has been written -/
def failed (e : MainExn) (ended : Ended) : Ended :=
  { ended with code := 1, stderr := ("ERROR: " ++ e.what ++ "\n").toList }

def usage (argv0 : String) : String :=
  "RV32IM functional + analytical pipeline performance model\n\n" ++
  "Usage:\n  " ++ argv0 ++ " <program.hex> [options]\n\n" ++
  "Options:\n" ++
  "  --trace <path>          Model retirement CSV (default: results/model_trace.csv)\n" ++
  "  --dmem-hex <path>       Optional data-memory hex image\n" ++
  "  --rtl-trace <path>      Optional RTL CSV for cycle/CPI summary correlation\n" ++
  "  --start-pc <value>      Reset PC, decimal or 0x-prefixed hex (default: 0)\n" ++
  "  --mem-size <bytes>      Memory size (default: 1048576)\n" ++
  "  --max-insns <count>     Safety limit (default: 10000000)\n" ++
  "  --dump-regs             Print all integer registers at the end\n" ++
  "  --enable-icache         Enable analytical direct-mapped I-cache\n" ++
  "  --enable-dcache         Enable analytical write-back D-cache\n" ++
  "  --enable-caches         Enable both I-cache and D-cache\n" ++
  "  --icache-lines <N>      I-cache lines (power of two; default 64)\n" ++
  "  --dcache-lines <N>      D-cache lines (power of two; default 64)\n" ++
  "  --memory-latency <N>    AXI backing-memory LATENCY (default 3)\n"

def pass (model : PerformanceStats) (rtl : RtlTraceSummary) : Bool :=
  model.retired = rtl.rows && model.cycles = rtl.lastRetireCycle

def verdict (model : PerformanceStats) (rtl : RtlTraceSummary) : String :=
  if pass model rtl then "result                  : PASS (exact aggregate timing correlation)"
  else "result                  : CHECK detailed retirement-cycle comparison"

/-- the lines of `print_rtl_correlation` -/
def rtlCorrelation (fl : Floats) (model : PerformanceStats) (rtl : RtlTraceSummary) : List String :=
  ["", "=== RTL performance correlation ===",
    "model retired           : " ++ toString model.retired,
    "RTL retired             : " ++ toString rtl.rows,
    "first RTL retire cycle  : " ++ toString rtl.firstRetireCycle,
    "model cycles            : " ++ toString model.cycles,
    "RTL cycles              : " ++ toString rtl.lastRetireCycle,
    "model CPI               : " ++ String.ofList (fl.rates model).cpi.chars,
    "RTL CPI                 : " ++ String.ofList (fl.rtlCpi rtl).chars,
    "cycle error             : " ++ String.ofList (fl.cycleError model rtl).chars ++ "%",
    verdict model rtl]

/-- one register of `--dump-regs` -/
def dumpReg (regs : Regs) (out : Ostream) (i : Fin 32) : Ostream :=
  out |>.insert ['x'] |>.setw 2 |>.setfill '0' |>.insertNat i.val |>.insert " = 0x".toList
    |>.hex |>.setw 8 |>.insertNat (regs i).toNat |>.dec |>.setfill ' ' |>.insert ['\n']

def dumpRegs (regs : Regs) : List Char :=
  ((List.finRange 32).foldl (dumpReg regs) { text := "\n=== Registers ===\n".toList }).text

/-- the output behind a run that has halted, and the trace file that it wrote -/
def report (w : World) (fl : Floats) (o : Options) (t : CpuModel o.config) : Ended :=
  let trace := if o.tracePath = "" then none else some (Writer.traceWriter.file t.trace)
  let stdout := (t.stats.print (fl.rates t.stats)).toList
  let registers := if o.dumpRegs then dumpRegs t.regs else []
  let paths := "\nModel trace: ".toList ++ o.tracePath.toList ++ ['\n']
  if o.rtlTracePath = "" then { stdout := stdout ++ registers ++ paths, trace := trace }
  else
    match RtlSummary.readRtlSummary o.rtlTracePath (w.files o.rtlTracePath) with
    | .error e => failed (.summary e) { stdout := stdout, trace := trace }
    | .ok rtl =>
      let correlation := Text.unlines ((rtlCorrelation fl t.stats rtl).map String.toList)
      { stdout := stdout ++ correlation ++ registers ++ paths ++ "RTL trace  : ".toList ++ o.rtlTracePath.toList ++ ['\n']
        trace := trace }

/-- one of the vectors is filled -/
def allocate (w : World) (cfg : CpuConfig) (v : SizedVector) : Except MainExn Unit :=
  if v.maxSize < v.elements cfg then .error .lengthError
  else if w.available v (v.elements cfg) = false then .error .badAlloc
  else .ok ()

/-- the constructor of the model, member by member -/
def construct (w : World) (cfg : CpuConfig) : Except MainExn (CpuModel cfg) := do
  allocate w cfg .instructionMemory
  allocate w cfg .dataMemory
  let icache ← (DirectMappedCacheModel.configure cfg.icache).mapError .model
  allocate w cfg .icacheLines
  let dcache ← (DirectMappedCacheModel.configure cfg.dcache).mapError .model
  allocate w cfg .dcacheLines
  return { instructionMemory := Memory.zeros cfg.memorySize, dataMemory := Memory.zeros cfg.memorySize
           pc := cfg.resetPc, icache := icache, dcache := dcache }

/-- `load_data`, unless there is no image -/
def loadData (w : World) (o : Options) : Exec LoadExn Memory Unit :=
  if o.dmemHexPath = "" then pure () else HexLoader.loadHexWords o.dmemHexPath (w.files o.dmemHexPath) 0

/-- what is left where an exception comes behind the opening of the trace -/
def written (o : Options) (rows : List RetireEvent) : Ended :=
  { trace := if o.tracePath = "" then none else some (Writer.traceWriter.file rows) }

/-- `cpu.run()` and what follows it -/
def ending (w : World) (fl : Floats) (o : Options) : Outcome Exn (CpuModel o.config) Unit → Option Ended
  | .diverge => none
  | .throw e t => some (failed (.model e) (written o t.trace))
  | .ok _ t => some (report w fl o t)

/-- `main` behind the option loop -/
def simulate (w : World) (fl : Floats) (program : String) (o : Options) : Option Ended :=
  match construct w o.config with
  | .error e => some (failed e {})
  | .ok cpu =>
    if o.tracePath ≠ "" ∧ w.opens o.tracePath = false then some (failed (.traceNotOpened o.tracePath) {})
    else
      match HexLoader.loadHexWords program (w.files program) 0 cpu.instructionMemory with
      | .diverge => none
      | .throw e _ => some (failed (.load e) (written o []))
      | .ok _ code =>
        match loadData w o cpu.dataMemory with
        | .diverge => none
        | .throw e _ => some (failed (.load e) (written o []))
        | .ok _ data =>
          let cpu := { cpu with instructionMemory := code, dataMemory := data }
          ending w fl o (cpu.reset o.config.resetPc).run

end Main

/-- `main`, with the arguments behind `argv[0]` -/
def main (w : World) (fl : Floats) (argv0 : String) : List String → Option Ended
  | [] => some { code := 2, stdout := (Main.usage argv0).toList }
  | program :: args =>
    match CommandLine.readOptions {} args with
    | .error e => some (Main.failed (.option e) {})
    | .ok none => some { stdout := (Main.usage argv0).toList }
    | .ok (some o) => Main.simulate w fl program o

namespace Main

/-! ## The images -/

/-- the bytes of a memory -/
def bytesOf (m : Memory) (i : ℕ) : BitVec 8 := m.bytes.getD i 0

theorem ofImage_bytesOf (m : Memory) : Memory.ofImage m.size (bytesOf m) = m := by
  obtain ⟨bytes⟩ := m
  unfold Memory.ofImage bytesOf Memory.size
  congr 1
  apply Array.ext
  · simp
  · intro i h1 h2
    simp [h2]

theorem zeros_size (n : ℕ) : (Memory.zeros n).size = n := Array.size_replicate

theorem applyItems_size {base : BitVec 32} {items : List HexLoader.Item} {p q : BitVec 32 × Memory}
    (h : items.foldlM (HexLoader.applyItem base) p = .ok q) : q.2.size = p.2.size := by
  induction items generalizing p with
  | nil =>
    cases h
    rfl
  | cons item items ih =>
    rw [List.foldlM_cons] at h
    obtain ⟨r, hitem, hrest⟩ := Exec.except_bind_ok.1 h
    rw [ih hrest]
    cases item with
    | directive k =>
      cases hitem
      rfl
    | word n =>
      obtain ⟨m, hwrite, rfl⟩ := HexLoader.applyItem_word.1 hitem
      exact Memory.write32_size hwrite

/-- loading keeps the size of a memory -/
theorem loadHexWords_size {path : String} {file : Option (List Char)} {base : BitVec 32} {m m' : Memory}
    (h : HexLoader.loadHexWords path file base m = .ok () m') : m'.size = m.size := by
  cases file with
  | none => cases h
  | some text =>
    obtain ⟨-, addr, hfold⟩ := HexLoader.loadHexWords_ok.1 h
    exact applyItems_size hfold

theorem loadData_size {w : World} {o : Options} {m m' : Memory} (h : loadData w o m = .ok () m') : m'.size = m.size := by
  unfold loadData at h
  split_ifs at h
  · cases h
    rfl
  · exact loadHexWords_size h

/-- no file makes the loader hang -/
theorem loadHexWords_ends (path : String) (file : Option (List Char)) (base : BitVec 32) (m : Memory) :
    HexLoader.loadHexWords path file base m ≠ .diverge := by
  cases file with
  | none =>
    intro h
    cases h
  | some text =>
    rcases HexLoader.loadHexWords_returns path base text m with ⟨m', h⟩ | ⟨e, m', h⟩
    all_goals
      rw [h]
      intro hhang
      cases hhang

theorem loadData_ends (w : World) (o : Options) (m : Memory) : loadData w o m ≠ .diverge := by
  unfold loadData
  split_ifs
  · intro h
    cases h
  · exact loadHexWords_ends _ _ _ _

/-! ## The constructor -/

/-- every vector of the model can be had -/
def Allocated (w : World) (cfg : CpuConfig) : Prop :=
  ∀ v : SizedVector, v.elements cfg ≤ v.maxSize ∧ w.available v (v.elements cfg) = true

theorem allocate_ok {w : World} {cfg : CpuConfig} {v : SizedVector} {u : Unit} :
    allocate w cfg v = .ok u ↔ v.elements cfg ≤ v.maxSize ∧ w.available v (v.elements cfg) = true := by
  unfold allocate
  split_ifs with hlength hroom
  · exact iff_of_false (fun h => by cases h) fun h => absurd h.1 (not_le.2 hlength)
  · exact iff_of_false (fun h => by cases h) fun h => by rw [h.2] at hroom; cases hroom
  · exact iff_of_true rfl ⟨not_lt.1 hlength, Bool.of_not_eq_false hroom⟩

/-- **The constructor succeeds** on an accepted configuration whose vectors can be had. -/
theorem construct_ok {w : World} {cfg : CpuConfig} {cpu : CpuModel cfg} :
    construct w cfg = .ok cpu ↔ Allocated w cfg ∧ CpuModel.construct cfg = .ok cpu := by
  have hconfigure : ∀ {config : CacheConfig} {c : DirectMappedCacheModel config},
      (DirectMappedCacheModel.configure config).mapError MainExn.model = .ok c ↔
        DirectMappedCacheModel.configure config = .ok c := by
    intro config c
    cases DirectMappedCacheModel.configure config <;> simp [Except.mapError]
  unfold construct CpuModel.construct
  simp only [Exec.except_bind_ok, allocate_ok, hconfigure, pure, Except.pure, Except.ok.injEq]
  refine ⟨?_, ?_⟩
  · rintro ⟨_, hcode, _, hdata, icache, hi, _, hil, dcache, hd, _, hdl, hcpu⟩
    refine ⟨?_, icache, hi, dcache, hd, hcpu⟩
    intro v
    cases v with
    | instructionMemory => exact hcode
    | dataMemory => exact hdata
    | icacheLines => exact hil
    | dcacheLines => exact hdl
  · rintro ⟨hall, icache, hi, dcache, hd, hcpu⟩
    exact ⟨(), hall _, (), hall _, icache, hi, (), hall _, dcache, hd, (), hall _, hcpu⟩

/-- where both caches are accepted, it fails for the sizes alone -/
theorem construct_error {w : World} {cfg cfg' : CpuConfig} (h : cfg.Accepted) (h' : cfg'.Accepted)
    (hsame : ∀ v : SizedVector, v.elements cfg = v.elements cfg') {x : MainExn} :
    construct w cfg = .error x ↔ construct w cfg' = .error x := by
  have hallocate : ∀ v, allocate w cfg v = allocate w cfg' v := by
    intro v
    unfold allocate
    rw [hsame v]
  unfold construct
  simp only [DirectMappedCacheModel.configure_of_accepted h.icache, DirectMappedCacheModel.configure_of_accepted h.dcache,
    DirectMappedCacheModel.configure_of_accepted h'.icache, DirectMappedCacheModel.configure_of_accepted h'.dcache,
    Except.mapError, hallocate, bind, Except.bind, pure, Except.pure]
  cases allocate w cfg' .instructionMemory with
  | error e => simp only [Except.error.injEq]
  | ok _ =>
    cases allocate w cfg' .dataMemory with
    | error e => simp only [Except.error.injEq]
    | ok _ =>
      cases allocate w cfg' .icacheLines with
      | error e => simp only [Except.error.injEq]
      | ok _ => cases allocate w cfg' .dcacheLines <;> simp only [Except.error.injEq, reduceCtorEq]

/-! ## Behind the loaded images -/

/-- the configuration is accepted and has its memory, the trace file is opened, and both images are loaded over zeros -/
structure Loaded (w : World) (program : String) (o : Options) (code data : Memory) : Prop where
  accepted : o.config.Accepted
  allocated : Allocated w o.config
  opened : o.tracePath = "" ∨ w.opens o.tracePath = true
  code : HexLoader.loadHexWords program (w.files program) 0 (Memory.zeros o.config.memorySize) = .ok () code
  data : loadData w o (Memory.zeros o.config.memorySize) = .ok () data

section

variable {w : World} {fl : Floats} {program : String} {o : Options} {code data : Memory}

/-- accepted options reach the model -/
theorem main_accepts {argv0 : String} {args : List String}
    (h : CommandLine.readOptions {} args = .ok (some o)) :
    main w fl argv0 (program :: args) = simulate w fl program o := by
  unfold main
  simp only [h]

theorem Loaded.images (h : Loaded w program o code data) :
    Memory.ofImage o.config.memorySize (bytesOf code) = code ∧
      Memory.ofImage o.config.memorySize (bytesOf data) = data := by
  have hcode := (loadHexWords_size h.code).trans (zeros_size _)
  have hdata := (loadData_size h.data).trans (zeros_size _)
  refine ⟨?_, ?_⟩
  · rw [← hcode]
    exact ofImage_bytesOf code
  · rw [← hdata]
    exact ofImage_bytesOf data

theorem construct_of_accepted {cfg : CpuConfig} (h : cfg.Accepted) (hallocated : Allocated w cfg) :
    construct w cfg = .ok
      { instructionMemory := Memory.zeros cfg.memorySize, dataMemory := Memory.zeros cfg.memorySize
        pc := cfg.resetPc, icache := .fresh h.icache, dcache := .fresh h.dcache } := by
  refine construct_ok.2 ⟨hallocated, ?_⟩
  simp only [CpuModel.construct, DirectMappedCacheModel.configure_of_accepted h.icache,
    DirectMappedCacheModel.configure_of_accepted h.dcache]
  rfl

/-- **Behind its loaded images, the program runs the booted model.** -/
theorem simulate_loaded (h : Loaded w program o code data) : simulate w fl program o =
    ending w fl o (boot o.config h.accepted (bytesOf code) (bytesOf data) o.config.resetPc).run := by
  have hopened : ¬ (o.tracePath ≠ "" ∧ w.opens o.tracePath = false) := by
    rintro ⟨hpath, hclosed⟩
    rcases h.opened with hempty | hopen
    · exact hpath hempty
    · rw [hopen] at hclosed
      cases hclosed
  unfold simulate
  simp only [construct_of_accepted h.accepted h.allocated, if_neg hopened, h.code, h.data]
  unfold boot CpuModel.withImages
  rw [h.images.1, h.images.2]

/-- **Anything else fails** before the first instruction. -/
theorem simulate_unloaded (fl : Floats) (h : ¬ ∃ code data, Loaded w program o code data) :
    ∃ e rows, simulate w fl program o = some (failed e rows) := by
  unfold simulate
  cases hcpu : construct w o.config with
  | error e => exact ⟨_, _, rfl⟩
  | ok cpu =>
    have haccepted : o.config.Accepted := ⟨cpu.icache.accepted, cpu.dcache.accepted⟩
    have hallocated : Allocated w o.config := (construct_ok.1 hcpu).1
    rw [construct_of_accepted haccepted hallocated] at hcpu
    obtain rfl := Except.ok.inj hcpu
    by_cases hopened : o.tracePath ≠ "" ∧ w.opens o.tracePath = false
    · simp only [if_pos hopened]
      exact ⟨_, _, rfl⟩
    · simp only [if_neg hopened]
      cases hcode : HexLoader.loadHexWords program (w.files program) 0 (Memory.zeros o.config.memorySize) with
      | diverge => exact absurd hcode (loadHexWords_ends _ _ _ _)
      | throw e m => exact ⟨_, _, rfl⟩
      | ok u code =>
        cases hdata : loadData w o (Memory.zeros o.config.memorySize) with
        | diverge => exact absurd hdata (loadData_ends _ _ _)
        | throw e m => exact ⟨_, _, rfl⟩
        | ok u data =>
          refine absurd ⟨code, data, haccepted, hallocated, ?_, hcode, hdata⟩ h
          by_cases hpath : o.tracePath = ""
          · exact Or.inl hpath
          · exact Or.inr (Bool.of_not_eq_false fun hclosed => hopened ⟨hpath, hclosed⟩)

end

end Main

end Rv32im
