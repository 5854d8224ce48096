/-
The sweeps, end to end (`scripts/run_sensitivity_sweep.py`, `scripts/run_milestone6a.py`).

- `Sweep.Ends`: a run from reset to its end. `Ends.misses`, `Ends.writebacks`: the misses of a cache follow from its own
  lines alone. `Ends.cycles`: the cycles follow from the misses, up to the overlap.
- `simulate_ok`: one row.
- `sweep_laws`: a sweep has all of its rows or none, and the rows obey one law.
-/
import Rv32im.Results.HexImage
import Rv32im.Results.Isolation
import Rv32im.Results.Latency
import Rv32im.Results.Program
import Rv32im.Tools.DesignSpace

namespace Rv32im

open CpuModel Main

namespace Sweep

/-! ## Ended runs -/

/-- a run from reset to its end -/
structure Ends {cfg : CpuConfig} (h : cfg.Accepted) (program data : ℕ → BitVec 8) (pc : BitVec 32) (t : CpuModel cfg) :
    Prop where
  reached : ∃ n, Exec.iter step n (boot cfg h program data pc) = some t
  halted : t.halted = true

section

variable {cfg cfg' : CpuConfig} {h : cfg.Accepted} {h' : cfg'.Accepted} {program data : ℕ → BitVec 8} {pc : BitVec 32}
  {t : CpuModel cfg} {t' : CpuModel cfg'}

theorem ends_of_run (ht : (boot cfg h program data pc).run = .ok () t) : Ends h program data pc t := by
  obtain ⟨n, hpath, hhalt⟩ := run_ok.1 ht
  exact ⟨⟨n, hpath.iter⟩, hhalt⟩

/-- other caches end the same program -/
theorem Ends.other (ht : Ends h program data pc t) (h' : cfg'.Accepted) (hm : cfg.memorySize = cfg'.memorySize)
    (hmax : cfg.maxInstructions = cfg'.maxInstructions) (hmem : cfg.memorySize + 16 ≤ 2 ^ 32) :
    ∃ t' : CpuModel cfg', Ends h' program data pc t' := by
  obtain ⟨n, hn⟩ := ht.reached
  obtain ⟨t', hn', hhalt⟩ := (halts_iff h h' hm hmax hmem program data pc n).1 ⟨t, hn, ht.halted⟩
  exact ⟨t', ⟨n, hn'⟩, hhalt⟩

/-- two ended runs have taken the same number of steps -/
theorem Ends.together (ht : Ends h program data pc t) (ht' : Ends h' program data pc t')
    (hm : cfg.memorySize = cfg'.memorySize) : ∃ n, Exec.iter step n (boot cfg h program data pc) = some t ∧
      Exec.iter step n (boot cfg' h' program data pc) = some t' := by
  obtain ⟨n, hn⟩ := ht.reached
  obtain ⟨n', hn'⟩ := ht'.reached
  exact halted_together (arch_boot h h' hm program data pc) hn hn' ht.halted ht'.halted

end

section Laws

variable {i d i' d' : ℕ} {L L' : BitVec 32} {program data : ℕ → BitVec 8} {pc : BitVec 32}

theorem config_fits (i d : ℕ) (L : BitVec 32) : (config i d L).memorySize + 16 ≤ 2 ^ 32 :=
  (by decide : 1024 * 1024 + 16 ≤ 2 ^ 32)

theorem config_accepted (hi : isPowerOfTwo i = true) (hd : isPowerOfTwo d = true) (L : BitVec 32) :
    (config i d L).Accepted :=
  ⟨⟨hi, rfl⟩, ⟨hd, rfl⟩⟩

/-- the latency changes no misses -/
theorem Ends.latency {h : (config i d L).Accepted} {h' : (config i d L').Accepted} {t : CpuModel (config i d L)}
    {t' : CpuModel (config i d L')} (ht : Ends h program data pc t) (ht' : Ends h' program data pc t')
    (hL : 6 * L.toNat + 23 < 2 ^ 32) (hL' : 6 * L'.toNat + 23 < 2 ^ 32) :
    t.icache.stats.misses = t'.icache.stats.misses ∧ t.dcache.stats.misses = t'.dcache.stats.misses ∧
      t.dcache.stats.writebacks = t'.dcache.stats.writebacks := by
  obtain ⟨n, hn, hn'⟩ := ht.together ht' rfl
  have hsame := @sameMisses_run (config i d L) L L' t t' h (config_fits i d L) hL hL' program data pc n hn hn'
  exact ⟨hsame.imisses, hsame.dmisses, hsame.writebacks⟩

/-- **The I-cache misses follow from the lines of the I-cache.** -/
theorem Ends.imisses {h : (config i d L).Accepted} {h' : (config i d' L').Accepted} {t : CpuModel (config i d L)}
    {t' : CpuModel (config i d' L')} (ht : Ends h program data pc t) (ht' : Ends h' program data pc t')
    (hL : 6 * L.toNat + 23 < 2 ^ 32) (hL' : 6 * L'.toNat + 23 < 2 ^ 32) :
    t.icache.stats.misses = t'.icache.stats.misses := by
  have hmid : (config i d' L).Accepted := ⟨h.icache, ⟨h'.dcache.lines, rfl⟩⟩
  obtain ⟨u, hu⟩ := ht.other hmid rfl rfl (config_fits i d L)
  obtain ⟨n, hn, hnu⟩ := ht.together hu rfl
  calc t.icache.stats.misses = u.icache.stats.misses :=
        (icache_isolated (config_fits i d L) h hmid rfl rfl hn hnu ht.halted hu.halted).1
    _ = t'.icache.stats.misses := (hu.latency ht' hL hL').1

/-- **The D-cache misses and write-backs follow from the lines of the D-cache.** -/
theorem Ends.dmisses {h : (config i d L).Accepted} {h' : (config i' d L').Accepted} {t : CpuModel (config i d L)}
    {t' : CpuModel (config i' d L')} (ht : Ends h program data pc t) (ht' : Ends h' program data pc t')
    (hL : 6 * L.toNat + 23 < 2 ^ 32) (hL' : 6 * L'.toNat + 23 < 2 ^ 32) :
    t.dcache.stats.misses = t'.dcache.stats.misses ∧ t.dcache.stats.writebacks = t'.dcache.stats.writebacks := by
  have hmid : (config i' d L).Accepted := ⟨⟨h'.icache.lines, rfl⟩, h.dcache⟩
  obtain ⟨u, hu⟩ := ht.other hmid rfl rfl (config_fits i d L)
  obtain ⟨n, hn, hnu⟩ := ht.together hu rfl
  have hdata := dcache_isolated h hmid rfl rfl hn hnu
  have hlatency := hu.latency ht' hL hL'
  exact ⟨hdata.misses.trans hlatency.2.1, hdata.writebacks.trans hlatency.2.2⟩

theorem Ends.reported {h : (config i d L).Accepted} {t : CpuModel (config i d L)} (ht : Ends h program data pc t) :
    t.Reported := by
  obtain ⟨n, hn⟩ := ht.reached
  exact (books_run (config_fits i d L) h hn).1.reported

/-- what the caches add to the cycles of the pipeline -/
def refills (st : PerformanceStats) (latency : ℕ) : ℕ :=
  st.icacheMisses * (latency + 4) + (st.dcacheMisses * (latency + 4) + st.dcacheWritebacks * (latency + 3))

theorem Ends.refilled {h : (config i d L).Accepted} {t : CpuModel (config i d L)} (ht : Ends h program data pc t)
    (hL : 6 * L.toNat + 23 < 2 ^ 32) :
    refills t.stats L.toNat = t.icache.stats.stallCycles + t.dcache.stats.stallCycles := by
  obtain ⟨n, hn⟩ := ht.reached
  obtain ⟨hi, hd⟩ := @Books.stalls (config i d L) _ _ (books_run (config_fits i d L) h hn).2 hL
  have hrep := ht.reported
  unfold refills
  rw [hi, hd, hrep.imisses, hrep.dmisses, hrep.writebacks]

/-- **The cycles and the overlap follow from the misses**, up to what all caches have in common. -/
theorem Ends.cycles {h : (config i d L).Accepted} {h' : (config i' d' L').Accepted} {t : CpuModel (config i d L)}
    {t' : CpuModel (config i' d' L')} (ht : Ends h program data pc t) (ht' : Ends h' program data pc t')
    (hL : 6 * L.toNat + 23 < 2 ^ 32) (hL' : 6 * L'.toNat + 23 < 2 ^ 32) :
    t.stats.cycles + t.stats.stallCacheOverlap + refills t'.stats L'.toNat =
      t'.stats.cycles + t'.stats.stallCacheOverlap + refills t.stats L.toNat := by
  obtain ⟨n, hn, hn'⟩ := ht.together ht' rfl
  rw [ht.refilled hL, ht'.refilled hL', ht.reported.overlap, ht'.reported.overlap]
  exact cycles_apart (config_fits i d L) (config_fits i' d' L') (CpuConfig.small_withLatency (config i d L) hL)
    (CpuConfig.small_withLatency (config i' d' L') hL') h h' (run_arch h h' rfl hn hn') hn hn'

/-- the cycles that no cache adds -/
theorem Ends.pipeline {h : (config i d L).Accepted} {t : CpuModel (config i d L)} (ht : Ends h program data pc t)
    (hL : 6 * L.toNat + 23 < 2 ^ 32) :
    ∃ pipeline, t.stats.cycles + t.stats.stallCacheOverlap = pipeline + refills t.stats L.toNat := by
  obtain ⟨n, hn⟩ := ht.reached
  have hcycles := cycles_run (config_fits i d L) (CpuConfig.small_withLatency (config i d L) hL) h hn
  rw [ht.refilled hL, ht.reported.overlap, hcycles, Nat.add_assoc]
  exact ⟨_, rfl⟩

end Laws

/-! ## The rows -/

/-- caches that are accepted, numbers that can be spelt, and a latency of which no sum of stalls wraps -/
structure Point.Valid (q : Point) : Prop where
  icache : isPowerOfTwo q.icacheLines = true ∧ q.icacheLines < 2 ^ 64
  dcache : isPowerOfTwo q.dcacheLines = true ∧ q.dcacheLines < 2 ^ 64
  latency : 6 * q.memoryLatency + 23 < 2 ^ 32

/-- a counter that the table of a script names under a printed label -/
def Printed (script : Script) (name : String) : Prop := ∃ p ∈ script.keys, p.2 = name ∧
  p.1 ≠ "I$ pipeline-hold replays" ∧ p.1 ≠ "D$ IF-stall replays"

/-- both images are loaded, and the default trace file is opened -/
structure Images (w : World) (imem dmem : String) (code data : Memory) : Prop where
  opened : w.opens "results/model_trace.csv" = true
  code : HexLoader.loadHexWords imem (w.files imem) 0 (Memory.zeros (1024 * 1024)) = .ok () code
  data : loadData w { dmemHexPath := dmem } (Memory.zeros (1024 * 1024)) = .ok () data

def program (code : Memory) : Isa.Machine := ⟨code.image, 1024 * 1024⟩

def start (data : Memory) : Isa.State := ⟨fun _ => 0, 0, data.image⟩

section Rows

variable {w : World} {fl : Floats} {exe imem dmem : String} {script : Script} {rated : List String} {q : Point}
  {code data : Memory}

theorem loaded_iff (h : (options dmem q).config.Accepted) :
    Loaded w imem (options dmem q) code data ↔
      Allocated w (options dmem q).config ∧ Images w imem dmem code data := by
  refine ⟨?_, ?_⟩
  · intro hload
    have hopened := hload.opened.resolve_left (by decide : ¬ "results/model_trace.csv" = "")
    exact ⟨hload.allocated, hopened, hload.code, hload.data⟩
  · intro ⟨hallocated, himages⟩
    exact ⟨h, hallocated, Or.inr himages.opened, himages.code, himages.data⟩

theorem readOptions_command (hq : q.Valid) :
    CommandLine.readOptions {} (command imem dmem q).tail = .ok (some (options dmem q)) := by
  have hlatency : q.memoryLatency < 2 ^ 64 := by
    have hsmall := hq.latency
    omega
  refine CommandLine.readOptions_ok.2 ⟨[.dmemHex dmem, .enableCaches, .icacheLines q.icacheLines,
    .dcacheLines q.dcacheLines, .memoryLatency q.memoryLatency, .maxInsns 1000000], ?_, rfl⟩
  exact .cons (.dmemHex _) (.cons .enableCaches (.cons (.icacheLines (CommandLine.reads_decimal hq.icache.2))
    (.cons (.dcacheLines (CommandLine.reads_decimal hq.dcache.2))
      (.cons (.memoryLatency (CommandLine.reads_decimal hlatency)) (.cons (.maxInsns (by decide +kernel)) .nil)))))

theorem main_command (hq : q.Valid) :
    Rv32im.main w fl exe (command imem dmem q) = Main.simulate w fl imem (options dmem q) :=
  main_accepts (@readOptions_command imem dmem q hq)

theorem plain_options (dmem : String) (q : Point) : Plain (options dmem q) := by
  have hall : ("results/model_trace.csv".toList.all fun c => !Text.isLineEnd c) = true := by decide +kernel
  refine ⟨fun c hc => ?_, fun c hc => absurd hc List.not_mem_nil⟩
  simpa using List.all_eq_true.1 hall c hc

/-- the counters of a script, as it reads them behind a run -/
theorem parse_counter {name : String} (h : Printed script name) (st : PerformanceStats) (r : Rates) :
    script.parse (st.print r) name = some (st.named name : ℤ) := by
  obtain ⟨⟨label, name⟩, hp, rfl, hhold, hifstall⟩ := h
  exact print_read script st r hp hhold hifstall

/-- the row behind a run -/
def rowOf (fl : Floats) (script : Script) (q : Point) {o : Options} (t : CpuModel o.config) : Row :=
  { q with stats := script.parse (t.stats.print (fl.rates t.stats)) }

theorem row_report (hrated : ∀ name ∈ "cycles" :: "retired" :: rated, Printed script name)
    {t : CpuModel (options dmem q).config} (hretired : t.stats.retired ≠ 0) {trace : Option (List Char)} :
    row script rated q (String.ofList (report w fl (options dmem q) t).stdout, trace) = .ok (rowOf fl script q t) := by
  have hzero : (report w fl (options dmem q) t).code = 0 := (report_code w fl _ t).2.2 (Or.inl rfl)
  have hoff : ¬ (script = .milestone4 ∧ (options dmem q).dumpRegs = true) := fun h => Bool.false_ne_true h.2
  have hparse : script.parse (String.ofList (report w fl (options dmem q) t).stdout) =
      script.parse (t.stats.print (fl.rates t.stats)) := by
    rw [parse_report (plain_options dmem q) hzero script]
    exact if_neg hoff
  have hitem : ∀ name ∈ "cycles" :: "retired" :: rated,
      (Script.item (script.parse (t.stats.print (fl.rates t.stats))) name).mapError SweepExn.script =
        .ok (t.stats.named name : ℤ) := by
    intro name hname
    rw [Script.item_ok (parse_counter (hrated name hname) t.stats _)]
    rfl
  obtain ⟨l, hl⟩ := Script.mapM_isOk fun name hname =>
    ⟨_, hitem name (List.mem_cons_of_mem _ (List.mem_cons_of_mem _ hname))⟩
  have hne : ((t.stats.named "retired" : ℕ) : ℤ) ≠ 0 := Int.ofNat_ne_zero.2 hretired
  unfold row
  simp only [hparse, hitem "cycles" List.mem_cons_self, hitem "retired" (List.mem_cons_of_mem _ List.mem_cons_self),
    bind, Except.bind, if_neg hne]
  have hl' : rated.mapM (fun key => (Script.item (script.parse (t.stats.print (fl.rates t.stats))) key).mapError
    SweepExn.script) = .ok l := hl
  rw [hl']
  rfl

theorem retired_pos {n : ℕ} {M : Isa.Machine} {s v : Isa.State} {log : List (Isa.State × Isa.Instr)}
    (h : M.run n s = some (log, v)) : log.length ≠ 0 := by
  cases n with
  | zero => cases h
  | succ n =>
    obtain ⟨i, t, -, ⟨-, rfl, -⟩ | ⟨-, rest, -, rfl⟩⟩ := Isa.Machine.run_succ.1 h
    all_goals exact Nat.succ_ne_zero _

variable (hrated : ∀ name ∈ "cycles" :: "retired" :: rated, Printed script name)

include hrated in
/-- **One row**: a run to the end, as the script reads it. -/
theorem simulate_ok (hq : q.Valid) {r : Row} : simulate w fl exe imem dmem script rated q = some (.ok r) ↔
    ∃ code data log t, Completed w imem (options dmem q) code data log t ∧ r = rowOf fl script q t := by
  have hzero : ∀ t, (report w fl (options dmem q) t).code = 0 := fun t => (report_code w fl _ t).2.2 (Or.inl rfl)
  have hrow : ∀ code data log t, Completed w imem (options dmem q) code data log t →
      row script rated q (String.ofList ((report w fl (options dmem q) t).stdout ++
        (report w fl (options dmem q) t).stderr), (report w fl (options dmem q) t).trace) = .ok (rowOf fl script q t) := by
    intro code data log t hdone
    rw [report_stderr (hzero t), List.append_nil]
    exact row_report hrated (hdone.retired.trans_ne (retired_pos hdone.isa))
  unfold simulate
  rw [Option.map_eq_some_iff]
  refine ⟨?_, ?_⟩
  · rintro ⟨x, hx, hok⟩
    cases x with
    | error e => cases hok
    | ok out =>
      obtain ⟨e, he, hcode, rfl⟩ := Script.run_ok.1 hx
      rw [main_command hq] at he
      obtain ⟨code, data, log, t, hdone, rfl⟩ := simulate_completed (config_fits _ _ _) he hcode
      refine ⟨code, data, log, t, hdone, Except.ok.inj (Eq.trans ?_ (hrow code data log t hdone))⟩
      exact hok.symm
  · rintro ⟨code, data, log, t, hdone, rfl⟩
    have hsim : Main.simulate w fl imem (options dmem q) = some (report w fl (options dmem q) t) := by
      rw [simulate_loaded hdone.loaded, hdone.run]
      rfl
    exact ⟨_, Script.run_ok.2 ⟨_, (main_command hq).trans hsim, hzero t, rfl⟩, hrow code data log t hdone⟩

include hrated in
/-- a row has its run exactly if the program ends -/
theorem simulate_isOk (fl : Floats) (exe : String) (hq : q.Valid) (hallocated : Allocated w (options dmem q).config)
    (himages : Images w imem dmem code data) (hsome : ((program code).run 1000000 (start data)).isSome = true) :
    ∃ r, simulate w fl exe imem dmem script rated q = some (.ok r) := by
  have haccepted := config_accepted hq.icache.1 hq.dcache.1 (BitVec.ofNat 32 q.memoryLatency)
  obtain ⟨log, t, hdone, -⟩ := simulate_follows fl (config_fits _ _ _) ((loaded_iff haccepted).2 ⟨hallocated, himages⟩)
    hsome
  exact ⟨_, (simulate_ok hrated hq).2 ⟨code, data, log, t, hdone, rfl⟩⟩

end Rows

/-! ## Sweeps -/

/-- the law of a sweep over one program, with the counters `st` behind the rows -/
structure Obeys (script : Script) (retired pipeline : ℕ) (st : Row → PerformanceStats) (rows : List Row) : Prop where
  reads : ∀ r ∈ rows, ∀ name, Printed script name → r.stats name = some ((st r).named name : ℤ)
  retired : ∀ r ∈ rows, (st r).retired = retired
  imisses : ∀ r ∈ rows, ∀ r' ∈ rows, r.icacheLines = r'.icacheLines → (st r).icacheMisses = (st r').icacheMisses
  dmisses : ∀ r ∈ rows, ∀ r' ∈ rows, r.dcacheLines = r'.dcacheLines →
    (st r).dcacheMisses = (st r').dcacheMisses ∧ (st r).dcacheWritebacks = (st r').dcacheWritebacks
  cycles : ∀ r ∈ rows, (st r).cycles + (st r).stallCacheOverlap = pipeline + refills (st r) r.memoryLatency

section Sweeps

variable {w : World} {fl : Floats} {exe imem dmem : String} {script : Script} {rated : List String}
  {points : List Point} {rows : List Row} {code data : Memory}

/-- a run behind the counters that are kept for a point -/
structure Behind (script : Script) (code data : Memory) (retired : ℕ) (q : Point) (stats : Dict)
    (st : PerformanceStats) : Prop where
  valid : q.Valid
  ends : ∃ (h : (config q.icacheLines q.dcacheLines (BitVec.ofNat 32 q.memoryLatency)).Accepted)
    (t : CpuModel (config q.icacheLines q.dcacheLines (BitVec.ofNat 32 q.memoryLatency))),
    Ends h (bytesOf code) (bytesOf data) 0 t ∧ t.stats = st
  reads : ∀ name, Printed script name → stats name = some (st.named name : ℤ)
  retired : st.retired = retired

theorem Point.Valid.toNat {q : Point} (h : q.Valid) : (BitVec.ofNat 32 q.memoryLatency).toNat = q.memoryLatency := by
  have hlatency := h.latency
  rw [BitVec.toNat_ofNat]
  exact Nat.mod_eq_of_lt (by omega)

/-- **The law** of rows that have their runs over one pair of images -/
theorem obeys_of_behind {retired : ℕ} {st : Row → PerformanceStats} (hne : rows ≠ [])
    (h : ∀ r ∈ rows, Behind script code data retired r.toPoint r.stats (st r)) :
    ∃ pipeline, Obeys script retired pipeline st rows := by
  have hlatency : ∀ r ∈ rows, (BitVec.ofNat 32 r.memoryLatency).toNat = r.memoryLatency ∧
      6 * (BitVec.ofNat 32 r.memoryLatency).toNat + 23 < 2 ^ 32 := by
    intro r hr
    rw [(h r hr).valid.toNat]
    exact ⟨rfl, (h r hr).valid.latency⟩
  obtain ⟨r₀, hr₀⟩ := List.exists_mem_of_ne_nil rows hne
  obtain ⟨h₀, t₀, ht₀, hst₀⟩ := (h r₀ hr₀).ends
  obtain ⟨pipeline, hpipeline⟩ := ht₀.pipeline (hlatency r₀ hr₀).2
  refine ⟨pipeline, fun r hr => (h r hr).reads, fun r hr => (h r hr).retired, ?_, ?_, ?_⟩
  · intro r hr r' hr' hlines
    obtain ⟨ha, t, ht, hst⟩ := (h r hr).ends
    obtain ⟨ha', t', ht', hst'⟩ := (h r' hr').ends
    rw [← hst, ← hst', ht.reported.imisses, ht'.reported.imisses]
    obtain ⟨⟨name, family, i, d, L⟩, stats⟩ := r
    obtain ⟨⟨name', family', i', d', L'⟩, stats'⟩ := r'
    obtain rfl : i = i' := hlines
    exact ht.imisses ht' (hlatency _ hr).2 (hlatency _ hr').2
  · intro r hr r' hr' hlines
    obtain ⟨ha, t, ht, hst⟩ := (h r hr).ends
    obtain ⟨ha', t', ht', hst'⟩ := (h r' hr').ends
    rw [← hst, ← hst', ht.reported.dmisses, ht'.reported.dmisses, ht.reported.writebacks, ht'.reported.writebacks]
    obtain ⟨⟨name, family, i, d, L⟩, stats⟩ := r
    obtain ⟨⟨name', family', i', d', L'⟩, stats'⟩ := r'
    obtain rfl : d = d' := hlines
    exact ht.dmisses ht' (hlatency _ hr).2 (hlatency _ hr').2
  · intro r hr
    obtain ⟨ha, t, ht, hst⟩ := (h r hr).ends
    have hcycles := ht.cycles ht₀ (hlatency r hr).2 (hlatency r₀ hr₀).2
    rw [(hlatency r hr).1, hst] at hcycles
    omega

theorem Images.unique {code' data' : Memory} (h : Images w imem dmem code data) (h' : Images w imem dmem code' data') :
    code = code' ∧ data = data' := by
  have hcode := h.code
  have hdata := h.data
  rw [h'.code] at hcode
  rw [h'.data] at hdata
  exact ⟨(Outcome.ok.inj hcode).2.symm, (Outcome.ok.inj hdata).2.symm⟩

/-- the run behind a completed row -/
theorem behind_of_completed (fl : Floats) (script : Script) {q : Point} (hq : q.Valid) {log : List (Isa.State × Isa.Instr)}
    {t : CpuModel (options dmem q).config} (h : Completed w imem (options dmem q) code data log t) :
    Behind script code data log.length q (script.parse (t.stats.print (fl.rates t.stats))) t.stats := by
  have hends : Ends h.loaded.accepted (bytesOf code) (bytesOf data) 0 t := ends_of_run h.run
  refine ⟨hq, ⟨h.loaded.accepted, t, hends, rfl⟩, ?_, h.retired⟩
  exact fun _ hname => parse_counter hname t.stats _

variable (hrated : ∀ name ∈ "cycles" :: "retired" :: rated, Printed script name) (hvalid : ∀ q ∈ points, q.Valid)

include hrated hvalid in
/-- **All rows are about one program.** -/
theorem simulateAll_behind (hne : points ≠ [])
    (h : simulateAll w fl exe imem dmem script rated points = some (.ok rows)) :
    ∃ code data log v, Images w imem dmem code data ∧ (program code).run 1000000 (start data) = some (log, v) ∧
      rows.map Row.toPoint = points ∧ ∃ st : Row → PerformanceStats, ∀ r ∈ rows,
        Behind script code data log.length r.toPoint r.stats (st r) := by
  have hpairs : List.Forall₂ (fun q r => ∃ code data log t, Completed w imem (options dmem q) code data log t ∧
      r = rowOf fl script q t) points rows := by
    have hzip := List.forall₂_iff_zip.1 (forEach_ok.1 h)
    refine List.forall₂_iff_zip.2 ⟨hzip.1, fun hmem => ?_⟩
    exact (simulate_ok hrated (hvalid _ (List.of_mem_zip hmem).1)).1 (hzip.2 hmem)
  have hpoints : List.Forall₂ (fun q r => q = Row.toPoint r) points rows := by
    refine hpairs.imp fun q r hr => ?_
    obtain ⟨code, data, log, t, -, rfl⟩ := hr
    rfl
  have hmap : points = rows.map Row.toPoint := List.forall₂_eq_eq_eq ▸ List.forall₂_map_right_iff.2 hpoints
  subst hmap
  rw [List.forall₂_map_left_iff, List.forall₂_same] at hpairs
  have hne' : rows ≠ [] := fun hnil => hne (hnil ▸ rfl)
  obtain ⟨r₀, hr₀⟩ := List.exists_mem_of_ne_nil rows hne'
  obtain ⟨code, data, log, t₀, hdone₀, -⟩ := hpairs r₀ hr₀
  have himages := ((loaded_iff hdone₀.loaded.accepted).1 hdone₀.loaded).2
  have hbehind : ∀ r ∈ rows, ∃ st, Behind script code data log.length r.toPoint r.stats st := by
    intro r hr
    obtain ⟨code', data', log', t, hdone, hstats⟩ := hpairs r hr
    obtain ⟨rfl, rfl⟩ := himages.unique ((loaded_iff hdone.loaded.accepted).1 hdone.loaded).2
    obtain ⟨rfl, -⟩ := Prod.mk.inj (Option.some.inj (hdone₀.isa.symm.trans hdone.isa))
    have hrun := behind_of_completed fl script (hvalid _ (List.mem_map_of_mem hr)) hdone
    have hparse : r.stats = script.parse (t.stats.print (fl.rates t.stats)) := congrArg Row.stats hstats
    rw [← hparse] at hrun
    exact ⟨t.stats, hrun⟩
  have hany : Nonempty PerformanceStats := ⟨{}⟩
  choose! st hst using hbehind
  exact ⟨code, data, log, _, himages, hdone₀.isa, rfl, st, hst⟩

include hrated hvalid in
/-- a sweep with all of its rows has had the caches of every point -/
theorem simulateAll_allocated (h : simulateAll w fl exe imem dmem script rated points = some (.ok rows)) :
    ∀ q ∈ points, Allocated w (options dmem q).config := by
  intro q hq
  obtain ⟨hlength, hzip⟩ := List.forall₂_iff_zip.1 (forEach_ok.1 h)
  obtain ⟨k, hk, rfl⟩ := List.getElem_of_mem hq
  have hpair : (points[k], rows[k]) ∈ points.zip rows :=
    List.mem_of_getElem (List.getElem_zip (h := by simpa [← hlength] using hk))
  obtain ⟨code, data, log, t, hdone, -⟩ := (simulate_ok hrated (hvalid _ hq)).1 (hzip hpair)
  exact hdone.loaded.allocated

include hrated hvalid in
/-- **All rows or none**: one program decides. -/
theorem simulateAll_isOk (hallocated : ∀ q ∈ points, Allocated w (options dmem q).config)
    (himages : Images w imem dmem code data)
    (hsome : ((program code).run 1000000 (start data)).isSome = true) :
    ∃ rows, simulateAll w fl exe imem dmem script rated points = some (.ok rows) := by
  induction points with
  | nil => exact ⟨[], rfl⟩
  | cons q points ih =>
    obtain ⟨r, hr⟩ := simulate_isOk hrated fl exe (hvalid q List.mem_cons_self) (hallocated q List.mem_cons_self)
      himages hsome
    obtain ⟨rows, hrows⟩ := ih (fun q' hq' => hvalid q' (List.mem_cons_of_mem q hq'))
      fun q' hq' => hallocated q' (List.mem_cons_of_mem q hq')
    exact ⟨r :: rows, forEach_ok.2 (.cons hr (forEach_ok.1 hrows))⟩

end Sweeps

end Sweep

open Sweep

/-- **A sweep is about one program.** Over points with caches that are accepted and latencies of which no stall wraps, a
sweep has all of its rows exactly if the memories and the caches of every point can be had and the program in the image
ends within the limit, and none of them otherwise. Its rows stand in the
order of the points and all count the instructions of that program. The I-cache misses follow from the lines of the
I-cache, the D-cache misses and write-backs from those of the D-cache. The cycles and the overlap are the same cycles of
the pipeline for all rows, and the refills. -/
theorem sweep_laws (w : World) (fl : Floats) (exe imem dmem : String) (script : Script) (rated : List String)
    (points : List Point) (hrated : ∀ name ∈ "cycles" :: "retired" :: rated, Printed script name)
    (hne : points ≠ []) (hvalid : ∀ q ∈ points, q.Valid) :
    ((∃ rows, simulateAll w fl exe imem dmem script rated points = some (.ok rows)) ↔
      (∀ q ∈ points, Allocated w (options dmem q).config) ∧
        ∃ code data, Images w imem dmem code data ∧ ((program code).run 1000000 (start data)).isSome = true) ∧
    ∀ rows, simulateAll w fl exe imem dmem script rated points = some (.ok rows) → rows.map Row.toPoint = points ∧
      ∃ code data log v, Images w imem dmem code data ∧ (program code).run 1000000 (start data) = some (log, v) ∧
        ∃ pipeline st, Obeys script log.length pipeline st rows := by
  refine ⟨⟨?_, ?_⟩, ?_⟩
  · rintro ⟨rows, hrows⟩
    obtain ⟨code, data, log, v, himages, hrun, -⟩ := simulateAll_behind hrated hvalid hne hrows
    exact ⟨simulateAll_allocated hrated hvalid hrows, code, data, himages, hrun ▸ rfl⟩
  · rintro ⟨hallocated, code, data, himages, hsome⟩
    exact simulateAll_isOk hrated hvalid hallocated himages hsome
  · intro rows hrows
    obtain ⟨code, data, log, v, himages, hrun, hmap, st, hst⟩ := simulateAll_behind hrated hvalid hne hrows
    have hrows' : rows ≠ [] := by
      rintro rfl
      exact hne hmap.symm
    obtain ⟨pipeline, hobeys⟩ := obeys_of_behind hrows' hst
    exact ⟨hmap, code, data, log, v, himages, hrun, pipeline, st, hobeys⟩

instance (script : Script) (name : String) : Decidable (Printed script name) := by
  unfold Printed
  infer_instance

theorem valid_iff (q : Point) : q.Valid ↔ (isPowerOfTwo q.icacheLines = true ∧ q.icacheLines < 2 ^ 64) ∧
    (isPowerOfTwo q.dcacheLines = true ∧ q.dcacheLines < 2 ^ 64) ∧ 6 * q.memoryLatency + 23 < 2 ^ 32 :=
  ⟨fun h => ⟨h.icache, h.dcache, h.latency⟩, fun h => ⟨h.1, h.2.1, h.2.2⟩⟩

instance (q : Point) : Decidable q.Valid := decidable_of_iff' _ (valid_iff q)

/-- an image of one ECALL, and one without data -/
def ecallImages : World where
  files path := if path = "imem.hex" then some "00000073".toList else if path = "dmem.hex" then some [] else none
  opens _ := true

theorem allocated_cases : ∀ q ∈ SensitivitySweep.cases, Allocated ecallImages (options "dmem.hex" q).config := by
  have hlines : ∀ q ∈ SensitivitySweep.cases, q.icacheLines ≤ 512 ∧ q.dcacheLines ≤ 512 := by decide +kernel
  intro q hq v
  obtain ⟨hicache, hdcache⟩ := hlines q hq
  cases v with
  | instructionMemory => exact ⟨(by decide : 1024 * 1024 ≤ (2 ^ 63 - 1) / 1), rfl⟩
  | dataMemory => exact ⟨(by decide : 1024 * 1024 ≤ (2 ^ 63 - 1) / 1), rfl⟩
  | icacheLines => exact ⟨hicache.trans (by decide), rfl⟩
  | dcacheLines => exact ⟨hdcache.trans (by decide), rfl⟩

/-- all cases of `run_sensitivity_sweep.py`, over a program that ends -/
theorem sweep_laws_cases : ∃ rows, simulateAll ecallImages zeroRates "rv32im_model" "imem.hex" "dmem.hex"
      .sensitivitySweep ["icache_accesses", "icache_misses", "dcache_accesses", "dcache_misses"]
      SensitivitySweep.cases = some (.ok rows) ∧ rows.map Row.toPoint = SensitivitySweep.cases ∧
    ∃ retired pipeline st, Obeys .sensitivitySweep retired pipeline st rows := by
  obtain ⟨hiff, hrows⟩ := sweep_laws ecallImages zeroRates "rv32im_model" "imem.hex" "dmem.hex" .sensitivitySweep
    ["icache_accesses", "icache_misses", "dcache_accesses", "dcache_misses"] SensitivitySweep.cases (by decide +kernel)
    (by decide +kernel) (by decide +kernel)
  obtain ⟨code, hcode, himage⟩ := HexLoader.loads_zeros "imem.hex" "00000073".toList [.word 0x73]
    (n := 1024 * 1024) (by decide) (by decide +kernel) (by decide)
  have hsome : ((program code).run 1000000 (start (Memory.zeros (1024 * 1024)))).isSome = true := by
    unfold program
    rw [himage]
    exact congrArg Option.isSome (Isa.Machine.run_mono (n := 1) (k := 1000000) (by rfl) (by decide))
  obtain ⟨rows, hok⟩ := hiff.2 ⟨allocated_cases, code, _, ⟨rfl, hcode, rfl⟩, hsome⟩
  obtain ⟨hpoints, -, -, log, -, -, -, pipeline, st, hobeys⟩ := hrows rows hok
  exact ⟨rows, hok, hpoints, log.length, pipeline, st, hobeys⟩

end Rv32im
