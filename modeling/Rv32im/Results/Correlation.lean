/-
The Dhrystone correlation, end to end (`scripts/run_milestone4.py`).

- `Milestone4.model_ok`: the script accepts the output of the program exactly if the program in the image ends with the
  signature in x5, and then it has read the counters of the run.
- `milestone4_pass`: it reports PASS exactly if the RTL trace has the rows of that program and ends with the predicted
  cycle, and the RTL counters are the predicted ones.
-/
import Rv32im.Results.HexImage
import Rv32im.Results.Program
import Rv32im.Tools.Milestone4

namespace Rv32im

open CpuModel Main

namespace Milestone4

section

variable {w : World} {fl : Floats} {exe : String} {p : Paths}

theorem readOptions_command (p : Paths) :
    CommandLine.readOptions {} (command p).tail = .ok (some (options p)) := by
  refine CommandLine.readOptions_ok.2 ⟨[.dmemHex p.dmem, .trace p.modelTrace, .enableCaches, .icacheLines 64,
    .dcacheLines 64, .memoryLatency 3, .maxInsns 1000000, .dumpRegs], ?_, rfl⟩
  exact .cons (.dmemHex _) (.cons (.trace _) (.cons .enableCaches (.cons (.icacheLines (by decide +kernel))
    (.cons (.dcacheLines (by decide +kernel)) (.cons (.memoryLatency (by decide +kernel))
      (.cons (.maxInsns (by decide +kernel)) (.cons .dumpRegs .nil)))))))

theorem main_command (w : World) (fl : Floats) (exe : String) (p : Paths) :
    Rv32im.main w fl exe (command p) = simulate w fl p.imem (options p) := main_accepts (readOptions_command p)

theorem memory_fits (p : Paths) : (options p).config.memorySize + 16 ≤ 2 ^ 32 :=
  (by decide : 1024 * 1024 + 16 ≤ 2 ^ 32)

/-- what the script reads of the output behind a run -/
def statsOf (fl : Floats) (p : Paths) (t : CpuModel (options p).config) : Dict :=
  signature .milestone4 (options p) t.regs (Script.parse .milestone4 (t.stats.print (fl.rates t.stats)))

theorem statsOf_x5 (t : CpuModel (options p).config) : statsOf fl p t "x5" = some ((t.regs 5).toNat : ℤ) := by
  have hon : Script.milestone4 = .milestone4 ∧ (options p).dumpRegs = true := ⟨rfl, rfl⟩
  unfold statsOf signature
  rw [if_pos hon]
  exact Function.update_self _ _ _

/-- a counter under a printed label is read -/
theorem statsOf_named {label name : String} (hp : (label, name) ∈ Script.milestone4.keys) (hx5 : name ≠ "x5")
    (hhold : label ≠ "I$ pipeline-hold replays") (hifstall : label ≠ "D$ IF-stall replays")
    (t : CpuModel (options p).config) : statsOf fl p t name = some (t.stats.named name : ℤ) := by
  have hon : Script.milestone4 = .milestone4 ∧ (options p).dumpRegs = true := ⟨rfl, rfl⟩
  unfold statsOf signature
  rw [if_pos hon, Function.update_of_ne hx5]
  exact print_read .milestone4 t.stats _ hp hhold hifstall

/-- the counters that the script uses -/
theorem statsOf_used (fl : Floats) (t : CpuModel (options p).config) : ∀ name ∈ "cycles" :: "retired" :: compared,
    statsOf fl p t name = some (t.stats.named name : ℤ) := by
  have hlabels : ∀ name ∈ "cycles" :: "retired" :: compared, name ≠ "x5" ∧ ∃ q ∈ Script.milestone4.keys,
      q.2 = name ∧ q.1 ≠ "I$ pipeline-hold replays" ∧ q.1 ≠ "D$ IF-stall replays" := by decide +kernel
  intro name hname
  obtain ⟨hx5, ⟨label, name⟩, hq, rfl, hhold, hifstall⟩ := hlabels name hname
  exact statsOf_named hq hx5 hhold hifstall t

theorem statsOf_printed (fl : Floats) (t : CpuModel (options p).config) :
    ∃ l, printed.mapM (Script.item (statsOf fl p t)) = .ok l := by
  have hsome : ∀ key ∈ printed, key = "x5" ∨ key ∈ "cycles" :: "retired" :: compared := by decide +kernel
  apply Script.mapM_isOk
  intro key hkey
  rcases hsome key hkey with rfl | hused
  · exact ⟨_, Script.item_ok (statsOf_x5 t)⟩
  · exact ⟨_, Script.item_ok (statsOf_used fl t key hused)⟩

/-- **What the script takes from the program**: its output behind a completed run that leaves the signature. -/
theorem model_ok (fl : Floats) (exe : String) (hplain : ∀ c ∈ p.modelTrace.toList, Text.isLineEnd c = false)
    (hpath : p.modelTrace ≠ "") {stats : Dict} {trace : Option (List Char)} :
    model w fl exe p = some (.ok (stats, trace)) ↔
      ∃ code data log t, Completed w p.imem (options p) code data log t ∧ ((t.regs 5).toNat : ℤ) = expectedX5 ∧
        stats = statsOf fl p t ∧ trace = some (Writer.traceWriter.file t.trace) := by
  have hpaths : Plain (options p) := ⟨hplain, fun c hc => absurd hc List.not_mem_nil⟩
  have hzero : ∀ t, (report w fl (options p) t).code = 0 := fun t => (report_code w fl _ t).2.2 (Or.inl rfl)
  have hout : ∀ t, accept (String.ofList ((report w fl (options p) t).stdout ++ (report w fl (options p) t).stderr),
      (report w fl (options p) t).trace) = if ((t.regs 5).toNat : ℤ) = expectedX5
        then .ok (statsOf fl p t, some (Writer.traceWriter.file t.trace)) else .error (.signature (t.regs 5).toNat) := by
    intro t
    have hparse : Script.parse .milestone4 (String.ofList (report w fl (options p) t).stdout) = statsOf fl p t :=
      parse_report hpaths (hzero t) .milestone4
    have htrace : (report w fl (options p) t).trace = some (Writer.traceWriter.file t.trace) :=
      (report_trace w fl (options p) t).trans (if_neg hpath)
    obtain ⟨l, hl⟩ := statsOf_printed fl t
    unfold accept
    simp only [report_stderr (hzero t), List.append_nil, hparse, htrace, statsOf_x5, hl, Option.some.injEq, ne_eq,
      ite_not, Option.getD_some]
    rfl
  unfold model
  rw [Option.map_eq_some_iff]
  refine ⟨?_, ?_⟩
  · rintro ⟨r, hr, hok⟩
    obtain ⟨out, rfl, haccept⟩ := Exec.except_bind_ok.1 hok
    obtain ⟨e, he, hcode, rfl⟩ := Script.run_ok.1 hr
    rw [main_command] at he
    obtain ⟨code, data, log, t, hdone, rfl⟩ := simulate_completed (memory_fits p) he hcode
    rw [hout] at haccept
    split_ifs at haccept with hx5
    obtain ⟨rfl, rfl⟩ := Prod.mk.inj (Except.ok.inj haccept)
    exact ⟨code, data, log, t, hdone, hx5, rfl, rfl⟩
  · rintro ⟨code, data, log, t, hdone, hx5, rfl, rfl⟩
    have hsim : simulate w fl p.imem (options p) = some (report w fl (options p) t) := by
      rw [simulate_loaded hdone.loaded, hdone.run]
      rfl
    refine ⟨_, Script.run_ok.2 ⟨_, (main_command w fl exe p).trans hsim, hzero t, rfl⟩, ?_⟩
    refine Exec.except_bind_ok.2 ⟨_, rfl, ?_⟩
    rw [hout, if_pos hx5]

/-- rows agree whatever their cycles -/
theorem correlated_untimed {model model' rtl : List RetireEvent}
    (h : model.map RetireEvent.untimed = model'.map RetireEvent.untimed) : Correlated model rtl ↔ Correlated model' rtl := by
  have hmap : ∀ l : List RetireEvent, Correlated (l.map RetireEvent.untimed) rtl ↔ Correlated l rtl := by
    intro l
    rw [correlated_iff, correlated_iff, List.forall₂_map_left_iff]
    rfl
  rw [← hmap model, h, hmap model']

theorem status_iff {c : Prop} [Decidable c] {other : String} (h : other ≠ "PASS") :
    (if c then "PASS" else other) = "PASS" ↔ c := by
  split_ifs with hc
  · exact iff_of_true rfl hc
  · exact iff_of_false h hc

/-- **The comparison with the RTL** passes exactly where rows, last cycles and counters agree. -/
theorem requireRtl_passes (fl : Floats) {text : List Char} {events : List RetireEvent} {other : List Char}
    (hrtl : w.files p.rtlTrace = some (Writer.perfTraceCollector.file events)) (hstats : w.files p.rtlStats = some text)
    (hevents : w.files p.rtlEvents = some other) (t : CpuModel (options p).config) :
    (∃ s, requireRtl w p (statsOf fl p t) (Writer.traceWriter.file t.trace) = .ok s ∧ passes s) ↔
      Correlated t.trace events ∧ (events.map RetireEvent.cycle).getLastD 0 = t.stats.cycles ∧
        ∀ key ∈ compared, Script.getInt (readOneCsv text) key = .ok (t.stats.named key) := by
  obtain ⟨v, hv, hcorrelated⟩ := archCompareStream_file .traceWriter .perfTraceCollector t.trace events
  have hcycles : Script.item (statsOf fl p t) "cycles" = .ok (t.stats.cycles : ℤ) :=
    Script.item_ok (statsOf_used fl t "cycles" List.mem_cons_self)
  have hsame := @counters_same (statsOf fl p t) (readOneCsv text) (fun key => (t.stats.named key : ℤ)) compared
    fun key hkey => statsOf_used fl t key (List.mem_cons_of_mem _ (List.mem_cons_of_mem _ hkey))
  rw [← hsame]
  unfold requireRtl existing
  simp only [hrtl, hstats, hevents, hv, readLastCycle_file, hcycles, Except.mapError, bind, Except.bind, pure, Except.pure]
  refine ⟨?_, ?_⟩
  · rintro ⟨s, hs, hpass⟩
    cases hcounters : rtlCounters (readOneCsv text) compared with
    | error e =>
      rw [hcounters] at hs
      cases hs
    | ok rtl =>
      rw [hcounters] at hs
      cases hequal : same (statsOf fl p t) rtl with
      | error e =>
        simp only [hequal] at hs
        cases hs
      | ok b =>
        simp only [hequal] at hs
        obtain rfl := Except.ok.inj hs
        obtain ⟨harch, htiming, hcache⟩ := hpass
        have hb := (status_iff (by decide)).1 harch
        rw [hcorrelated] at hb
        refine ⟨of_decide_eq_true hb, (Int.ofNat.inj ((status_iff (by decide)).1 htiming)).symm, rtl, rfl, ?_⟩
        rw [hequal, (status_iff (by decide)).1 hcache]
  · rintro ⟨harch, htiming, rtl, hcounters, hequal⟩
    simp only [hcounters, hequal]
    refine ⟨_, rfl, (status_iff (by decide)).2 ?_, (status_iff (by decide)).2 (congrArg Int.ofNat htiming.symm), rfl⟩
    rw [hcorrelated, decide_eq_true harch]

end

end Milestone4

open Milestone4

def resultPaths : Paths := ⟨"imem.hex", "dmem.hex", "model.csv", "rtl.csv", "cache.csv", "events.csv"⟩

/-- a program that leaves the signature in x5, over RTL results -/
def signatureWorld (events : List RetireEvent) (text : List Char) : World where
  files path := if path = "imem.hex" then some "004002b7 fff28293 00000073".toList
    else if path = "rtl.csv" then some (Writer.perfTraceCollector.file events)
    else if path = "cache.csv" then some text
    else if path = "dmem.hex" ∨ path = "events.csv" then some []
    else none
  opens _ := true

/-- a statistics file with one row of the compared counters -/
def countersFile (st : PerformanceStats) : List Char :=
  Text.unlines ([compared.map String.toList, compared.map fun key => Text.decimal (st.named key)].map Csv.join)

theorem getInt_countersFile (st : PerformanceStats) :
    ∀ key ∈ compared, Script.getInt (readOneCsv (countersFile st)) key = .ok (st.named key) := by
  have hplain : ∀ name ∈ compared, ∀ c ∈ name.toList, c ≠ ',' ∧ c ≠ '\n' ∧ c ≠ '"' := by decide +kernel
  have hheader : Csv.Writable (compared.map String.toList) := ⟨by decide, List.forall_mem_map.2 hplain⟩
  have hrow : Csv.Writable (compared.map fun key => Text.decimal (st.named key)) := by
    refine ⟨by rw [List.length_map]; decide, fun cell hcell => ?_⟩
    obtain ⟨key, -, rfl⟩ := List.mem_map.1 hcell
    exact Writer.plain_decimal _
  have hread := Csv.dictReader_unlines hheader (List.forall_mem_singleton.2 hrow)
  have hone : readOneCsv (countersFile st) =
      Csv.dict compared (compared.map fun key => Text.decimal (st.named key)) := by
    unfold readOneCsv readTrace countersFile
    rw [List.map_cons, List.map_singleton] at hread ⊢
    rw [hread]
    rfl
  intro key hkey
  unfold Script.getInt
  rw [hone, Csv.dict_map (fun key => Text.decimal (st.named key)) hkey]
  exact int_decimal _

/-- an ended run has a last row, which is in its last cycle -/
theorem last_cycle {cfg : CpuConfig} {h : cfg.Accepted} {program data : ℕ → BitVec 8} {pc : BitVec 32} {t : CpuModel cfg}
    (ht : (boot cfg h program data pc).run = .ok () t) :
    t.trace ≠ [] ∧ (t.trace.map RetireEvent.cycle).getLastD 0 = t.stats.cycles := by
  obtain ⟨n, hpath, hhalt⟩ := run_ok.1 ht
  obtain ⟨e, he, hcycle⟩ := (recorded_called (recorded_boot h program data pc) (.of_iter hpath.iter)).last hhalt
  refine ⟨List.ne_nil_of_mem (List.mem_of_getLast? he), ?_⟩
  rw [List.getLastD_eq_getLast?, List.getLast?_map, he, ← hcycle]
  rfl

/-- the program of three instructions runs to its signature, over any RTL results -/
theorem completed_signature : ∃ code data t, t.isa.x 5 = 0x003fffff ∧ t.trace ≠ [] ∧
    (t.trace.map RetireEvent.cycle).getLastD 0 = t.stats.cycles ∧ ∀ events text, ∃ log,
      Completed (signatureWorld events text) "imem.hex" (options resultPaths) code data log t := by
  obtain ⟨code, hcode, himage⟩ := HexLoader.loads_zeros "imem.hex" "004002b7 fff28293 00000073".toList
    [.word 0x004002b7, .word 0xfff28293, .word 0x00000073] (n := 1024 * 1024) (by decide) (by decide +kernel) (by decide)
  have hloaded : ∀ events text, Loaded (signatureWorld events text) "imem.hex" (options resultPaths) code
      (Memory.zeros (1024 * 1024)) := by
    intro events text
    refine ⟨⟨⟨by decide, rfl⟩, ⟨by decide, rfl⟩⟩, ?_, Or.inr rfl, hcode, rfl⟩
    intro v
    cases v <;> exact ⟨by decide, rfl⟩
  -- the instruction set ends it behind three instructions, with the signature
  have hrun : ∃ log v, (machine (options resultPaths) code).run 1000000
      (start (options resultPaths) (Memory.zeros (1024 * 1024))) = some (log, v) ∧ v.x 5 = 0x003fffff := by
    unfold Main.machine
    rw [himage]
    exact ⟨_, _, Isa.Machine.run_mono (n := 3) (k := 1000000) (by rfl) (by decide), by rfl⟩
  obtain ⟨log, v, hlog, hv⟩ := hrun
  obtain ⟨log', t, hdone, -⟩ := simulate_follows zeroRates (memory_fits resultPaths) (hloaded [] [])
    (Option.isSome_iff_exists.2 ⟨_, hlog⟩)
  have hsame := hdone.isa.symm.trans hlog
  refine ⟨code, Memory.zeros (1024 * 1024), t, ?_, (last_cycle hdone.run).1,
    (last_cycle hdone.run).2, fun events text => ?_⟩
  · rw [(Prod.mk.inj (Option.some.inj hsame)).2]
    exact hv
  · exact completed_of_run (memory_fits resultPaths) (hloaded events text) hdone.run

end Rv32im
