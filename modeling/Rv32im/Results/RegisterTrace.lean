/-
The trace determines the register file.

- `lastWrite`: what the rows of a trace leave in a register.
- `Stepped.writes`: the row of an instruction tells its register write, its pc and its instruction word.
- `Told`, `told_run`: so the registers of a run are what its rows left.
- `rows_pc`: the k-th row carries the pc that the steps before it left.
- `trace_determines_regs`: the statement for every run, and for every two runs whose traces a comparator accepts.
-/
import Rv32im.Core.Latest
import Rv32im.Results.Credit
import Rv32im.Tools.Comparators

namespace Rv32im

/-- the row writes register r -/
def RetireEvent.Sets (r : ℕ) (e : RetireEvent) : Prop := e.regWrite = true ∧ e.rd = r

instance (r : ℕ) : DecidablePred (RetireEvent.Sets r) := fun _ => inferInstanceAs (Decidable (_ ∧ _))

/-- the value of the last row that writes register r, zero if there is none -/
def lastWrite (trace : List RetireEvent) (r : ℕ) : BitVec 32 :=
  match History.latest (RetireEvent.Sets r) trace with
  | some e => e.wdata
  | none => 0

theorem lastWrite_snoc (trace : List RetireEvent) (e : RetireEvent) (r : ℕ) :
    lastWrite (trace ++ [e]) r = if e.Sets r then e.wdata else lastWrite trace r := by
  unfold lastWrite
  rw [History.latest_snoc]
  split_ifs <;> rfl

/-- rows that agree write the same -/
theorem lastWrite_correlated {model rtl : List RetireEvent} (h : Correlated model rtl) (r : ℕ) :
    lastWrite model r = lastWrite rtl r := by
  have hsets : ∀ a b : RetireEvent, a.Agrees b → (a.Sets r ↔ b.Sets r) := by
    intro a b ⟨_, _, hwrite, hvalue⟩
    unfold RetireEvent.Sets
    rw [← hwrite]
    refine and_congr_right fun ha => ?_
    rw [(hvalue ha).1]
  have hrel := History.latest_rel hsets ((correlated_iff model rtl).1 h)
  have hcounts : ∀ e, History.latest (RetireEvent.Sets r) model = some e → e.Sets r := fun e => History.latest_counts
  unfold lastWrite
  generalize History.latest (RetireEvent.Sets r) model = o at hrel hcounts ⊢
  generalize History.latest (RetireEvent.Sets r) rtl = o' at hrel ⊢
  cases hrel with
  | none => rfl
  | some hagree => exact (hagree.2.2.2 (hcounts _ rfl).1).2

/-- the event of an effect tells its register write -/
theorem Effect.event_writes (e : Effect) {regs : Regs} (hzero : regs 0 = 0) (pc insn : BitVec 32) :
    ((e.event pc insn).regWrite = true → (e.event pc insn).rd ≠ 0) ∧ ∀ r : Fin 32,
      ((e.event pc insn).Sets r → Function.update (e.regs regs) 0 0 r = (e.event pc insn).wdata) ∧
      (¬ (e.event pc insn).Sets r → Function.update (e.regs regs) 0 0 r = regs r) := by
  have hkeep : Function.update regs 0 0 = regs := by
    rw [← hzero, Function.update_eq_self]
  obtain ⟨kind, nextPc, wr, mem⟩ := e
  rcases wr with _ | ⟨rd, v⟩
  · have hnone : ∀ r, ¬ (Effect.event ⟨kind, nextPc, none, mem⟩ pc insn).Sets r := by
      intro r ⟨hwrite, _⟩
      cases kind <;> cases hwrite
    refine ⟨fun h => absurd ⟨h, rfl⟩ (hnone _), fun r => ⟨fun h => absurd h (hnone r), fun _ => ?_⟩⟩
    exact congrFun hkeep r
  · rcases eq_or_ne rd 0 with rfl | hrd
    · -- a write to register 0 is dropped, and its row says so
      have hnone : ∀ r, ¬ (Effect.event ⟨kind, nextPc, some (0, v), mem⟩ pc insn).Sets r :=
        fun r ⟨hwrite, _⟩ => of_decide_eq_true (show decide ((0 : Fin 32) ≠ 0) = true from hwrite) rfl
      refine ⟨fun h => absurd ⟨h, rfl⟩ (hnone _), fun r => ⟨fun h => absurd h (hnone r), fun _ => ?_⟩⟩
      exact congrFun hkeep r
    · have hregs : Effect.regs ⟨kind, nextPc, some (rd, v), mem⟩ regs = Function.update regs rd v := if_pos hrd
      have hupdate : Function.update (Function.update regs rd v) 0 0 = Function.update regs rd v := by
        rw [Function.update_comm hrd, hkeep]
      rw [hregs, hupdate]
      refine ⟨fun _ h => hrd (Fin.ext h), fun r => ⟨fun ⟨_, hr⟩ => ?_, fun h => ?_⟩⟩
      · rw [← Fin.ext hr]
        exact Function.update_self rd v regs
      · exact Function.update_of_ne (fun hr => h ⟨decide_eq_true hrd, congrArg Fin.val hr.symm⟩) v regs

namespace CpuModel

variable {cfg : CpuConfig}

section Row

variable {s t : CpuModel cfg} {b : Bool}

/-- **The row of an instruction** tells what it wrote, where it was fetched from and which word it is. -/
theorem Stepped.writes (w : Stepped s b t) (hzero : s.regs 0 = 0) : ∃ row, t.trace = s.trace ++ [row] ∧
    row.pc = s.pc ∧ row.insn = w.insn ∧ (row.regWrite = true → row.rd ≠ 0) ∧
    ∀ r : Fin 32, (row.Sets r → t.regs r = row.wdata) ∧ (¬ row.Sets r → t.regs r = s.regs r) := by
  obtain ⟨row, htrace, hpc, hinsn⟩ := w.retires
  have hregs : t.regs = Function.update (w.e.regs s.regs) 0 0 := congrArg Arch.regs w.arch
  have hwrites := w.e.event_writes hzero s.pc w.insn
  rw [← hregs] at hwrites
  have hrow : ∃ cycle retired, row = { w.e.event s.pc w.insn with cycle := cycle, retired := retired } := by
    have hafter := htrace.symm.trans ((congrArg CpuModel.trace w.after).trans rfl)
    exact ⟨_, _, List.singleton_inj.1 (List.append_cancel_left hafter)⟩
  obtain ⟨cycle, retired, rfl⟩ := hrow
  exact ⟨_, htrace, hpc, hinsn, hwrites⟩

end Row

/-- registers, rows and program belong together -/
structure Told (program : Memory) (s : CpuModel cfg) : Prop where
  memory : s.instructionMemory = program
  regs : ∀ r : Fin 32, s.regs r = lastWrite s.trace r
  rd : ∀ e ∈ s.trace, e.regWrite = true → e.rd ≠ 0
  insn : ∀ e ∈ s.trace, program.read32 e.pc = .ok e.insn

/-- register 0 is never told to be written -/
theorem Told.zero {program : Memory} {s : CpuModel cfg} (h : s.Told program) : s.regs 0 = 0 := by
  rw [h.regs 0]
  have hsets : ∀ e ∈ s.trace, ¬ e.Sets (0 : Fin 32).val := fun e he hset => h.rd e he hset.1 hset.2
  unfold lastWrite
  cases hl : History.latest (RetireEvent.Sets (0 : Fin 32).val) s.trace with
  | none => rfl
  | some e => exact absurd (History.latest_counts hl) (hsets e (History.latest_mem hl))

/-- one instruction keeps them together -/
theorem Stepped.told {program : Memory} {s t : CpuModel cfg} {b : Bool} (w : Stepped s b t) (h : s.Told program) :
    t.Told program := by
  obtain ⟨row, htrace, hpc, hinsn, hrd, hregs⟩ := w.writes h.zero
  have hrow : ∀ {P : RetireEvent → Prop}, (∀ e ∈ s.trace, P e) → P row → ∀ e ∈ t.trace, P e := by
    intro P hold hnew e he
    rw [htrace] at he
    rcases List.mem_append.1 he with he | he
    · exact hold e he
    · rw [List.mem_singleton.1 he]
      exact hnew
  refine ⟨?_, fun r => ?_, hrow h.rd hrd, hrow h.insn ?_⟩
  · calc t.instructionMemory = s.instructionMemory := congrArg Arch.instructionMemory w.arch
      _ = program := h.memory
  · rw [htrace, lastWrite_snoc]
    split_ifs with hset
    · exact (hregs r).1 hset
    · rw [(hregs r).2 hset, h.regs r]
  · rw [hpc, hinsn, ← h.memory]
    exact w.fetch

theorem told_run {s t : CpuModel cfg} {n : ℕ} {program : Memory} (h : s.Told program)
    (ht : Exec.iter step n s = some t) : t.Told program := by
  apply run_inv _ ht h
  intro s t b w hs
  exact w.told hs

/-! ## The pc of each row -/

/-- **Each row carries the pc that the steps before it left**, and a live model has a row for every step. -/
theorem rows_pc {s t : CpuModel cfg} {n : ℕ} (hs : s.trace = []) (ht : Exec.iter step n s = some t) :
    (t.halted = false → t.trace.length = n) ∧
      ∀ k (hk : k < t.trace.length), ∃ u, Exec.iter step k s = some u ∧ t.trace[k].pc = u.pc := by
  induction n generalizing t with
  | zero =>
    cases ht
    refine ⟨fun _ => by rw [hs]; rfl, fun k hk => ?_⟩
    rw [hs] at hk
    exact absurd hk (Nat.not_lt_zero k)
  | succ n ih =>
    obtain ⟨u, b, hu, hstep⟩ := Exec.iter_snoc.1 ht
    obtain ⟨hlive, hrows⟩ := ih hu
    rcases step_ok.1 hstep with ⟨hhalted, -, rfl⟩ | ⟨⟨w⟩⟩
    · refine ⟨fun h => ?_, hrows⟩
      rw [hhalted] at h
      cases h
    · obtain ⟨row, htrace, hpc, -⟩ := w.retires
      have hlength := hlive w.running.live
      refine ⟨fun _ => by rw [htrace, List.length_append, hlength, List.length_singleton], fun k hk => ?_⟩
      simp only [htrace]
      rcases Nat.lt_or_ge k u.trace.length with hold | hnew
      · rw [List.getElem_append_left hold]
        exact hrows k hold
      · -- the new row is that of the step from u
        rw [htrace, List.length_append, List.length_singleton] at hk
        obtain rfl : k = u.trace.length := by omega
        rw [List.getElem_concat_length rfl, hpc]
        exact ⟨u, hlength ▸ hu, rfl⟩

theorem told_boot (h : cfg.Accepted) (program data : ℕ → BitVec 8) (pc : BitVec 32) :
    (boot cfg h program data pc).Told (boot cfg h program data pc).instructionMemory :=
  ⟨rfl, fun _ => rfl, fun _ he => (nomatch he), fun _ he => (nomatch he)⟩

end CpuModel

/-- **The trace determines the register file** in every run from reset. Each register holds what the last row that
writes it tells, no row writes register 0, each row carries the instruction word at its pc and the pc that the steps
before it left, and runs whose traces a comparator accepts end with equal registers. -/
theorem trace_determines_regs (cfg : CpuConfig) (h : cfg.Accepted) (program data : ℕ → BitVec 8) (pc : BitVec 32)
    (n : ℕ) (t : CpuModel cfg) (ht : Exec.iter CpuModel.step n (boot cfg h program data pc) = some t) :
    (∀ r : Fin 32, t.regs r = lastWrite t.trace r) ∧
    (∀ e ∈ t.trace, e.regWrite = true → e.rd ≠ 0) ∧
    (∀ e ∈ t.trace, (boot cfg h program data pc).instructionMemory.read32 e.pc = .ok e.insn) ∧
    (∀ k (hk : k < t.trace.length), ∃ u,
      Exec.iter CpuModel.step k (boot cfg h program data pc) = some u ∧ t.trace[k].pc = u.pc) ∧
    ∀ (cfg' : CpuConfig) (h' : cfg'.Accepted) (program' data' : ℕ → BitVec 8) (pc' : BitVec 32) (n' : ℕ)
      (t' : CpuModel cfg'), Exec.iter CpuModel.step n' (boot cfg' h' program' data' pc') = some t' →
      ∀ (c : Comparator) (w w' : Writer), c.accepts (w.file t.trace) (w'.file t'.trace) = .ok true →
      t.regs = t'.regs := by
  have htold := CpuModel.told_run (CpuModel.told_boot h program data pc) ht
  refine ⟨htold.regs, htold.rd, htold.insn, (CpuModel.rows_pc rfl ht).2, ?_⟩
  intro cfg' h' program' data' pc' n' t' ht' c w w' haccept
  have htold' := CpuModel.told_run (CpuModel.told_boot h' program' data' pc') ht'
  rw [comparators_agree, Except.ok.injEq, decide_eq_true_eq] at haccept
  funext r
  calc t.regs r = lastWrite t.trace r := htold.regs r
    _ = lastWrite t'.trace r := lastWrite_correlated haccept r
    _ = t'.regs r := (htold'.regs r).symm

/-- a run with caches and a run without them, whose traces are accepted -/
theorem trace_determines_regs_cacheTest : ∃ t t',
    Exec.iter CpuModel.step 11 (boot splitCaches splitCaches_accepted (wordImage cacheTest) 0 0) = some t ∧
    Exec.iter CpuModel.step 11 (boot noCaches noCaches_accepted (wordImage cacheTest) 0 0) = some t' ∧
    Comparator.milestone4.accepts (Writer.traceWriter.file t.trace) (Writer.traceWriter.file t'.trace) = .ok true ∧
    t.regs = t'.regs ∧ t.regs 8 = lastWrite t.trace 8 := by
  obtain ⟨t, ht, hboth⟩ := (Option.any_eq_true _ _).1 (by decide +kernel :
    (Exec.iter CpuModel.step 11 (boot splitCaches splitCaches_accepted (wordImage cacheTest) 0 0)).any (fun t =>
      (Exec.iter CpuModel.step 11 (boot noCaches noCaches_accepted (wordImage cacheTest) 0 0)).any fun t' =>
        Correlated t.trace t'.trace) = true)
  obtain ⟨t', ht', hcorrelated⟩ := (Option.any_eq_true _ _).1 hboth
  have haccept : Comparator.milestone4.accepts (Writer.traceWriter.file t.trace) (Writer.traceWriter.file t'.trace) =
      .ok true := by
    rw [comparators_agree, hcorrelated]
  obtain ⟨hregs, -, -, -, hequal⟩ := trace_determines_regs splitCaches splitCaches_accepted (wordImage cacheTest) 0 0 11
    t ht
  exact ⟨t, t', ht, ht', haccept, hequal noCaches noCaches_accepted (wordImage cacheTest) 0 0 11 t' ht' _ _ _ haccept,
    hregs 8⟩

end Rv32im
