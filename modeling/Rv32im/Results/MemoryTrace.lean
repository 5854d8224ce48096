/-
The trace determines data memory.

No row shows a stored value, and no comparator reads an address. Both follow from the rows in front of a store: they
tell the registers.

- `RetireEvent.replay`: one row over the registers and the data memory in front of it.
- `Stepped.replays`: the row of an instruction replays the instruction. `Replayed`, `replayed_run`: the rows of a run.
- `trace_determines_memory`: the statement for every run, and for every two runs whose traces a comparator accepts.
-/
import Rv32im.Results.Retiming
import Rv32im.Results.RegisterTrace

namespace Rv32im

namespace RetireEvent

/-- what a row stores, over the registers and the data memory in front of it -/
def stored (r : Regs) (m : Memory) (e : RetireEvent) : Memory :=
  if opcode e.insn = 0x23 then
    (storeValue m e.pc e.insn (r (rs1 e.insn) + immS e.insn) (r (rs2 e.insn))).toOption.getD m
  else m

/-- one row, over the registers and the data memory in front of it -/
def replay (s : Regs × Memory) (e : RetireEvent) : Regs × Memory :=
  (fun r => if e.Sets r then e.wdata else s.1 r, e.stored s.1 s.2)

/-- rows that agree replay alike -/
theorem replay_agrees {a b : RetireEvent} (h : a.Agrees b) (s : Regs × Memory) : a.replay s = b.replay s := by
  obtain ⟨hpc, hinsn, hwrite, hvalue⟩ := h
  have hsets : ∀ r, a.Sets r ↔ b.Sets r := by
    intro r
    unfold Sets
    rw [← hwrite]
    exact and_congr_right fun hw => by rw [(hvalue hw).1]
  have hstored : a.stored s.1 s.2 = b.stored s.1 s.2 := by
    unfold stored
    rw [hpc, hinsn]
  refine Prod.ext (funext fun r => ?_) hstored
  show (if a.Sets r then a.wdata else s.1 r) = if b.Sets r then b.wdata else s.1 r
  by_cases hb : b.Sets r
  · have ha := (hsets r).2 hb
    rw [if_pos ha, if_pos hb, (hvalue ha.1).2]
  · rw [if_neg (mt (hsets r).1 hb), if_neg hb]

theorem replay_correlated {model rtl : List RetireEvent} (h : Correlated model rtl) (s : Regs × Memory) :
    rtl.foldl replay s = model.foldl replay s := by
  have hforall := (correlated_iff model rtl).1 h
  clear h
  induction hforall generalizing s with
  | nil => rfl
  | @cons a b _ _ hagree _ ih =>
    calc _ = List.foldl replay (b.replay s) _ := rfl
      _ = List.foldl replay (a.replay s) _ := by rw [replay_agrees hagree s, ih]

end RetireEvent

/-! ## One row -/

/-- data memory behind an instruction is what its row stores -/
theorem effect_stores {m : Memory} {r : Regs} {pc insn : BitVec 32} {e : Effect} (h : effect m r pc insn = .ok e)
    {row : RetireEvent} (hpc : row.pc = pc) (hinsn : row.insn = insn) : row.stored r m = e.mem := by
  unfold RetireEvent.stored
  rw [hpc, hinsn]
  by_cases hop : opcode insn = 0x23
  · simp only [effect, hop] at h
    obtain ⟨m', hstore, rfl⟩ := map_ok h
    rw [if_pos hop, hstore]
    rfl
  · have hkind : e.kind.stores = false := by
      rw [← Bool.not_eq_true]
      exact fun hstores => hop ((CpuModel.effect_opcode h).1 hstores)
    rw [if_neg hop, (effect_mem h).2 hkind]

/-- only a load shows a read -/
theorem Effect.event_reads {e : Effect} {pc insn : BitVec 32} (hread : (e.event pc insn).memRead = true) :
    ∃ a, e.kind = .load a := by
  obtain ⟨kind, next, wr, m⟩ := e
  cases kind with
  | load a => exact ⟨a, rfl⟩
  | _ => rcases wr with _ | ⟨d, v⟩ <;> cases hread

/-- a row that reads shows the address that its registers tell, and the value that is there -/
theorem effect_loads {m : Memory} {r : Regs} {pc insn : BitVec 32} {e : Effect} (h : effect m r pc insn = .ok e)
    {row : RetireEvent} {k : ℕ} (hrow : row.untimed = { e.event pc insn with retired := k })
    (hread : row.memRead = true) : row.memAddr = r (rs1 row.insn) + immI row.insn ∧
      loadValue m row.pc row.insn row.memAddr = .ok row.wdata := by
  obtain ⟨hpc, hinsn, hkind, -⟩ := effect_of_row h hrow
  have hload : (e.event pc insn).memRead = true := (congrArg RetireEvent.memRead hrow).symm.trans hread
  have haddr : row.memAddr = (e.event pc insn).memAddr := (congrArg RetireEvent.memAddr hrow).trans rfl
  have hwdata : row.wdata = (e.event pc insn).wdata := (congrArg RetireEvent.wdata hrow).trans rfl
  by_cases hop : opcode insn = 0x03
  · simp only [effect, hop] at h
    obtain ⟨v, hvalue, rfl⟩ := map_ok h
    rw [haddr, hwdata, hpc, hinsn]
    exact ⟨rfl, hvalue⟩
  · obtain ⟨a, ha⟩ := Effect.event_reads hload
    unfold RetireEvent.kind at hkind
    rw [ha, hinsn] at hkind
    split at hkind
    · cases hkind
    · cases hkind
    · cases hkind
    · exact absurd ‹opcode insn = 0x03› hop
    · cases hkind
    · split_ifs at hkind
    · cases hkind
    · cases hkind

namespace CpuModel

variable {cfg : CpuConfig} {s t : CpuModel cfg}

/-- **The row of an instruction** replays it, and shows what it reads. -/
theorem Stepped.replays {b : Bool} (w : Stepped s b t) (hzero : s.regs 0 = 0) : ∃ row, t.trace = s.trace ++ [row] ∧
    row.replay (s.regs, s.dataMemory) = (t.regs, t.dataMemory) ∧
    (row.memRead = true → row.memAddr = s.regs (rs1 row.insn) + immI row.insn ∧
      loadValue s.dataMemory row.pc row.insn row.memAddr = .ok row.wdata) := by
  obtain ⟨row, htrace, hpc, hinsn, hrd, hregs⟩ := w.writes hzero
  have hrow : Rows s t [row] := by
    unfold Rows
    rw [htrace, List.map_append]
  obtain ⟨k, huntimed⟩ := w.row_event hrow
  have hmem : t.dataMemory = w.e.mem := congrArg Arch.dataMemory w.arch
  refine ⟨row, htrace, ?_, effect_loads w.effect huntimed⟩
  refine Prod.ext (funext fun r => ?_) ((effect_stores w.effect hpc hinsn).trans hmem.symm)
  show (if row.Sets r then row.wdata else s.regs r) = t.regs r
  split_ifs with hset
  · exact ((hregs r).1 hset).symm
  · exact ((hregs r).2 hset).symm

/-- the rows replay the run, and show what it reads -/
structure Replayed (start : Regs × Memory) (s : CpuModel cfg) : Prop where
  state : s.trace.foldl RetireEvent.replay start = (s.regs, s.dataMemory)
  zero : s.regs 0 = 0
  reads : ∀ k (hk : k < s.trace.length), s.trace[k].memRead = true →
    s.trace[k].memAddr = ((s.trace.take k).foldl RetireEvent.replay start).1 (rs1 s.trace[k].insn) + immI s.trace[k].insn ∧
      loadValue ((s.trace.take k).foldl RetireEvent.replay start).2 s.trace[k].pc s.trace[k].insn s.trace[k].memAddr =
        .ok s.trace[k].wdata

/-- one instruction -/
theorem Stepped.replayed {start : Regs × Memory} {b : Bool} (w : Stepped s b t) (h : s.Replayed start) :
    t.Replayed start := by
  obtain ⟨row, htrace, hreplay, hread⟩ := w.replays h.zero
  have hregs : t.regs = Function.update (w.e.regs s.regs) 0 0 := congrArg Arch.regs w.arch
  have hzero : t.regs 0 = 0 := by rw [hregs, Function.update_self]
  refine ⟨?_, hzero, ?_⟩
  · rw [htrace, List.foldl_append, h.state]
    exact hreplay
  · intro k hk
    simp only [htrace]
    rcases Nat.lt_or_ge k s.trace.length with hold | hnew
    · rw [List.getElem_append_left hold, List.take_append_of_le_length hold.le]
      exact h.reads k hold
    · rw [htrace, List.length_append, List.length_singleton] at hk
      obtain rfl : k = s.trace.length := by omega
      rw [List.getElem_concat_length rfl, List.take_left' rfl, h.state]
      exact hread

/-- the registers and the data memory at reset -/
def startOf (cfg : CpuConfig) (data : ℕ → BitVec 8) : Regs × Memory := (fun _ => 0, Memory.ofImage cfg.memorySize data)

theorem replayed_boot (h : cfg.Accepted) (program data : ℕ → BitVec 8) (pc : BitVec 32) :
    (boot cfg h program data pc).Replayed (startOf cfg data) where
  state := rfl
  zero := rfl
  reads := fun _ hk => absurd hk (Nat.not_lt_zero _)

theorem replayed_run (h : cfg.Accepted) {program data : ℕ → BitVec 8} {pc : BitVec 32} {n : ℕ}
    (ht : Exec.iter step n (boot cfg h program data pc) = some t) : t.Replayed (startOf cfg data) :=
  run_inv (fun _ _ _ w hs => w.replayed hs) ht (replayed_boot h program data pc)

end CpuModel

open CpuModel

/-- **The trace determines data memory** in every run from reset, over the same data image. Its rows replay to the
registers and the data memory behind the run, and so do the rows of every trace that agrees with them; each row that
reads shows the value that the stores in front of it have left at the address that its registers tell. -/
theorem trace_determines_memory (cfg : CpuConfig) (h : cfg.Accepted) (program data : ℕ → BitVec 8) (pc : BitVec 32)
    (n : ℕ) (t : CpuModel cfg) (ht : Exec.iter step n (boot cfg h program data pc) = some t) :
    (∀ events, Correlated t.trace events →
      events.foldl RetireEvent.replay (startOf cfg data) = (t.regs, t.dataMemory)) ∧
    (∀ k (hk : k < t.trace.length), t.trace[k].memRead = true →
      let s := (t.trace.take k).foldl RetireEvent.replay (startOf cfg data)
      t.trace[k].memAddr = s.1 (rs1 t.trace[k].insn) + immI t.trace[k].insn ∧
        loadValue s.2 t.trace[k].pc t.trace[k].insn t.trace[k].memAddr = .ok t.trace[k].wdata) ∧
    ∀ (cfg' : CpuConfig) (h' : cfg'.Accepted) (program' : ℕ → BitVec 8) (pc' : BitVec 32) (n' : ℕ) (t' : CpuModel cfg'),
      cfg'.memorySize = cfg.memorySize → Exec.iter step n' (boot cfg' h' program' data pc') = some t' →
      ∀ (c : Comparator) (w w' : Writer), c.accepts (w.file t.trace) (w'.file t'.trace) = .ok true →
        t.regs = t'.regs ∧ t.dataMemory = t'.dataMemory := by
  have hreplayed := replayed_run h ht
  have hagree : ∀ events, Correlated t.trace events →
      events.foldl RetireEvent.replay (startOf cfg data) = (t.regs, t.dataMemory) := by
    intro events hcorrelated
    rw [RetireEvent.replay_correlated hcorrelated, hreplayed.state]
  refine ⟨hagree, hreplayed.reads, ?_⟩
  intro cfg' h' program' pc' n' t' hsize ht' c w w' haccept
  rw [comparators_agree, Except.ok.injEq, decide_eq_true_eq] at haccept
  have hstart : startOf cfg' data = startOf cfg data := by
    unfold startOf
    rw [hsize]
  have hsame : (t.regs, t.dataMemory) = (t'.regs, t'.dataMemory) := by
    rw [← hagree t'.trace haccept, ← (replayed_run h' ht').state, hstart]
  exact Prod.mk.inj hsame

/-- a run with caches and a run without them, whose traces are accepted -/
theorem trace_determines_memory_cacheTest : ∃ t t',
    Exec.iter step 11 (boot splitCaches splitCaches_accepted (wordImage cacheTest) 0 0) = some t ∧
    Exec.iter step 11 (boot noCaches noCaches_accepted (wordImage cacheTest) 0 0) = some t' ∧
    Comparator.milestone4.accepts (Writer.traceWriter.file t.trace) (Writer.traceWriter.file t'.trace) = .ok true ∧
    t'.trace.foldl RetireEvent.replay (startOf splitCaches 0) = (t.regs, t.dataMemory) ∧
    t.dataMemory = t'.dataMemory := by
  obtain ⟨t, ht, hboth⟩ := (Option.any_eq_true _ _).1 (by decide +kernel :
    (Exec.iter step 11 (boot splitCaches splitCaches_accepted (wordImage cacheTest) 0 0)).any (fun t =>
      (Exec.iter step 11 (boot noCaches noCaches_accepted (wordImage cacheTest) 0 0)).any fun t' =>
        Correlated t.trace t'.trace) = true)
  obtain ⟨t', ht', hcorrelated⟩ := (Option.any_eq_true _ _).1 hboth
  have haccept : Comparator.milestone4.accepts (Writer.traceWriter.file t.trace) (Writer.traceWriter.file t'.trace) =
      .ok true := by
    rw [comparators_agree, hcorrelated]
  obtain ⟨hreplay, -, hequal⟩ := trace_determines_memory splitCaches splitCaches_accepted (wordImage cacheTest) 0 0 11 t ht
  exact ⟨t, t', ht, ht', haccept, hreplay _ (of_decide_eq_true hcorrelated),
    (hequal noCaches noCaches_accepted (wordImage cacheTest) 0 11 t' rfl ht' _ _ _ haccept).2⟩

end Rv32im
