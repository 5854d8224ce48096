/-
The trace and the statistics tell the same story.

- `Recorded`: rows are numbered from 1, their cycles increase from 5 upwards, and the retired count and the cycles of
  the statistics are those of the last row. Every call keeps it, whether it returns or throws.
- `Stepped.row`, `Stepped.record`: the row of one instruction, and the invariant behind it.
- `trace_agrees`: the statement for every state that calls reach.
-/
import Rv32im.Step.Throw

namespace Rv32im

namespace CpuModel

variable {cfg : CpuConfig}

/-- the emitted rows and the statistics agree -/
structure Recorded (s : CpuModel cfg) : Prop where
  numbered : ∀ k (hk : k < s.trace.length), s.trace[k].retired = k + 1
  increasing : s.trace.Pairwise fun a b => a.cycle < b.cycle
  start : ∀ e ∈ s.trace, 5 ≤ e.cycle
  retired : s.stats.retired = s.trace.length
  timing : s.timing.stats.retired = s.trace.length
  passed : ∀ e ∈ s.trace, e.cycle ≤ s.timing.stats.retired + 4 + s.timing.accumulatedStalls
  cycles : s.stats.cycles = s.timing.stats.totalCycles
  total : s.trace ≠ [] → s.timing.stats.totalCycles = s.timing.stats.retired + 4 + s.timing.accumulatedStalls
  last : s.halted = true → ∃ e, s.trace.getLast? = some e ∧ e.cycle = s.stats.cycles

theorem recorded_boot (h : cfg.Accepted) (program data : ℕ → BitVec 8) (pc : BitVec 32) :
    (boot cfg h program data pc).Recorded := by
  have htrace : (boot cfg h program data pc).trace = [] := rfl
  constructor
  · simp [htrace]
  · simp [htrace]
  · simp [htrace]
  · rfl
  · rfl
  · simp [htrace]
  · rfl
  · intro hne
    exact absurd htrace hne
  · intro hhalted
    cases hhalted

section Row

variable {s t : CpuModel cfg} {b : Bool}

/-- the row of an instruction: it retires behind all stalls so far and behind its own -/
theorem Stepped.row (w : Stepped s b t) : ∃ row, t.trace = s.trace ++ [row] ∧
    row.retired = s.timing.stats.retired + 1 ∧ s.timing.stats.retired + 5 + s.timing.accumulatedStalls ≤ row.cycle ∧
      row.cycle ≤ t.timing.stats.retired + 4 + t.timing.accumulatedStalls ∧
      (w.e.kind = .system → row.cycle = t.stats.cycles) := by
  have hafter := w.after
  refine ⟨_, (congrArg CpuModel.trace hafter).trans rfl, rfl, ?_, ?_, ?_⟩
  · simp only [PipelineTimingModel.retire, PipelineTimingModel.addExternalStalls]
    simp
    omega
  · have htiming : t.timing = ((s.timing.addExternalStalls w.stalls).retire w.insn (w.e.kind = .branch true)).2 :=
      (congrArg CpuModel.timing hafter).trans rfl
    rw [htiming]
    simp only [PipelineTimingModel.retire, PipelineTimingModel.addExternalStalls]
    simp
    omega
  · -- a SYSTEM instruction is no branch and no jump, so nothing is charged behind its retirement
    intro hk
    have hjump : (PipelineTimingModel.decode w.insn).isJump = false := by
      rw [← Bool.not_eq_true, (effect_fits w.effect).isJump, hk]
      simp
    have hcycles : t.stats.cycles =
        ((s.timing.addExternalStalls w.stalls).retire w.insn (w.e.kind = .branch true)).2.stats.totalCycles :=
      (congrArg (fun u => u.stats.cycles) hafter).trans rfl
    rw [hcycles]
    simp [PipelineTimingModel.retire, hk, hjump]

/-- one instruction keeps the rows and the statistics in agreement -/
theorem Stepped.record (w : Stepped s b t) (h : s.Recorded) : t.Recorded := by
  obtain ⟨row, htrace, hretired, hlow, hhigh, hlast⟩ := w.row
  have hlen : t.trace.length = s.trace.length + 1 := by rw [htrace, List.length_append, List.length_singleton]
  have hstats : t.timing.stats.retired = s.timing.stats.retired + 1 := by
    rw [w.after]
    rfl
  have hcount : t.stats.retired = t.timing.stats.retired := by rw [w.after]; rfl
  have hstalls : s.timing.accumulatedStalls ≤ t.timing.accumulatedStalls := by
    rw [w.after]
    simp only [CpuModel.retired, PipelineTimingModel.retire, PipelineTimingModel.addExternalStalls]
    omega
  have hbefore := h.timing
  constructor
  · intro k hk
    simp only [htrace]
    by_cases hold : k < s.trace.length
    · rw [List.getElem_append_left hold]
      exact h.numbered k hold
    · obtain rfl : k = s.trace.length := by omega
      rw [List.getElem_concat_length rfl, hretired, hbefore]
  · rw [htrace, List.pairwise_append]
    refine ⟨h.increasing, List.pairwise_singleton _ _, ?_⟩
    intro e he f hf
    rw [List.mem_singleton] at hf
    subst hf
    have hpassed := h.passed e he
    omega
  · rw [htrace]
    intro e he
    rcases List.mem_append.1 he with he | he
    · exact h.start e he
    · rw [List.mem_singleton] at he
      subst he
      omega
  · omega
  · omega
  · rw [htrace]
    intro e he
    rcases List.mem_append.1 he with he | he
    · have hpassed := h.passed e he
      omega
    · rw [List.mem_singleton] at he
      subst he
      exact hhigh
  · rw [w.after]
    rfl
  · intro _
    rw [w.after]
    rfl
  · intro hhalted
    have hkind : w.e.kind = .system := by
      have hif : t.halted = if w.e.kind = .system then true else s.halted := (congrArg CpuModel.halted w.after).trans rfl
      by_contra hk
      rw [hif, if_neg hk, w.running.live] at hhalted
      cases hhalted
    refine ⟨row, ?_, hlast hkind⟩
    rw [htrace, List.getLast?_concat]

end Row

/-- a throw emits no row and moves neither the cycles nor the retired count -/
theorem Thrown.record {s t : CpuModel cfg} {x : Exn} (w : Thrown s x t) (h : s.Recorded) : t.Recorded := by
  cases w with
  | limit _ => exact h
  | misaligned _ _ => exact h
  | fetch _ _ => exact h
  | switch _ _ _ _ =>
    -- only a class counter has moved
    have hretired : ∀ insn, (earlyCount insn s.stats).retired = s.stats.retired := by
      intro insn
      unfold earlyCount
      split_ifs <;> rfl
    have hcycles : ∀ insn, (earlyCount insn s.stats).cycles = s.stats.cycles := by
      intro insn
      unfold earlyCount
      split_ifs <;> rfl
    refine ⟨h.numbered, h.increasing, h.start, (hretired _).trans h.retired, h.timing, h.passed,
      (hcycles _).trans h.cycles, h.total, ?_⟩
    intro hhalted
    obtain ⟨e, he, hcycle⟩ := h.last hhalted
    exact ⟨e, he, hcycle.trans (hcycles _).symm⟩
  | lookahead _ _ _ _ =>
    exact ⟨h.numbered, h.increasing, h.start, h.retired, h.timing, h.passed, h.cycles, h.total, h.last⟩

/-- **Every call keeps the agreement**, whether it returns or throws. -/
theorem recorded_called {s t : CpuModel cfg} (h : s.Recorded) (hc : Exec.Called step s t) : t.Recorded := by
  apply called_inv _ _ hc h
  · intro s t b w hs
    exact w.record hs
  · intro s t x w hs
    exact w.record hs

end CpuModel

end Rv32im
