/-
What a step that throws leaves in the counters.

Every branch of the opcode switch counts its instruction behind its own checks, except OP: there the counter moves
first, and the encoding is checked behind it. The M extension has no encoding left to refuse, so only the others count
an instruction that never retires.

- `RefusedOp`: the next step refuses an encoding of OP outside the M extension.
- `Thrown.stats_iff`: a throw leaves the counters alone exactly if it is not this one.
- `Tally`: in any calls, the class counters are the retired instructions and the refused ones.
- `failed_steps_uncounted_iff`: both statements for every sequence of calls.
-/
import Rv32im.Isa.Fields
import Rv32im.Step.Throw
import Rv32im.Timing.Invariant

namespace Rv32im

/-! ## Encodings of OP -/

/-- the encodings that the switch of OP outside the M extension accepts -/
def SupportedOp (insn : BitVec 32) : Prop :=
  funct7 insn = 0x00 ∨ funct7 insn = 0x20 ∧ (funct3 insn = 0x0 ∨ funct3 insn = 0x5)

theorem opValue_ok_iff (pc insn a b : BitVec 32) : (∃ v, opValue pc insn a b = .ok v) ↔ SupportedOp insn := by
  have hlt := funct3_lt insn
  unfold opValue SupportedOp
  generalize funct3 insn = f at hlt ⊢
  interval_cases f <;> simp only <;> split_ifs <;> simp_all [illegal]

/-- every encoding of the M extension has a value -/
theorem mulDivValue_ok (pc insn a b : BitVec 32) : ∃ v, mulDivValue pc insn a b = .ok v := by
  have hlt := funct3_lt insn
  unfold mulDivValue
  generalize funct3 insn = f at hlt ⊢
  interval_cases f <;> simp only <;> (try split_ifs) <;> exact ⟨_, rfl⟩

/-- OP is refused exactly for the encodings outside the M extension that the switch does not know -/
theorem effect_refused_iff {m : Memory} {r : Regs} {pc insn : BitVec 32} (hop : opcode insn = 0x33) :
    (∃ x, effect m r pc insn = .error x) ↔ funct7 insn ≠ 0x01 ∧ ¬ SupportedOp insn := by
  simp only [effect, hop]
  by_cases hm : funct7 insn = 0x01
  · obtain ⟨v, hv⟩ := mulDivValue_ok pc insn (r (rs1 insn)) (r (rs2 insn))
    rw [if_pos hm, hv]
    refine iff_of_false ?_ fun h => h.1 hm
    rintro ⟨x, hx⟩
    cases hx
  · rw [if_neg hm, ← opValue_ok_iff pc insn (r (rs1 insn)) (r (rs2 insn))]
    cases opValue pc insn (r (rs1 insn)) (r (rs2 insn)) with
    | error x =>
      refine iff_of_true ⟨x, rfl⟩ ⟨hm, ?_⟩
      rintro ⟨v, hv⟩
      cases hv
    | ok v =>
      refine iff_of_false ?_ fun h => h.2 ⟨v, rfl⟩
      rintro ⟨x, hx⟩
      cases hx

namespace CpuModel

variable {cfg : CpuConfig} {s t : CpuModel cfg} {b : Bool} {x : Exn}

/-! ## One throw -/

/-- the next step fetches an instruction and refuses it as an encoding of OP -/
def RefusedOp (s : CpuModel cfg) : Prop :=
  Running s ∧ ∃ insn, s.instructionMemory.read32 s.pc = .ok insn ∧ opcode insn = 0x33 ∧ funct7 insn ≠ 0x01 ∧
    ¬ SupportedOp insn

/-- **What a throw leaves in the counters**: one more ALU instruction where OP was refused, and nothing new elsewhere. -/
theorem Thrown.stats (h : Thrown s x t) :
    (s.RefusedOp ∧ t.stats = { s.stats with alu := s.stats.alu + 1 }) ∨ (¬ s.RefusedOp ∧ t.stats = s.stats) := by
  have hinsn : ∀ {insn}, s.instructionMemory.read32 s.pc = .ok insn → s.RefusedOp → opcode insn = 0x33 ∧
      funct7 insn ≠ 0x01 ∧ ¬ SupportedOp insn := by
    intro insn hf ⟨_, insn', hf', hrefused⟩
    cases hf.symm.trans hf'
    exact hrefused
  cases h with
  | limit hmax => exact Or.inr ⟨fun hr => absurd hr.1.below (not_lt.2 hmax), rfl⟩
  | misaligned _ ha => exact Or.inr ⟨fun hr => ha (aligned_iff.1 hr.1.aligned), rfl⟩
  | fetch _ hf =>
    refine Or.inr ⟨?_, rfl⟩
    intro ⟨_, insn, hf', _⟩
    rw [hf] at hf'
    cases hf'
  | @switch _ insn _ _ hrun hf _ he =>
    by_cases hop : opcode insn = 0x33
    · obtain ⟨hm, hsupported⟩ := (effect_refused_iff hop).1 ⟨_, he⟩
      refine Or.inl ⟨⟨hrun, insn, hf, hop, hm, hsupported⟩, ?_⟩
      show earlyCount insn s.stats = _
      rw [earlyCount, if_pos hop, if_neg hm]
    · exact Or.inr ⟨fun hr => hop (hinsn hf hr).1, if_neg hop⟩
  | @lookahead _ insn e _ _ hf he _ =>
    refine Or.inr ⟨?_, rfl⟩
    intro hr
    obtain ⟨hop, hrefused⟩ := hinsn hf hr
    obtain ⟨y, hy⟩ := (effect_refused_iff hop).2 hrefused
    rw [he] at hy
    cases hy

theorem Thrown.stats_iff (h : Thrown s x t) : t.stats = s.stats ↔ ¬ s.RefusedOp := by
  rcases h.stats with ⟨hr, hstats⟩ | ⟨hr, hstats⟩
  · refine iff_of_false ?_ (not_not.2 hr)
    rw [hstats]
    intro heq
    have halu := congrArg PerformanceStats.alu heq
    simp at halu
  · exact iff_of_true hstats hr

/-! ## Any calls -/

/-- the instructions that the class counters count -/
def classSum (st : PerformanceStats) : ℕ :=
  st.alu + st.branches + st.jumps + st.loads + st.stores + st.mulDiv

/-- an instruction is counted once, or halts the model -/
theorem classSum_count (k : Kind) (st : PerformanceStats) :
    classSum (k.count st) + (if k = .system then 1 else 0) = classSum st + 1 := by
  unfold classSum
  cases k with
  | branch taken => cases taken <;> simp [Kind.count] <;> omega
  | _ => simp [Kind.count] <;> omega

/-- the class counters are the retired instructions and k refused ones -/
structure Tally (k : ℕ) (s : CpuModel cfg) : Prop where
  classes : classSum s.stats + (if s.halted then 1 else 0) = s.stats.retired + k
  timing : s.stats.retired = s.timing.stats.retired

/-- a returning step counts its instruction once -/
theorem Stepped.tally_next {k : ℕ} (w : Stepped s b t) (h : s.Tally k) : t.Tally k := by
  have hretired : t.stats.retired = s.timing.stats.retired + 1 ∧ t.timing.stats.retired = s.timing.stats.retired + 1 := by
    rw [w.after]
    exact ⟨rfl, rfl⟩
  have hsum : classSum t.stats = classSum (w.e.kind.count s.stats.classes) :=
    congrArg (fun a => classSum a.classes) w.arch
  have hcount : classSum (w.e.kind.count s.stats.classes) + _ = classSum s.stats + 1 :=
    classSum_count w.e.kind s.stats.classes
  have hclasses := h.classes
  have htiming := h.timing
  rw [w.running.live, if_neg Bool.false_ne_true] at hclasses
  refine ⟨?_, hretired.1.trans hretired.2.symm⟩
  rw [w.halted, hsum, hretired.1]
  simp only [decide_eq_true_eq]
  omega

/-- a throw counts an instruction where OP was refused -/
theorem Thrown.tally_next {k : ℕ} (h : Thrown s x t) (hs : s.Tally k) :
    (¬ s.RefusedOp → t.Tally k) ∧ (s.RefusedOp → t.Tally (k + 1)) := by
  have htiming : t.timing = s.timing := by cases h <;> rfl
  have hhalted := h.frame.2.2.1
  obtain ⟨hclasses, hretired⟩ := hs
  rcases h.stats with ⟨hr, hstats⟩ | ⟨hr, hstats⟩
  · refine ⟨fun hno => absurd hr hno, fun _ => ⟨?_, ?_⟩⟩
    · rw [hstats, hhalted]
      simp only [classSum] at hclasses ⊢
      omega
    · rw [hstats, htiming]
      exact hretired
  · refine ⟨fun _ => ⟨?_, ?_⟩, fun hyes => absurd hyes hr⟩
    · rw [hstats, hhalted]
      exact hclasses
    · rw [hstats, htiming]
      exact hretired

theorem tally_boot (h : cfg.Accepted) (program data : ℕ → BitVec 8) (pc : BitVec 32) :
    (boot cfg h program data pc).Tally 0 := ⟨rfl, rfl⟩

/-- the class counters after any calls, by induction on the calls -/
theorem tally_called {s₀ : CpuModel cfg} {k : ℕ} (h₀ : s₀.Tally 0) (h : Exec.Tallied step RefusedOp s₀ k s) :
    s.Tally k := by
  induction h with
  | start => exact h₀
  | ok _ hstep ih => exact step_inv (fun _ _ _ w => w.tally_next) ih hstep
  | throw _ hno hstep ih => exact (((step_throw (live_of_throw hstep)).1 hstep).tally_next ih).1 hno
  | marked _ hyes hstep ih => exact (((step_throw (live_of_throw hstep)).1 hstep).tally_next ih).2 hyes

end CpuModel

/-- **When failing steps stay uncounted.** A call that throws leaves the counters as they were if and only if it does not
refuse an encoding of OP. After any calls, including ones that threw, the class counters (and one if halted) are the
retired instructions if and only if no call refused one. -/
theorem failed_steps_uncounted_iff (cfg : CpuConfig) (h : cfg.Accepted) (program data : ℕ → BitVec 8) (pc : BitVec 32) :
    (∀ s x t, Exec.Called CpuModel.step (boot cfg h program data pc) s → CpuModel.step s = .throw x t →
      (t.stats = s.stats ↔ ¬ s.RefusedOp)) ∧
    ∀ s, Exec.Called CpuModel.step (boot cfg h program data pc) s →
      (∃ k, Exec.Tallied CpuModel.step CpuModel.RefusedOp (boot cfg h program data pc) k s) ∧
      ∀ k, Exec.Tallied CpuModel.step CpuModel.RefusedOp (boot cfg h program data pc) k s →
        (s.stats.alu + s.stats.branches + s.stats.jumps + s.stats.loads + s.stats.stores + s.stats.mulDiv +
          (if s.halted then 1 else 0) = s.stats.retired ↔ k = 0) := by
  refine ⟨?_, ?_⟩
  · intro s x t _ hthrow
    exact ((CpuModel.step_throw (CpuModel.live_of_throw hthrow)).1 hthrow).stats_iff
  · intro s hcalled
    refine ⟨hcalled.tallied _, ?_⟩
    intro k hs
    have hclasses := (CpuModel.tally_called (CpuModel.tally_boot h program data pc) hs).classes
    unfold CpuModel.classSum at hclasses
    omega

/-- a misaligned fetch leaves the counters alone -/
theorem failed_steps_uncounted_misaligned : ∃ x t,
    CpuModel.step (boot noCaches noCaches_accepted 0 0 2) = .throw x t ∧
      t.stats = (boot noCaches noCaches_accepted 0 0 2).stats := by
  have hthrow : CpuModel.step (boot noCaches noCaches_accepted 0 0 2) =
      .throw .misalignedFetch (boot noCaches noCaches_accepted 0 0 2) := rfl
  refine ⟨_, _, hthrow, ((failed_steps_uncounted_iff noCaches noCaches_accepted 0 0 2).1 _ _ _ .start hthrow).2 ?_⟩
  intro ⟨hrun, _⟩
  exact absurd hrun.aligned (by decide)

/-- an encoding of OP that does not exist -/
def refusedOp : CpuModel noCaches := boot noCaches noCaches_accepted (wordImage [0x04000033]) 0 0

/-- it is counted as an ALU instruction, and not retired -/
theorem failed_step_counted : ∃ x t, CpuModel.step refusedOp = .throw x t ∧ t.stats ≠ refusedOp.stats ∧
    t.stats.alu + t.stats.branches + t.stats.jumps + t.stats.loads + t.stats.stores + t.stats.mulDiv +
      (if t.halted then 1 else 0) ≠ t.stats.retired := by
  have hcheck : (CpuModel.step refusedOp).thrown.any
      (fun p => decide (p.2.stats.alu = 1 ∧ refusedOp.stats.alu = 0 ∧ p.2.stats.retired = 0)) = true := by
    decide +kernel
  obtain ⟨⟨x, t⟩, hthrow, hfacts⟩ := (Option.any_eq_true _ _).1 hcheck
  obtain ⟨halu, halu', hretired⟩ : t.stats.alu = 1 ∧ refusedOp.stats.alu = 0 ∧ t.stats.retired = 0 :=
    of_decide_eq_true hfacts
  refine ⟨x, t, Outcome.thrown_eq_some.1 hthrow, ?_, by omega⟩
  intro heq
  rw [heq, halu'] at halu
  cases halu

end Rv32im
