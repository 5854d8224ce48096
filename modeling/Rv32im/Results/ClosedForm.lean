/-
The pipeline timing model in closed form.

The model looks back one instruction. Fed from reset, its counters are counts over the whole sequence: of adjacent
load-use pairs, of maximal runs of divisions, and of redirects before the current instruction.

- `LoadUse`, `DivRem`, `redirect`: what the sequence is counted by, from the instruction words alone.
- `Tallied`: the model after n instructions. `tallied_succ`: one more instruction.
- `timing_closed_form`: the retirement cycle of every instruction and all counters behind it.
-/
import Mathlib.Data.Nat.Count
import Rv32im.Model.Pipeline

namespace Rv32im

/-! ## What is counted -/

/-- JALR, branches, loads, stores, OP-IMM and OP read rs1 -/
def ReadsRs1 (insn : BitVec 32) : Prop := opcode insn ∈ [0x67, 0x63, 0x03, 0x23, 0x13, 0x33]

/-- branches and OP read rs2 in their EX stage -/
def ReadsRs2 (insn : BitVec 32) : Prop := opcode insn ∈ [0x63, 0x33]

/-- `prev` loads a register other than x0, and `insn` consumes it -/
def LoadUse (prev insn : BitVec 32) : Prop :=
  opcode prev = 0x03 ∧ rd prev ≠ 0 ∧ (ReadsRs1 insn ∧ rs1 insn = rd prev ∨ ReadsRs2 insn ∧ rs2 insn = rd prev)

/-- DIV, DIVU, REM and REMU -/
def DivRem (insn : BitVec 32) : Prop := opcode insn = 0x33 ∧ funct7 insn = 0x01 ∧ 0x04 ≤ funct3 insn

instance (insn : BitVec 32) : Decidable (ReadsRs1 insn) := inferInstanceAs (Decidable (_ ∈ _))
instance (insn : BitVec 32) : Decidable (ReadsRs2 insn) := inferInstanceAs (Decidable (_ ∈ _))
instance (prev insn : BitVec 32) : Decidable (LoadUse prev insn) := inferInstanceAs (Decidable (_ ∧ _))
instance (insn : BitVec 32) : Decidable (DivRem insn) := inferInstanceAs (Decidable (_ ∧ _))

/-- the decoder of the timing model reads the same fields -/
theorem decode_eq (insn : BitVec 32) : PipelineTimingModel.decode insn =
    { usesRs1 := decide (ReadsRs1 insn)
      usesRs2 := decide (ReadsRs2 insn)
      isLoad := decide (opcode insn = 0x03)
      isBranch := decide (opcode insn = 0x63)
      isJump := decide (opcode insn = 0x6f ∨ opcode insn = 0x67)
      isDivRem := decide (DivRem insn)
      rs1 := rs1 insn
      rs2 := rs2 insn
      rd := rd insn } := by
  unfold PipelineTimingModel.decode
  split
  case h_8 => simp_all [ReadsRs1, ReadsRs2, DivRem]
  all_goals
    rename_i hop
    simp [ReadsRs1, ReadsRs2, DivRem, hop]

section Sequence

variable (config : PipelineTimingConfig) (e i : ℕ → BitVec 32) (t : ℕ → Bool)

/-- the adjacent load-use pairs among the first n instructions -/
def loadUses (n : ℕ) : ℕ := Nat.count (fun j => 0 < j ∧ LoadUse (i (j - 1)) (i j)) n

/-- the maximal runs of divisions begun by the first n instructions -/
def runs (n : ℕ) : ℕ := Nat.count (fun j => DivRem (i j) ∧ (0 < j → ¬ DivRem (i (j - 1)))) n

/-- the divisions among the first n instructions -/
def divisions (n : ℕ) : ℕ := Nat.count (fun j => DivRem (i j)) n

/-- every run pays its latency, and every other division its initiation interval -/
def dividerTerm (n : ℕ) : ℕ :=
  runs i n * (config.dividerLatency - 1) + (divisions i n - runs i n) * (config.dividerInitiationInterval - 1)

/-- instruction j is a conditional branch that is taken -/
def TakenBranch (j : ℕ) : Prop := opcode (i j) = 0x63 ∧ t j = true

/-- instruction j is JAL or JALR -/
def Jump (j : ℕ) : Prop := opcode (i j) = 0x6f ∨ opcode (i j) = 0x67

instance (j : ℕ) : Decidable (TakenBranch i t j) := inferInstanceAs (Decidable (_ ∧ _))
instance (j : ℕ) : Decidable (Jump i j) := inferInstanceAs (Decidable (_ ∨ _))

/-- what instruction j charges behind its own retirement -/
def redirect (j : ℕ) : ℕ :=
  if TakenBranch i t j then config.takenBranchPenalty else if Jump i j then config.jumpRedirectPenalty else 0

/-- what is charged up to the retirement of instruction n - 1, but for the redirects -/
def held (n : ℕ) : ℕ :=
  ∑ j ∈ Finset.range n, (e j).toNat + config.loadUsePenalty * loadUses i n + dividerTerm config i n

/-! ## Feeding -/

variable {config}

/-- the model after the first n instructions -/
def fed (p : PipelineTimingModel config) : ℕ → PipelineTimingModel config
  | 0 => p
  | n + 1 => (((fed p n).addExternalStalls (e n)).retire (i n) (t n)).2

/-- the model after n instructions, in closed form -/
structure Tallied (p : PipelineTimingModel config) (n : ℕ) : Prop where
  retired : p.stats.retired = n
  load : p.previousWasLoad = decide (0 < n ∧ opcode (i (n - 1)) = 0x03)
  loadRd : p.previousLoadRd = if 0 < n ∧ opcode (i (n - 1)) = 0x03 then rd (i (n - 1)) else 0
  divRem : p.previousWasDivRem = decide (0 < n ∧ DivRem (i (n - 1)))
  loadUse : p.stats.loadUseStalls = config.loadUsePenalty * loadUses i n
  divider : p.stats.dividerStalls = dividerTerm config i n
  branch : p.stats.branchRedirectStalls = config.takenBranchPenalty * Nat.count (TakenBranch i t) n
  jump : p.stats.jumpRedirectStalls = config.jumpRedirectPenalty * Nat.count (Jump i) n
  accumulated : p.accumulatedStalls = held config e i n + ∑ j ∈ Finset.range n, redirect config i t j

variable {e i t} {p : PipelineTimingModel config} {n : ℕ}

theorem tallied_reset (p : PipelineTimingModel config) : Tallied e i t p.reset 0 := by
  constructor <;> simp [PipelineTimingModel.reset, loadUses, dividerTerm, runs, divisions, held]

/-- the interlock in front of instruction n counts the pair -/
theorem Tallied.hazard (h : Tallied e i t p n) :
    p.loadUseHazard (PipelineTimingModel.decode (i n)) = decide (0 < n ∧ LoadUse (i (n - 1)) (i n)) := by
  unfold PipelineTimingModel.loadUseHazard LoadUse
  rw [h.load, h.loadRd, decode_eq]
  by_cases hload : 0 < n ∧ opcode (i (n - 1)) = 0x03
  · simp [hload]
  · simp only [hload, decide_false, Bool.false_and]
    symm
    rw [decide_eq_false_iff_not]
    rintro ⟨hn, hop, -⟩
    exact hload ⟨hn, hop⟩

/-- division n pays its latency when it begins a run, and its initiation interval otherwise -/
theorem Tallied.startup (h : Tallied e i t p n) :
    dividerTerm config i n + (if (PipelineTimingModel.decode (i n)).isDivRem then p.dividerPenalty else 0) =
      dividerTerm config i (n + 1) := by
  have hle : runs i n ≤ divisions i n := Nat.count_mono_left fun j _ hj => hj.1
  have hpenalty : p.dividerPenalty = if 0 < n ∧ DivRem (i (n - 1)) then config.dividerInitiationInterval - 1
      else config.dividerLatency - 1 := by
    unfold PipelineTimingModel.dividerPenalty
    rw [h.divRem]
    by_cases hrun : 0 < n ∧ DivRem (i (n - 1))
    · simp only [hrun, and_self, decide_true, Bool.not_true, Bool.false_eq_true, if_false, if_true]
      split_ifs <;> omega
    · simp only [hrun, decide_false, Bool.not_false, if_true, if_false]
      split_ifs <;> omega
  have hdecode : (PipelineTimingModel.decode (i n)).isDivRem = decide (DivRem (i n)) := by rw [decode_eq]
  rw [hpenalty, hdecode]
  unfold dividerTerm
  by_cases hdiv : DivRem (i n)
  · have hdivisions : divisions i (n + 1) = divisions i n + 1 := Nat.count_succ_eq_succ_count_iff.2 hdiv
    rw [hdivisions, decide_eq_true hdiv, if_pos rfl]
    by_cases hrun : 0 < n ∧ DivRem (i (n - 1))
    · have hruns : runs i (n + 1) = runs i n := by
        apply Nat.count_succ_eq_count_iff.2
        intro ⟨_, hbegin⟩
        exact hbegin hrun.1 hrun.2
      rw [hruns, if_pos hrun, Nat.sub_add_comm hle, Nat.add_mul _ 1, Nat.one_mul, Nat.add_assoc]
    · have hruns : runs i (n + 1) = runs i n + 1 :=
        Nat.count_succ_eq_succ_count_iff.2 ⟨hdiv, fun hn hprev => hrun ⟨hn, hprev⟩⟩
      rw [hruns, if_neg hrun, Nat.add_sub_add_right, Nat.add_mul _ 1, Nat.one_mul]
      omega
  · have hdivisions : divisions i (n + 1) = divisions i n := Nat.count_succ_eq_count_iff.2 hdiv
    have hruns : runs i (n + 1) = runs i n := Nat.count_succ_eq_count_iff.2 fun h => hdiv h.1
    rw [hdivisions, hruns, decide_eq_false hdiv, if_neg Bool.false_ne_true, Nat.add_zero]

/-- **One more instruction.** -/
theorem Tallied.succ (h : Tallied e i t p n) :
    Tallied e i t ((p.addExternalStalls (e n)).retire (i n) (t n)).2 (n + 1) := by
  have hhazard := h.hazard
  have hstartup := h.startup
  have hloadUse : p.stats.loadUseStalls + (if p.loadUseHazard (PipelineTimingModel.decode (i n)) then
      config.loadUsePenalty else 0) = config.loadUsePenalty * loadUses i (n + 1) := by
    rw [hhazard, h.loadUse, loadUses, loadUses, Nat.count_succ, Nat.mul_add]
    simp
  have hbranch : ((PipelineTimingModel.decode (i n)).isBranch && t n) = decide (TakenBranch i t n) := by
    rw [decode_eq, Bool.eq_iff_iff, decide_eq_true_iff]
    simp [TakenBranch]
  have hjump : (PipelineTimingModel.decode (i n)).isJump = decide (Jump i n) := by
    rw [decode_eq]
    rfl
  constructor
  · exact congrArg (· + 1) h.retired
  · simp [PipelineTimingModel.retire, decode_eq]
  · simp [PipelineTimingModel.retire, decode_eq]
  · simp [PipelineTimingModel.retire, decode_eq]
  · exact hloadUse
  · rw [← hstartup, ← h.divider]
    rfl
  · rw [Nat.count_succ, Nat.mul_add, ← h.branch]
    simp only [PipelineTimingModel.retire, hbranch, decide_eq_true_eq]
    simp [PipelineTimingModel.addExternalStalls]
  · rw [Nat.count_succ, Nat.mul_add, ← h.jump]
    simp only [PipelineTimingModel.retire, hjump, decide_eq_true_eq]
    simp [PipelineTimingModel.addExternalStalls]
  · have hcharge : (if (PipelineTimingModel.decode (i n)).isBranch && t n then config.takenBranchPenalty else 0) +
        (if (PipelineTimingModel.decode (i n)).isJump then config.jumpRedirectPenalty else 0) =
          redirect config i t n := by
      have hexclusive : TakenBranch i t n → ¬ Jump i n := by
        rintro ⟨hop, -⟩ (hjal | hjalr)
        · rw [hop] at hjal
          cases hjal
        · rw [hop] at hjalr
          cases hjalr
      rw [hbranch, hjump]
      unfold redirect
      by_cases hb : TakenBranch i t n
      · simp [hb, hexclusive hb]
      · simp [hb]
    have haccumulated : ((p.addExternalStalls (e n)).retire (i n) (t n)).2.accumulatedStalls =
        p.accumulatedStalls + (e n).toNat + (if p.loadUseHazard (PipelineTimingModel.decode (i n)) then
          config.loadUsePenalty else 0) + (if (PipelineTimingModel.decode (i n)).isDivRem then p.dividerPenalty else 0) +
          (if (PipelineTimingModel.decode (i n)).isBranch && t n then config.takenBranchPenalty else 0) +
          (if (PipelineTimingModel.decode (i n)).isJump then config.jumpRedirectPenalty else 0) := rfl
    have hold := h.accumulated
    have hloadUseBefore := h.loadUse
    unfold held at hold ⊢
    rw [haccumulated, Finset.sum_range_succ, Finset.sum_range_succ, ← hcharge, ← hloadUse, ← hstartup]
    omega

/-- the model after n instructions from reset -/
theorem tallied_fed (e i : ℕ → BitVec 32) (t : ℕ → Bool) (p : PipelineTimingModel config) (n : ℕ) :
    Tallied e i t (fed e i t p.reset n) n := by
  induction n with
  | zero => exact tallied_reset p
  | succ n ih => exact ih.succ

/-- **The pipeline timing in closed form.** From reset, instruction k retires behind k + 1 base cycles, the fill, the
external stalls, load-use pairs and divisions up to it, and the redirects before it. The counters behind it are the same
terms, with its own redirect. A finite sequence is a prefix of `e`, `i` and `t`. -/
theorem timing_closed_form (config : PipelineTimingConfig) (p : PipelineTimingModel config) (e i : ℕ → BitVec 32)
    (t : ℕ → Bool) (k : ℕ) :
    let r := (((fed e i t p.reset k).addExternalStalls (e k)).retire (i k) (t k)).1
    let s := (fed e i t p.reset (k + 1)).stats
    r.retireCycle = (k + 1) + (config.pipelineDepth - 1) + ∑ j ∈ Finset.range (k + 1), (e j).toNat +
        config.loadUsePenalty * loadUses i (k + 1) + dividerTerm config i (k + 1) +
        ∑ j ∈ Finset.range k, redirect config i t j ∧
      s.totalCycles = r.retireCycle + redirect config i t k ∧
      s.retired = k + 1 ∧ s.baseInstructionCycles = k + 1 ∧ s.pipelineFillDrain = config.pipelineDepth - 1 ∧
      s.loadUseStalls = config.loadUsePenalty * loadUses i (k + 1) ∧
      s.dividerStalls = dividerTerm config i (k + 1) ∧
      s.branchRedirectStalls = config.takenBranchPenalty * Nat.count (TakenBranch i t) (k + 1) ∧
      s.jumpRedirectStalls = config.jumpRedirectPenalty * Nat.count (Jump i) (k + 1) := by
  intro r s
  have hbefore := tallied_fed e i t p k
  have hafter := tallied_fed e i t p (k + 1)
  have hfill : (if config.pipelineDepth > 0 then config.pipelineDepth - 1 else 0) = config.pipelineDepth - 1 := by
    split_ifs <;> omega
  have hretired : s.retired = k + 1 := hafter.retired
  have hdrain : s.pipelineFillDrain = config.pipelineDepth - 1 := hfill
  have htotal : s.totalCycles = s.retired + s.pipelineFillDrain + (fed e i t p.reset (k + 1)).accumulatedStalls := rfl
  have haccumulated := hafter.accumulated
  rw [Finset.sum_range_succ] at haccumulated
  have hcycle : r.retireCycle = (k + 1) + (config.pipelineDepth - 1) + (held config e i (k + 1) +
      ∑ j ∈ Finset.range k, redirect config i t j) := by
    have hstalls : r.retireCycle = s.retired + s.pipelineFillDrain + ((fed e i t p.reset k).accumulatedStalls +
        (e k).toNat + (if (fed e i t p.reset k).loadUseHazard (PipelineTimingModel.decode (i k)) then
          config.loadUsePenalty else 0) +
        (if (PipelineTimingModel.decode (i k)).isDivRem then (fed e i t p.reset k).dividerPenalty else 0)) := rfl
    have hloadUse : config.loadUsePenalty * loadUses i k + (if (fed e i t p.reset k).loadUseHazard
        (PipelineTimingModel.decode (i k)) then config.loadUsePenalty else 0) =
          config.loadUsePenalty * loadUses i (k + 1) := by
      rw [← hbefore.loadUse, ← hafter.loadUse]
      rfl
    rw [hstalls, hretired, hdrain, hbefore.accumulated, held, held, Finset.sum_range_succ, ← hbefore.startup,
      ← hloadUse]
    omega
  refine ⟨?_, ?_, hretired, hafter.retired, hdrain, hafter.loadUse, hafter.divider, hafter.branch, hafter.jump⟩
  · rw [hcycle, held]
    omega
  · rw [htotal, hcycle, hretired, hdrain, haccumulated]
    omega

end Sequence

end Rv32im
